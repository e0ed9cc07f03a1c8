import ScriptLang.Proofs.Parsing.Progress

namespace ScriptLang.Parsing

open Syntax Syntax.Reader

structure TameRules (r : Rules Reader Unit) : Prop where
  expression : Tame (r.bound - 1) 1 r.expression
  unary : Tame (r.bound - 1) 1 r.unary
  statement : Tame (r.bound - 1) 1 r.statement
  declaration : TameAhead (r.bound - 1) 1 r.declaration

section Repetition

variable {α : Type}

theorem items_tame {n : Nat} {tooMany : Fault} {item : Reader α} (h : Tame n 1 item)
    (bound count : Nat) (hb : n ≤ bound) : Tame n 1 (items tooMany item bound count) := by
  induction bound generalizing n count with
  | zero =>
    obtain rfl : n = 0 := by omega
    exact exhausted_tame 1
  | succ bound ih =>
    refine (recordIf_tame n _ _).bind (n := n) (d := 1) (by omega) (by omega) fun _ => ?_
    refine h.bind (n := n - 1) (d := 0) (by omega) (by omega) fun first => ?_
    refine accept_bind_tame (pure_tame _ _) fun _ => ?_
    exact ((ih (n := n - 2) (h.mono (by omega) (by omega)) (count + 1) (by omega)).mono (d := 0)
      (by omega) (by omega)).bind (by omega) (by omega) fun _ => pure_tame (n - 2) _

theorem itemsBeforeParen_tame {n bound : Nat} {tooMany : Fault} {item : Reader α}
    (h : Tame n 1 item) (hb : n ≤ bound) : Tame n 0 (itemsBeforeParen tooMany item bound) := by
  refine (check_tame n _).bind (n := n) (d := 0) (by omega) (by omega) fun b => ?_
  split
  · exact pure_tame n []
  · exact (items_tame h bound 0 hb).mono (by omega) (by omega)

theorem chain_tame {n : Nat} {kinds : List Kind} {node : Node Unit} {operand : Reader (Expr Unit)}
    (h : Tame n 1 operand) (bound : Nat) (left : Expr Unit) (hb : n ≤ bound) :
    Tame n 0 (chain kinds node operand bound left) := by
  induction bound generalizing n left with
  | zero =>
    obtain rfl : n = 0 := by omega
    exact exhausted_tame 0
  | succ bound ih =>
    refine acceptAny_bind_tame (pure_tame _ _) fun operator => ?_
    exact (h.mono (n := n - 1) (d := 1) (by omega) (by omega)).bind (n := n - 1)
      (by omega) (by omega) fun right =>
      ih (h.mono (by omega) (by omega)) _ (by omega)

theorem level_tame {n bound : Nat} {kinds : List Kind} {node : Node Unit}
    {operand : Reader (Expr Unit)} (h : Tame n 1 operand) (hb : n ≤ bound) :
    Tame n 1 (level kinds node bound operand) :=
  h.bind (by omega) (by omega) fun first => chain_tame h bound first hb

end Repetition

/-- Where a token is left a declaration takes it, also when it fails. -/
theorem declarations_tame {n : Nat} {p : Reader (Option (Stmt Unit))} (h : TameAhead n 1 p)
    (bound : Nat) (hb : n ≤ bound) : Tame n 0 (declarations p bound) := by
  induction bound generalizing n with
  | zero =>
    obtain rfl : n = 0 := by omega
    exact exhausted_tame 0
  | succ bound ih =>
    intro eof s
    have hrest : Tame (n - 1) 0 (declarations p bound) :=
      ih (h.mono (by omega) (by omega)) (by omega)
    cases hr : s.rest with
    | nil =>
      simp only [declarations, monadLift_self, bind_apply, check, atEnd, hr, List.isEmpty_nil,
        Bool.or_true, if_true]
      exact pure_tame n [] eof s
    | cons t ts =>
      simp only [declarations, monadLift_self, bind_apply, check, atEnd, hr, List.isEmpty_cons,
        Bool.or_false]
      split
      · exact pure_tame n [] eof s
      · have hs : s.rest ≠ [] := by simp [hr]
        exact (h.bind (n := n - 1) (d := 0) (e := 0) (by omega) (by omega) fun first =>
          hrest.bind (n := n - 1) (by omega) (by omega) fun _ => pure_tame _ _) eof s hs

variable {r : Rules Reader Unit}

theorem block_tame (h : TameRules r) : Tame (r.bound - 1) 1 (block r) := by
  have hd : Tame (r.bound - 1) 0 (declarations r.declaration r.bound) :=
    declarations_tame h.declaration r.bound (by omega)
  exact hd.bind (n := r.bound - 1) (d := 1) (by omega) (by omega) fun body =>
    (expect_tame _ _ _).bind (by omega) (by omega) fun _ => pure_tame (r.bound - 2) body

theorem function_tame (h : TameRules r) : Tame r.bound 1 (function r) := by
  refine (expect_tame _ _ _).bind (n := r.bound - 1) (d := 0) (by omega) (by omega) fun _ => ?_
  have hp : Tame (r.bound - 1) 0 (itemsBeforeParen .tooManyParameters
      (expect .identifier .noParameterName) r.bound) :=
    itemsBeforeParen_tame (expect_tame _ _ _) (by omega)
  refine hp.bind (n := r.bound - 1) (d := 0) (by omega) (by omega) fun params => ?_
  refine (expect_tame _ _ _).bind (n := r.bound - 2) (d := 0) (by omega) (by omega) fun _ => ?_
  refine (expect_tame _ _ _).bind (n := r.bound - 3) (d := 0) (by omega) (by omega) fun _ => ?_
  exact ((outsideLoops_tame (block_tame h)).mono (d := 0) (by omega) (by omega)).bind
    (by omega) (by omega) fun body => pure_tame (r.bound - 3) _

theorem primary_tame (h : TameRules r) : Tame r.bound 1 (primary r) := by
  refine (peek_tame _).bind (n := r.bound) (d := 1) (by omega) (by omega) fun token => ?_
  have hnext : ∀ {e : Expr Unit}, TameAhead r.bound 1 (do let _ ← next; pure e) :=
    fun {e} => (next_tame _).bind (by omega) (by omega) fun _ => pure_tame (r.bound - 1) e
  refine peekKind_bind_tame (fail_tame _ _ _ _) fun k => ?_
  split
  · exact hnext
  · exact hnext
  · exact hnext
  · exact hnext
  · exact hnext
  · exact hnext
  · refine (next_tame _).bind (n := r.bound - 1) (d := 0) (by omega) (by omega) fun _ => ?_
    refine h.expression.bind (n := r.bound - 2) (d := 0) (by omega) (by omega) fun inner => ?_
    exact (expect_tame _ _ _).bind (by omega) (by omega) fun _ => pure_tame (r.bound - 3) _
  · refine (next_tame _).bind (n := r.bound - 1) (d := 0) (by omega) (by omega) fun _ => ?_
    exact ((function_tame h).mono (d := 0) (by omega) (by omega)).bind
      (by omega) (by omega) fun _ => pure_tame (r.bound - 1) _
  · exact (fail_tame _ _ _ _).ahead

theorem calls_tame (h : TameRules r) {n : Nat} (hn : n ≤ r.bound) (bound : Nat)
    (callee : Expr Unit) (hb : n ≤ bound) : Tame n 0 (calls r bound callee) := by
  induction bound generalizing n callee with
  | zero =>
    obtain rfl : n = 0 := by omega
    exact exhausted_tame 0
  | succ bound ih =>
    refine accept_bind_tame (pure_tame _ _) fun _ => ?_
    have ha : Tame (n - 1) 0 (itemsBeforeParen .tooManyArguments r.expression r.bound) :=
      itemsBeforeParen_tame (h.expression.mono (by omega) (by omega)) (by omega)
    refine ha.bind (n := n - 1) (d := 0) (by omega) (by omega) fun arguments => ?_
    exact (expect_tame _ _ _).bind (by omega) (by omega) fun paren =>
      ih (n := n - 2) (by omega) _ (by omega)

theorem call_tame (h : TameRules r) : Tame r.bound 1 (call r) :=
  (primary_tame h).bind (by omega) (by omega) fun callee =>
    calls_tame h (Nat.le_refl _) r.bound callee (Nat.le_refl _)

theorem unary_tame (h : TameRules r) : Tame r.bound 1 (unary r) := by
  refine acceptAny_bind_tame (call_tame h) fun operator => ?_
  exact h.unary.bind (by omega) (by omega) fun right => pure_tame (r.bound - 2) _

theorem disjunction_tame (h : TameRules r) : Tame r.bound 1 (disjunction r) := by
  have hb : r.bound ≤ r.bound := Nat.le_refl _
  exact level_tame (level_tame (level_tame (level_tame (level_tame (level_tame
    (unary_tame h) hb) hb) hb) hb) hb) hb

theorem assignTo_tame (n : Nat) (equal : Token) (value target : Expr Unit) :
    Tame n 0 (assignTo equal value target) := by
  unfold assignTo
  split
  · exact pure_tame n _
  · exact (record_tame n _ _).bind (by omega) (by omega) fun _ => pure_tame n target

theorem expression_tame (h : TameRules r) : Tame r.bound 1 (expression r) := by
  refine (disjunction_tame h).bind (n := r.bound) (d := 0) (by omega) (by omega) fun left => ?_
  refine accept_bind_tame (pure_tame _ _) fun equal => ?_
  exact h.expression.bind (by omega) (by omega) fun value =>
    assignTo_tame (r.bound - 2) equal value left

theorem expressionUnless_tame (h : TameRules r) (kind : Kind) :
    Tame r.bound 0 (expressionUnless r kind) := by
  refine (check_tame _ _).bind (n := r.bound) (d := 0) (by omega) (by omega) fun b => ?_
  split
  · exact pure_tame _ _
  · exact (expression_tame h).bind (by omega) (by omega) fun e => pure_tame (r.bound - 1) _

theorem beforeSemicolon_tame {α β : Type} {n c : Nat} {p : Reader α} (hp : Tame n c p)
    (fault : Fault) (f : α → β) :
    Tame n (c + 1) (do let a ← p; let _ ← expect .semicolon fault; pure (f a)) :=
  hp.bind (n := n) (d := 1) (by omega) (by omega) fun a =>
    (expect_tame _ _ _).bind (by omega) (by omega) fun _ => pure_tame (n - 1) (f a)

theorem variableDeclaration_tame (h : TameRules r) : Tame r.bound 1 (variableDeclaration r) := by
  refine (expect_tame _ _ _).bind (n := r.bound) (d := 0) (by omega) (by omega) fun name => ?_
  refine accept_bind_tame ?_ fun _ => ?_
  · exact (expect_tame _ _ _).bind (by omega) (by omega) fun _ => pure_tame (r.bound - 1) _
  · exact (beforeSemicolon_tame (expression_tame h) _ _).mono (by omega) (by omega)

theorem expressionStatement_tame (h : TameRules r) : Tame r.bound 1 (expressionStatement r) :=
  (beforeSemicolon_tame (expression_tame h) _ _).mono (by omega) (by omega)

theorem printStatement_tame (h : TameRules r) : Tame r.bound 1 (printStatement r) :=
  (beforeSemicolon_tame (expression_tame h) _ _).mono (by omega) (by omega)

theorem condition_tame (h : TameRules r) {β : Type} {f : Expr Unit → Reader β}
    (fault fault' : Fault)
    (hf : ∀ condition, Tame (r.bound - 1) 0 (f condition)) :
    Tame r.bound 1 (do
      let _ ← expect .leftParen fault
      let condition ← expression r
      let _ ← expect .rightParen fault'
      f condition) := by
  refine (expect_tame _ _ _).bind (n := r.bound) (d := 0) (by omega) (by omega) fun _ => ?_
  refine (expression_tame h).bind (n := r.bound) (d := 0) (by omega) (by omega) fun condition => ?_
  exact (expect_tame _ _ _).bind (by omega) (by omega) fun _ => (hf condition)

theorem ifStatement_tame (h : TameRules r) : Tame r.bound 1 (ifStatement r) := by
  refine condition_tame h _ _ fun condition => ?_
  refine h.statement.bind (n := r.bound - 1) (d := 0) (by omega) (by omega) fun yes => ?_
  refine accept_bind_tame (pure_tame _ _) fun _ => ?_
  exact (h.statement.mono (d := 0) (by omega) (by omega)).bind (by omega) (by omega) fun no =>
    pure_tame (r.bound - 2) _

theorem whileStatement_tame (h : TameRules r) : Tame r.bound 1 (whileStatement r) :=
  condition_tame h _ _ fun condition =>
    h.statement.bind (by omega) (by omega) fun body => pure_tame (r.bound - 1) _

theorem forInitial_tame (h : TameRules r) : Tame r.bound 1 (forInitial r) := by
  refine accept_bind_tame ?_ fun _ => pure_tame _ _
  refine accept_bind_tame ?_ fun _ => ?_
  · exact (expressionStatement_tame h).bind (by omega) (by omega) fun s => pure_tame r.bound _
  · exact ((variableDeclaration_tame h).mono (d := 0) (by omega) (by omega)).bind
      (by omega) (by omega) fun s => pure_tame r.bound _

theorem forStatement_tame (h : TameRules r) : Tame r.bound 1 (forStatement r) := by
  refine (expect_tame _ _ _).bind (n := r.bound) (d := 0) (by omega) (by omega) fun _ => ?_
  refine (forInitial_tame h).bind (n := r.bound) (d := 0) (by omega) (by omega) fun initial => ?_
  refine (expressionUnless_tame h _).bind (n := r.bound) (d := 0)
    (by omega) (by omega) fun condition => ?_
  refine (expect_tame _ _ _).bind (n := r.bound) (d := 0) (by omega) (by omega) fun _ => ?_
  refine (expressionUnless_tame h _).bind (n := r.bound) (d := 0)
    (by omega) (by omega) fun increment => ?_
  refine (expect_tame _ _ _).bind (n := r.bound - 1) (d := 0) (by omega) (by omega) fun _ => ?_
  exact h.statement.bind (by omega) (by omega) fun body => pure_tame (r.bound - 1) _

theorem breakStatement_tame (n : Nat) (keyword : Token) :
    Tame n 1 (breakStatement keyword : Reader (Stmt Unit)) := by
  refine (loopDepth_tame n).bind (n := n) (d := 1) (by omega) (by omega) fun depth => ?_
  split
  · exact fail_tame _ _ _ _
  · exact (expect_tame n _ _).bind (by omega) (by omega) fun _ => pure_tame n _

theorem returnStatement_tame (h : TameRules r) (keyword : Token) :
    Tame r.bound 1 (returnStatement r keyword) :=
  (beforeSemicolon_tame (expressionUnless_tame h _) _ _).mono (by omega) (by omega)

theorem statement_tame (h : TameRules r) : Tame r.bound 1 (statement r) := by
  refine (peek_tame _).bind (n := r.bound) (d := 1) (by omega) (by omega) fun token => ?_
  refine peekKind_bind_tame (expressionStatement_tame h) fun k => ?_
  have hnext : ∀ {p : Reader (Stmt Unit)}, Tame (r.bound - 1) 0 p →
      TameAhead r.bound 1 (do let _ ← next; p) :=
    fun hp => (next_tame _).bind (by omega) (by omega) fun _ => hp
  split
  · exact hnext ((insideLoop_tame (forStatement_tame h)).mono (by omega) (by omega))
  · exact hnext ((ifStatement_tame h).mono (by omega) (by omega))
  · exact hnext ((insideLoop_tame (whileStatement_tame h)).mono (by omega) (by omega))
  · exact hnext ((breakStatement_tame (r.bound - 1) _).mono (by omega) (by omega))
  · exact hnext ((returnStatement_tame h _).mono (by omega) (by omega))
  · exact hnext ((block_tame h).bind (by omega) (by omega) fun body => pure_tame (r.bound - 1) _)
  · exact hnext ((printStatement_tame h).mono (by omega) (by omega))
  · exact (expressionStatement_tame h).ahead

theorem acceptFunctionName_bind_tame {β : Type} {n c : Nat} {f : Option Token → Reader β}
    (hn : Tame n c (f none)) (hs : ∀ t, Tame (n - 2) (c - 2) (f (some t))) :
    Tame n c (acceptFunctionName >>= f) := by
  intro eof s
  by_cases hw : ∃ word name ts, s.rest = word :: name :: ts ∧ word.kind = .funWord ∧
      name.kind = .identifier
  · obtain ⟨word, name, ts, hr, hk, hi⟩ := hw
    have ha : acceptFunctionName eof s = .done (some name) { s with rest := ts } :=
      acceptFunctionName_hit hr hk hi
    have hl : Stays n 2 s (acceptFunctionName eof s) := by
      rw [ha]
      exact ⟨⟨⟨[word, name], by simp [hr]⟩, rfl, List.prefix_refl _⟩, by simp [hr]⟩
    refine hl.bind (n := n - 2) (d := c - 2) (fun a u hu => ?_) (by omega) (by omega)
    rw [ha] at hu
    cases hu
    exact hs name eof _
  · have ha : acceptFunctionName eof s = .done none s :=
      acceptFunctionName_miss fun word name ts hr hk hi => hw ⟨word, name, ts, hr, hk, hi⟩
    rw [bind_apply, ha]
    exact hn eof s

theorem declarationOrFail_tame (h : TameRules r) : Tame r.bound 1 (declarationOrFail r) := by
  refine acceptFunctionName_bind_tame ?_ fun name => ?_
  · refine accept_bind_tame (statement_tame h) fun _ =>
      (variableDeclaration_tame h).mono (by omega) (by omega)
  · exact ((function_tame h).mono (d := 0) (by omega) (by omega)).bind
      (by omega) (by omega) fun _ => pure_tame (r.bound - 2) _

theorem recover_suffix (ts : List Token) : recover ts <:+ ts := by
  cases ts with
  | nil => exact List.suffix_refl _
  | cons t ts => exact (dropToBoundary_suffix _ ts).trans (List.suffix_cons t ts)

theorem recover_length_lt {ts : List Token} (h : ts ≠ []) : (recover ts).length < ts.length := by
  cases ts with
  | nil => exact absurd rfl h
  | cons t ts =>
    have hs := (dropToBoundary_suffix (t.kind = .semicolon) ts).length_le
    simpa only [recover, List.length_cons] using Nat.lt_succ_of_le hs

/-- Recovery drops the token at which a declaration failed, so that the next one starts later. -/
theorem declaration_tame (h : TameRules r) : TameAhead r.bound 1 (declaration r) := by
  intro eof s hs
  have hd := declarationOrFail_tame h eof s
  simp only [declaration, Host.recovering, recovering]
  cases ho : declarationOrFail r eof s with
  | done stmt t =>
    rw [ho] at hd
    exact hd
  | exhausted =>
    rw [ho] at hd
    exact hd
  | failed e t =>
    rw [ho] at hd
    have hsuf := (recover_suffix t.rest).trans hd.rest
    refine ⟨⟨hsuf, hd.loopDepth, hd.errors.trans (List.prefix_append _ _)⟩, ?_⟩
    simp only
    have hle := hd.length_le
    by_cases hn : t.rest = []
    · have hpos := List.length_pos_iff.mpr hs
      simp only [hn, recover, List.length_nil]
      omega
    · have hlt := recover_length_lt hn
      omega

theorem rules_tame (depth : Nat) : TameRules (Syntax.rules depth) := by
  induction depth with
  | zero =>
    exact ⟨exhausted_tame 1, exhausted_tame 1, exhausted_tame 1, (exhausted_tame 1).ahead⟩
  | succ depth ih =>
    have hb : (Syntax.rules depth).bound = depth := by cases depth <;> rfl
    have he := expression_tame ih
    have hu := unary_tame ih
    have hs := statement_tame ih
    have hd := declaration_tame ih
    rw [hb] at he hu hs hd
    exact ⟨he, hu, hs, hd⟩

theorem program_tame {n : Nat} {p : Reader (Option (Stmt Unit))} (h : TameAhead n 1 p)
    (bound : Nat) (hb : n ≤ bound) : Tame n 0 (program p bound) := by
  -- each declaration takes a token, so the bound on rounds outlasts the list
  induction bound generalizing n with
  | zero =>
    obtain rfl : n = 0 := by omega
    exact exhausted_tame 0
  | succ bound ih =>
    intro eof s
    have hrest : Tame (n - 1) 0 (program p bound) := ih (h.mono (by omega) (by omega)) (by omega)
    cases hr : s.rest with
    | nil =>
      simp only [program, monadLift_self, bind_apply, atEnd, hr, List.isEmpty_nil, if_true]
      exact pure_tame n [] eof s
    | cons t ts =>
      simp only [program, monadLift_self, bind_apply, atEnd, hr, List.isEmpty_cons,
        Bool.false_eq_true, if_false]
      have hs : s.rest ≠ [] := by simp [hr]
      exact (h.bind (n := n - 1) (d := 0) (e := 0) (by omega) (by omega) fun first =>
        hrest.bind (n := n - 1) (by omega) (by omega) fun _ => pure_tame _ _) eof s hs

end ScriptLang.Parsing
