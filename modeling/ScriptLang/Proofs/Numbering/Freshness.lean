import ScriptLang.Proofs.Numbering.Drawing
import ScriptLang.Syntax.Reference
import Mathlib.Data.List.Perm.Subperm
import Mathlib.Data.List.Nodup

namespace ScriptLang

structure Fresh (lo hi : Nat) (numbers : List Nat) : Prop where
  nodup : numbers.Nodup
  bounds : ∀ n ∈ numbers, lo ≤ n ∧ n < hi

section Fresh

variable {lo mid hi : Nat} {ns ms : List Nat}

theorem Fresh.nil : Fresh lo hi [] :=
  ⟨List.nodup_nil, fun _ h => by cases h⟩

theorem Fresh.mono (h : Fresh mid hi ns) {hi' : Nat} (hlo : lo ≤ mid) (hhi : hi ≤ hi') :
    Fresh lo hi' ns :=
  ⟨h.nodup, fun n hn =>
    ⟨Nat.le_trans hlo (h.bounds n hn).1, Nat.lt_of_lt_of_le (h.bounds n hn).2 hhi⟩⟩

theorem Fresh.subperm (h : Fresh lo hi ns) (hs : ms.Subperm ns) : Fresh lo hi ms := by
  obtain ⟨ks, hperm, hsub⟩ := hs
  refine ⟨hperm.nodup_iff.mp (h.nodup.sublist hsub), ?_⟩
  intro n hn
  exact h.bounds n (hsub.subset (hperm.mem_iff.mpr hn))

theorem Fresh.append (h : Fresh lo mid ns) (h' : Fresh mid hi ms) (hlo : lo ≤ mid)
    (hhi : mid ≤ hi) : Fresh lo hi (ns ++ ms) := by
  constructor
  · refine List.nodup_append.mpr ⟨h.nodup, h'.nodup, ?_⟩
    intro n hn m hm heq
    have hlt := (h.bounds n hn).2
    have hle := (h'.bounds m hm).1
    omega
  · intro n hn
    rcases List.mem_append.mp hn with hn | hn
    · exact ((h.mono (Nat.le_refl _) hhi).bounds n hn)
    · exact ((h'.mono hlo (Nat.le_refl _)).bounds n hn)

end Fresh

section Notes

variable {ρ : Type}

def Expr.notes (e : Expr ρ) : List ρ :=
  e.references.map Reference.binding

def Expr.allNotes (es : List (Expr ρ)) : List ρ :=
  (Expr.allReferences es).map Reference.binding

def Stmt.notes (s : Stmt ρ) : List ρ :=
  s.references.map Reference.binding

def Stmt.allNotes (ss : List (Stmt ρ)) : List ρ :=
  (Stmt.allReferences ss).map Reference.binding

theorem Expr.allNotes_cons (e : Expr ρ) (es : List (Expr ρ)) :
    Expr.allNotes (e :: es) = e.notes ++ Expr.allNotes es :=
  List.map_append

theorem Stmt.allNotes_cons (s : Stmt ρ) (ss : List (Stmt ρ)) :
    Stmt.allNotes (s :: ss) = s.notes ++ Stmt.allNotes ss :=
  List.map_append

abbrev Expr.unnumbered (e : Expr Nat) : Expr Unit :=
  e.map fun _ => ()

abbrev Stmt.unnumbered (s : Stmt Nat) : Stmt Unit :=
  s.map fun _ => ()

abbrev Stmt.allUnnumbered (ss : List (Stmt Nat)) : List (Stmt Unit) :=
  Stmt.mapAll (fun _ => ()) ss

theorem Expr.mapAll_eq_map {ρ σ : Type} (f : ρ → σ) (es : List (Expr ρ)) :
    Expr.mapAll f es = es.map (Expr.map f) := by
  induction es with
  | nil => rfl
  | cons e es ih => rw [Expr.mapAll, ih, List.map_cons]

end Notes

namespace Numbered

open Syntax
open Syntax.Reader (next record fail items itemsBeforeParen)

variable {α β α' β' : Type}

def mapped (g : α → β) : Outcome α → Outcome β
  | .done a s => .done (g a) s
  | .failed e s => .failed e s
  | .exhausted => .exhausted

structure Draws (lo n : Nat) (g : α → β) (ids : α → List Nat) (r : Outcome α × Nat)
    (o : Outcome β) : Prop where
  later : n ≤ r.2
  plain : mapped g r.1 = o
  fresh : ∀ a t, r.1 = .done a t → Fresh lo r.2 (ids a)

/-- The numbered reader `p` reads as the plain reader `q` does, and the numbers in its answer are
all different. None of them was drawn before, but for those in `old`, and none will be drawn again.
-/
def Numbers (old : List Nat) (g : α → β) (ids : α → List Nat) (p : Drawing α) (q : Reader β) :
    Prop :=
  ∀ lo n eof s, lo ≤ n → Fresh lo n old → Draws lo n g ids (p n eof s) (q eof s)

section Combination

open Drawing

variable {old : List Nat} {g : α → β} {ids : α → List Nat} {g' : α' → β'} {ids' : α' → List Nat}

theorem bind_drawing (p : Drawing α) (f : α → Drawing β) (n : Nat) (eof : Token) (s : State) :
    (p >>= f) n eof s = match p n eof s with
      | (.done a t, k) => f a k eof t
      | (.failed e t, k) => (.failed e t, k)
      | (.exhausted, k) => (.exhausted, k) := rfl

theorem pure_numbers {a : α} (h : (ids a).Subperm old) :
    Numbers old g ids (pure a) (pure (g a)) := by
  intro lo n eof s _ hold
  refine ⟨Nat.le_refl n, rfl, ?_⟩
  intro b t hb
  cases hb
  exact hold.subperm h

theorem keep_numbers {a : α} (h : ids a = old) : Numbers old g ids (pure a) (pure (g a)) :=
  pure_numbers (h ▸ .refl _)

/-- A part that needs nothing old, and a rest that may keep what it drew. -/
theorem Numbers.bind {p : Drawing α} {q : Reader β} {k : α → Drawing α'} {k' : β → Reader β'}
    (hp : Numbers [] g ids p q)
    (hk : ∀ a, Numbers (old ++ ids a) g' ids' (k a) (k' (g a))) :
    Numbers old g' ids' (p >>= k) (q >>= k') := by
  intro lo n eof s hlo hold
  have hdraws := hp n n eof s (Nat.le_refl n) .nil
  rw [bind_drawing, Reader.bind_apply]
  cases hr : p n eof s with
  | mk o m =>
    rw [hr] at hdraws
    obtain ⟨hm, hplain, hfresh⟩ := hdraws
    rw [← hplain]
    cases o with
    | done a t =>
      have hall := hold.append (hfresh a t rfl) hlo hm
      obtain ⟨hm', hplain', hfresh'⟩ := hk a lo m eof t (Nat.le_trans hlo hm) hall
      exact ⟨Nat.le_trans hm hm', hplain', hfresh'⟩
    | failed e t => exact ⟨hm, rfl, fun _ _ h => by cases h⟩
    | exhausted => exact ⟨hm, rfl, fun _ _ h => by cases h⟩

theorem lift_bind_numbers {p : Reader β} {k : β → Drawing α'} {k' : β → Reader β'}
    (hk : ∀ b, Numbers old g' ids' (k b) (k' b)) :
    Numbers old g' ids' (lift p >>= k) (p >>= k') := by
  intro lo n eof s hlo hold
  rw [bind_drawing, Reader.bind_apply, lift]
  cases p eof s with
  | done b t => exact hk b lo n eof t hlo hold
  | failed e t => exact ⟨Nat.le_refl n, rfl, fun _ _ h => by cases h⟩
  | exhausted => exact ⟨Nat.le_refl n, rfl, fun _ _ h => by cases h⟩

theorem fresh_bind_numbers {k : Nat → Drawing α} {q : Reader β}
    (hk : ∀ i, Numbers (old ++ [i]) g ids (k i) q) : Numbers old g ids (fresh >>= k) q := by
  intro lo n eof s hlo hold
  have hone : Fresh n (n + 1) [n] := by
    refine ⟨List.nodup_singleton n, ?_⟩
    intro i hi
    cases List.mem_singleton.mp hi
    omega
  have hall := hold.append hone hlo (Nat.le_succ n)
  obtain ⟨hm, hplain, hfresh⟩ := hk n lo (n + 1) eof s (Nat.le_succ_of_le hlo) hall
  exact ⟨Nat.le_of_succ_le hm, hplain, hfresh⟩

theorem lift_bind (p : Reader α) (k : α → Reader β) :
    lift (p >>= k) = lift p >>= fun a => lift (k a) := by
  funext n eof s
  rw [bind_drawing, lift, lift, Reader.bind_apply]
  cases p eof s <;> rfl

theorem lift_numbers (p : Reader α) : Numbers [] id (fun _ => []) (lift p) p := by
  intro lo n eof s _ _
  refine ⟨Nat.le_refl n, ?_, fun _ _ _ => .nil⟩
  unfold lift
  cases p eof s <;> rfl

theorem exhausted_numbers : Numbers old g ids (lift Reader.exhausted) Reader.exhausted :=
  fun _ n _ _ _ _ => ⟨Nat.le_refl n, rfl, fun _ _ h => by cases h⟩

theorem fail_numbers (fault : Fault) (token : Token) :
    Numbers old g ids (lift (fail fault token)) (fail fault token) :=
  fun _ n _ _ _ _ => ⟨Nat.le_refl n, rfl, fun _ _ h => by cases h⟩

theorem leaving_draws {lo n : Nat} {p : Drawing α} {q : Reader β} {f : State → State} {eof : Token}
    {s : State} (h : Draws lo n g ids (p n eof s) (q eof s)) :
    Draws lo n g ids (leaving p f n eof s) (Reader.leaving q f eof s) := by
  obtain ⟨hm, hplain, hfresh⟩ := h
  unfold leaving Reader.leaving
  rw [← hplain]
  cases hr : p n eof s with
  | mk o m =>
    rw [hr] at hm hfresh
    cases o with
    | done a t =>
      refine ⟨hm, rfl, ?_⟩
      intro b u hb
      cases hb
      exact hfresh a t rfl
    | failed e t => exact ⟨hm, rfl, fun _ _ h => by cases h⟩
    | exhausted => exact ⟨hm, rfl, fun _ _ h => by cases h⟩

theorem insideLoop_numbers {p : Drawing α} {q : Reader β} (h : Numbers old g ids p q) :
    Numbers old g ids (insideLoop p) (Reader.insideLoop q) :=
  fun lo n eof _ hlo hold => leaving_draws (h lo n eof _ hlo hold)

theorem outsideLoops_numbers {p : Drawing α} {q : Reader β} (h : Numbers old g ids p q) :
    Numbers old g ids (outsideLoops p) (Reader.outsideLoops q) :=
  fun lo n eof _ hlo hold => leaving_draws (h lo n eof _ hlo hold)

theorem items_numbers {tooMany : Fault} {item : Drawing α} {item' : Reader β}
    (h : Numbers [] g ids item item') (bound count : Nat) :
    Numbers [] (List.map g) (List.flatMap ids) (items tooMany item bound count)
      (items tooMany item' bound count) := by
  induction bound generalizing count with
  | zero => exact exhausted_numbers
  | succ bound ih =>
    apply lift_bind_numbers
    intro _
    apply h.bind
    intro first
    apply lift_bind_numbers
    intro comma
    cases comma with
    | none => exact keep_numbers (a := [first]) (by simp)
    | some comma =>
      apply (ih (count + 1)).bind
      intro others
      exact keep_numbers (a := first :: others) (by simp)

theorem itemsBeforeParen_numbers {tooMany : Fault} {item : Drawing α} {item' : Reader β}
    (h : Numbers [] g ids item item') (bound : Nat) :
    Numbers [] (List.map g) (List.flatMap ids) (itemsBeforeParen tooMany item bound)
      (itemsBeforeParen tooMany item' bound) := by
  apply lift_bind_numbers
  intro found
  cases found with
  | false => exact items_numbers h bound 0
  | true => exact pure_numbers (List.nil_subperm)

end Combination

abbrev NumbersExpr (p : Drawing (Expr Nat)) (q : Reader (Expr Unit)) : Prop :=
  Numbers [] Expr.unnumbered Expr.notes p q

abbrev NumbersStmt (p : Drawing (Stmt Nat)) (q : Reader (Stmt Unit)) : Prop :=
  Numbers [] Stmt.unnumbered Stmt.notes p q

abbrev NumbersStmts (p : Drawing (List (Stmt Nat))) (q : Reader (List (Stmt Unit))) : Prop :=
  Numbers [] Stmt.allUnnumbered Stmt.allNotes p q

def optionNumbers (ids : α → List Nat) (o : Option α) : List Nat :=
  o.toList.flatMap ids

structure NumbersRules (r : Rules Drawing Nat) (q : Rules Reader Unit) : Prop where
  bound : r.bound = q.bound
  expression : NumbersExpr r.expression q.expression
  unary : NumbersExpr r.unary q.unary
  statement : NumbersStmt r.statement q.statement
  declaration : Numbers [] (Option.map Stmt.unnumbered) (optionNumbers Stmt.notes) r.declaration
    q.declaration

section Expressions

variable {r : Rules Drawing Nat} {q : Rules Reader Unit}

structure Joins (node : Node Nat) (node' : Node Unit) : Prop where
  plain : ∀ left operator right,
    (node left operator right).unnumbered = node' left.unnumbered operator right.unnumbered
  notes : ∀ left operator right, (node left operator right).notes = left.notes ++ right.notes

theorem binary_joins : Joins .binary .binary :=
  ⟨fun _ _ _ => rfl, fun _ _ _ => List.map_append⟩

theorem logical_joins : Joins .logical .logical :=
  ⟨fun _ _ _ => rfl, fun _ _ _ => List.map_append⟩

theorem chain_numbers {kinds : List Kind} {node : Node Nat} {node' : Node Unit}
    {operand : Drawing (Expr Nat)} {operand' : Reader (Expr Unit)} (hnode : Joins node node')
    (h : NumbersExpr operand operand') (bound : Nat) (left : Expr Nat) :
    Numbers left.notes Expr.unnumbered Expr.notes (chain kinds node operand bound left)
      (chain kinds node' operand' bound left.unnumbered) := by
  induction bound generalizing left with
  | zero => exact exhausted_numbers
  | succ bound ih =>
    apply lift_bind_numbers
    intro operator
    cases operator with
    | none => exact keep_numbers (a := left) rfl
    | some operator =>
      apply h.bind
      intro right
      have hrest := ih (node left operator right)
      rwa [hnode.plain, hnode.notes] at hrest

theorem level_numbers {kinds : List Kind} {node : Node Nat} {node' : Node Unit} {bound : Nat}
    {operand : Drawing (Expr Nat)} {operand' : Reader (Expr Unit)} (hnode : Joins node node')
    (h : NumbersExpr operand operand') :
    NumbersExpr (level kinds node bound operand) (level kinds node' bound operand') :=
  h.bind fun first => chain_numbers hnode h bound first

theorem collected_numbers (first : Option (Stmt Nat)) (others : List (Stmt Nat)) :
    Numbers (optionNumbers Stmt.notes first ++ Stmt.allNotes others) Stmt.allUnnumbered
      Stmt.allNotes (pure (first.toList ++ others))
      (pure ((first.map Stmt.unnumbered).toList ++ Stmt.allUnnumbered others)) := by
  cases first with
  | none => exact keep_numbers (a := others) rfl
  | some s =>
    refine keep_numbers (a := s :: others) ?_
    simp [optionNumbers, Stmt.allNotes_cons]

theorem declarations_numbers {p : Drawing (Option (Stmt Nat))}
    {p' : Reader (Option (Stmt Unit))}
    (h : Numbers [] (Option.map Stmt.unnumbered) (optionNumbers Stmt.notes) p p')
    (bound : Nat) : NumbersStmts (declarations p bound) (declarations p' bound) := by
  induction bound with
  | zero => exact exhausted_numbers
  | succ bound ih =>
    apply lift_bind_numbers
    intro closed
    apply lift_bind_numbers
    intro ended
    by_cases hend : closed || ended
    · simp only [hend, if_true]
      exact pure_numbers List.nil_subperm
    · simp only [hend]
      apply h.bind
      intro first
      exact ih.bind fun others => collected_numbers first others

theorem block_numbers (h : NumbersRules r q) : NumbersStmts (block r) (block q) := by
  have hbody := declarations_numbers h.declaration r.bound
  unfold block
  rw [← h.bound]
  apply hbody.bind
  intro body
  apply lift_bind_numbers
  intro _
  exact keep_numbers rfl

def unnumberedParts (parts : List Token × List (Stmt Nat)) : List Token × List (Stmt Unit) :=
  (parts.1, Stmt.allUnnumbered parts.2)

theorem function_numbers (h : NumbersRules r q) :
    Numbers [] unnumberedParts (fun parts => Stmt.allNotes parts.2) (function r)
      (function q) := by
  unfold function
  rw [← h.bound]
  apply lift_bind_numbers
  intro _
  apply (itemsBeforeParen_numbers (lift_numbers _) r.bound).bind
  intro params
  rw [List.map_id, List.flatMap_eq_nil_iff.mpr fun _ _ => rfl]
  apply lift_bind_numbers
  intro _
  apply lift_bind_numbers
  intro _
  apply (outsideLoops_numbers (block_numbers h)).bind
  intro body
  exact keep_numbers (a := (params, body)) rfl

theorem primary_numbers (h : NumbersRules r q) :
    NumbersExpr (primary r) (primary q) := by
  apply lift_bind_numbers
  intro token
  apply lift_bind_numbers
  intro kind
  have hliteral : ∀ value : Literal, NumbersExpr
      (do let _ ← Drawing.lift next; pure (.literal value))
      (do let _ ← next; pure (.literal value)) :=
    fun value => lift_bind_numbers fun _ => keep_numbers (a := Expr.literal value) rfl
  cases kind with
  | none => exact fail_numbers .noExpression token
  | some kind =>
    cases kind with
    | falseWord => exact hliteral (.boolean false)
    | trueWord => exact hliteral (.boolean true)
    | nilWord => exact hliteral .nil
    | number x => exact hliteral (.number x)
    | string s => exact hliteral (.string s)
    | identifier =>
      apply lift_bind_numbers
      intro _
      apply fresh_bind_numbers
      intro i
      exact keep_numbers (a := Expr.ident i token) rfl
    | leftParen =>
      apply lift_bind_numbers
      intro _
      apply h.expression.bind
      intro inner
      apply lift_bind_numbers
      intro _
      exact keep_numbers (a := Expr.group inner) rfl
    | funWord =>
      apply lift_bind_numbers
      intro _
      apply (function_numbers h).bind
      intro parts
      exact keep_numbers (a := Expr.lambda parts.1 parts.2) rfl
    | _ => exact fail_numbers .noExpression token

theorem allNotes_eq_flatMap (es : List (Expr Nat)) :
    Expr.allNotes es = es.flatMap Expr.notes := by
  induction es with
  | nil => rfl
  | cons e es ih => rw [Expr.allNotes_cons, ih, List.flatMap_cons]

theorem calls_numbers (h : NumbersRules r q) (bound : Nat) (callee : Expr Nat) :
    Numbers callee.notes Expr.unnumbered Expr.notes (calls r bound callee)
      (calls q bound callee.unnumbered) := by
  induction bound generalizing callee with
  | zero => exact exhausted_numbers
  | succ bound ih =>
    simp only [calls, ← h.bound]
    apply lift_bind_numbers
    intro opening
    cases opening with
    | none => exact keep_numbers (a := callee) rfl
    | some opening =>
      apply (itemsBeforeParen_numbers h.expression r.bound).bind
      intro arguments
      apply lift_bind_numbers
      intro paren
      have hrest := ih (.call callee paren arguments)
      have hnumbers : (Expr.call callee paren arguments).notes =
          callee.notes ++ arguments.flatMap Expr.notes := by
        rw [← allNotes_eq_flatMap]
        exact List.map_append
      rwa [hnumbers, Expr.unnumbered, Expr.map, Expr.mapAll_eq_map] at hrest

theorem call_numbers (h : NumbersRules r q) : NumbersExpr (call r) (call q) := by
  unfold call
  rw [← h.bound]
  exact (primary_numbers h).bind fun callee => calls_numbers h r.bound callee

theorem unary_numbers (h : NumbersRules r q) : NumbersExpr (unary r) (unary q) := by
  apply lift_bind_numbers
  intro operator
  cases operator with
  | none => exact call_numbers h
  | some operator =>
    apply h.unary.bind
    intro right
    exact keep_numbers (a := Expr.unary operator right) rfl

theorem disjunction_numbers (h : NumbersRules r q) :
    NumbersExpr (disjunction r) (disjunction q) := by
  unfold disjunction conjunction equality comparison term factor
  rw [← h.bound]
  exact level_numbers logical_joins (level_numbers logical_joins
    (level_numbers binary_joins (level_numbers binary_joins
      (level_numbers binary_joins (level_numbers binary_joins (unary_numbers h))))))

theorem assignTo_numbers (equal : Token) (value target : Expr Nat) :
    Numbers (target.notes ++ value.notes) Expr.unnumbered Expr.notes
      (assignTo equal value target)
      (assignTo equal value.unnumbered target.unnumbered) := by
  have hrecorded : ∀ e : Expr Nat, Numbers (e.notes ++ value.notes) Expr.unnumbered Expr.notes
      (do Drawing.lift (record .invalidAssignmentTarget equal); pure e)
      (do record .invalidAssignmentTarget equal; pure e.unnumbered) :=
    fun e => lift_bind_numbers fun _ => pure_numbers (List.sublist_append_left _ _).subperm
  cases target with
  | ident i name =>
    apply fresh_bind_numbers
    intro n
    refine pure_numbers (a := Expr.assign n name value) ?_
    have hnumbers : (Expr.assign n name value).notes = value.notes ++ [n] := List.map_append
    rw [hnumbers, List.append_assoc]
    exact (List.sublist_append_right _ _).subperm
  | literal constant => exact hrecorded (.literal constant)
  | group inner => exact hrecorded (.group inner)
  | unary operator right => exact hrecorded (.unary operator right)
  | binary left operator right => exact hrecorded (.binary left operator right)
  | logical left operator right => exact hrecorded (.logical left operator right)
  | assign n name value => exact hrecorded (.assign n name value)
  | call callee paren arguments => exact hrecorded (.call callee paren arguments)
  | lambda params body => exact hrecorded (.lambda params body)

theorem expression_numbers (h : NumbersRules r q) :
    NumbersExpr (expression r) (expression q) := by
  apply (disjunction_numbers h).bind
  intro left
  apply lift_bind_numbers
  intro equal
  cases equal with
  | none => exact keep_numbers (a := left) rfl
  | some equal => exact h.expression.bind fun value => assignTo_numbers equal value left

theorem expressionUnless_numbers (h : NumbersRules r q) (kind : Kind) :
    Numbers [] (Option.map Expr.unnumbered) (optionNumbers Expr.notes) (expressionUnless r kind)
      (expressionUnless q kind) := by
  apply lift_bind_numbers
  intro found
  cases found with
  | true => exact keep_numbers (a := none) rfl
  | false =>
    apply (expression_numbers h).bind
    intro e
    exact keep_numbers (a := some e) (by simp [optionNumbers])

end Expressions

section Statements

variable {r : Rules Drawing Nat} {q : Rules Reader Unit}

theorem variableDeclaration_numbers (h : NumbersRules r q) :
    NumbersStmt (variableDeclaration r) (variableDeclaration q) := by
  apply lift_bind_numbers
  intro name
  apply lift_bind_numbers
  intro equal
  cases equal with
  | none =>
    apply lift_bind_numbers
    intro _
    exact keep_numbers (a := Stmt.varDecl name none) rfl
  | some equal =>
    apply (expression_numbers h).bind
    intro initial
    apply lift_bind_numbers
    intro _
    exact keep_numbers (a := Stmt.varDecl name (some initial)) rfl

theorem expressionStatement_numbers (h : NumbersRules r q) :
    NumbersStmt (expressionStatement r) (expressionStatement q) := by
  apply (expression_numbers h).bind
  intro e
  apply lift_bind_numbers
  intro _
  exact keep_numbers (a := Stmt.exprStmt e) rfl

theorem printStatement_numbers (h : NumbersRules r q) :
    NumbersStmt (printStatement r) (printStatement q) := by
  apply (expression_numbers h).bind
  intro e
  apply lift_bind_numbers
  intro _
  exact keep_numbers (a := Stmt.printStmt e) rfl

theorem ifStatement_numbers (h : NumbersRules r q) :
    NumbersStmt (ifStatement r) (ifStatement q) := by
  apply lift_bind_numbers
  intro _
  apply (expression_numbers h).bind
  intro condition
  apply lift_bind_numbers
  intro _
  apply h.statement.bind
  intro yes
  apply lift_bind_numbers
  intro word
  cases word with
  | none =>
    refine keep_numbers (a := Stmt.ifStmt condition yes none) ?_
    simp [Stmt.notes, Expr.notes, Stmt.references]
  | some word =>
    apply h.statement.bind
    intro no
    refine keep_numbers (a := Stmt.ifStmt condition yes (some no)) ?_
    simp [Stmt.notes, Expr.notes, Stmt.references]

theorem whileStatement_numbers (h : NumbersRules r q) :
    NumbersStmt (whileStatement r) (whileStatement q) := by
  apply lift_bind_numbers
  intro _
  apply (expression_numbers h).bind
  intro condition
  apply lift_bind_numbers
  intro _
  apply h.statement.bind
  intro body
  refine keep_numbers (a := Stmt.whileStmt condition body) ?_
  simp [Stmt.notes, Expr.notes, Stmt.references]

theorem forInitial_numbers (h : NumbersRules r q) :
    Numbers [] (Option.map Stmt.unnumbered) (optionNumbers Stmt.notes) (forInitial r)
      (forInitial q) := by
  have hsome : ∀ s : Stmt Nat, Numbers ([] ++ s.notes) (Option.map Stmt.unnumbered)
      (optionNumbers Stmt.notes) (pure (some s)) (pure (some s.unnumbered)) :=
    fun s => keep_numbers (a := some s) (by simp [optionNumbers])
  apply lift_bind_numbers
  intro semicolon
  cases semicolon with
  | some semicolon => exact keep_numbers (a := none) rfl
  | none =>
    apply lift_bind_numbers
    intro word
    cases word with
    | some word => exact (variableDeclaration_numbers h).bind hsome
    | none => exact (expressionStatement_numbers h).bind hsome

theorem forLoop_unnumbered (initial : Option (Stmt Nat)) (condition increment : Option (Expr Nat))
    (body : Stmt Nat) :
    (forLoop initial condition increment body).unnumbered =
      forLoop (initial.map Stmt.unnumbered) (condition.map Expr.unnumbered)
        (increment.map Expr.unnumbered) body.unnumbered := by
  cases initial <;> cases condition <;> cases increment <;> rfl

theorem forLoop_numbers (initial : Option (Stmt Nat)) (condition increment : Option (Expr Nat))
    (body : Stmt Nat) :
    (forLoop initial condition increment body).notes.Perm
      (optionNumbers Stmt.notes initial ++ optionNumbers Expr.notes condition ++
        optionNumbers Expr.notes increment ++ body.notes) := by
  cases initial <;> cases condition <;> cases increment <;>
    simp [forLoop, optionNumbers, Stmt.notes, Expr.notes, Stmt.references,
      Stmt.allReferences, Expr.references, List.perm_append_comm, List.perm_append_left_iff]

theorem forStatement_numbers (h : NumbersRules r q) :
    NumbersStmt (forStatement r) (forStatement q) := by
  apply lift_bind_numbers
  intro _
  apply (forInitial_numbers h).bind
  intro initial
  apply (expressionUnless_numbers h _).bind
  intro condition
  apply lift_bind_numbers
  intro _
  apply (expressionUnless_numbers h _).bind
  intro increment
  apply lift_bind_numbers
  intro _
  apply h.statement.bind
  intro body
  rw [← forLoop_unnumbered]
  exact pure_numbers (forLoop_numbers initial condition increment body).subperm

theorem breakStatement_numbers (keyword : Token) :
    NumbersStmt (Drawing.lift (breakStatement keyword)) (breakStatement keyword) := by
  unfold breakStatement
  rw [lift_bind]
  apply lift_bind_numbers
  intro depth
  by_cases hdepth : depth = 0
  · simp only [hdepth, if_true]
    exact fail_numbers .breakOutsideLoop keyword
  · simp only [hdepth, if_false, lift_bind]
    apply lift_bind_numbers
    intro _
    exact keep_numbers (a := Stmt.breakStmt keyword) rfl

theorem returnStatement_numbers (h : NumbersRules r q) (keyword : Token) :
    NumbersStmt (returnStatement r keyword) (returnStatement q keyword) := by
  apply (expressionUnless_numbers h _).bind
  intro value
  apply lift_bind_numbers
  intro _
  cases value with
  | none => exact keep_numbers (a := Stmt.returnStmt keyword none) rfl
  | some e =>
    refine keep_numbers (a := Stmt.returnStmt keyword (some e)) ?_
    simp [optionNumbers, Stmt.notes, Expr.notes, Stmt.references]

theorem statement_numbers (h : NumbersRules r q) :
    NumbersStmt (statement r) (statement q) := by
  apply lift_bind_numbers
  intro token
  apply lift_bind_numbers
  intro kind
  cases kind with
  | none => exact expressionStatement_numbers h
  | some kind =>
    cases kind with
    | forWord => exact lift_bind_numbers fun _ => insideLoop_numbers (forStatement_numbers h)
    | ifWord => exact lift_bind_numbers fun _ => ifStatement_numbers h
    | whileWord => exact lift_bind_numbers fun _ => insideLoop_numbers (whileStatement_numbers h)
    | breakWord => exact lift_bind_numbers fun _ => breakStatement_numbers token
    | returnWord => exact lift_bind_numbers fun _ => returnStatement_numbers h token
    | leftBrace =>
      apply lift_bind_numbers
      intro _
      apply (block_numbers h).bind
      intro body
      exact keep_numbers (a := Stmt.block body) rfl
    | printWord => exact lift_bind_numbers fun _ => printStatement_numbers h
    | _ => exact expressionStatement_numbers h

theorem declarationOrFail_numbers (h : NumbersRules r q) :
    NumbersStmt (declarationOrFail r) (declarationOrFail q) := by
  apply lift_bind_numbers
  intro name
  cases name with
  | some name =>
    apply (function_numbers h).bind
    intro parts
    exact keep_numbers (a := Stmt.funDecl name parts.1 parts.2) rfl
  | none =>
    apply lift_bind_numbers
    intro word
    cases word with
    | some word => exact variableDeclaration_numbers h
    | none => exact statement_numbers h

/-- A dropped declaration leaves no numbers, but the counter after those it drew. -/
theorem recovering_numbers {p : Drawing (Stmt Nat)} {p' : Reader (Stmt Unit)}
    (h : NumbersStmt p p') :
    Numbers [] (Option.map Stmt.unnumbered) (optionNumbers Stmt.notes) (Drawing.recovering p)
      (recovering p') := by
  intro lo n eof s hlo hold
  obtain ⟨hm, hplain, hfresh⟩ := h lo n eof s hlo hold
  unfold Drawing.recovering recovering
  rw [← hplain]
  cases hr : p n eof s with
  | mk o m =>
    rw [hr] at hm hfresh
    cases o with
    | done stmt t =>
      refine ⟨hm, rfl, ?_⟩
      intro a u ha
      cases ha
      simpa [optionNumbers] using hfresh stmt t rfl
    | failed e t =>
      refine ⟨hm, rfl, ?_⟩
      intro a u ha
      cases ha
      exact .nil
    | exhausted => exact ⟨hm, rfl, fun _ _ ha => by cases ha⟩

theorem declaration_numbers (h : NumbersRules r q) :
    Numbers [] (Option.map Stmt.unnumbered) (optionNumbers Stmt.notes) (declaration r)
      (declaration q) :=
  recovering_numbers (declarationOrFail_numbers h)

end Statements

theorem rules_numbers (depth : Nat) : NumbersRules (rulesIn Drawing depth) (rules depth) := by
  induction depth with
  | zero =>
    exact ⟨rfl, exhausted_numbers, exhausted_numbers, exhausted_numbers, exhausted_numbers⟩
  | succ depth ih =>
    exact ⟨rfl, expression_numbers ih, unary_numbers ih, statement_numbers ih,
      declaration_numbers ih⟩

theorem program_numbers {p : Drawing (Option (Stmt Nat))} {p' : Reader (Option (Stmt Unit))}
    (h : Numbers [] (Option.map Stmt.unnumbered) (optionNumbers Stmt.notes) p p') (bound : Nat) :
    NumbersStmts (program p bound) (program p' bound) := by
  induction bound with
  | zero => exact exhausted_numbers
  | succ bound ih =>
    apply lift_bind_numbers
    intro ended
    cases ended with
    | true => exact keep_numbers (a := []) rfl
    | false =>
      apply h.bind
      intro first
      exact ih.bind fun others => collected_numbers first others

/-- A numbered program is the program that is read without numbers, or has the same errors. -/
theorem parseProgram_plain (counter : Nat) (input : Input) :
    Syntax.parseProgram input =
      match (parseProgram counter input).1 with
      | .ok statements => .ok (Stmt.allUnnumbered statements)
      | .error errors => .error errors := by
  have hdraws := program_numbers (declaration_numbers (rules_numbers (input.tokens.length + 1)))
    (input.tokens.length + 1) counter counter input.eof input.start (Nat.le_refl _) .nil
  have hplain := hdraws.plain
  unfold parseProgram Syntax.parseProgram Input.rules
  simp only [← hplain]
  cases program (declaration (rulesIn Drawing (input.tokens.length + 1)))
      (input.tokens.length + 1) counter input.eof input.start with
  | mk o k =>
    cases o with
    | done statements s =>
      simp only [mapped]
      cases s.errors.isEmpty <;> rfl
    | failed e s => rfl
    | exhausted => rfl

/-- The counter does not go back, and a program has numbers that were drawn while it was read. -/
theorem parseProgram_fresh (counter : Nat) (input : Input) :
    counter ≤ (parseProgram counter input).2 ∧
      ∀ statements, (parseProgram counter input).1 = .ok statements →
        Fresh counter (parseProgram counter input).2 (Stmt.allNotes statements) := by
  have hdraws := program_numbers (declaration_numbers (rules_numbers (input.tokens.length + 1)))
    (input.tokens.length + 1) counter counter input.eof input.start (Nat.le_refl _) .nil
  unfold parseProgram
  simp only
  generalize program (declaration (rulesIn Drawing (input.tokens.length + 1)))
    (input.tokens.length + 1) counter input.eof input.start = r at hdraws
  obtain ⟨o, k⟩ := r
  obtain ⟨hk, -, hfresh⟩ := hdraws
  cases o with
  | done statements s =>
    refine ⟨hk, ?_⟩
    intro ss hss
    by_cases hclean : s.errors.isEmpty
    · simp only [hclean, if_true, Except.ok.injEq] at hss
      subst hss
      exact hfresh statements s rfl
    · simp [hclean] at hss
  | failed e s => exact ⟨hk, fun ss hss => by cases hss⟩
  | exhausted => exact ⟨hk, fun ss hss => by cases hss⟩

end Numbered

end ScriptLang
