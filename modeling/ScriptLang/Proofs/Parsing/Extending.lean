import ScriptLang.Proofs.Parsing.Seams

namespace ScriptLang.Parsing

open Syntax Syntax.Reader Grammar

variable {more : List Token} {past : List Error}

structure ExtendedRules (more : List Token) (past : List Error) (r r' : Rules Reader Unit) :
    Prop where
  bound : r.bound ≤ r'.bound
  expression : Goes more past r.expression r'.expression
  unary : Goes more past r.unary r'.unary
  statement : Closes more past r.statement r'.statement
  declaration : Extends more past (Sealed more) (fun _ => Standing more) r.declaration
    r'.declaration

section Repetition

theorem items_goes {α : Type} {tooMany : Fault} {p q : Reader α} (h : Goes more past p q)
    {bound bound' : Nat} (hb : bound ≤ bound') (count : Nat) :
    Goes more past (items tooMany p bound count) (items tooMany q bound' count) := by
  induction bound generalizing bound' count with
  | zero => exact exhausted_extends
  | succ bound ih =>
    obtain ⟨bound', rfl⟩ := Nat.exists_eq_add_one_of_ne_zero (Nat.ne_zero_of_lt hb)
    apply (recordIf_extends _ tooMany).bind
    intro _
    apply h.bind
    intro first
    apply (take_extends (by simp)).bind
    intro comma
    cases comma with
    | none => exact pure_extends [first] fun _ hs => hs
    | some t =>
      apply (ih (Nat.le_of_succ_le_succ hb) (count + 1)).bind
      intro others
      exact pure_extends (first :: others) fun _ hs => hs

theorem itemsBeforeParen_goes {α : Type} {tooMany : Fault} {p q : Reader α}
    (h : Goes more past p q) {bound bound' : Nat} (hb : bound ≤ bound') :
    Goes more past (itemsBeforeParen tooMany p bound) (itemsBeforeParen tooMany q bound') := by
  apply (check_extends .rightParen).bind
  intro found
  cases found with
  | true => exact pure_extends [] fun _ hs => hs
  | false => exact items_goes h hb 0

theorem chain_goes {kinds : List Kind} (hk : Kind.semicolon ∉ kinds) {node : Node Unit}
    {p q : Reader (Expr Unit)} (h : Goes more past p q) {bound bound' : Nat}
    (hb : bound ≤ bound') (left : Expr Unit) :
    Goes more past (chain kinds node p bound left) (chain kinds node q bound' left) := by
  induction bound generalizing bound' left with
  | zero => exact exhausted_extends
  | succ bound ih =>
    obtain ⟨bound', rfl⟩ := Nat.exists_eq_add_one_of_ne_zero (Nat.ne_zero_of_lt hb)
    apply (take_extends hk).bind
    intro operator
    cases operator with
    | none => exact pure_extends left fun _ hs => hs
    | some operator =>
      apply h.bind
      intro right
      exact ih (Nat.le_of_succ_le_succ hb) _

theorem level_goes {kinds : List Kind} (hk : Kind.semicolon ∉ kinds) {node : Node Unit}
    {p q : Reader (Expr Unit)} (h : Goes more past p q) {bound bound' : Nat}
    (hb : bound ≤ bound') : Goes more past (level kinds node bound p) (level kinds node bound' q) :=
  h.bind fun first => chain_goes hk h hb first

theorem declarations_goes (hm : more = []) {p q : Reader (Option (Stmt Unit))}
    (h : Extends more past (Sealed more) (fun _ => Standing more) p q) {bound bound' : Nat}
    (hb : bound ≤ bound') : Goes more past (declarations p bound) (declarations q bound') := by
  induction bound generalizing bound' with
  | zero => exact exhausted_extends
  | succ bound ih =>
    obtain ⟨bound', rfl⟩ := Nat.exists_eq_add_one_of_ne_zero (Nat.ne_zero_of_lt hb)
    apply (check_extends .rightBrace).bind
    intro closed
    apply atEnd_extends.bind
    intro ended
    by_cases hend : closed || ended
    · simp only [hend, if_true]
      exact pure_extends [] fun _ hs => hs
    · simp only [hend]
      apply h.bind
      intro first
      apply Extends.bind (Q := fun _ => Sealed more)
      · exact (ih (Nat.le_of_succ_le_succ hb)).weaken (fun _ _ => .inl hm) fun _ _ hs => hs
      · intro others
        exact pure_extends _ fun _ hs => hs

end Repetition

section Rule

variable {r r' : Rules Reader Unit}

theorem block_goes (h : ExtendedRules more past r r') (hm : more = []) :
    Goes more past (block r) (block r') := by
  apply (declarations_goes hm h.declaration h.bound).bind
  intro body
  apply (expect_goes .noBraceAfterBlock (by simp)).bind
  intro _
  exact pure_extends body fun _ hs => hs

theorem function_alone (h : ExtendedRules more past r r') :
    Extends more past (Sealed more) (fun _ _ => more = []) (function r) (function r') := by
  apply (expect_goes .noParenAfterFunctionName (by simp)).bind
  intro _
  apply (itemsBeforeParen_goes (expect_goes .noParameterName (by simp)) h.bound).bind
  intro params
  apply (expect_goes .noParenAfterParameters (by simp)).bind
  intro _
  apply (expect_alone .noBraceBeforeFunctionBody (by simp)).bind
  intro _
  apply (outsideLoops_extends (Extends.alone (block_goes h))).bind
  intro body
  exact pure_extends (params, body) fun _ hm => hm

theorem primary_goes (h : ExtendedRules more past r r') :
    Goes more past (primary r) (primary r') := by
  apply peek_extends.bind
  intro token
  apply peekKind_extends.bind
  intro kind
  have hfail : ∀ kind : Option Kind, Extends more past
      (fun ts => Sealed more ts ∧ ts.head?.map Token.kind = kind) (fun _ => Sealed more)
      (fail .noExpression token : Reader (Expr Unit)) (fail .noExpression token) :=
    fun _ => fail_extends _ _ fun _ hs => hs.1
  have hpure : ∀ e : Expr Unit, Goes more past (pure e) (pure e) :=
    fun e => pure_extends e fun _ hs => hs
  cases kind with
  | none => exact hfail none
  | some kind =>
    cases kind with
    | falseWord | trueWord | nilWord | number | string | identifier =>
      exact next_goes (by simp) (hpure _)
    | leftParen =>
      apply next_goes (by simp)
      apply h.expression.bind
      intro inner
      apply (expect_goes .noParenAfterExpression (by simp)).bind
      intro _
      exact hpure (.group inner)
    | funWord =>
      apply next_goes (by simp)
      apply (function_alone h).bind
      intro parts
      exact pure_extends _ fun _ hm => .inl hm
    | _ => exact hfail _

theorem calls_goes (h : ExtendedRules more past r r') {bound bound' : Nat}
    (hb : bound ≤ bound') (callee : Expr Unit) :
    Goes more past (calls r bound callee) (calls r' bound' callee) := by
  induction bound generalizing bound' callee with
  | zero => exact exhausted_extends
  | succ bound ih =>
    obtain ⟨bound', rfl⟩ := Nat.exists_eq_add_one_of_ne_zero (Nat.ne_zero_of_lt hb)
    apply (take_extends (by simp)).bind
    intro opening
    cases opening with
    | none => exact pure_extends callee fun _ hs => hs
    | some opening =>
      apply (itemsBeforeParen_goes h.expression h.bound).bind
      intro arguments
      apply (expect_goes .noParenAfterArguments (by simp)).bind
      intro paren
      exact ih (Nat.le_of_succ_le_succ hb) _

theorem unary_goes (h : ExtendedRules more past r r') : Goes more past (unary r) (unary r') := by
  apply (take_extends (by simp)).bind
  intro operator
  cases operator with
  | none =>
    apply (primary_goes h).bind
    intro callee
    exact calls_goes h h.bound callee
  | some operator =>
    apply h.unary.bind
    intro right
    exact pure_extends _ fun _ hs => hs

theorem disjunction_goes (h : ExtendedRules more past r r') :
    Goes more past (disjunction r) (disjunction r') := by
  have hterm : Goes more past (term r) (term r') :=
    level_goes (by simp) (level_goes (by simp) (unary_goes h) h.bound) h.bound
  have hequality : Goes more past (equality r) (equality r') :=
    level_goes (by simp) (level_goes (by simp) hterm h.bound) h.bound
  exact level_goes (by simp) (level_goes (by simp) hequality h.bound) h.bound

theorem assignTo_goes (equal : Token) (value target : Expr Unit) :
    Goes more past (assignTo equal value target) (assignTo equal value target) := by
  cases target with
  | ident binding name => exact pure_extends _ fun _ hs => hs
  | _ =>
    apply (record_extends .invalidAssignmentTarget equal).bind
    intro _
    exact pure_extends _ fun _ hs => hs

theorem expression_goes (h : ExtendedRules more past r r') :
    Goes more past (expression r) (expression r') := by
  apply (disjunction_goes h).bind
  intro left
  apply (take_extends (by simp)).bind
  intro equal
  cases equal with
  | none => exact pure_extends left fun _ hs => hs
  | some equal =>
    apply h.expression.bind
    intro value
    exact assignTo_goes equal value left

theorem expressionUnless_goes (h : ExtendedRules more past r r') (kind : Kind) :
    Goes more past (expressionUnless r kind) (expressionUnless r' kind) := by
  apply (check_extends kind).bind
  intro found
  cases found with
  | true => exact pure_extends none fun _ hs => hs
  | false =>
    apply (expression_goes h).bind
    intro e
    exact pure_extends (some e) fun _ hs => hs

theorem beforeSemicolon_closes {α β : Type} {p q : Reader α} (h : Goes more past p q)
    (fault : Fault) (f : α → β) :
    Closes more past (do let a ← p; let _ ← expect .semicolon fault; pure (f a))
      (do let a ← q; let _ ← expect .semicolon fault; pure (f a)) := by
  apply h.bind
  intro a
  apply (expect_closes fault).bind
  intro _
  exact pure_extends (f a) fun _ hs => hs

theorem variableDeclaration_closes (h : ExtendedRules more past r r') :
    Closes more past (variableDeclaration r) (variableDeclaration r') := by
  apply (expect_goes .noVariableName (by simp)).bind
  intro name
  apply (take_extends (by simp)).bind
  intro equal
  cases equal with
  | none =>
    apply (expect_closes .noSemicolonAfterVariable).bind
    intro _
    exact pure_extends _ fun _ hs => hs
  | some equal =>
    exact beforeSemicolon_closes (expression_goes h) .noSemicolonAfterVariable
      fun e => Stmt.varDecl name (some e)

theorem expressionStatement_closes (h : ExtendedRules more past r r') :
    Closes more past (expressionStatement r) (expressionStatement r') :=
  beforeSemicolon_closes (expression_goes h) _ _

theorem condition_extends (h : ExtendedRules more past r r') {β : Type}
    {R : β → List Token → Prop} {f g : Expr Unit → Reader β} (fault fault' : Fault)
    (hf : ∀ condition, Extends more past (Sealed more) R (f condition) (g condition)) :
    Extends more past (Sealed more) R
      (do
        let _ ← expect .leftParen fault
        let condition ← expression r
        let _ ← expect .rightParen fault'
        f condition)
      (do
        let _ ← expect .leftParen fault
        let condition ← expression r'
        let _ ← expect .rightParen fault'
        g condition) := by
  apply (expect_goes fault (by simp)).bind
  intro _
  apply (expression_goes h).bind
  intro condition
  apply (expect_goes fault' (by simp)).bind
  intro _
  exact hf condition

/-- Behind a statement there may be the seam, and behind that no `else`. -/
theorem acceptElse_extends (he : ¬ NextIs .elseWord more) :
    Extends more past (Finished more) (fun o ts => Finished more ts ∧ (o.isSome → more = []))
      (accept .elseWord) (accept .elseWord) := by
  rintro eof ⟨rest, depth, errors⟩ hs
  obtain rfl | hrest := hs
  · have htake : Goes [] past (acceptAny [.elseWord]) (acceptAny [.elseWord]) :=
      take_extends (by simp)
    have hp := htake eof ⟨rest, depth, errors⟩ (.inl rfl)
    unfold accept
    cases ho : acceptAny [.elseWord] eof ⟨rest, depth, errors⟩ with
    | done o t =>
      rw [ho] at hp
      exact ⟨hp.1, .inl rfl, fun _ => rfl⟩
    | failed e t =>
      rw [ho] at hp
      exact hp
    | exhausted => trivial
  · cases hrest
    have hnone : accept .elseWord eof (State.extended more past ⟨[], depth, errors⟩) =
        .done none (State.extended more past ⟨[], depth, errors⟩) := by
      cases more with
      | nil => rfl
      | cons t ts =>
        have ht : t.kind ≠ .elseWord := fun hk => he (nextIs_cons.mpr hk)
        simp [accept, acceptAny, State.extended, ht]
    exact ⟨hnone, .inr rfl, by simp⟩

variable (he : ¬ NextIs .elseWord more)

include he

theorem ifStatement_closes (h : ExtendedRules more past r r') :
    Closes more past (ifStatement r) (ifStatement r') := by
  apply condition_extends h .noParenAfterIf .noParenAfterIfCondition
  intro condition
  apply h.statement.bind
  intro yes
  apply (acceptElse_extends he).bind
  intro word
  cases word with
  | none => exact pure_extends _ fun _ hs => hs.1
  | some word =>
    apply Extends.bind (Q := fun _ => Finished more)
    · exact h.statement.weaken (fun _ hs => .inl (hs.2 rfl)) fun _ _ hs => hs
    · intro no
      exact pure_extends _ fun _ hs => hs

omit he in
theorem whileStatement_closes (h : ExtendedRules more past r r') :
    Closes more past (whileStatement r) (whileStatement r') := by
  apply condition_extends h .noParenAfterWhile .noParenAfterWhileCondition
  intro condition
  apply h.statement.bind
  intro body
  exact pure_extends _ fun _ hs => hs

omit he in
theorem forInitial_goes (h : ExtendedRules more past r r') (hm : more = []) :
    Goes more past (forInitial r) (forInitial r') := by
  apply (accept_extends .semicolon).bind
  intro semicolon
  cases semicolon with
  | some semicolon => exact pure_extends none fun _ _ => .inl hm
  | none =>
    apply (take_extends (by simp)).bind
    intro word
    cases word with
    | some word =>
      apply (variableDeclaration_closes h).reopened hm |>.bind
      intro s
      exact pure_extends (some s) fun _ hs => hs
    | none =>
      apply (expressionStatement_closes h).reopened hm |>.bind
      intro s
      exact pure_extends (some s) fun _ hs => hs

omit he in
theorem forStatement_goes (h : ExtendedRules more past r r') (hm : more = []) :
    Goes more past (forStatement r) (forStatement r') := by
  apply (expect_goes .noParenAfterFor (by simp)).bind
  intro _
  apply (forInitial_goes h hm).bind
  intro initial
  apply (expressionUnless_goes h .semicolon).bind
  intro condition
  apply ((expect_closes .noSemicolonAfterLoopCondition).reopened hm).bind
  intro _
  apply (expressionUnless_goes h .rightParen).bind
  intro increment
  apply (expect_goes .noParenAfterForClauses (by simp)).bind
  intro _
  apply (h.statement.reopened hm).bind
  intro body
  exact pure_extends _ fun _ hs => hs

omit he in
theorem breakStatement_closes (keyword : Token) :
    Closes more past (breakStatement keyword : Reader (Stmt Unit)) (breakStatement keyword) := by
  apply loopDepth_extends.bind
  intro depth
  by_cases hdepth : depth = 0
  · simp only [hdepth, if_true]
    exact fail_extends _ _ fun _ hs => hs
  · simp only [hdepth, if_false]
    apply (expect_closes .noSemicolonAfterBreak).bind
    intro _
    exact pure_extends _ fun _ hs => hs

theorem statement_closes (h : ExtendedRules more past r r') :
    Closes more past (statement r) (statement r') := by
  apply peek_extends.bind
  intro token
  apply peekKind_extends.bind
  intro kind
  have hexpression : ∀ kind : Option Kind, Extends more past
      (fun ts => Sealed more ts ∧ ts.head?.map Token.kind = kind) (fun _ => Finished more)
      (expressionStatement r) (expressionStatement r') :=
    fun _ => (expressionStatement_closes h).weaken (fun _ hs => hs.1) fun _ _ hs => hs
  have halone : ∀ {p q : Reader (Stmt Unit)}, (more = [] → Goes more past p q) →
      Extends more past (fun _ => more = []) (fun _ => Finished more) p q :=
    fun hp => (Extends.alone hp).weaken (fun _ hm => hm) fun _ _ hm => .inl hm
  cases kind with
  | none => exact hexpression none
  | some kind =>
    cases kind with
    | forWord =>
      apply next_alone (by simp)
      exact insideLoop_extends (halone (forStatement_goes h))
    | ifWord => exact next_goes (by simp) (ifStatement_closes he h)
    | whileWord => exact next_goes (by simp) (insideLoop_extends (whileStatement_closes h))
    | breakWord => exact next_goes (by simp) (breakStatement_closes token)
    | returnWord =>
      exact next_goes (by simp)
        (beforeSemicolon_closes (expressionUnless_goes h _) _ (Stmt.returnStmt token))
    | leftBrace =>
      apply next_alone (by simp)
      apply halone
      intro hm
      apply (block_goes h hm).bind
      intro body
      exact pure_extends _ fun _ hs => hs
    | printWord =>
      exact next_goes (by simp) (beforeSemicolon_closes (expression_goes h) _ Stmt.printStmt)
    | _ => exact hexpression _

theorem declarationOrFail_closes (h : ExtendedRules more past r r') :
    Closes more past (declarationOrFail r) (declarationOrFail r') := by
  apply acceptFunctionName_extends.bind
  intro name
  cases name with
  | some name =>
    apply (function_alone h).bind
    intro parts
    exact pure_extends _ fun _ hm => .inl hm
  | none =>
    apply (take_extends (by simp)).bind
    intro word
    cases word with
    | some word => exact variableDeclaration_closes h
    | none => exact statement_closes he h

theorem declaration_extends (h : ExtendedRules more past r r') :
    Extends more past (Sealed more) (fun _ => Standing more) (declaration r) (declaration r') :=
  recovering_extends (declarationOrFail_closes he h)

end Rule

theorem rules_extend (he : ¬ NextIs .elseWord more) (past : List Error) {depth depth' : Nat}
    (hd : depth ≤ depth') : ExtendedRules more past (rules depth) (rules depth') := by
  induction depth generalizing depth' with
  | zero =>
    exact ⟨Nat.zero_le _, exhausted_extends, exhausted_extends, exhausted_extends,
      exhausted_extends⟩
  | succ depth ih =>
    obtain ⟨depth', rfl⟩ := Nat.exists_eq_add_one_of_ne_zero (Nat.ne_zero_of_lt hd)
    have h := ih (Nat.le_of_succ_le_succ hd)
    exact ⟨hd, expression_goes h, unary_goes h, statement_closes he h, declaration_extends he h⟩

end ScriptLang.Parsing
