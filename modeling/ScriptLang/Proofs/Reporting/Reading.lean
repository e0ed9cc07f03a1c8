import ScriptLang.Proofs.Reporting.Advancing

namespace ScriptLang.Reporting

open Syntax Syntax.Reader Parsing

variable {α β : Type} {input : Input} {depth : Nat}

structure OrderlyRules (input : Input) (depth : Nat) : Prop where
  ordered : Ordered input
  expression : Orderly input (rules depth).expression
  unary : Orderly input (rules depth).unary
  statement : Orderly input (rules depth).statement
  declaration : Orderly input (rules depth).declaration

section Repetition

variable (hi : Ordered input)
include hi

theorem items_orderly {tooMany : Fault} {item : Reader α} (h : Orderly input item)
    (bound count : Nat) : Orderly input (items tooMany item bound count) := by
  induction bound generalizing count with
  | zero => exact exhausted_orderly
  | succ bound ih =>
    refine (recordIf_orderly _ _).bind fun _ => h.bind fun first => ?_
    refine (accept_orderly hi .comma).bind fun comma => ?_
    cases comma with
    | none => exact pure_orderly [first]
    | some _ => exact (ih (count + 1)).bind fun others => pure_orderly (first :: others)

theorem itemsBeforeParen_orderly {tooMany : Fault} {item : Reader α} (h : Orderly input item)
    (bound : Nat) : Orderly input (itemsBeforeParen tooMany item bound) := by
  refine (check_orderly _).bind fun closed => ?_
  split
  · exact pure_orderly []
  · exact items_orderly hi h bound 0

theorem chain_orderly {kinds : List Kind} {node : Node Unit} {operand : Reader (Expr Unit)}
    (h : Orderly input operand) (bound : Nat) (left : Expr Unit) :
    Orderly input (chain kinds node operand bound left) := by
  induction bound generalizing left with
  | zero => exact exhausted_orderly
  | succ bound ih =>
    refine (acceptAny_orderly hi kinds).bind fun operator => ?_
    cases operator with
    | none => exact pure_orderly left
    | some operator => exact h.bind fun right => ih (node left operator right)

theorem level_orderly {kinds : List Kind} {node : Node Unit} {operand : Reader (Expr Unit)}
    (h : Orderly input operand) (bound : Nat) : Orderly input (level kinds node bound operand) :=
  h.bind fun first => chain_orderly hi h bound first

omit hi in
theorem declarations_orderly {p : Reader (Option (Stmt Unit))} (h : Orderly input p)
    (bound : Nat) : Orderly input (declarations p bound) := by
  induction bound with
  | zero => exact exhausted_orderly
  | succ bound ih =>
    have hstep : Orderly input (do
        let first ← p
        let others ← declarations p bound
        pure (first.toList ++ others) : Reader (List (Stmt Unit))) :=
      h.bind fun first => ih.bind fun others => pure_orderly (first.toList ++ others)
    refine (check_orderly _).bind fun closed => ?_
    cases closed with
    | true => exact pure_orderly []
    | false =>
      refine atEnd_orderly.bind fun ended => ?_
      split
      · exact pure_orderly []
      · exact hstep

theorem beforeSemicolon_orderly {p : Reader α} (h : Orderly input p) (fault : Fault) (f : α → β) :
    Orderly input (do let a ← p; let _ ← expect .semicolon fault; pure (f a)) :=
  h.bind fun a => (expect_orderly hi _ _).bind fun _ => pure_orderly (f a)

end Repetition

theorem block_orderly (h : OrderlyRules input depth) : Orderly input (block (rules depth)) :=
  (declarations_orderly h.declaration _).bind fun body =>
    (expect_orderly h.ordered _ _).bind fun _ => pure_orderly body

theorem function_orderly (h : OrderlyRules input depth) :
    Orderly input (function (rules depth)) := by
  refine (expect_orderly h.ordered _ _).bind fun _ => ?_
  refine (itemsBeforeParen_orderly h.ordered (expect_orderly h.ordered _ _) _).bind fun params => ?_
  refine (expect_orderly h.ordered _ _).bind fun _ => ?_
  refine (expect_orderly h.ordered _ _).bind fun _ => ?_
  exact (outsideLoops_orderly h.ordered (block_orderly h)).bind fun body =>
    pure_orderly (params, body)

theorem primary_orderly (h : OrderlyRules input depth) :
    Orderly input (primary (rules depth)) := by
  have hsingle (e : Expr Unit) : Orderly input (do let _ ← next; pure e) :=
    (pure_orderly e).after_next h.ordered
  have hgroup : Orderly input (do
      let inner ← (rules depth).expression
      let _ ← expect .rightParen .noParenAfterExpression
      pure (.group inner) : Reader (Expr Unit)) :=
    h.expression.bind fun inner => (expect_orderly h.ordered _ _).bind fun _ => pure_orderly _
  refine peek_bind_orderly fun s hs => ?_
  refine peekKind_bind_reports (fun _ => fail_reports rfl) fun t ts k _ _ => ?_
  cases k with
  | falseWord => exact hsingle _ s hs
  | trueWord => exact hsingle _ s hs
  | nilWord => exact hsingle _ s hs
  | number x => exact hsingle _ s hs
  | string x => exact hsingle _ s hs
  | identifier => exact hsingle _ s hs
  | leftParen => exact hgroup.after_next h.ordered s hs
  | funWord =>
    exact Orderly.after_next h.ordered ((function_orderly h).bind fun f => pure_orderly _) s hs
  | _ => exact fail_reports rfl

theorem calls_orderly (h : OrderlyRules input depth) (bound : Nat) (callee : Expr Unit) :
    Orderly input (calls (rules depth) bound callee) := by
  induction bound generalizing callee with
  | zero => exact exhausted_orderly
  | succ bound ih =>
    refine (accept_orderly h.ordered .leftParen).bind fun paren => ?_
    cases paren with
    | none => exact pure_orderly callee
    | some _ =>
      refine (itemsBeforeParen_orderly h.ordered h.expression _).bind fun arguments => ?_
      exact (expect_orderly h.ordered _ _).bind fun paren => ih (.call callee paren arguments)

theorem unary_orderly (h : OrderlyRules input depth) : Orderly input (unary (rules depth)) := by
  refine (acceptAny_orderly h.ordered _).bind fun operator => ?_
  cases operator with
  | none => exact (primary_orderly h).bind fun callee => calls_orderly h _ callee
  | some operator => exact h.unary.bind fun right => pure_orderly _

theorem disjunction_orderly (h : OrderlyRules input depth) :
    Orderly input (disjunction (rules depth)) := by
  have hf : Orderly input (factor (rules depth)) := level_orderly h.ordered (unary_orderly h) _
  have ht : Orderly input (term (rules depth)) := level_orderly h.ordered hf _
  have hc : Orderly input (comparison (rules depth)) := level_orderly h.ordered ht _
  have he : Orderly input (equality (rules depth)) := level_orderly h.ordered hc _
  have ha : Orderly input (conjunction (rules depth)) := level_orderly h.ordered he _
  exact level_orderly h.ordered ha _

/-- An assignment whose equal sign is taken. If it is refused, its error is on the line of that
sign, and what was recorded in the value stands before it. -/
theorem assigned_reports (h : OrderlyRules input depth) {s t : State} {equal : Token}
    (left : Expr Unit) (hs : s.rest <:+ input.tokens) (hk : equal.kind = .equal)
    (hr : s.rest = equal :: t.rest) (he : t.errors = s.errors) :
    Reports input s (((rules depth).expression >>= fun value => assignTo equal value left)
      input.eof t) := by
  have htaken : Advances input s t := .of_next h.ordered hs hr he
  have hline : equal.line = frontLine input s := (frontLine_of_next hr).symm
  have hvalue := h.expression t (htaken.rest.trans hs)
  rw [bind_apply]
  cases ho : (rules depth).expression input.eof t with
  | failed e u =>
    rw [ho] at hvalue
    exact htaken.trans hvalue
  | exhausted => trivial
  | done value u =>
    rw [ho] at hvalue
    have hway : Advances input s u := htaken.trans hvalue
    have hrefused : Advances input s (withError u ⟨.invalidAssignmentTarget, equal⟩) := by
      refine hway.recording hline fun news hnews e hmem => .inr ⟨rfl, hk, news, ?_, hmem⟩
      exact ⟨depth, t, value, u, hr ▸ hs, ho, he ▸ hnews⟩
    cases left with
    | ident _ name => exact hway
    | _ => exact hrefused

theorem expression_orderly (h : OrderlyRules input depth) :
    Orderly input (expression (rules depth)) := by
  refine (disjunction_orderly h).bind fun left s hs => ?_
  refine accept_bind_reports (.refl s) fun equal t hk hr he => ?_
  exact assigned_reports h left hs hk hr he

theorem expressionUnless_orderly (h : OrderlyRules input depth) (kind : Kind) :
    Orderly input (expressionUnless (rules depth) kind) := by
  refine (check_orderly _).bind fun absent => ?_
  split
  · exact pure_orderly none
  · exact (expression_orderly h).bind fun e => pure_orderly (some e)

theorem variableDeclaration_orderly (h : OrderlyRules input depth) :
    Orderly input (variableDeclaration (rules depth)) := by
  refine (expect_orderly h.ordered _ _).bind fun name => ?_
  refine (accept_orderly h.ordered .equal).bind fun equal => ?_
  cases equal with
  | none => exact (expect_orderly h.ordered _ _).bind fun _ => pure_orderly _
  | some _ => exact beforeSemicolon_orderly h.ordered (expression_orderly h) _ _

theorem expressionStatement_orderly (h : OrderlyRules input depth) :
    Orderly input (expressionStatement (rules depth)) :=
  beforeSemicolon_orderly h.ordered (expression_orderly h) _ _

theorem condition_orderly (h : OrderlyRules input depth) {f : Expr Unit → Reader β}
    (fault fault' : Fault) (hf : ∀ condition, Orderly input (f condition)) :
    Orderly input (do
      let _ ← expect .leftParen fault
      let condition ← expression (rules depth)
      let _ ← expect .rightParen fault'
      f condition) := by
  refine (expect_orderly h.ordered _ _).bind fun _ => ?_
  refine (expression_orderly h).bind fun condition => ?_
  exact (expect_orderly h.ordered _ _).bind fun _ => hf condition

theorem ifStatement_orderly (h : OrderlyRules input depth) :
    Orderly input (ifStatement (rules depth)) := by
  refine condition_orderly h _ _ fun condition => h.statement.bind fun yes => ?_
  refine (accept_orderly h.ordered .elseWord).bind fun other => ?_
  cases other with
  | none => exact pure_orderly _
  | some _ => exact h.statement.bind fun no => pure_orderly _

theorem whileStatement_orderly (h : OrderlyRules input depth) :
    Orderly input (whileStatement (rules depth)) :=
  condition_orderly h _ _ fun _ => h.statement.bind fun _ => pure_orderly _

theorem forInitial_orderly (h : OrderlyRules input depth) :
    Orderly input (forInitial (rules depth)) := by
  refine (accept_orderly h.ordered .semicolon).bind fun semicolon => ?_
  cases semicolon with
  | some _ => exact pure_orderly none
  | none =>
    refine (accept_orderly h.ordered .varWord).bind fun word => ?_
    cases word with
    | some _ => exact (variableDeclaration_orderly h).bind fun s => pure_orderly (some s)
    | none => exact (expressionStatement_orderly h).bind fun s => pure_orderly (some s)

theorem forStatement_orderly (h : OrderlyRules input depth) :
    Orderly input (forStatement (rules depth)) := by
  refine (expect_orderly h.ordered _ _).bind fun _ => ?_
  refine (forInitial_orderly h).bind fun initial => ?_
  refine (expressionUnless_orderly h _).bind fun condition => ?_
  refine (expect_orderly h.ordered _ _).bind fun _ => ?_
  refine (expressionUnless_orderly h _).bind fun increment => ?_
  refine (expect_orderly h.ordered _ _).bind fun _ => ?_
  exact h.statement.bind fun body => pure_orderly (forLoop initial condition increment body)

theorem returnStatement_orderly (h : OrderlyRules input depth) (keyword : Token) :
    Orderly input (returnStatement (rules depth) keyword) :=
  beforeSemicolon_orderly h.ordered (expressionUnless_orderly h _) _ _

/-- A `break` outside of loops is an error at its word, which is already taken. -/
theorem break_reports (hi : Ordered input) {s t : State} {word : Token}
    (hs : s.rest <:+ input.tokens) (hr : s.rest = word :: t.rest) (he : t.errors = s.errors) :
    Reports input s ((breakStatement word : Reader (Stmt Unit)) input.eof t) := by
  have htaken : Advances input s t := .of_next hi hs hr he
  have hline : word.line = frontLine input s := (frontLine_of_next hr).symm
  have hend : Orderly input (do
      let _ ← expect .semicolon .noSemicolonAfterBreak
      pure (.breakStmt word) : Reader (Stmt Unit)) :=
    (expect_orderly hi _ _).bind fun _ => pure_orderly _
  change Reports input s ((if t.loopDepth = 0 then fail .breakOutsideLoop word else _ :
    Reader (Stmt Unit)) input.eof t)
  split
  · refine htaken.recording hline fun news hnews e hmem => ?_
    rw [he] at hnews
    rw [List.self_eq_append_right.mp hnews] at hmem
    cases hmem
  · exact (hend t (htaken.rest.trans hs)).after htaken

theorem statement_orderly (h : OrderlyRules input depth) :
    Orderly input (statement (rules depth)) := by
  have hfor : Orderly input (insideLoop (forStatement (rules depth))) :=
    insideLoop_orderly h.ordered (forStatement_orderly h)
  have hwhile : Orderly input (insideLoop (whileStatement (rules depth))) :=
    insideLoop_orderly h.ordered (whileStatement_orderly h)
  have hblock : Orderly input (do
      let body ← block (rules depth)
      pure (.block body) : Reader (Stmt Unit)) :=
    (block_orderly h).bind fun body => pure_orderly _
  have hprint : Orderly input (printStatement (rules depth)) :=
    beforeSemicolon_orderly h.ordered (expression_orderly h) _ _
  have hplain := expressionStatement_orderly h
  refine peek_bind_orderly fun s hs => ?_
  refine peekKind_bind_reports (fun _ => hplain s hs) fun word ts k hr _ => ?_
  cases k with
  | forWord => exact hfor.after_next h.ordered s hs
  | ifWord => exact (ifStatement_orderly h).after_next h.ordered s hs
  | whileWord => exact hwhile.after_next h.ordered s hs
  | breakWord =>
    refine next_bind_reports hr fun t ht he => ?_
    rw [hr, List.headD_cons]
    exact break_reports h.ordered hs (ht ▸ hr) he
  | returnWord => exact (returnStatement_orderly h _).after_next h.ordered s hs
  | leftBrace => exact hblock.after_next h.ordered s hs
  | printWord => exact hprint.after_next h.ordered s hs
  | _ => exact hplain s hs

theorem acceptFunctionName_orderly (hi : Ordered input) : Orderly input acceptFunctionName := by
  intro s hs
  unfold acceptFunctionName
  split
  · next word name ts hr =>
    split
    · exact .of_rest hi hs (hr ▸ ⟨[word, name], rfl⟩) rfl
    · exact .refl s
  · exact .refl s

theorem declarationOrFail_orderly (h : OrderlyRules input depth) :
    Orderly input (declarationOrFail (rules depth)) := by
  refine (acceptFunctionName_orderly h.ordered).bind fun name => ?_
  cases name with
  | some name => exact (function_orderly h).bind fun f => pure_orderly _
  | none =>
    refine (accept_orderly h.ordered .varWord).bind fun word => ?_
    cases word with
    | some _ => exact variableDeclaration_orderly h
    | none => exact statement_orderly h

theorem recovering_orderly (hi : Ordered input) {p : Reader (Stmt Unit)} (h : Orderly input p) :
    Orderly input (recovering p) := by
  intro s hs
  have hp := h s hs
  unfold recovering
  cases ho : p input.eof s with
  | done st t =>
    rw [ho] at hp
    exact hp
  | exhausted => trivial
  | failed e t =>
    rw [ho] at hp
    exact hp.trans (.of_rest hi (hp.rest.trans hs) (recover_suffix t.rest) rfl)

theorem rules_orderly (hi : Ordered input) (depth : Nat) : OrderlyRules input depth := by
  induction depth with
  | zero =>
    exact ⟨hi, exhausted_orderly, exhausted_orderly, exhausted_orderly, exhausted_orderly⟩
  | succ depth ih =>
    exact ⟨hi, expression_orderly ih, unary_orderly ih, statement_orderly ih,
      recovering_orderly hi (declarationOrFail_orderly ih)⟩

theorem program_orderly {p : Reader (Option (Stmt Unit))} (h : Orderly input p) (bound : Nat) :
    Orderly input (program p bound) := by
  induction bound with
  | zero => exact exhausted_orderly
  | succ bound ih =>
    refine atEnd_orderly.bind fun ended => ?_
    split
    · exact pure_orderly []
    · exact h.bind fun first => ih.bind fun others => pure_orderly (first.toList ++ others)

theorem Advances.follow {s : State} (h : Advances input input.start s) :
    s.errors.Pairwise (Follows input) := by
  obtain ⟨es, hes, hp, -⟩ := h.errors
  rw [hes]
  exact hp

theorem parseProgram_errors_follow (hi : Ordered input) {es : List Error}
    (h : parseProgram input = .error es) : es.Pairwise (Follows input) := by
  have hdeclaration : Orderly input (declaration input.rules) :=
    recovering_orderly hi (declarationOrFail_orderly (rules_orderly hi _))
  have hrun := program_orderly hdeclaration (input.tokens.length + 1) input.start
    (List.suffix_refl _)
  unfold parseProgram at h
  split at h
  · next statements s ho =>
    rw [ho] at hrun
    split at h
    · cases h
    · cases h
      exact hrun.follow
  · next e s ho =>
    rw [ho] at hrun
    cases h
    exact hrun.follow
  · cases h
    exact .nil

end ScriptLang.Reporting
