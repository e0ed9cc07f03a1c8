import ScriptLang.Proofs.Nesting.Counting

namespace ScriptLang.Nesting

open Syntax hiding breakStatement recovering
open Syntax.Reader (items itemsBeforeParen)
open Parsing Watched

variable {α β : Type}

section Repetition

variable {bound bound' : Nat}

theorem items_watches {tooMany : Fault} (hf : tooMany ≠ .breakOutsideLoop) {w : Watched α}
    {p : Reader α} (h : Watches w p) (bound count : Nat) :
    Watches (items tooMany w bound count) (items tooMany p bound count) := by
  induction bound generalizing count with
  | zero => exact exhausted_quiet.watched
  | succ bound ih =>
    refine (recordIf_quiet hf _).watched.bind fun _ => h.bind fun first => ?_
    refine (accept_quiet .comma).watched.bind fun comma => ?_
    cases comma with
    | none => exact pure_watches [first]
    | some _ => exact (ih (count + 1)).bind fun others => pure_watches (first :: others)

theorem itemsBeforeParen_watches {tooMany : Fault} (hf : tooMany ≠ .breakOutsideLoop)
    {w : Watched α} {p : Reader α} (h : Watches w p) (hb : bound = bound') :
    Watches (itemsBeforeParen tooMany w bound) (itemsBeforeParen tooMany p bound') := by
  subst hb
  refine (check_quiet _).watched.bind fun closed => ?_
  cases closed with
  | true => exact pure_watches []
  | false => exact items_watches hf h bound 0

theorem chain_watches {kinds : List Kind} {node : Node Unit} {w : Watched (Expr Unit)}
    {p : Reader (Expr Unit)} (h : Watches w p) (bound : Nat) (left : Expr Unit) :
    Watches (chain kinds node w bound left) (chain kinds node p bound left) := by
  induction bound generalizing left with
  | zero => exact exhausted_quiet.watched
  | succ bound ih =>
    refine (acceptAny_quiet kinds).watched.bind fun operator => ?_
    cases operator with
    | none => exact pure_watches left
    | some operator => exact h.bind fun right => ih (node left operator right)

theorem level_watches {kinds : List Kind} {node : Node Unit} {w : Watched (Expr Unit)}
    {p : Reader (Expr Unit)} (h : Watches w p) (hb : bound = bound') :
    Watches (level kinds node bound w) (level kinds node bound' p) := by
  subst hb
  exact h.bind fun first => chain_watches h bound first

theorem declarations_watches {w : Watched (Option (Stmt Unit))} {p : Reader (Option (Stmt Unit))}
    (h : Watches w p) (bound : Nat) :
    Watches (declarations w bound) (declarations p bound) := by
  induction bound with
  | zero => exact exhausted_quiet.watched
  | succ bound ih =>
    have hmore : Watches (do
        let first ← w
        let others ← declarations w bound
        pure (first.toList ++ others)) (do
        let first ← p
        let others ← declarations p bound
        pure (first.toList ++ others)) :=
      h.bind fun first => ih.bind fun others => pure_watches (first.toList ++ others)
    refine (check_quiet _).watched.bind fun closed => ?_
    cases closed with
    | true => exact pure_watches []
    | false =>
      refine atEnd_quiet.watched.bind fun ended => ?_
      cases ended with
      | true => exact pure_watches []
      | false => exact hmore

theorem beforeSemicolon_watches {w : Watched α} {p : Reader α} (h : Watches w p) {fault : Fault}
    (hf : fault ≠ .breakOutsideLoop) (f : α → β) :
    Watches (do let a ← w; let _ ← silent (Reader.expect .semicolon fault); pure (f a))
      (do let a ← p; let _ ← Reader.expect .semicolon fault; pure (f a)) :=
  h.bind fun a => (expect_watches hf _).bind fun _ => pure_watches (f a)

end Repetition

section Rules

variable {w : Rules Watched Unit} {r : Rules Reader Unit} (h : WatchesRules w r)
include h

theorem block_watches : Watches (block w) (block r) := by
  rw [block, block, h.bound]
  exact (declarations_watches h.declaration r.bound).bind fun body =>
    (expect_watches (by decide) _).bind fun _ => pure_watches body

theorem function_watches : Watches (function w) (function r) := by
  refine (expect_watches (by decide) _).bind fun _ => ?_
  refine (itemsBeforeParen_watches (by decide) (expect_watches (by decide) _) h.bound).bind
    fun params => ?_
  refine (expect_watches (by decide) _).bind fun _ => ?_
  refine (expect_watches (by decide) _).bind fun _ => ?_
  exact (outsideLoops_watches (block_watches h)).bind fun body => pure_watches (params, body)

theorem primary_watches : Watches (primary w) (primary r) := by
  have hsingle (e : Expr Unit) : Watches (do let _ ← silent Reader.next; pure e)
      (do let _ ← Reader.next; pure e) :=
    next_quiet.watched.bind fun _ => pure_watches e
  refine peek_watches fun token kind _ => ?_
  have hfail : Watches (silent (Reader.fail .noExpression token : Reader (Expr Unit)))
      (Reader.fail .noExpression token) := (fail_quiet (by decide) token).watched
  cases kind with
  | none => exact hfail
  | some k =>
    cases k with
    | falseWord => exact hsingle _
    | trueWord => exact hsingle _
    | nilWord => exact hsingle _
    | number x => exact hsingle _
    | string x => exact hsingle _
    | identifier =>
      exact next_quiet.watched.bind fun _ => mark_watches.bind fun _ => pure_watches _
    | leftParen =>
      exact next_quiet.watched.bind fun _ => h.expression.bind fun inner =>
        (expect_watches (by decide) _).bind fun _ => pure_watches _
    | funWord =>
      exact next_quiet.watched.bind fun _ => (function_watches h).bind fun f => pure_watches _
    | _ => exact hfail

theorem calls_watches (bound : Nat) (callee : Expr Unit) :
    Watches (calls w bound callee) (calls r bound callee) := by
  induction bound generalizing callee with
  | zero => exact exhausted_quiet.watched
  | succ bound ih =>
    refine (accept_quiet .leftParen).watched.bind fun paren => ?_
    cases paren with
    | none => exact pure_watches callee
    | some _ =>
      refine (itemsBeforeParen_watches (by decide) h.expression h.bound).bind fun arguments => ?_
      exact (expect_watches (by decide) _).bind fun paren => ih (.call callee paren arguments)

theorem unary_watches : Watches (unary w) (unary r) := by
  refine (acceptAny_quiet _).watched.bind fun operator => ?_
  cases operator with
  | none =>
    rw [call, h.bound]
    exact (primary_watches h).bind fun callee => calls_watches h r.bound callee
  | some operator => exact h.unary.bind fun right => pure_watches _

theorem disjunction_watches : Watches (disjunction w) (disjunction r) := by
  have hf : Watches (factor w) (factor r) := level_watches (unary_watches h) h.bound
  have ht : Watches (term w) (term r) := level_watches hf h.bound
  have hc : Watches (comparison w) (comparison r) := level_watches ht h.bound
  have he : Watches (equality w) (equality r) := level_watches hc h.bound
  have ha : Watches (conjunction w) (conjunction r) := level_watches he h.bound
  exact level_watches ha h.bound

theorem expression_watches : Watches (expression w) (expression r) := by
  refine (disjunction_watches h).bind fun left => ?_
  refine (accept_quiet .equal).watched.bind fun equal => ?_
  cases equal with
  | none => exact pure_watches left
  | some equal =>
    exact h.expression.bind fun value => assignTo_watches equal value left

theorem expressionUnless_watches (kind : Kind) :
    Watches (expressionUnless w kind) (expressionUnless r kind) := by
  refine (check_quiet _).watched.bind fun absent => ?_
  cases absent with
  | true => exact pure_watches none
  | false => exact (expression_watches h).bind fun e => pure_watches (some e)

theorem variableDeclaration_watches :
    Watches (variableDeclaration w) (variableDeclaration r) := by
  refine (expect_watches (by decide) _).bind fun name => ?_
  refine (accept_quiet .equal).watched.bind fun equal => ?_
  cases equal with
  | none => exact (expect_watches (by decide) _).bind fun _ => pure_watches _
  | some _ => exact beforeSemicolon_watches (expression_watches h) (by decide) _

theorem expressionStatement_watches :
    Watches (expressionStatement w) (expressionStatement r) :=
  beforeSemicolon_watches (expression_watches h) (by decide) _

theorem condition_watches {f : Expr Unit → Watched β} {g : Expr Unit → Reader β}
    {fault fault' : Fault} (hf : fault ≠ .breakOutsideLoop) (hf' : fault' ≠ .breakOutsideLoop)
    (hfg : ∀ condition, Watches (f condition) (g condition)) :
    Watches (do
      let _ ← silent (Reader.expect .leftParen fault)
      let condition ← expression w
      let _ ← silent (Reader.expect .rightParen fault')
      f condition) (do
      let _ ← Reader.expect .leftParen fault
      let condition ← expression r
      let _ ← Reader.expect .rightParen fault'
      g condition) := by
  refine (expect_watches hf _).bind fun _ => ?_
  refine (expression_watches h).bind fun condition => ?_
  exact (expect_watches hf' _).bind fun _ => hfg condition

theorem ifStatement_watches : Watches (ifStatement w) (ifStatement r) := by
  refine condition_watches h (by decide) (by decide) fun condition => ?_
  refine h.statement.bind fun yes => (accept_quiet .elseWord).watched.bind fun other => ?_
  cases other with
  | none => exact pure_watches _
  | some _ => exact h.statement.bind fun no => pure_watches _

theorem whileStatement_watches : Watches (whileStatement w) (whileStatement r) :=
  condition_watches h (by decide) (by decide) fun _ => h.statement.bind fun _ => pure_watches _

theorem forInitial_watches : Watches (forInitial w) (forInitial r) := by
  refine (accept_quiet .semicolon).watched.bind fun semicolon => ?_
  cases semicolon with
  | some _ => exact pure_watches none
  | none =>
    refine (accept_quiet .varWord).watched.bind fun word => ?_
    cases word with
    | some _ => exact (variableDeclaration_watches h).bind fun s => pure_watches (some s)
    | none => exact (expressionStatement_watches h).bind fun s => pure_watches (some s)

theorem forStatement_watches : Watches (forStatement w) (forStatement r) := by
  refine (expect_watches (by decide) _).bind fun _ => ?_
  refine (forInitial_watches h).bind fun initial => ?_
  refine (expressionUnless_watches h _).bind fun condition => ?_
  refine (expect_watches (by decide) _).bind fun _ => ?_
  refine (expressionUnless_watches h _).bind fun increment => ?_
  refine (expect_watches (by decide) _).bind fun _ => ?_
  exact h.statement.bind fun body => pure_watches _

theorem statement_watches : Watches (statement w) (statement r) := by
  have hplain := expressionStatement_watches h
  -- only a `break` and the two loops have to do with the count
  refine peek_watches fun word kind hkind => ?_
  cases kind with
  | none => exact hplain
  | some k =>
    cases k with
    | forWord =>
      exact next_quiet.watched.bind fun _ => insideLoop_watches (forStatement_watches h)
    | ifWord => exact next_quiet.watched.bind fun _ => ifStatement_watches h
    | whileWord =>
      exact next_quiet.watched.bind fun _ => insideLoop_watches (whileStatement_watches h)
    | breakWord =>
      exact next_quiet.watched.bind fun _ => breakStatement_watches (hkind .breakWord rfl)
    | returnWord =>
      exact next_quiet.watched.bind fun _ =>
        beforeSemicolon_watches (expressionUnless_watches h _) (by decide) _
    | leftBrace =>
      exact next_quiet.watched.bind fun _ => (block_watches h).bind fun body => pure_watches _
    | printWord =>
      exact next_quiet.watched.bind fun _ =>
        beforeSemicolon_watches (expression_watches h) (by decide) _
    | _ => exact hplain

theorem declaration_watches : Watches (declaration w) (declaration r) := by
  refine recovering_watches (acceptFunctionName_quiet.watched.bind fun name => ?_)
  cases name with
  | some name => exact (function_watches h).bind fun f => pure_watches _
  | none =>
    refine (accept_quiet .varWord).watched.bind fun word => ?_
    cases word with
    | some _ => exact variableDeclaration_watches h
    | none => exact statement_watches h

end Rules

theorem rules_watch (depth : Nat) : WatchesRules (rulesIn Watched depth) (rules depth) := by
  induction depth with
  | zero =>
    exact ⟨rfl, exhausted_quiet.watched, exhausted_quiet.watched, exhausted_quiet.watched,
      exhausted_quiet.watched⟩
  | succ depth ih =>
    exact ⟨rfl, expression_watches ih, unary_watches ih, statement_watches ih,
      declaration_watches ih⟩

theorem program_watches {w : Watched (Option (Stmt Unit))} {p : Reader (Option (Stmt Unit))}
    (h : Watches w p) (bound : Nat) : Watches (program w bound) (program p bound) := by
  induction bound with
  | zero => exact exhausted_quiet.watched
  | succ bound ih =>
    refine atEnd_quiet.watched.bind fun ended => ?_
    cases ended with
    | true => exact pure_watches []
    | false =>
      exact h.bind fun first => ih.bind fun others => pure_watches (first.toList ++ others)

section Restoring

/-- A reader ends, and with the number of open loops it was begun with, whatever it ends in. -/
def Restores (s : State) : Outcome α → Prop
  | .done _ t => t.loopDepth = s.loopDepth
  | .failed _ t => t.loopDepth = s.loopDepth
  | .exhausted => False

variable {depth : Nat} {eof : Token} {s : State}

theorem stays_restores {n c : Nat} {o : Outcome α} (h : Stays n c s o)
    (hn : s.rest.length < n) : Restores s o := by
  cases o with
  | done a t => exact h.1.loopDepth
  | failed e t => exact h.loopDepth
  | exhausted => exact Nat.not_le_of_lt hn h

theorem recovering_restores {p : Reader (Stmt Unit)} (h : Restores s (p eof s)) :
    Restores s (Syntax.recovering p eof s) := by
  unfold Syntax.recovering
  cases ho : p eof s with
  | done stmt t =>
    rw [ho] at h
    exact h
  | failed e t =>
    rw [ho] at h
    exact h
  | exhausted =>
    rw [ho] at h
    exact h

end Restoring

/-- Every error in a program, in order. -/
def errors (input : Input) : List Error :=
  match Syntax.parseProgram input with
  | .ok _ => []
  | .error es => es

theorem watchedProgram_watches (input : Input) : Watches (watchedProgram input)
    (program (declaration input.rules) (input.tokens.length + 1)) :=
  program_watches (declaration_watches (rules_watch _)) _

theorem programEvents_counted (input : Input) :
    (∀ e ∈ programEvents input, e.Sound) ∧
      breakErrors (errors input) = misplaced (programEvents input) := by
  have hc := (watchedProgram_watches input).counts [] input.eof input.start rfl
  have hne := program_never_exhausted input
  unfold errors Syntax.parseProgram
  change Counts _ (programEvents input) _ at hc
  cases ho : program (declaration input.rules) (input.tokens.length + 1) input.eof
      input.start with
  | done statements t =>
    rw [ho] at hc
    refine ⟨hc.sound, Eq.trans (congrArg breakErrors ?_) hc.errors⟩
    simp only
    cases t.errors with
    | nil => rfl
    | cons e es => rfl
  | failed e t =>
    rw [ho] at hc
    exact ⟨hc.sound, hc.errors⟩
  | exhausted => exact absurd ho hne

end ScriptLang.Nesting
