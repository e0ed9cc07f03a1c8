import ScriptLang.Proofs.Lines.Reading
import ScriptLang.Syntax.Program

namespace ScriptLang.Syntax

variable {α β : Type} (f : Nat → Nat)

def Error.moved (e : Error) : Error :=
  { e with token := e.token.moved f }

def State.moved (s : State) : State :=
  { s with rest := s.rest.map (Token.moved f), errors := s.errors.map (Error.moved f) }

def Outcome.moved (g : α → α) : Outcome α → Outcome α
  | .done a s => .done (g a) (s.moved f)
  | .failed e s => .failed (e.moved f) (s.moved f)
  | .exhausted => .exhausted

namespace Reader

/-- The reader `q` does with tokens whose lines are moved what `p` does with the tokens themselves:
its errors stand at the same tokens. -/
def Moves (g : α → α) (p q : Reader α) : Prop :=
  ∀ eof s, q (eof.moved f) (s.moved f) = (p eof s).moved f g

variable {f} {g : α → α} {g' : β → β}

section Combination

theorem pure_moves (a : α) : Moves f g (pure a) (pure (g a)) :=
  fun _ _ => rfl

theorem Moves.bind {p q : Reader α} {k k' : α → Reader β} (hp : Moves f g p q)
    (hk : ∀ a, Moves f g' (k a) (k' (g a))) : Moves f g' (p >>= k) (q >>= k') := by
  intro eof s
  rw [bind_apply, bind_apply, hp eof s]
  cases p eof s with
  | done a t => exact hk a eof t
  | failed e t => rfl
  | exhausted => rfl

theorem exhausted_moves : Moves f g exhausted exhausted :=
  fun _ _ => rfl

theorem fail_moves (fault : Fault) (token : Token) :
    Moves f g (fail fault token) (fail fault (token.moved f)) :=
  fun _ _ => rfl

end Combination

section Looking

variable (s : State)

theorem head_moved (eof : Token) :
    (s.moved f).rest.headD (eof.moved f) = (s.rest.headD eof).moved f := by
  cases h : s.rest <;> simp [State.moved, h]

theorem kind_moved : (s.moved f).rest.head?.map Token.kind = s.rest.head?.map Token.kind := by
  cases h : s.rest <;> simp [State.moved, h, Token.moved]

theorem peek_moves : Moves f (Token.moved f) peek peek :=
  fun eof s => congrArg (Outcome.done · (s.moved f)) (head_moved s eof)

theorem peekKind_moves : Moves f id peekKind peekKind :=
  fun _ s => congrArg (Outcome.done · (s.moved f)) (kind_moved s)

theorem atEnd_moves : Moves f id atEnd atEnd :=
  fun _ s => congrArg (Outcome.done · (s.moved f)) (List.isEmpty_map (l := s.rest))

theorem check_moves (kind : Kind) : Moves f id (check kind) (check kind) := by
  intro eof s
  have hkind : (s.moved f).rest.head?.any (fun t => t.kind = kind) =
      s.rest.head?.any (fun t => t.kind = kind) := by
    cases h : s.rest <;> simp [State.moved, h, Token.moved]
  exact congrArg (Outcome.done · (s.moved f)) hkind

theorem loopDepth_moves : Moves f id loopDepth loopDepth :=
  fun _ _ => rfl

end Looking

section Taking

theorem acceptAny_moves (kinds : List Kind) :
    Moves f (Option.map (Token.moved f)) (acceptAny kinds) (acceptAny kinds) := by
  intro eof s
  obtain ⟨rest, depth, errors⟩ := s
  cases rest with
  | nil => rfl
  | cons t ts =>
    by_cases ht : t.kind ∈ kinds
    · simp [acceptAny, State.moved, Outcome.moved, Token.moved, ht]
    · simp [acceptAny, State.moved, Outcome.moved, Token.moved, ht]

theorem accept_moves (kind : Kind) :
    Moves f (Option.map (Token.moved f)) (accept kind) (accept kind) :=
  acceptAny_moves [kind]

theorem next_moves : Moves f (Option.map (Token.moved f)) next next := by
  intro eof s
  obtain ⟨rest, depth, errors⟩ := s
  cases rest <;> rfl

theorem expect_moves (kind : Kind) (fault : Fault) :
    Moves f (Token.moved f) (expect kind fault) (expect kind fault) := by
  apply (accept_moves kind).bind
  intro taken
  cases taken with
  | none => exact peek_moves.bind fun token => fail_moves fault token
  | some t => exact pure_moves t

theorem acceptFunctionName_moves :
    Moves f (Option.map (Token.moved f)) acceptFunctionName acceptFunctionName := by
  intro eof s
  obtain ⟨rest, depth, errors⟩ := s
  cases rest with
  | nil => rfl
  | cons word rest =>
    cases rest with
    | nil => rfl
    | cons name ts =>
      by_cases h : word.kind = .funWord ∧ name.kind = .identifier
      · simp [acceptFunctionName, State.moved, Outcome.moved, Token.moved, h]
      · simp [acceptFunctionName, State.moved, Outcome.moved, Token.moved, h]

end Taking

section Recording

theorem record_moves (fault : Fault) (token : Token) :
    Moves f id (record fault token) (record fault (token.moved f)) := by
  intro eof s
  simp [record, State.moved, Outcome.moved, Error.moved]

theorem recordIf_moves (condition : Bool) (fault : Fault) :
    Moves f id (recordIf condition fault) (recordIf condition fault) := by
  cases condition with
  | false => exact pure_moves ()
  | true => exact peek_moves.bind fun token => record_moves fault token

theorem leaving_moves {p q : Reader α} {h h' : State → State} (hp : Moves f g p q)
    (hh : ∀ s, h' (s.moved f) = (h s).moved f) : Moves f g (leaving p h) (leaving q h') := by
  intro eof s
  simp only [leaving, hp eof s]
  cases p eof s with
  | done a t => simp only [Outcome.moved, hh]
  | failed e t => simp only [Outcome.moved, hh]
  | exhausted => rfl

theorem insideLoop_moves {p q : Reader α} (hp : Moves f g p q) :
    Moves f g (insideLoop p) (insideLoop q) :=
  fun eof s => leaving_moves hp (h := fun t => { t with loopDepth := t.loopDepth - 1 })
    (fun _ => rfl) eof { s with loopDepth := s.loopDepth + 1 }

theorem outsideLoops_moves {p q : Reader α} (hp : Moves f g p q) :
    Moves f g (outsideLoops p) (outsideLoops q) :=
  fun eof s => leaving_moves hp (h := fun t => { t with loopDepth := s.loopDepth })
    (fun _ => rfl) eof { s with loopDepth := 0 }

end Recording

section Items

theorem items_moves {tooMany : Fault} {item : Reader α} (h : Moves f g item item)
    (bound count : Nat) :
    Moves f (List.map g) (items tooMany item bound count) (items tooMany item bound count) := by
  induction bound generalizing count with
  | zero => exact exhausted_moves
  | succ bound ih =>
    apply (recordIf_moves _ tooMany).bind
    intro _
    apply h.bind
    intro first
    apply (accept_moves .comma).bind
    intro comma
    cases comma with
    | none => exact pure_moves [first]
    | some t => exact (ih (count + 1)).bind fun others => pure_moves (first :: others)

theorem itemsBeforeParen_moves {tooMany : Fault} {item : Reader α} (h : Moves f g item item)
    (bound : Nat) :
    Moves f (List.map g) (itemsBeforeParen tooMany item bound)
      (itemsBeforeParen tooMany item bound) := by
  apply (check_moves .rightParen).bind
  intro found
  cases found with
  | false => exact items_moves h bound 0
  | true => exact pure_moves []

end Items

end Reader

open Reader

section Expressions

variable {f} {r : Rules Reader Unit}

structure MovedRules (f : Nat → Nat) (r : Rules Reader Unit) : Prop where
  expression : Moves f (Expr.moved f) r.expression r.expression
  unary : Moves f (Expr.moved f) r.unary r.unary
  statement : Moves f (Stmt.moved f) r.statement r.statement
  declaration : Moves f (Option.map (Stmt.moved f)) r.declaration r.declaration

theorem chain_moves {kinds : List Kind} {node : Node Unit} {operand : Reader (Expr Unit)}
    (hnode : ∀ left operator right, (node left operator right).moved f =
      node (left.moved f) (operator.moved f) (right.moved f))
    (h : Moves f (Expr.moved f) operand operand) (bound : Nat) (left : Expr Unit) :
    Moves f (Expr.moved f) (chain kinds node operand bound left)
      (chain kinds node operand bound (left.moved f)) := by
  induction bound generalizing left with
  | zero => exact exhausted_moves
  | succ bound ih =>
    apply (acceptAny_moves kinds).bind
    intro operator
    cases operator with
    | none => exact pure_moves left
    | some operator =>
      apply h.bind
      intro right
      have hrest := ih (node left operator right)
      rwa [hnode] at hrest

theorem level_moves {kinds : List Kind} {node : Node Unit} {bound : Nat}
    {operand : Reader (Expr Unit)}
    (hnode : ∀ left operator right, (node left operator right).moved f =
      node (left.moved f) (operator.moved f) (right.moved f))
    (h : Moves f (Expr.moved f) operand operand) :
    Moves f (Expr.moved f) (level kinds node bound operand) (level kinds node bound operand) :=
  h.bind fun first => chain_moves hnode h bound first

/-- The statements after a declaration follow it, if it was not dropped. -/
theorem collected_moves (first : Option (Stmt Unit)) (others : List (Stmt Unit)) :
    Moves f (Stmt.allMoved f) (pure (first.toList ++ others))
      (pure ((first.map (Stmt.moved f)).toList ++ Stmt.allMoved f others)) := by
  cases first with
  | none => exact pure_moves others
  | some s => exact pure_moves (s :: others)

theorem declarations_moves {declaration : Reader (Option (Stmt Unit))}
    (h : Moves f (Option.map (Stmt.moved f)) declaration declaration) (bound : Nat) :
    Moves f (Stmt.allMoved f) (declarations declaration bound)
      (declarations declaration bound) := by
  induction bound with
  | zero => exact exhausted_moves
  | succ bound ih =>
    apply (check_moves .rightBrace).bind
    intro closed
    apply atEnd_moves.bind
    intro ended
    by_cases hend : closed || ended
    · simp only [id, hend, if_true]
      exact pure_moves []
    · simp only [id, hend]
      apply h.bind
      intro first
      exact ih.bind fun others => collected_moves first others

theorem block_moves (h : MovedRules f r) : Moves f (Stmt.allMoved f) (block r) (block r) := by
  apply (declarations_moves h.declaration r.bound).bind
  intro body
  apply (expect_moves _ _).bind
  intro _
  exact pure_moves body

def movedFunction (f : Nat → Nat) (parts : List Token × List (Stmt Unit)) :
    List Token × List (Stmt Unit) :=
  (parts.1.map (Token.moved f), Stmt.allMoved f parts.2)

theorem function_moves (h : MovedRules f r) :
    Moves f (movedFunction f) (function r) (function r) := by
  apply (expect_moves _ _).bind
  intro _
  apply (itemsBeforeParen_moves (expect_moves _ _) r.bound).bind
  intro params
  apply (expect_moves _ _).bind
  intro _
  apply (expect_moves _ _).bind
  intro _
  apply (outsideLoops_moves (block_moves h)).bind
  intro body
  exact pure_moves (params, body)

theorem primary_moves (h : MovedRules f r) : Moves f (Expr.moved f) (primary r) (primary r) := by
  apply peek_moves.bind
  intro token
  apply peekKind_moves.bind
  intro kind
  have htaken : ∀ e : Expr Unit,
      Moves f (Expr.moved f) (do let _ ← next; pure e) (do let _ ← next; pure (e.moved f)) :=
    fun e => next_moves.bind fun _ => pure_moves e
  cases kind with
  | none => exact fail_moves .noExpression token
  | some kind =>
    cases kind with
    | falseWord => exact htaken (.literal (.boolean false))
    | trueWord => exact htaken (.literal (.boolean true))
    | nilWord => exact htaken (.literal .nil)
    | number x => exact htaken (.literal (.number x))
    | string s => exact htaken (.literal (.string s))
    | identifier => exact htaken (.ident () token)
    | leftParen =>
      apply next_moves.bind
      intro _
      apply h.expression.bind
      intro inner
      apply (expect_moves _ _).bind
      intro _
      exact pure_moves (Expr.group inner)
    | funWord =>
      apply next_moves.bind
      intro _
      apply (function_moves h).bind
      intro parts
      exact pure_moves (Expr.lambda parts.1 parts.2)
    | _ => exact fail_moves .noExpression token

theorem calls_moves (h : MovedRules f r) (bound : Nat) (callee : Expr Unit) :
    Moves f (Expr.moved f) (calls r bound callee) (calls r bound (callee.moved f)) := by
  induction bound generalizing callee with
  | zero => exact exhausted_moves
  | succ bound ih =>
    apply (accept_moves .leftParen).bind
    intro opening
    cases opening with
    | none => exact pure_moves callee
    | some opening =>
      apply (itemsBeforeParen_moves h.expression r.bound).bind
      intro arguments
      apply (expect_moves _ _).bind
      intro paren
      have hrest := ih (.call callee paren arguments)
      rwa [Expr.moved, Expr.allMoved_eq_map] at hrest

theorem call_moves (h : MovedRules f r) : Moves f (Expr.moved f) (call r) (call r) :=
  (primary_moves h).bind fun callee => calls_moves h r.bound callee

theorem unary_moves (h : MovedRules f r) : Moves f (Expr.moved f) (unary r) (unary r) := by
  apply (acceptAny_moves _).bind
  intro operator
  cases operator with
  | none => exact call_moves h
  | some operator => exact h.unary.bind fun right => pure_moves (Expr.unary operator right)

theorem disjunction_moves (h : MovedRules f r) :
    Moves f (Expr.moved f) (disjunction r) (disjunction r) := by
  have hbinary : ∀ (left : Expr Unit) (operator : Token) (right : Expr Unit),
      (Expr.binary left operator right).moved f =
        .binary (left.moved f) (operator.moved f) (right.moved f) := fun _ _ _ => rfl
  have hlogical : ∀ (left : Expr Unit) (operator : Token) (right : Expr Unit),
      (Expr.logical left operator right).moved f =
        .logical (left.moved f) (operator.moved f) (right.moved f) := fun _ _ _ => rfl
  have hterm : Moves f (Expr.moved f) (term r) (term r) :=
    level_moves hbinary (level_moves hbinary (unary_moves h))
  have hequality : Moves f (Expr.moved f) (equality r) (equality r) :=
    level_moves hbinary (level_moves hbinary hterm)
  exact level_moves hlogical (level_moves hlogical hequality)

theorem assignTo_moves (equal : Token) (value target : Expr Unit) :
    Moves f (Expr.moved f) (assignTo equal value target)
      (assignTo (equal.moved f) (value.moved f) (target.moved f)) := by
  cases target with
  | ident binding name => exact pure_moves (Expr.assign () name value)
  | _ => exact (record_moves .invalidAssignmentTarget equal).bind fun _ => pure_moves _

theorem expression_moves (h : MovedRules f r) :
    Moves f (Expr.moved f) (expression r) (expression r) := by
  apply (disjunction_moves h).bind
  intro left
  apply (accept_moves .equal).bind
  intro equal
  cases equal with
  | none => exact pure_moves left
  | some equal => exact h.expression.bind fun value => assignTo_moves equal value left

theorem expressionUnless_moves (h : MovedRules f r) (kind : Kind) :
    Moves f (Option.map (Expr.moved f)) (expressionUnless r kind) (expressionUnless r kind) := by
  apply (check_moves kind).bind
  intro found
  cases found with
  | true => exact pure_moves none
  | false => exact (expression_moves h).bind fun e => pure_moves (some e)

end Expressions

section Statements

variable {f} {r : Rules Reader Unit}

theorem variableDeclaration_moves (h : MovedRules f r) :
    Moves f (Stmt.moved f) (variableDeclaration r) (variableDeclaration r) := by
  apply (expect_moves _ _).bind
  intro name
  apply (accept_moves .equal).bind
  intro equal
  cases equal with
  | none => exact (expect_moves _ _).bind fun _ => pure_moves (Stmt.varDecl name none)
  | some equal =>
    apply (expression_moves h).bind
    intro initial
    exact (expect_moves _ _).bind fun _ => pure_moves (Stmt.varDecl name (some initial))

theorem beforeSemicolon_moves (h : MovedRules f r) (fault : Fault)
    {node : Expr Unit → Stmt Unit} (hnode : ∀ e, (node e).moved f = node (e.moved f)) :
    Moves f (Stmt.moved f)
      (do let e ← expression r; let _ ← expect .semicolon fault; pure (node e))
      (do let e ← expression r; let _ ← expect .semicolon fault; pure (node e)) := by
  apply (expression_moves h).bind
  intro e
  apply (expect_moves _ _).bind
  intro _
  exact hnode e ▸ pure_moves (node e)

theorem expressionStatement_moves (h : MovedRules f r) :
    Moves f (Stmt.moved f) (expressionStatement r) (expressionStatement r) :=
  beforeSemicolon_moves h _ fun _ => rfl

theorem printStatement_moves (h : MovedRules f r) :
    Moves f (Stmt.moved f) (printStatement r) (printStatement r) :=
  beforeSemicolon_moves h _ fun _ => rfl

theorem ifStatement_moves (h : MovedRules f r) :
    Moves f (Stmt.moved f) (ifStatement r) (ifStatement r) := by
  apply (expect_moves _ _).bind
  intro _
  apply (expression_moves h).bind
  intro condition
  apply (expect_moves _ _).bind
  intro _
  apply h.statement.bind
  intro yes
  apply (accept_moves .elseWord).bind
  intro word
  cases word with
  | none => exact pure_moves (Stmt.ifStmt condition yes none)
  | some word => exact h.statement.bind fun no => pure_moves (Stmt.ifStmt condition yes (some no))

theorem whileStatement_moves (h : MovedRules f r) :
    Moves f (Stmt.moved f) (whileStatement r) (whileStatement r) := by
  apply (expect_moves _ _).bind
  intro _
  apply (expression_moves h).bind
  intro condition
  apply (expect_moves _ _).bind
  intro _
  exact h.statement.bind fun body => pure_moves (Stmt.whileStmt condition body)

theorem forInitial_moves (h : MovedRules f r) :
    Moves f (Option.map (Stmt.moved f)) (forInitial r) (forInitial r) := by
  apply (accept_moves .semicolon).bind
  intro semicolon
  cases semicolon with
  | some semicolon => exact pure_moves none
  | none =>
    apply (accept_moves .varWord).bind
    intro word
    cases word with
    | some word => exact (variableDeclaration_moves h).bind fun s => pure_moves (some s)
    | none => exact (expressionStatement_moves h).bind fun s => pure_moves (some s)

theorem forStatement_moves (h : MovedRules f r) :
    Moves f (Stmt.moved f) (forStatement r) (forStatement r) := by
  apply (expect_moves _ _).bind
  intro _
  apply (forInitial_moves h).bind
  intro initial
  apply (expressionUnless_moves h _).bind
  intro condition
  apply (expect_moves _ _).bind
  intro _
  apply (expressionUnless_moves h _).bind
  intro increment
  apply (expect_moves _ _).bind
  intro _
  apply h.statement.bind
  intro body
  exact Grammar.forLoop_moved initial condition increment body ▸ pure_moves _

theorem breakStatement_moves (keyword : Token) :
    Moves f (Stmt.moved f : Stmt Unit → Stmt Unit) (breakStatement keyword)
      (breakStatement (keyword.moved f)) := by
  apply loopDepth_moves.bind
  intro depth
  by_cases hdepth : depth = 0
  · simp only [hdepth, id, if_true]
    exact fail_moves .breakOutsideLoop keyword
  · simp only [hdepth, id, if_false]
    exact (expect_moves _ _).bind fun _ => pure_moves (Stmt.breakStmt keyword)

theorem returnStatement_moves (h : MovedRules f r) (keyword : Token) :
    Moves f (Stmt.moved f) (returnStatement r keyword) (returnStatement r (keyword.moved f)) := by
  apply (expressionUnless_moves h _).bind
  intro value
  apply (expect_moves _ _).bind
  intro _
  cases value with
  | none => exact pure_moves (Stmt.returnStmt keyword none)
  | some e => exact pure_moves (Stmt.returnStmt keyword (some e))

theorem statement_moves (h : MovedRules f r) :
    Moves f (Stmt.moved f) (statement r) (statement r) := by
  apply peek_moves.bind
  intro token
  apply peekKind_moves.bind
  intro kind
  cases kind with
  | none => exact expressionStatement_moves h
  | some kind =>
    cases kind with
    | forWord => exact next_moves.bind fun _ => insideLoop_moves (forStatement_moves h)
    | ifWord => exact next_moves.bind fun _ => ifStatement_moves h
    | whileWord => exact next_moves.bind fun _ => insideLoop_moves (whileStatement_moves h)
    | breakWord => exact next_moves.bind fun _ => breakStatement_moves token
    | returnWord => exact next_moves.bind fun _ => returnStatement_moves h token
    | leftBrace =>
      apply next_moves.bind
      intro _
      exact (block_moves h).bind fun body => pure_moves (Stmt.block body)
    | printWord => exact next_moves.bind fun _ => printStatement_moves h
    | _ => exact expressionStatement_moves h

theorem declarationOrFail_moves (h : MovedRules f r) :
    Moves f (Stmt.moved f) (declarationOrFail r) (declarationOrFail r) := by
  apply acceptFunctionName_moves.bind
  intro name
  cases name with
  | some name =>
    exact (function_moves h).bind fun parts => pure_moves (Stmt.funDecl name parts.1 parts.2)
  | none =>
    apply (accept_moves .varWord).bind
    intro word
    cases word with
    | some word => exact variableDeclaration_moves h
    | none => exact statement_moves h

end Statements

section Programs

variable {f}

theorem dropToBoundary_moved (afterSemicolon : Bool) (ts : List Token) :
    dropToBoundary afterSemicolon (ts.map (Token.moved f)) =
      (dropToBoundary afterSemicolon ts).map (Token.moved f) := by
  induction ts generalizing afterSemicolon with
  | nil => rfl
  | cons t ts ih =>
    have hkind : (t.moved f).kind = t.kind := rfl
    rw [List.map_cons, dropToBoundary, dropToBoundary, hkind, ih]
    split <;> rfl

theorem recover_moved (ts : List Token) :
    recover (ts.map (Token.moved f)) = (recover ts).map (Token.moved f) := by
  cases ts with
  | nil => rfl
  | cons t ts => exact dropToBoundary_moved (t.kind = .semicolon) ts

theorem recovering_moves {p q : Reader (Stmt Unit)} (hp : Moves f (Stmt.moved f) p q) :
    Moves f (Option.map (Stmt.moved f)) (recovering p) (recovering q) := by
  intro eof s
  simp only [recovering, hp eof s]
  cases p eof s with
  | done stmt t => rfl
  | failed e t => simp [Outcome.moved, State.moved, recover_moved]
  | exhausted => rfl

theorem declaration_moves {r : Rules Reader Unit} (h : MovedRules f r) :
    Moves f (Option.map (Stmt.moved f)) (declaration r) (declaration r) :=
  recovering_moves (declarationOrFail_moves h)

theorem rules_moved (f : Nat → Nat) (depth : Nat) : MovedRules f (rules depth) := by
  induction depth with
  | zero => exact ⟨exhausted_moves, exhausted_moves, exhausted_moves, exhausted_moves⟩
  | succ depth ih =>
    exact ⟨expression_moves ih, unary_moves ih, statement_moves ih, declaration_moves ih⟩

theorem program_moves {declaration : Reader (Option (Stmt Unit))}
    (h : Moves f (Option.map (Stmt.moved f)) declaration declaration) (bound : Nat) :
    Moves f (Stmt.allMoved f) (program declaration bound) (program declaration bound) := by
  induction bound with
  | zero => exact exhausted_moves
  | succ bound ih =>
    apply atEnd_moves.bind
    intro ended
    cases ended with
    | true => exact pure_moves []
    | false =>
      apply h.bind
      intro first
      exact ih.bind fun others => collected_moves first others

def Input.moved (f : Nat → Nat) (input : Input) : Input :=
  ⟨input.tokens.map (Token.moved f), input.eof.moved f⟩

/-- A program read on other lines is the same program there, or has the same errors there. -/
theorem parseProgram_moved (f : Nat → Nat) (input : Input) :
    parseProgram (input.moved f) =
      match parseProgram input with
      | .ok statements => .ok (Stmt.allMoved f statements)
      | .error errors => .error (errors.map (Error.moved f)) := by
  have hlength : (input.moved f).tokens.length = input.tokens.length := List.length_map _
  have hrules : (input.moved f).rules = input.rules := by rw [Input.rules, hlength, Input.rules]
  have hdeclaration : Moves f (Option.map (Stmt.moved f)) (declaration input.rules)
      (declaration input.rules) := declaration_moves (rules_moved f _)
  have hprogram : program (declaration input.rules) (input.tokens.length + 1)
      (input.moved f).eof (input.moved f).start =
        (program (declaration input.rules) (input.tokens.length + 1) input.eof
          input.start).moved f (Stmt.allMoved f) :=
    program_moves hdeclaration _ input.eof input.start
  unfold parseProgram
  rw [hlength, hrules, hprogram]
  cases program (declaration input.rules) (input.tokens.length + 1) input.eof input.start with
  | done statements s =>
    simp only [Outcome.moved, State.moved, List.isEmpty_map]
    cases s.errors.isEmpty <;> rfl
  | failed e s => simp [Outcome.moved, State.moved]
  | exhausted => rfl

end Programs

end ScriptLang.Syntax
