import ScriptLang.Syntax.Program

namespace ScriptLang.Syntax.Indexed

inductive Trap where
  | outOfRange
  | noPrevious
  | noName
deriving DecidableEq

/-- What is done with the index of the next token. -/
inductive Step where
  | looked (cursor : Nat)
  | lookedBack (cursor : Nat)
  | moved (cursor : Nat)
  | declared (before after : Nat)
deriving DecidableEq

structure Parser where
  cursor : Nat
  loopDepth : Nat
  errors : List Error
  trail : List Step
deriving DecidableEq

def initial : Parser :=
  ⟨0, 0, [], []⟩

abbrev Action := StateT Parser (ExceptT Trap Option)

abbrev Rule := ExceptT Error Action

def note (step : Step) : Action Unit :=
  modify fun p => { p with trail := p.trail ++ [step] }

def record (e : Error) : Action Unit :=
  modify fun p => { p with errors := p.errors ++ [e] }

def takeErrors : Action (List Error) :=
  modifyGet fun p => (p.errors, { p with errors := [] })

def getCursor : Action Nat := do
  let p ← get
  pure p.cursor

def move : Action Unit :=
  modify fun p =>
    { p with cursor := p.cursor + 1, trail := p.trail ++ [.moved (p.cursor + 1)] }

def getLoopDepth : Action Nat := do
  let p ← get
  pure p.loopDepth

def setLoopDepth (change : Nat → Nat) : Action Unit :=
  modify fun p => { p with loopDepth := change p.loopDepth }

inductive Level where
  | disjunction
  | conjunction
  | equality
  | comparison
  | term
  | factor

def Level.kinds : Level → List Kind
  | .disjunction => [.orWord]
  | .conjunction => [.andWord]
  | .equality => [.bangEqual, .equalEqual]
  | .comparison => [.greater, .greaterEqual, .less, .lessEqual]
  | .term => [.minus, .plus]
  | .factor => [.star, .slash]

def Level.node : Level → Node Unit
  | .disjunction | .conjunction => .logical
  | _ => .binary

/-- The tokens that a parser is made for. The last of them ends the file; others may, too. -/
structure Tokens where
  list : List Token
  ended : ∃ last, list.getLast? = some last ∧ last.kind = .endOfFile

namespace Tokens

section Cursor

def peek (tokens : Tokens) : Action Token := do
  let p ← get
  match tokens.list[p.cursor]? with
  | none => throw .outOfRange
  | some t => do
    note (.looked p.cursor)
    pure t

def previous (tokens : Tokens) : Action Token := do
  let p ← get
  if p.cursor = 0 then throw .noPrevious
  else
    match tokens.list[p.cursor - 1]? with
    | none => throw .outOfRange
    | some t => do
      note (.lookedBack p.cursor)
      pure t

def atEnd (tokens : Tokens) : Action Bool := do
  let t ← tokens.peek
  pure (t.kind = .endOfFile)

def check (tokens : Tokens) (kind : Kind) : Action Bool := do
  if ← tokens.atEnd then pure false
  else do
    let t ← tokens.peek
    pure (t.kind = kind)

def checkNext (tokens : Tokens) (kind : Kind) : Action Bool := do
  let cursor ← getCursor
  pure (tokens.list[cursor + 1]?.any fun t => t.kind = kind)

/-- A function is declared by `fun` and a name. Without a name it is an expression. -/
def checkFunction (tokens : Tokens) : Action Bool := do
  if ← tokens.check .funWord then tokens.checkNext .identifier
  else pure false

def advance (tokens : Tokens) : Action Token := do
  if ← tokens.atEnd then tokens.previous
  else do
    move
    tokens.previous

def accepts (tokens : Tokens) (kind : Kind) : Action Bool := do
  if ← tokens.check kind then do
    let _ ← tokens.advance
    pure true
  else pure false

def acceptsAny (tokens : Tokens) : List Kind → Action Bool
  | [] => pure false
  | kind :: kinds => do
    if ← tokens.accepts kind then pure true
    else tokens.acceptsAny kinds

def failHere (tokens : Tokens) {α : Type} (fault : Fault) : Rule α := do
  let t ← tokens.peek
  throw ⟨fault, t⟩

def consume (tokens : Tokens) (kind : Kind) (fault : Fault) : Rule Token := do
  if ← tokens.check kind then tokens.advance
  else tokens.failHere fault

def consumeName (tokens : Tokens) : Rule Token := do
  if ← tokens.check .identifier then tokens.advance
  else throwThe Trap .noName

def recordExcess (tokens : Tokens) (fault : Fault) (count : Nat) : Action Unit := do
  if 255 ≤ count then do
    let t ← tokens.peek
    record ⟨fault, t⟩
  else pure ()

def skipToBoundary (tokens : Tokens) : Action Unit := do
  if ← tokens.atEnd then pure ()
  else do
    let last ← tokens.previous
    if last.kind = .semicolon then pure ()
    else do
      let t ← tokens.peek
      if startsStatement t.kind then pure ()
      else do
        let _ ← tokens.advance
        tokens |>.skipToBoundary
partial_fixpoint

def synchronize (tokens : Tokens) : Action Unit := do
  let _ ← tokens.advance
  tokens.skipToBoundary

end Cursor

def acceptLiteral (tokens : Tokens) : Action (Option Literal) := do
  if ← tokens.accepts .falseWord then pure (some (.boolean false))
  else if ← tokens.accepts .trueWord then pure (some (.boolean true))
  else if ← tokens.accepts .nilWord then pure (some .nil)
  else do
    match (← tokens.peek).kind with
    | .number x => do
      let _ ← tokens.advance
      pure (some (.number x))
    | _ => do
      match (← tokens.peek).kind with
      | .string s => do
        let _ ← tokens.advance
        pure (some (.string s))
      | _ => pure none

def parametersFrom (tokens : Tokens) (count : Nat) : Rule (List Token) := do
  tokens.recordExcess .tooManyParameters count
  let first ← tokens.consume .identifier .noParameterName
  if ← tokens.accepts .comma then do
    let others ← tokens |>.parametersFrom (count + 1)
    pure (first :: others)
  else pure [first]
partial_fixpoint

def parameters (tokens : Tokens) : Rule (List Token) := do
  if ← tokens.check .rightParen then pure []
  else tokens.parametersFrom 0

def breakStatement (tokens : Tokens) : Rule (Stmt Unit) := do
  let keyword ← tokens.previous
  if (← getLoopDepth) = 0 then throw ⟨.breakOutsideLoop, keyword⟩
  else do
    let _ ← tokens.consume .semicolon .noSemicolonAfterBreak
    pure (.breakStmt keyword)

mutual

def expression (tokens : Tokens) : Rule (Expr Unit) := do
  let target ← tokens |>.operation .disjunction
  if ← tokens.accepts .equal then do
    let equal ← tokens.previous
    let value ← tokens |>.expression
    match target with
    | .ident _ name => pure (.assign () name value)
    | other => do
      record ⟨.invalidAssignmentTarget, equal⟩
      pure other
  else pure target
partial_fixpoint

def operand (tokens : Tokens) : Level → Rule (Expr Unit)
  | .disjunction => tokens |>.operation .conjunction
  | .conjunction => tokens |>.operation .equality
  | .equality => tokens |>.operation .comparison
  | .comparison => tokens |>.operation .term
  | .term => tokens |>.operation .factor
  | .factor => tokens |>.unary
partial_fixpoint

def operation (tokens : Tokens) (level : Level) : Rule (Expr Unit) := do
  let first ← tokens |>.operand level
  tokens |>.operationsAfter level first
partial_fixpoint

def operationsAfter (tokens : Tokens) (level : Level) (left : Expr Unit) : Rule (Expr Unit) := do
  if ← tokens.acceptsAny level.kinds then do
    let operator ← tokens.previous
    let right ← tokens |>.operand level
    tokens |>.operationsAfter level (level.node left operator right)
  else pure left
partial_fixpoint

def unary (tokens : Tokens) : Rule (Expr Unit) := do
  if ← tokens.acceptsAny [.bang, .minus] then do
    let operator ← tokens.previous
    let right ← tokens |>.unary
    pure (.unary operator right)
  else tokens |>.call
partial_fixpoint

def call (tokens : Tokens) : Rule (Expr Unit) := do
  let callee ← tokens |>.primary
  tokens |>.callsAfter callee
partial_fixpoint

def callsAfter (tokens : Tokens) (callee : Expr Unit) : Rule (Expr Unit) := do
  if ← tokens.accepts .leftParen then do
    let arguments ← tokens |>.arguments
    let paren ← tokens.consume .rightParen .noParenAfterArguments
    tokens |>.callsAfter (.call callee paren arguments)
  else pure callee
partial_fixpoint

def arguments (tokens : Tokens) : Rule (List (Expr Unit)) := do
  if ← tokens.check .rightParen then pure []
  else tokens |>.argumentsFrom 0
partial_fixpoint

def argumentsFrom (tokens : Tokens) (count : Nat) : Rule (List (Expr Unit)) := do
  tokens.recordExcess .tooManyArguments count
  let first ← tokens |>.expression
  if ← tokens.accepts .comma then do
    let others ← tokens |>.argumentsFrom (count + 1)
    pure (first :: others)
  else pure [first]
partial_fixpoint

def primary (tokens : Tokens) : Rule (Expr Unit) := do
  match ← tokens.acceptLiteral with
  | some value => pure (.literal value)
  | none => do
    if ← tokens.accepts .identifier then do
      let name ← tokens.previous
      pure (.ident () name)
    else if ← tokens.accepts .leftParen then do
      let inner ← tokens |>.expression
      let _ ← tokens.consume .rightParen .noParenAfterExpression
      pure (.group inner)
    else if ← tokens.accepts .funWord then do
      let (params, body) ← tokens |>.function
      pure (.lambda params body)
    else tokens.failHere .noExpression
partial_fixpoint

def function (tokens : Tokens) : Rule (List Token × List (Stmt Unit)) := do
  let _ ← tokens.consume .leftParen .noParenAfterFunctionName
  let params ← tokens.parameters
  let _ ← tokens.consume .rightParen .noParenAfterParameters
  let _ ← tokens.consume .leftBrace .noBraceBeforeFunctionBody
  let body ← tokens |>.functionBody
  pure (params, body)
partial_fixpoint

def functionBody (tokens : Tokens) : Rule (List (Stmt Unit)) := (do
  let enclosing ← getLoopDepth
  setLoopDepth fun _ => 0
  let result ← ExceptT.run (tokens |>.block)
  setLoopDepth fun _ => enclosing
  pure result : Action (Except Error (List (Stmt Unit))))
partial_fixpoint

def block (tokens : Tokens) : Rule (List (Stmt Unit)) := (do
  let body ← tokens |>.declarations
  ExceptT.run do
    let _ ← tokens.consume .rightBrace .noBraceAfterBlock
    pure body : Action (Except Error (List (Stmt Unit))))
partial_fixpoint

def declarations (tokens : Tokens) : Action (List (Stmt Unit)) := do
  if ← tokens.check .rightBrace then pure []
  else if ← tokens.atEnd then pure []
  else do
    let before ← getCursor
    let first ← tokens |>.declaration
    let after ← getCursor
    note (.declared before after)
    let others ← tokens |>.declarations
    pure (first.toList ++ others)
partial_fixpoint

/-- A declaration that fails is recorded and skipped. -/
def declaration (tokens : Tokens) : Action (Option (Stmt Unit)) := do
  match ← ExceptT.run (tokens |>.declarationOrFail) with
  | .ok s => pure (some s)
  | .error e => do
    record e
    tokens.synchronize
    pure none
partial_fixpoint

def declarationOrFail (tokens : Tokens) : Rule (Stmt Unit) := do
  let _ ← tokens.peek
  if ← tokens.checkFunction then do
    let _ ← tokens.advance
    tokens |>.functionDeclaration
  else if ← tokens.accepts .varWord then tokens |>.variableDeclaration
  else tokens |>.statement
partial_fixpoint

def functionDeclaration (tokens : Tokens) : Rule (Stmt Unit) := do
  let name ← tokens.consumeName
  let (params, body) ← tokens |>.function
  pure (.funDecl name params body)
partial_fixpoint

def variableDeclaration (tokens : Tokens) : Rule (Stmt Unit) := do
  let name ← tokens.consume .identifier .noVariableName
  if ← tokens.accepts .equal then do
    let initial ← tokens |>.expression
    let _ ← tokens.consume .semicolon .noSemicolonAfterVariable
    pure (.varDecl name (some initial))
  else do
    let _ ← tokens.consume .semicolon .noSemicolonAfterVariable
    pure (.varDecl name none)
partial_fixpoint

def statement (tokens : Tokens) : Rule (Stmt Unit) := do
  let _ ← tokens.peek
  if ← tokens.accepts .forWord then tokens |>.insideLoop true
  else if ← tokens.accepts .ifWord then tokens |>.ifStatement
  else if ← tokens.accepts .whileWord then tokens |>.insideLoop false
  else if ← tokens.accepts .breakWord then tokens.breakStatement
  else if ← tokens.accepts .returnWord then tokens |>.returnStatement
  else if ← tokens.accepts .leftBrace then do
    let body ← tokens |>.block
    pure (.block body)
  else if ← tokens.accepts .printWord then tokens |>.printStatement
  else tokens |>.expressionStatement
partial_fixpoint

/-- The clauses of a `for` or a `while` are inside of one more loop, however they end. -/
def insideLoop (tokens : Tokens) (isFor : Bool) : Rule (Stmt Unit) := (do
  setLoopDepth fun depth => depth + 1
  let result ← ExceptT.run (if isFor then tokens |>.forClauses else tokens |>.whileClauses)
  setLoopDepth fun depth => depth - 1
  pure result : Action (Except Error (Stmt Unit)))
partial_fixpoint

def forClauses (tokens : Tokens) : Rule (Stmt Unit) := do
  let _ ← tokens.consume .leftParen .noParenAfterFor
  let initial ← tokens |>.forInitial
  let condition ← tokens |>.expressionUnless .semicolon
  let _ ← tokens.consume .semicolon .noSemicolonAfterLoopCondition
  let increment ← tokens |>.expressionUnless .rightParen
  let _ ← tokens.consume .rightParen .noParenAfterForClauses
  let body ← tokens |>.statement
  pure (forLoop initial condition increment body)
partial_fixpoint

def forInitial (tokens : Tokens) : Rule (Option (Stmt Unit)) := do
  if ← tokens.accepts .semicolon then pure none
  else if ← tokens.accepts .varWord then do
    let s ← tokens |>.variableDeclaration
    pure (some s)
  else do
    let s ← tokens |>.expressionStatement
    pure (some s)
partial_fixpoint

def expressionUnless (tokens : Tokens) (kind : Kind) : Rule (Option (Expr Unit)) := do
  if ← tokens.check kind then pure none
  else do
    let e ← tokens |>.expression
    pure (some e)
partial_fixpoint

def whileClauses (tokens : Tokens) : Rule (Stmt Unit) := do
  let _ ← tokens.consume .leftParen .noParenAfterWhile
  let condition ← tokens |>.expression
  let _ ← tokens.consume .rightParen .noParenAfterWhileCondition
  let body ← tokens |>.statement
  pure (.whileStmt condition body)
partial_fixpoint

def ifStatement (tokens : Tokens) : Rule (Stmt Unit) := do
  let _ ← tokens.consume .leftParen .noParenAfterIf
  let condition ← tokens |>.expression
  let _ ← tokens.consume .rightParen .noParenAfterIfCondition
  let yes ← tokens |>.statement
  if ← tokens.accepts .elseWord then do
    let no ← tokens |>.statement
    pure (.ifStmt condition yes (some no))
  else pure (.ifStmt condition yes none)
partial_fixpoint

def returnStatement (tokens : Tokens) : Rule (Stmt Unit) := do
  let keyword ← tokens.previous
  let value ← tokens |>.expressionUnless .semicolon
  let _ ← tokens.consume .semicolon .noSemicolonAfterReturn
  pure (.returnStmt keyword value)
partial_fixpoint

def printStatement (tokens : Tokens) : Rule (Stmt Unit) := do
  let e ← tokens |>.expression
  let _ ← tokens.consume .semicolon .noSemicolonAfterPrinted
  pure (.printStmt e)
partial_fixpoint

def expressionStatement (tokens : Tokens) : Rule (Stmt Unit) := do
  let e ← tokens |>.expression
  let _ ← tokens.consume .semicolon .noSemicolonAfterExpression
  pure (.exprStmt e)
partial_fixpoint

end

def program (tokens : Tokens) : Action (List (Stmt Unit)) := do
  if ← tokens.atEnd then pure []
  else do
    let before ← getCursor
    let first ← tokens.declaration
    let after ← getCursor
    note (.declared before after)
    let others ← tokens |>.program
    pure (first.toList ++ others)
partial_fixpoint

def parse (tokens : Tokens) : Action (Except (List Error) (List (Stmt Unit))) := do
  let statements ← tokens.program
  let errors ← takeErrors
  pure (if errors.isEmpty then .ok statements else .error errors)

def wholeExpression (tokens : Tokens) : Rule (Expr Unit) := do
  let e ← tokens.expression
  if ← tokens.atEnd then pure e
  else tokens.failHere .noEndOfExpression

def parseExpression (tokens : Tokens) : Action (Except (List Error) (Expr Unit)) := do
  match ← ExceptT.run tokens.wholeExpression with
  | .ok e => do
    let errors ← takeErrors
    pure (if errors.isEmpty then .ok e else .error errors)
  | .error e => do
    record e
    let errors ← takeErrors
    pure (.error errors)

end Tokens

end ScriptLang.Syntax.Indexed
