import ScriptLang.Syntax.Expression

namespace ScriptLang.Syntax

open Reader

/-- Takes the word `fun` and the name after it. Without a name the word opens an expression. -/
def acceptFunctionName : Reader (Option Token) := fun _ s =>
  match s.rest with
  | word :: name :: ts =>
    if word.kind = .funWord ∧ name.kind = .identifier then .done (some name) { s with rest := ts }
    else .done none s
  | _ => .done none s

theorem acceptFunctionName_hit {eof word name : Token} {ts : List Token} {s : State}
    (hr : s.rest = word :: name :: ts) (hw : word.kind = .funWord)
    (hn : name.kind = .identifier) :
    acceptFunctionName eof s = .done (some name) { s with rest := ts } := by
  simp [acceptFunctionName, hr, hw, hn]

theorem acceptFunctionName_miss {eof : Token} {s : State}
    (h : ∀ word name ts, s.rest = word :: name :: ts → word.kind = .funWord →
      name.kind ≠ .identifier) : acceptFunctionName eof s = .done none s := by
  unfold acceptFunctionName
  split
  · next word name ts hr => rw [if_neg fun hk => h word name ts hr hk.1 hk.2]
  · rfl

/-- A `for` in terms of `while`: the increment runs after the body, and the first clause before the
loop, in a block of its own. -/
def forLoop {ρ : Type} (initial : Option (Stmt ρ)) (condition increment : Option (Expr ρ))
    (body : Stmt ρ) : Stmt ρ :=
  let step : Stmt ρ :=
    match increment with
    | none => body
    | some e => .block [body, .exprStmt e]
  let loop : Stmt ρ := .whileStmt (condition.getD (.literal (.boolean true))) step
  match initial with
  | none => loop
  | some s => .block [s, loop]

/-- A `break` whose word is taken. Outside of loops it fails at that word. -/
def breakStatement {ρ : Type} (keyword : Token) : Reader (Stmt ρ) := do
  if (← loopDepth) = 0 then fail .breakOutsideLoop keyword
  else do
    let _ ← expect .semicolon .noSemicolonAfterBreak
    pure (.breakStmt keyword)

/-- Reads on after a failure: its error is recorded and the tokens up to the next boundary are
dropped. -/
def recovering {ρ : Type} (p : Reader (Stmt ρ)) : Reader (Option (Stmt ρ)) := fun eof s =>
  match p eof s with
  | .done stmt t => .done (some stmt) t
  | .failed e t => .done none { t with rest := recover t.rest, errors := t.errors ++ [e] }
  | .exhausted => .exhausted

instance : Host Reader Unit where
  mark := pure ()
  insideLoop := Reader.insideLoop
  outsideLoops := Reader.outsideLoops
  breakStatement := breakStatement
  recovering := recovering

section Rule

variable {M : Type → Type} {ρ : Type} [Monad M] [MonadLiftT Reader M] [Host M ρ] (r : Rules M ρ)

@[specialize] def expressionUnless (kind : Kind) : M (Option (Expr ρ)) := do
  if ← check kind then pure none
  else do
    let e ← expression r
    pure (some e)

@[specialize] def variableDeclaration : M (Stmt ρ) := do
  let name ← expect .identifier .noVariableName
  match ← accept .equal with
  | none => do
    let _ ← expect .semicolon .noSemicolonAfterVariable
    pure (.varDecl name none)
  | some _ => do
    let initial ← expression r
    let _ ← expect .semicolon .noSemicolonAfterVariable
    pure (.varDecl name (some initial))

@[specialize] def expressionStatement : M (Stmt ρ) := do
  let e ← expression r
  let _ ← expect .semicolon .noSemicolonAfterExpression
  pure (.exprStmt e)

@[specialize] def printStatement : M (Stmt ρ) := do
  let e ← expression r
  let _ ← expect .semicolon .noSemicolonAfterPrinted
  pure (.printStmt e)

@[specialize] def ifStatement : M (Stmt ρ) := do
  let _ ← expect .leftParen .noParenAfterIf
  let condition ← expression r
  let _ ← expect .rightParen .noParenAfterIfCondition
  let yes ← r.statement
  match ← accept .elseWord with
  | none => pure (.ifStmt condition yes none)
  | some _ => do
    let no ← r.statement
    pure (.ifStmt condition yes (some no))

@[specialize] def whileStatement : M (Stmt ρ) := do
  let _ ← expect .leftParen .noParenAfterWhile
  let condition ← expression r
  let _ ← expect .rightParen .noParenAfterWhileCondition
  let body ← r.statement
  pure (.whileStmt condition body)

@[specialize] def forInitial : M (Option (Stmt ρ)) := do
  match ← accept .semicolon with
  | some _ => pure none
  | none => do
    match ← accept .varWord with
    | some _ => do
      let s ← variableDeclaration r
      pure (some s)
    | none => do
      let s ← expressionStatement r
      pure (some s)

@[specialize] def forStatement : M (Stmt ρ) := do
  let _ ← expect .leftParen .noParenAfterFor
  let initial ← forInitial r
  let condition ← expressionUnless r .semicolon
  let _ ← expect .semicolon .noSemicolonAfterLoopCondition
  let increment ← expressionUnless r .rightParen
  let _ ← expect .rightParen .noParenAfterForClauses
  let body ← r.statement
  pure (forLoop initial condition increment body)

@[specialize] def returnStatement (keyword : Token) : M (Stmt ρ) := do
  let value ← expressionUnless r .semicolon
  let _ ← expect .semicolon .noSemicolonAfterReturn
  pure (.returnStmt keyword value)

@[specialize] def statement : M (Stmt ρ) := do
  let token ← peek
  match ← peekKind with
  | some .forWord => do let _ ← next; Host.insideLoop (forStatement r)
  | some .ifWord => do let _ ← next; ifStatement r
  | some .whileWord => do let _ ← next; Host.insideLoop (whileStatement r)
  | some .breakWord => do let _ ← next; Host.breakStatement token
  | some .returnWord => do let _ ← next; returnStatement r token
  | some .leftBrace => do
    let _ ← next
    let body ← block r
    pure (.block body)
  | some .printWord => do let _ ← next; printStatement r
  | _ => expressionStatement r

/-- A declaration or statement, failing at its first error that cannot be passed over. -/
@[specialize] def declarationOrFail : M (Stmt ρ) := do
  match ← acceptFunctionName with
  | some name => do
    let (params, body) ← function r
    pure (.funDecl name params body)
  | none => do
    match ← accept .varWord with
    | some _ => variableDeclaration r
    | none => statement r

@[specialize] def declaration : M (Option (Stmt ρ)) :=
  Host.recovering (declarationOrFail r)

end Rule

end ScriptLang.Syntax
