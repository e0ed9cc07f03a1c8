import ScriptLang.Syntax
import ScriptLang.Syntax.Reader

namespace ScriptLang.Syntax

open Reader

/-- The rules of a depth that the rules of the next depth use. -/
structure Rules (M : Type → Type) (ρ : Type) where
  /-- How often a rule may repeat a part of itself. -/
  bound : Nat
  expression : M (Expr ρ)
  unary : M (Expr ρ)
  statement : M (Stmt ρ)
  /-- A declaration that fails is dropped, its errors are recorded. -/
  declaration : M (Option (Stmt ρ))

/-- What parsing asks of the monad it runs in, besides reading. -/
class Host (M : Type → Type) (ρ : outParam Type) where
  /-- The note at the use of a variable that has just been read. -/
  mark : M ρ
  insideLoop {α : Type} : M α → M α
  outsideLoops {α : Type} : M α → M α
  /-- A `break` whose word is taken. -/
  breakStatement : Token → M (Stmt ρ)
  recovering : M (Stmt ρ) → M (Option (Stmt ρ))

abbrev Node (ρ : Type) := Expr ρ → Token → Expr ρ → Expr ρ

section Rule

variable {M : Type → Type} {ρ : Type} [Monad M] [MonadLiftT Reader M]

@[specialize] def chain (kinds : List Kind) (node : Node ρ) (operand : M (Expr ρ)) :
    (bound : Nat) → (left : Expr ρ) → M (Expr ρ)
  | 0, _ => liftM (exhausted : Reader (Expr ρ))
  | bound + 1, left => do
    match ← acceptAny kinds with
    | none => pure left
    | some operator => do
      let right ← operand
      chain kinds node operand bound (node left operator right)

@[specialize] def level (kinds : List Kind) (node : Node ρ) (bound : Nat) (operand : M (Expr ρ)) :
    M (Expr ρ) := do
  let first ← operand
  chain kinds node operand bound first

/-- The statements of a block, up to a closing brace that is not taken. -/
@[specialize] def declarations (declaration : M (Option (Stmt ρ))) :
    (bound : Nat) → M (List (Stmt ρ))
  | 0 => liftM (exhausted : Reader (List (Stmt ρ)))
  | bound + 1 => do
    if (← check .rightBrace) || (← atEnd) then pure []
    else do
      let first ← declaration
      let others ← declarations declaration bound
      pure (first.toList ++ others)

variable (r : Rules M ρ)

@[specialize] def block : M (List (Stmt ρ)) := do
  let body ← declarations r.declaration r.bound
  let _ ← expect .rightBrace .noBraceAfterBlock
  pure body

variable [Host M ρ]

@[specialize] def function : M (List Token × List (Stmt ρ)) := do
  let _ ← expect .leftParen .noParenAfterFunctionName
  let params ← itemsBeforeParen .tooManyParameters (expect .identifier .noParameterName) r.bound
  let _ ← expect .rightParen .noParenAfterParameters
  let _ ← expect .leftBrace .noBraceBeforeFunctionBody
  let body ← Host.outsideLoops (block r)
  pure (params, body)

@[specialize] def primary : M (Expr ρ) := do
  let token ← peek
  match ← peekKind with
  | some .falseWord => do let _ ← next; pure (.literal (.boolean false))
  | some .trueWord => do let _ ← next; pure (.literal (.boolean true))
  | some .nilWord => do let _ ← next; pure (.literal .nil)
  | some (.number x) => do let _ ← next; pure (.literal (.number x))
  | some (.string s) => do let _ ← next; pure (.literal (.string s))
  | some .identifier => do
    let _ ← next
    let note ← Host.mark
    pure (.ident note token)
  | some .leftParen => do
    let _ ← next
    let inner ← r.expression
    let _ ← expect .rightParen .noParenAfterExpression
    pure (.group inner)
  | some .funWord => do
    let _ ← next
    let (params, body) ← function r
    pure (.lambda params body)
  | _ => liftM (fail .noExpression token : Reader (Expr ρ))

omit [Host M ρ] in
@[specialize] def calls : (bound : Nat) → (callee : Expr ρ) → M (Expr ρ)
  | 0, _ => liftM (exhausted : Reader (Expr ρ))
  | bound + 1, callee => do
    match ← accept .leftParen with
    | none => pure callee
    | some _ => do
      let arguments ← itemsBeforeParen .tooManyArguments r.expression r.bound
      let paren ← expect .rightParen .noParenAfterArguments
      calls bound (.call callee paren arguments)

@[specialize] def call : M (Expr ρ) := do
  let callee ← primary r
  calls r r.bound callee

@[specialize] def unary : M (Expr ρ) := do
  match ← acceptAny [.bang, .minus] with
  | some operator => do
    let right ← r.unary
    pure (.unary operator right)
  | none => call r

@[specialize] def factor : M (Expr ρ) :=
  level [.star, .slash] .binary r.bound (unary r)

@[specialize] def term : M (Expr ρ) :=
  level [.minus, .plus] .binary r.bound (factor r)

@[specialize] def comparison : M (Expr ρ) :=
  level [.greater, .greaterEqual, .less, .lessEqual] .binary r.bound (term r)

@[specialize] def equality : M (Expr ρ) :=
  level [.bangEqual, .equalEqual] .binary r.bound (comparison r)

@[specialize] def conjunction : M (Expr ρ) :=
  level [.andWord] .logical r.bound (equality r)

@[specialize] def disjunction : M (Expr ρ) :=
  level [.orWord] .logical r.bound (conjunction r)

/-- The tree of an assignment. Only variables can be assigned to; anything else is recorded at the
equal sign, and what stands left of it remains. -/
@[specialize] def assignTo (equal : Token) (value : Expr ρ) : Expr ρ → M (Expr ρ)
  | .ident _ name => do
    let note ← Host.mark
    pure (.assign note name value)
  | target => do
    record .invalidAssignmentTarget equal
    pure target

@[specialize] def expression : M (Expr ρ) := do
  let left ← disjunction r
  match ← accept .equal with
  | none => pure left
  | some equal => do
    let value ← r.expression
    assignTo equal value left

end Rule

end ScriptLang.Syntax
