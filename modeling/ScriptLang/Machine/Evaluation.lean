import ScriptLang.Machine.Operator

namespace ScriptLang.Evaluation

abbrev Evaluator := Expr Binding → Run Value
abbrev Executor := Stmt Binding → Run Flow

section Fault

variable {M : Type → Type} [MonadExceptOf Stop M]

def raise {α : Type} (line : Nat) (fault : RuntimeFault) : M α :=
  throw (.error ⟨fault, line⟩)

def report [Monad M] (line : Nat) : Except RuntimeFault Value → M Value
  | .ok v => pure v
  | .error fault => raise line fault

end Fault

/-- Runs in another frame; the frame before comes back however the run ends. -/
@[inline] def inFrame {α : Type} (frame : Nat) (p : Run α) : Run α := fun m =>
  match p { m with current := frame } with
  | .ok a n => .ok a { n with current := m.current }
  | .error e n => .error e { n with current := m.current }

/-- Runs as one more active call, which is over however the run ends. -/
@[inline] def inCall {α : Type} (p : Run α) : Run α := fun m =>
  match p { m with depth := m.depth + 1 } with
  | .ok a n => .ok a { n with depth := n.depth - 1 }
  | .error e n => .error e { n with depth := n.depth - 1 }

def pushFrame (parent : Nat) (bindings : List (String × Value)) : Run Nat := fun m =>
  let frame := m.store.size
  let store := bindings.foldl (fun s b => s.define frame b.1 b.2) (m.store.push (some parent))
  .ok frame { m with store := store }

def undefined {α : Type} (name : Token) : Run α :=
  raise name.line (.undefinedVariable name.lexeme)

def readVariable (binding : Binding) (name : Token) : Run Value := fun m =>
  match (m.frameOf? binding).bind (m.store.get? · name.lexeme) with
  | some v => .ok v m
  | none => undefined name m

def writeVariable (binding : Binding) (name : Token) (v : Value) : Run Unit := fun m =>
  match m.frameOf? binding with
  | none => undefined name m
  | some frame =>
    match m.onStore (·.assign frame name.lexeme v) with
    | (true, n) => .ok () n
    | (false, n) => undefined name n

/-- A write fails where a read would. Else it changes the variable and nothing besides. -/
theorem writeVariable_cases (binding : Binding) (name : Token) (v : Value) (m : Machine) :
    ((m.frameOf? binding).bind (m.store.get? · name.lexeme) = none ∧
      writeVariable binding name v m = undefined name m) ∨
    ∃ f, m.frameOf? binding = some f ∧ (m.store.get? f name.lexeme).isSome ∧
      writeVariable binding name v m =
        .ok () { m with store := m.store.define f name.lexeme v } := by
  unfold writeVariable
  cases hframe : m.frameOf? binding with
  | none => exact .inl ⟨rfl, rfl⟩
  | some f =>
    simp only [Machine.onStore, Store.assign, Option.bind_some]
    cases hx : m.store.get? f name.lexeme with
    | none => exact .inl ⟨rfl, rfl⟩
    | some w => exact .inr ⟨f, rfl, by rw [hx]; rfl, rfl⟩

def defineVariable (name : Token) (v : Value) : Run Unit := fun m =>
  .ok () { m with store := m.store.define m.current name.lexeme v }

def makeClosure (name : String) (params : List Token) (body : List (Stmt Binding)) : Run Value :=
  fun m => .ok (.closure ⟨m.nextId, name, params, body, m.current⟩)
    { m with nextId := m.nextId + 1 }

def printValue (v : Value) : Run Unit := fun m =>
  let bytes := (v.text ++ "\n").toUTF8
  let n := { m with sink := m.sink.write bytes }
  if m.sink.fits bytes then .ok () n else .error (.output .sinkFull) n

@[inline] def inBlock {α : Type} (p : Run α) : Run α := do
  let frame ← pushFrame (← get).current []
  inFrame frame p

/-- Runs in a new frame where a function was made, as one more call if there may be one more. -/
@[inline] def inBody {α : Type} (line : Nat) (c : Closure) (bindings : List (String × Value))
    (p : Run α) : Run α := do
  if Machine.maxDepth ≤ (← get).depth then
    raise line .stackOverflow
  else do
    let frame ← pushFrame c.frame bindings
    inCall (inFrame frame p)

section Scope

variable {α : Type} {line : Nat} {c : Closure} {bindings : List (String × Value)} {m : Machine}

theorem inBody_overflows (h : Machine.maxDepth ≤ m.depth) (p : Run α) :
    inBody line c bindings p m = .error (.error ⟨.stackOverflow, line⟩) m := by
  change (if Machine.maxDepth ≤ m.depth then raise line .stackOverflow else _ : Run α) m = _
  rw [if_pos h]
  rfl

theorem inBody_enters (h : m.depth < Machine.maxDepth) (p : Run α) :
    inBody line c bindings p m =
      (do let frame ← pushFrame c.frame bindings; inCall (inFrame frame p) : Run α) m := by
  change (if Machine.maxDepth ≤ m.depth then raise line .stackOverflow else _ : Run α) m = _
  rw [if_neg (Nat.not_le_of_lt h)]

end Scope

def callNative (line : Nat) (n : Native) (arguments : List Value) : Run Value := do
  if arguments.length ≠ n.arity then
    raise line (.wrongArity n.arity arguments.length)
  else do
    let number := (← get).nextId
    let reply := n.run number (arguments.map Value.toArgument)
    modify (Machine.heed · reply.defines)
    match reply.result with
    | .ok answer => pure (.ofAnswer number arguments answer)
    | .error message => raise line (.refused message)

theorem callNative_apply {line : Nat} {n : Native} {arguments : List Value} (m : Machine)
    (h : arguments.length = n.arity) :
    callNative line n arguments m =
      match (n.run m.nextId (arguments.map Value.toArgument)).result with
      | .ok answer => .ok (.ofAnswer m.nextId arguments answer)
        (m.heed (n.run m.nextId (arguments.map Value.toArgument)).defines)
      | .error message => .error (.error ⟨.refused message, line⟩)
        (m.heed (n.run m.nextId (arguments.map Value.toArgument)).defines) := by
  unfold callNative
  rw [if_neg (by simpa using h)]
  change (match (n.run m.nextId (arguments.map Value.toArgument)).result with
    | .ok answer => pure (.ofAnswer m.nextId arguments answer)
    | .error message => raise line (.refused message) : Run Value)
      (m.heed (n.run m.nextId (arguments.map Value.toArgument)).defines) = _
  cases (n.run m.nextId (arguments.map Value.toArgument)).result <;> rfl

/-- What evaluation asks of the monad it runs in. -/
class Host (M : Type → Type) where
  /-- The first three are around an evaluation, an execution and a call. -/
  evaluating : Expr Binding → M Value → M Value
  executing : Stmt Binding → M Flow → M Flow
  calling : (paren : Token) → (callee : Value) → List Value → M Value → M Value
  readVariable : Binding → Token → M Value
  writeVariable : Binding → Token → Value → M Unit
  defineVariable : Token → Value → M Unit
  makeClosure : String → List Token → List (Stmt Binding) → M Value
  printValue : Value → M Unit
  callNative : (line : Nat) → Native → List Value → M Value
  inBlock : M Flow → M Flow
  inBody : (line : Nat) → Closure → List (String × Value) → M Flow → M Flow

instance : Host Run where
  evaluating _ p := p
  executing _ p := p
  calling _ _ _ p := p
  readVariable := readVariable
  writeVariable := writeVariable
  defineVariable := defineVariable
  makeClosure := makeClosure
  printValue := printValue
  callNative := callNative
  inBlock := inBlock
  inBody := inBody

/-- The value of a call: what was returned, and `nil` without a `return`. -/
def Flow.result : Flow → Value
  | .returned v => v
  | _ => .nil

section Step

variable {M : Type → Type} [Monad M]

@[specialize] def evaluateAll (ev : Expr Binding → M Value) : List (Expr Binding) → M (List Value)
  | [] => pure []
  | e :: es => do
    let v ← ev e
    let vs ← evaluateAll ev es
    pure (v :: vs)

@[specialize] def executeAll (ex : Stmt Binding → M Flow) : List (Stmt Binding) → M Flow
  | [] => pure .normal
  | s :: ss => do
    match ← ex s with
    | .normal => executeAll ex ss
    | flow => pure flow

@[inline] def evaluateOptional (ev : Expr Binding → M Value) : Option (Expr Binding) → M Value
  | none => pure .nil
  | some e => ev e

variable [MonadExceptOf Stop M]

/-- Repeats a body while a condition holds. A `break` ends the loop, a `return` also what is around
it. -/
@[specialize] def repeatWhile (ev : Expr Binding → M Value) (ex : Stmt Binding → M Flow)
    (condition : Expr Binding) (body : Stmt Binding) : (bound : Nat) → M Flow
  | 0 => throw .exhausted
  | bound + 1 => do
    let v ← ev condition
    if v.holds then
      match ← ex body with
      | .normal => repeatWhile ev ex condition body bound
      | .broken => pure .normal
      | .returned v => pure (.returned v)
    else pure .normal

variable [Host M]

@[inline] def callClosure (ex : Stmt Binding → M Flow) (line : Nat) (c : Closure)
    (arguments : List Value) : M Value := do
  if arguments.length ≠ c.params.length then
    raise line (.wrongArity c.params.length arguments.length)
  else do
    let flow ← Host.inBody line c ((c.params.map Token.lexeme).zip arguments) (executeAll ex c.body)
    pure (Flow.result flow)

/-- Errors of the call itself are reported on the line of its closing parenthesis. -/
@[inline] def invoke (ex : Stmt Binding → M Flow) (line : Nat) (callee : Value)
    (arguments : List Value) : M Value :=
  match callee with
  | .closure c => callClosure ex line c arguments
  | .native _ n => Host.callNative line n arguments
  | v => raise line (.notCallable v)

@[inline] def evaluateStep (ev : Expr Binding → M Value) (ex : Stmt Binding → M Flow) :
    Expr Binding → M Value
  | .literal value => pure (.ofLiteral value)
  | .group inner => ev inner
  | .unary operator right => do
    let v ← ev right
    report operator.line (Operator.unary operator.kind v)
  | .binary left operator right => do
    let v ← ev left
    let w ← ev right
    report operator.line (Operator.binary operator.kind v w)
  | .logical left operator right => do
    let v ← ev left
    if Operator.decides operator.kind v then pure v else ev right
  | .ident binding name => Host.readVariable binding name
  | .assign binding name value => do
    let v ← ev value
    Host.writeVariable binding name v
    pure v
  | .call callee paren arguments => do
    let f ← ev callee
    let vs ← evaluateAll ev arguments
    Host.calling paren f vs (invoke ex paren.line f vs)
  | .lambda params body => Host.makeClosure "anonymous" params body

@[inline] def executeStep (bound : Nat) (ev : Expr Binding → M Value)
    (ex : Stmt Binding → M Flow) : Stmt Binding → M Flow
  | .exprStmt e => do
    let _ ← ev e
    pure .normal
  | .printStmt e => do
    let v ← ev e
    Host.printValue v
    pure .normal
  | .varDecl name initial => do
    let v ← evaluateOptional ev initial
    Host.defineVariable name v
    pure .normal
  | .block body => Host.inBlock (executeAll ex body)
  | .ifStmt condition yes no => do
    let v ← ev condition
    if v.holds then ex yes
    else
      match no with
      | none => pure .normal
      | some s => ex s
  | .whileStmt condition body => repeatWhile ev ex condition body bound
  | .breakStmt _ => pure .broken
  | .returnStmt _ value => do
    let v ← evaluateOptional ev value
    pure (.returned v)
  | .funDecl name params body => do
    let f ← Host.makeClosure name.lexeme params body
    Host.defineVariable name f
    pure .normal

end Step

section Knot

variable (M : Type → Type) [Monad M] [MonadExceptOf Stop M] [Host M]

mutual

/-- The value of an expression, given enough fuel: it bounds how deep parts are nested and how often
a loop repeats. -/
@[specialize] def evaluateIn : (fuel : Nat) → Expr Binding → M Value
  | 0, _ => throw .exhausted
  | fuel + 1, e => Host.evaluating e (evaluateStep (evaluateIn fuel) (executeIn fuel) e)

@[specialize] def executeIn : (fuel : Nat) → Stmt Binding → M Flow
  | 0, _ => throw .exhausted
  | fuel + 1, s => Host.executing s (executeStep fuel (evaluateIn fuel) (executeIn fuel) s)

end

/-- Runs statements in order, whatever way each of them finishes, up to the first that stops. -/
@[specialize] def executeProgramIn (fuel : Nat) : List (Stmt Binding) → M Unit
  | [] => pure ()
  | s :: ss => do
    let _ ← executeIn M fuel s
    executeProgramIn fuel ss

end Knot

abbrev evaluate (fuel : Nat) : Evaluator := evaluateIn Run fuel

abbrev execute (fuel : Nat) : Executor := executeIn Run fuel

abbrev executeProgram (fuel : Nat) : List (Stmt Binding) → Run Unit := executeProgramIn Run fuel

/-- A program that is over passes its output on. Where it stops early, the machine is back at global
scope. -/
def finish (p : Run Unit) : Run Unit := fun m =>
  match p m with
  | .ok () n => if n.sink.flushFails then .error (.output .flushFailed) n else .ok () n
  | .error stop n => .error stop n.reset

def interpret (fuel : Nat) (program : List (Stmt Binding)) : Run Unit :=
  finish (executeProgram fuel program)

end ScriptLang.Evaluation
