import ScriptLang.Machine.Evaluation

namespace ScriptLang.Output

open Evaluation (Host raise pushFrame executeProgramIn)

inductive Act where
  | evaluates (e : Expr Binding)
  | executes (s : Stmt Binding)
  | prints (v : Value)

structure Moment where
  act : Act
  machine : Machine

structure Traced (α : Type) where
  run : Run α
  moments : Machine → List Moment

namespace Traced

def after {α : Type} (next : α → Machine → List Moment) :
    EStateM.Result Stop Machine α → List Moment
  | .ok a n => next a n
  | .error _ _ => []

def silent {α : Type} (p : Run α) : Traced α := ⟨p, fun _ => []⟩

def reading {α : Type} (look : Machine → α) : Traced α := silent fun m => .ok (look m) m

def noted {α : Type} (act : Act) (p : Traced α) : Traced α :=
  ⟨p.run, fun m => ⟨act, m⟩ :: p.moments m⟩

instance : Monad Traced where
  pure a := silent (pure a)
  bind p f := ⟨p.run >>= fun a => (f a).run,
    fun m => p.moments m ++ after (fun a => (f a).moments) (p.run m)⟩

instance : MonadExceptOf Stop Traced where
  throw stop := silent (throw stop)
  tryCatch p handle := ⟨tryCatch p.run fun stop => (handle stop).run, fun m =>
    p.moments m ++
      match p.run m with
      | .ok _ _ => []
      | .error stop n => (handle stop).moments n⟩

def inFrame {α : Type} (frame : Nat) (p : Traced α) : Traced α :=
  ⟨Evaluation.inFrame frame p.run, fun m => p.moments { m with current := frame }⟩

def inCall {α : Type} (p : Traced α) : Traced α :=
  ⟨Evaluation.inCall p.run, fun m => p.moments { m with depth := m.depth + 1 }⟩

end Traced

namespace Traced

def printValue (v : Value) : Traced Unit :=
  noted (.prints v) (silent (Evaluation.printValue v))

instance : Host Traced where
  evaluating e := noted (.evaluates e)
  executing s := noted (.executes s)
  calling _ _ _ p := p
  readVariable binding name := silent (Evaluation.readVariable binding name)
  writeVariable binding name v := silent (Evaluation.writeVariable binding name v)
  defineVariable name v := silent (Evaluation.defineVariable name v)
  makeClosure name params body := silent (Evaluation.makeClosure name params body)
  printValue := printValue
  callNative line n vs := silent (Evaluation.callNative line n vs)
  inBlock p := do
    let frame ← silent (pushFrame (← reading Machine.current) [])
    inFrame frame p
  inBody line c bindings p := do
    if Machine.maxDepth ≤ (← reading Machine.depth) then
      raise line .stackOverflow
    else do
      let frame ← silent (pushFrame c.frame bindings)
      inCall (inFrame frame p)

end Traced

abbrev executeProgram (fuel : Nat) : List (Stmt Binding) → Traced Unit :=
  executeProgramIn Traced fuel

end ScriptLang.Output
