import ScriptLang.Proofs.Recording.Erasure

namespace ScriptLang.Calls

open Evaluation (Host raise pushFrame executeIn executeProgramIn)
open Recording (lift note inFrame inCall)

inductive Act where
  | evaluates (e : Expr Binding)
  | executes (s : Stmt Binding)
  | calls (paren : Token) (callee : Value) (arguments : List Value)
  /-- A call has come to a result. Before it some functions were active and the machine was another
  one. -/
  | answers (paren : Token) (callee : Value) (arguments : List Value) (active : List Closure)
      (before : Machine) (result : EStateM.Result Stop Machine Value)
  /-- The frame of a call is current, and nothing of the body has been executed. -/
  | enters (c : Closure)
  | leaves
  | ends

structure Moment where
  act : Act
  machine : Machine

def Act.onto (active : List Closure) : Act → List Closure
  | .enters c => c :: active
  | .leaves => active.tail
  | _ => active

/-- The functions whose bodies are being executed after some moments, latest first, innermost
first. -/
def active : List Moment → List Closure
  | [] => []
  | t :: earlier => t.act.onto (active earlier)

abbrev Record := ScriptLang.Record Moment
abbrev Recording := ScriptLang.Recording Moment

variable {α : Type}

def noted (act : Act) (p : Recording α) : Recording α := do
  note fun m => [⟨act, m⟩]
  p

/-- A moment after a run, however it ends. -/
def closing (act : EStateM.Result Stop Machine α → Act) (p : Recording α) : Recording α := fun r =>
  match p r with
  | .ok a n => .ok a ⟨n.machine, ⟨act (.ok a n.machine), n.machine⟩ :: n.events⟩
  | .error stop n => .error stop ⟨n.machine, ⟨act (.error stop n.machine), n.machine⟩ :: n.events⟩

def enterBody (c : Closure) (bindings : List (String × Value)) (p : Recording α) : Recording α := do
  let frame ← lift (pushFrame c.frame bindings)
  closing (fun _ => .leaves) (inCall (inFrame frame (noted (.enters c) p)))

instance : Host Recording where
  evaluating e p := noted (.evaluates e) (closing (fun _ => .ends) p)
  executing s p := noted (.executes s) (closing (fun _ => .ends) p)
  calling paren f vs p := do
    let r ← MonadState.get
    noted (.calls paren f vs) (closing (.answers paren f vs (active r.events) r.machine) p)
  readVariable binding name := lift (Evaluation.readVariable binding name)
  writeVariable binding name v := lift (Evaluation.writeVariable binding name v)
  defineVariable name v := lift (Evaluation.defineVariable name v)
  makeClosure name params body := lift (Evaluation.makeClosure name params body)
  printValue v := lift (Evaluation.printValue v)
  callNative line n vs := lift (Evaluation.callNative line n vs)
  inBlock p := do
    let frame ← lift (pushFrame (← get).machine.current [])
    inFrame frame p
  inBody line c bindings p := do
    if Machine.maxDepth ≤ (← get).machine.depth then
      raise line .stackOverflow
    else enterBody c bindings p

def execute (fuel : Nat) : Stmt Binding → Recording Flow := executeIn Recording fuel

def executeProgram (fuel : Nat) : List (Stmt Binding) → Recording Unit :=
  executeProgramIn Recording fuel

def runAll : List (Nat × String) → Record → List Session.Ending × Record :=
  Recording.runAll executeProgram

/-- Before a session nothing is on record. -/
def start (natives : List Native) (sink : Sink) : Record := ⟨Machine.start natives sink, []⟩

end ScriptLang.Calls
