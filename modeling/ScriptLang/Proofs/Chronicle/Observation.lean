import ScriptLang.Proofs.Chronicle.Place
import ScriptLang.Proofs.Recording.Erasure

namespace ScriptLang

def Record.memory (r : Record Chronicle.Event) : Chronicle.Memory :=
  ⟨r.events, r.machine.store, r.machine.globals, r.machine.nextId⟩

namespace Chronicle

open Evaluation (Host Congruence raise pushFrame evaluateIn executeIn executeProgramIn)
open Recording (lift note inFrame inCall Erases lift_erases)

abbrev Record := ScriptLang.Record Event
abbrev Recording := ScriptLang.Recording Event

/-- Runs that know at which place of which program they stand, and keep a record. -/
abbrev Observed := ReaderT Place Recording

abbrev Observer := Expr Binding → Observed Value
abbrev Performer := Stmt Binding → Observed Flow

def openingEvents (n : Node) (place : Place) (names : List String) (frame : Nat) : List Event :=
  (names.map (Event.defined frame)).reverse ++ [.opened frame n place]

def openFrame (n : Node) (place : Place) (parent : Nat) (bindings : List (String × Value)) :
    Recording Nat := do
  note fun m => openingEvents n place (bindings.map Prod.fst) m.store.size
  lift (pushFrame parent bindings)

def origin (events : List Event) (c : Closure) : Node × Place :=
  (origin? events c.id).getD (.stmt (.block c.body), ⟨[], [], []⟩)

/-- An expression that uses a variable is noted before any of it is evaluated. -/
def usesOf (e : Expr Binding) (place : Place) (m : Machine) : List Event :=
  match e with
  | .ident _ _ => [.used place (.expr e) m]
  | .assign _ _ _ => [.used place (.expr e) m]
  | _ => []

instance : Host Observed where
  evaluating e p place := do
    note (usesOf e place)
    p (place.within (.expr e))
  executing s p place := p (place.within (.stmt s))
  calling _ _ _ p := p
  readVariable binding name _ := lift (Evaluation.readVariable binding name)
  writeVariable binding name v place := do
    note fun m => [.used place.here.2 place.here.1 m]
    lift (Evaluation.writeVariable binding name v)
  defineVariable name v place := do
    note fun m => [.defined m.current name.lexeme, .completed m.current place.here.1]
    lift (Evaluation.defineVariable name v)
  makeClosure name params body place := do
    note fun m => [.made m.nextId place.here.1 place.here.2]
    lift (Evaluation.makeClosure name params body)
  printValue v _ := lift (Evaluation.printValue v)
  callNative line n vs _ := lift (Evaluation.callNative line n vs)
  inBlock p place := do
    let frame ← openFrame place.here.1 place.here.2 (← get).machine.current []
    inFrame frame (p (place.here.2.inScope place.here.1 frame))
  inBody line c bindings p _ := do
    if Machine.maxDepth ≤ (← get).machine.depth then
      raise line .stackOverflow
    else do
      let o := origin (← get).events c
      let frame ← openFrame o.1 o.2 c.frame bindings
      inCall (inFrame frame (p (o.2.inScope o.1 frame)))

def evaluate (fuel : Nat) : Observer := evaluateIn Observed fuel

def execute (fuel : Nat) : Performer := executeIn Observed fuel

def executeProgram (fuel : Nat) (program : List (Stmt Binding)) : Recording Unit :=
  executeProgramIn Observed fuel program ⟨program, [], []⟩

def run (fuel : Nat) : String → Record → Session.Ending × Record :=
  Recording.run (executeProgram fuel)

def runAll : List (Nat × String) → Record → List Session.Ending × Record :=
  Recording.runAll executeProgram

section Erasure

theorem openFrame_erases (n : Node) (place : Place) (parent : Nat)
    (bindings : List (String × Value)) :
    Erases (openFrame n place parent bindings) (pushFrame parent bindings) :=
  .noted _ (lift_erases _)

theorem inBlock_erases {p : Observed Flow} {q : Run Flow} (hp : ∀ place, Erases (p place) q)
    (place : Place) : Erases (Host.inBlock p place) (Evaluation.inBlock q) := by
  dsimp only [Host.inBlock, Evaluation.inBlock]
  apply Erases.get
  intro r
  apply (openFrame_erases _ _ _ _).bind
  intro frame
  exact .inFrame frame (hp _)

theorem inBody_erases {p : Observed Flow} {q : Run Flow} (hp : ∀ place, Erases (p place) q)
    (line : Nat) (c : Closure) (bindings : List (String × Value)) (place : Place) :
    Erases (Host.inBody line c bindings p place) (Evaluation.inBody line c bindings q) := by
  dsimp only [Host.inBody, Evaluation.inBody]
  apply Erases.get
  intro r
  by_cases hdepth : Machine.maxDepth ≤ r.machine.depth
  · rw [if_pos hdepth, if_pos hdepth]
    exact Recording.throw_erases _
  · rw [if_neg hdepth, if_neg hdepth]
    apply Erases.recall
    intro n
    apply (openFrame_erases _ _ _ _).bind
    intro frame
    exact (Erases.inFrame frame (hp _)).inCall

/-- Keeping a record of a run does not change it, at whatever place it stands. -/
theorem erases_congruence :
    Congruence (M := Observed) (N := Run) fun _ q p => ∀ place, Erases (q place) p where
  pure a _ := Recording.pure_erases a
  throw stop _ := Recording.throw_erases stop
  bind hp hf place := (hp place).bind fun a => hf a place
  evaluating e hp place := .noted _ (hp (place.within (.expr e)))
  executing s hp place := hp (place.within (.stmt s))
  readVariable _ _ _ := lift_erases _
  writeVariable _ _ _ _ := .noted _ (lift_erases _)
  defineVariable _ _ _ := .noted _ (lift_erases _)
  makeClosure _ _ _ _ := .noted _ (lift_erases _)
  printValue _ _ := lift_erases _
  callNative _ _ _ _ := lift_erases _
  inBlock := inBlock_erases
  inBody line c bindings hp := inBody_erases hp line c bindings

theorem executeProgram_erases (fuel : Nat) (program : List (Stmt Binding)) :
    Erases (executeProgram fuel program) (Evaluation.executeProgram fuel program) :=
  erases_congruence.executeProgramIn (fun _ _ _ _ h => h) fuel program _

theorem run_erases (fuel : Nat) (source : String) (r : Record) :
    ((run fuel source r).1, (run fuel source r).2.machine) = Session.run fuel source r.machine :=
  Recording.run_erases executeProgram_erases fuel source r

theorem runAll_erases (units : List (Nat × String)) (r : Record) :
    ((runAll units r).1, (runAll units r).2.machine) = Session.runAll units r.machine :=
  Recording.runAll_erases executeProgram_erases units r

end Erasure

end Chronicle
end ScriptLang
