import ScriptLang.Proofs.Running.Hosts
import ScriptLang.Session

namespace ScriptLang

/-- A machine and what happened so far, latest first. -/
structure Record (ε : Type) where
  machine : Machine
  events : List ε

abbrev Recording (ε : Type) := EStateM Stop (Record ε)

/-- Runs units in order, each with its fuel, against the machine that those before it left. -/
def Session.runAll : List (Nat × String) → Machine → List Session.Ending × Machine
  | [], m => ([], m)
  | u :: units, m =>
    let first := Session.run u.1 u.2 m
    let others := Session.runAll units first.2
    (first.1 :: others.1, others.2)

namespace Recording

open Evaluation (bind_apply)

variable {ε α β : Type}

def lift (p : Run α) : Recording ε α := fun r =>
  match p r.machine with
  | .ok a m => .ok a ⟨m, r.events⟩
  | .error stop m => .error stop ⟨m, r.events⟩

def note (events : Machine → List ε) : Recording ε Unit := fun r =>
  .ok () ⟨r.machine, events r.machine ++ r.events⟩

/-- A recorded run as a run that tells how it ended and what is on record then. -/
def told (p : Recording ε α) (events : List ε) : Run (Except Stop α × List ε) := fun m =>
  match p ⟨m, events⟩ with
  | .ok a r => .ok (.ok a, r.events) r.machine
  | .error stop r => .ok (.error stop, r.events) r.machine

def through (f : Run (Except Stop α × List ε) → Run (Except Stop α × List ε))
    (p : Recording ε α) : Recording ε α := fun r =>
  match f (told p r.events) r.machine with
  | .ok (.ok a, events) m => .ok a ⟨m, events⟩
  | .ok (.error stop, events) m => .error stop ⟨m, events⟩
  | .error stop m => .error stop ⟨m, r.events⟩

def inFrame (frame : Nat) (p : Recording ε α) : Recording ε α :=
  through (Evaluation.inFrame frame) p

def inCall (p : Recording ε α) : Recording ε α :=
  through Evaluation.inCall p

theorem inFrame_apply (frame : Nat) (p : Recording ε α) (r : Record ε) :
    inFrame frame p r = match p ⟨{ r.machine with current := frame }, r.events⟩ with
      | .ok a n => .ok a ⟨{ n.machine with current := r.machine.current }, n.events⟩
      | .error stop n =>
        .error stop ⟨{ n.machine with current := r.machine.current }, n.events⟩ := by
  unfold inFrame through Evaluation.inFrame told
  cases p ⟨{ r.machine with current := frame }, r.events⟩ <;> rfl

theorem inCall_apply (p : Recording ε α) (r : Record ε) :
    inCall p r = match p ⟨{ r.machine with depth := r.machine.depth + 1 }, r.events⟩ with
      | .ok a n => .ok a ⟨{ n.machine with depth := n.machine.depth - 1 }, n.events⟩
      | .error stop n =>
        .error stop ⟨{ n.machine with depth := n.machine.depth - 1 }, n.events⟩ := by
  unfold inCall through Evaluation.inCall told
  cases p ⟨{ r.machine with depth := r.machine.depth + 1 }, r.events⟩ <;> rfl

/-- The end of a program passes its output on. Where the program stops early, the machine is set
back to global scope. -/
def finish (p : Recording ε Unit) : Recording ε Unit := fun r =>
  match p r with
  | .ok () n =>
    if n.machine.sink.flushFails then .error (.output .flushFailed) n else .ok () n
  | .error stop n => .error stop ⟨n.machine.reset, n.events⟩

def run (perform : List (Stmt Binding) → Recording ε Unit) (source : String) (r : Record ε) :
    Session.Ending × Record ε :=
  match Session.compile source with
  | .error diagnostics => (.refused diagnostics, r)
  | .ok program =>
    match finish (perform program) r with
    | .ok () n => (.completed, n)
    | .error stop n => (.ofStop stop, n)

def runAll (perform : (fuel : Nat) → List (Stmt Binding) → Recording ε Unit) :
    List (Nat × String) → Record ε → List Session.Ending × Record ε
  | [], r => ([], r)
  | u :: units, r =>
    let first := run (perform u.1) u.2 r
    let others := runAll perform units first.2
    (first.1 :: others.1, others.2)

section Erasure

def unrecorded : EStateM.Result Stop (Record ε) α → EStateM.Result Stop Machine α
  | .ok a r => .ok a r.machine
  | .error stop r => .error stop r.machine

/-- The recorded run ends as the run does, with the same machine, whatever is on record. -/
def Erases (q : Recording ε α) (p : Run α) : Prop :=
  ∀ r, unrecorded (q r) = p r.machine

theorem pure_erases (a : α) : Erases (pure a : Recording ε α) (pure a) :=
  fun _ => rfl

theorem throw_erases (stop : Stop) : Erases (throw stop : Recording ε α) (throw stop) :=
  fun _ => rfl

theorem lift_erases (p : Run α) : Erases (lift p : Recording ε α) p := by
  intro r
  unfold lift
  cases p r.machine <;> rfl

variable {q : Recording ε α} {p : Run α}

theorem Erases.bind {f : α → Recording ε β} {g : α → Run β} (hq : Erases q p)
    (hf : ∀ a, Erases (f a) (g a)) : Erases (q >>= f) (p >>= g) := by
  intro r
  have hr := hq r
  rw [bind_apply, bind_apply, ← hr]
  cases q r with
  | ok a n => exact hf a n
  | error stop n => rfl

theorem Erases.noted {f : Unit → Recording ε α} (events : Machine → List ε)
    (hf : Erases (f ()) p) : Erases (note events >>= f) p :=
  fun r => hf ⟨r.machine, events r.machine ++ r.events⟩

theorem Erases.get {f : Record ε → Recording ε α} {g : Machine → Run α}
    (hf : ∀ r, Erases (f r) (g r.machine)) : Erases (get >>= f) (get >>= g) :=
  fun r => hf r r

theorem Erases.recall {f : Record ε → Recording ε α} (hf : ∀ r, Erases (f r) p) :
    Erases (MonadState.get >>= f) p :=
  fun r => hf r r

theorem Erases.inFrame (frame : Nat) (hq : Erases q p) :
    Erases (inFrame frame q) (Evaluation.inFrame frame p) := by
  intro r
  have hr := hq ⟨{ r.machine with current := frame }, r.events⟩
  simp only [inFrame_apply, Evaluation.inFrame, ← hr]
  cases q ⟨{ r.machine with current := frame }, r.events⟩ <;> rfl

theorem Erases.inCall (hq : Erases q p) : Erases (inCall q) (Evaluation.inCall p) := by
  intro r
  have hr := hq ⟨{ r.machine with depth := r.machine.depth + 1 }, r.events⟩
  simp only [inCall_apply, Evaluation.inCall, ← hr]
  cases q ⟨{ r.machine with depth := r.machine.depth + 1 }, r.events⟩ <;> rfl

theorem finish_erases {q : Recording ε Unit} {fuel : Nat} {program : List (Stmt Binding)}
    (hq : Erases q (Evaluation.executeProgram fuel program)) :
    Erases (finish q) (Evaluation.interpret fuel program) := by
  intro r
  have hr := hq r
  simp only [finish, Evaluation.interpret, Evaluation.finish, ← hr]
  cases q r with
  | ok a n =>
    by_cases hflush : n.machine.sink.flushFails
    · simp [unrecorded, hflush]
    · simp [unrecorded, hflush]
  | error stop n => rfl

variable {perform : (fuel : Nat) → List (Stmt Binding) → Recording ε Unit}
  (hperform : ∀ fuel program,
    Erases (perform fuel program) (Evaluation.executeProgram fuel program))

include hperform

/-- A recorded unit ends as the unit itself does and leaves the same machine. -/
theorem run_erases (fuel : Nat) (source : String) (r : Record ε) :
    ((run (perform fuel) source r).1, (run (perform fuel) source r).2.machine) =
      Session.run fuel source r.machine := by
  unfold run Session.run
  cases Session.compile source with
  | error diagnostics => rfl
  | ok program =>
    have hr := finish_erases (hperform fuel program) r
    simp only [← hr]
    cases finish (perform fuel program) r <;> rfl

theorem runAll_erases (units : List (Nat × String)) (r : Record ε) :
    ((runAll perform units r).1, (runAll perform units r).2.machine) =
      Session.runAll units r.machine := by
  induction units generalizing r with
  | nil => rfl
  | cons u units ih =>
    have hrun := run_erases hperform u.1 u.2 r
    have hrest := ih (run (perform u.1) u.2 r).2
    simp only [runAll, Session.runAll, ← hrun, ← hrest]

end Erasure

end Recording
end ScriptLang
