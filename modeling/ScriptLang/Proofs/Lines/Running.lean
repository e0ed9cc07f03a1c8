import ScriptLang.Proofs.Recoding.Running

namespace ScriptLang

namespace Lines

open Evaluation

variable {α : Type} {f : Nat → Nat}

def ended (f : Nat → Nat) (g : α → α) :
    EStateM.Result Stop Machine α → EStateM.Result Stop Machine α
  | .ok a n => .ok (g a) (n.moved f)
  | .error stop n => .error (stop.moved f) (n.moved f)

/-- The run `q` does on the machine with its lines moved what `p` does on the machine itself: it
answers with what `g` makes of the answer, and what it leaves has its lines moved. -/
def Carries (f : Nat → Nat) (g : α → α) (p q : Run α) : Prop :=
  ∀ m, q (m.moved f) = ended f g (p m)

theorem ended_moving (g : α → α) (r : EStateM.Result Stop Machine α) :
    Recoding.ended (.moving f) g r = ended f g r := by
  cases r with
  | ok a n => rw [Recoding.ended, n.recoded_moving, ended]
  | error stop n => rw [Recoding.ended, stop.recoded_moving, n.recoded_moving, ended]

/-- A program that has its lines moved runs on a machine that has them moved as it runs before. -/
theorem interpret_carries (f : Nat → Nat) (fuel : Nat) (program : List (Stmt Binding)) :
    Carries f id (interpret fuel program) (interpret fuel (Stmt.allMoved f program)) := by
  intro m
  have hrun := Recoding.interpret_carries (.moving f) id id (fun _ => rfl) fuel program m
  rwa [Linked.interpret_id, Stmt.allRecoded_moving, Machine.recoded_moving, ended_moving] at hrun

end Lines

end ScriptLang
