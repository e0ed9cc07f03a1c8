import ScriptLang.Proofs.Calls.Limits

namespace ScriptLang.Captured

open Calls (Lengthens)
open Running (ending)

variable {m n : Machine} {f g : Nat}

def Encloses (s : Store Value) (f g : Nat) : Prop :=
  ∃ distance, s.ancestor? g distance = some f

def Held (m : Machine) (c : Closure) : Prop :=
  ∃ f x, Reaches m f ∧ m.store.get? f x = some (.closure c)

/-- A frame is in the scope of the code that runs, or of a function that it holds. -/
def InScope (m : Machine) (f : Nat) : Prop :=
  Encloses m.store f m.current ∨ Encloses m.store f m.globals ∨
    ∃ c, Held m c ∧ Encloses m.store f c.frame

/-- What no run can do to the variables it meets. -/
structure Encapsulated (m n : Machine) : Prop where
  unreached : ∀ f < m.store.size, ¬ Reaches m f → n.store.frames[f]? = m.store.frames[f]?
  parents : ∀ f < m.store.size, n.store.parent? f = m.store.parent? f
  kept : ∀ f x, m.store.Binds f x → n.store.Binds f x
  /-- Whoever changes a variable shares its scope, or holds a function that does. -/
  captured : ∀ f < m.store.size, ∀ x, n.store.get? f x ≠ m.store.get? f x → InScope m f

theorem encloses_self (s : Store Value) (f : Nat) : Encloses s f f :=
  ⟨0, rfl⟩

theorem Encloses.parent {s : Store Value} {outer : Nat} (h : Encloses s f g)
    (hf : s.parent? f = some outer) : Encloses s outer g := by
  obtain ⟨distance, hdistance⟩ := h
  refine ⟨distance + 1, ?_⟩
  rw [Store.ancestor?_add, hdistance, Option.bind_some, Store.ancestor?_succ, hf]
  rfl

theorem Reaches.inScope (h : Reaches m f) : InScope m f := by
  induction h with
  | current => exact .inl (encloses_self m.store m.current)
  | globals => exact .inr (.inl (encloses_self m.store m.globals))
  | parent _ hparent ih =>
    rcases ih with hin | hin | ⟨c, hheld, hin⟩
    · exact .inl (hin.parent hparent)
    · exact .inr (.inl (hin.parent hparent))
    · exact .inr (.inr ⟨c, hheld, hin.parent hparent⟩)
  | closure hreach hbound _ =>
    exact .inr (.inr ⟨_, ⟨_, _, hreach, hbound⟩, encloses_self m.store _⟩)

theorem Grown.encapsulated
    (h : Grown (fun f => Reaches m f ∨ m.store.size ≤ f) m.store n.store) : Encapsulated m n where
  unreached f hf hreach :=
    h.outside f (not_or.mpr ⟨hreach, Nat.not_le_of_lt hf⟩)
  parents := h.parents
  kept := h.kept
  captured f hf x hchanged := by
    -- a frame in nobody's scope is out of reach, and then nothing in it has changed
    by_contra hscope
    have hsame := h.outside f
      (not_or.mpr ⟨fun hreach => hscope hreach.inScope, Nat.not_le_of_lt hf⟩)
    exact hchanged (congrArg (·.bind (Frame.get? · x)) hsame)

theorem Confined.encapsulates {α : Type} {p : Run α} {A : α → Prop}
    (h : Confined (fun f => Reaches m f ∨ m.store.size ≤ f) p A) :
    Encapsulated m (ending (p m)) := by
  have hm := h m (holds_reaches m)
  cases hr : p m with
  | ok a n =>
    rw [hr] at hm
    exact hm.2.1.encapsulated
  | error stop n =>
    rw [hr] at hm
    exact hm.2.encapsulated

/-- Captured state is encapsulated. Whatever is evaluated or executed on whatever machine, and
however it ends, the frames out of reach are as they were, and no frame gets another parent or loses
a binding. The same is executed with a record, in which each call is seen to get a frame of its own,
which no other call of a session has. -/
theorem captured_state_is_encapsulated :
    (∀ fuel e m, Encapsulated m (ending (Evaluation.evaluate fuel e m))) ∧
    (∀ fuel s m, Encapsulated m (ending (Evaluation.execute fuel s m))) ∧
    (∀ fuel s, Recording.Erases (Calls.execute fuel s) (Evaluation.execute fuel s)) ∧
    (∀ fuel s r, Lengthens r (ending (Calls.execute fuel s r))) ∧
    (∀ units r, ((Calls.runAll units r).1, (Calls.runAll units r).2.machine) =
      Session.runAll units r.machine) ∧
    ∀ units r, Lengthens r (Calls.runAll units r).2 :=
  ⟨fun fuel e _ => ((evaluate_execute_confined _ fuel).1 e).encapsulates,
    fun fuel s _ => ((evaluate_execute_confined _ fuel).2 s).encapsulates,
    fun fuel s => (Calls.execute_watches fuel s).erases,
    fun fuel s r => ((Calls.execute_watches fuel s).passes r).toLengthens,
    Calls.runAll_erases,
    Calls.runAll_lengthens⟩

end ScriptLang.Captured
