import ScriptLang.Proofs.Chronicle.History

namespace ScriptLang.Chronicle

open Scope

/-- What the frames are that do not hold global names. -/
structure Orderly (events : List Event) (m : Machine) : Prop where
  framed : ∀ f, f < m.store.size → f ≠ m.globals → f ∈ openings events
  once : (openings events).Nodup
  listed : ∀ f scope site x, .opened f scope site ∈ events → (m.store.get? f x).isSome →
    x ∈ scope.declares
  logged : ∀ f x, f ≠ m.globals → ((m.store.get? f x).isSome ↔ (f, x) ∈ definitions events)
  fresh : ((definitions events).filter (·.1 ≠ m.globals)).Nodup

/-- A use of a variable after these events, with the machine standing as the text says. -/
structure Agrees (older : List Event) (place : Place) (n : Node) (m : Machine) : Prop where
  nested : Nested place.program place.around n
  /-- The chain of frames from the current one has nothing but the frames of the place and that of
  global names. -/
  chain : ∀ d, m.store.ancestor? m.current d = (place.frames ++ [m.globals])[d]?
  instances : Instances older place.program place.around place.frames
  orderly : Orderly older m
  used : n.use?.isSome
  resolved : ∀ d name, n.use? = some (.hops d, name) →
    ∃ f scope site, place.frames[d]? = some f ∧ m.frameOf? (.hops d) = some f ∧
      (scopes place.around)[d]? = some scope ∧ .opened f scope site ∈ older ∧
      site.program = place.program ∧ name.lexeme ∈ scope.declares
  unresolved : ∀ name, n.use? = some (.global, name) →
    m.frameOf? .global = (place.frames ++ [m.globals]).getLast?

section Moment

variable {P : List (Stmt Binding) → Prop}

theorem Consistent.orderly {r : Record} (h : Consistent P r.memory) :
    Orderly r.events r.machine where
  framed := h.framed
  once := h.once
  listed f scope site x he hx := (h.opened f scope site he).2.2 x hx
  logged := h.bound
  fresh := h.fresh

variable {older : List Event} {place : Place} {n : Node} {m : Machine}

/-- The frames of a place are the chain of the machine that stands there. -/
theorem At.chain {r : Record} {S : Stack} (h : At P r place S)
    (hroot : r.machine.store.parent? r.machine.globals = none) (d : Nat) :
    r.machine.store.ancestor? r.machine.current d = (place.frames ++ [r.machine.globals])[d]? := by
  rw [h.current]
  exact h.stands.ancestor? hroot d

theorem At.frameOf? {r : Record} {S : Stack} (h : At P r place S)
    (hroot : r.machine.store.parent? r.machine.globals = none) {d f : Nat}
    (hf : place.frames[d]? = some f) : r.machine.frameOf? (.hops d) = some f := by
  change r.machine.store.ancestor? r.machine.current d = some f
  rw [h.chain hroot, List.getElem?_append_left (List.getElem?_eq_some_iff.mp hf).1, hf]

theorem Moment.agrees (h : Moment P ⟨m, older⟩ place n) : Agrees older place n m := by
  obtain ⟨hconsistent, hnested, binding, name, S, huse, hbinding, hat⟩ := h
  refine ⟨hnested, hat.chain hconsistent.root, hat.stands.instances, hconsistent.orderly,
    ?_, ?_, ?_⟩
  · rw [huse]
    rfl
  · intro d name' huse'
    cases huse.symm.trans huse'
    obtain ⟨names, hS, hname, -⟩ := bindingOf?_hops hbinding
    obtain ⟨f, scope, around', frames', hf, hscope, hopened, -, hdeclared⟩ := hat.stands.lookup hS
    exact ⟨f, scope, _, hf, hat.frameOf? hconsistent.root hf, hscope, hopened, rfl,
      hdeclared _ hname⟩
  · intro name' _
    rw [List.getLast?_append]
    rfl

theorem Sound.moment {newer : List Event} (h : Sound P (newer ++ .used place n m :: older)) :
    Moment P ⟨m, older⟩ place n := by
  induction newer with
  | nil => exact h.1
  | cons e newer ih =>
    cases e with
    | used place' n' m' => exact ih h.2
    | _ => exact ih h

theorem Moment.program (h : Moment P ⟨m, older⟩ place n) : P place.program := by
  obtain ⟨_, _, _, -, -, hat⟩ := h.use
  exact hat.program

end Moment

/-- An observed session ends as the session itself does. In it, at every use of a variable, frames
agree with the scopes of a program that some unit compiled to. -/
theorem uses_agree_with_scopes (natives : List Native) (sink : Sink)
    (units : List (Nat × String)) :
    ((runAll units (start natives sink)).1, (runAll units (start natives sink)).2.machine) =
        Session.runAll units (Machine.start natives sink) ∧
      Orderly (runAll units (start natives sink)).2.events
        (runAll units (start natives sink)).2.machine ∧
      ∀ newer place n m older,
        (runAll units (start natives sink)).2.events = newer ++ .used place n m :: older →
        CompiledFrom units place.program ∧ Agrees older place n m := by
  have hvalid := (session_resting natives sink units).valid
  refine ⟨runAll_erases units _, hvalid.consistent.orderly, ?_⟩
  intro newer place n m older hevents
  have hsound := hvalid.sound
  rw [hevents] at hsound
  exact ⟨hsound.moment.program, hsound.moment.agrees⟩

end ScriptLang.Chronicle
