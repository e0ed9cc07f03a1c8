import ScriptLang.Proofs.Chronicle.Keeping

namespace ScriptLang.Chronicle

open Scope Evaluation
open Recording (lift note)

variable {α β : Type} {P : List (Stmt Binding) → Prop} {D : Nat → String → Prop} {r : Record}
  {place : Place}

section Still

theorem raise_keeps {Q : α → Memory → Prop} (hr : Valid P r) (line : Nat) {fault : RuntimeFault}
    (hf : ∀ x, fault ≠ .undefinedVariable x) : Keeps P D r (raise line fault) Q := by
  refine ⟨hr, .refl D r, ?_⟩
  intro x line' h
  cases h
  exact absurd rfl (hf x)

def Plain (v : Value) : Prop :=
  ∀ c, v ≠ .closure c

theorem Plain.known {v : Value} {m : Memory} (h : Plain v) : Known P m v := by
  cases v with
  | closure c => exact absurd rfl (h c)
  | _ => exact trivial

theorem plain_ofLiteral (value : Literal) : Plain (.ofLiteral value) := by
  cases value <;> simp [Value.ofLiteral, Plain]

def Harmless : Except RuntimeFault Value → Prop
  | .ok v => Plain v
  | .error fault => ∀ x, fault ≠ .undefinedVariable x

theorem report_keeps (hr : Valid P r) (line : Nat) {result : Except RuntimeFault Value}
    (h : Harmless result) :
    Keeps P D r ((report line result : Observed Value) place) fun v m => Known P m v := by
  cases result with
  | ok v => exact .pure hr (Plain.known h)
  | error fault => exact raise_keeps hr line h

theorem unary_harmless (operator : Kind) (v : Value) : Harmless (Operator.unary operator v) := by
  unfold Operator.unary
  cases operator <;> cases v <;> simp [Harmless, Plain]

theorem onNumbers_harmless {f : Float → Float → Value} (hf : ∀ x y, Plain (f x y))
    (v w : Value) : Harmless (Operator.onNumbers f v w) := by
  cases v <;> cases w <;> simp [Operator.onNumbers, Harmless, hf]

theorem add_harmless (v w : Value) : Harmless (Operator.add v w) := by
  cases v <;> cases w <;> simp [Operator.add, Harmless, Plain]

theorem binary_harmless (operator : Kind) (v w : Value) :
    Harmless (Operator.binary operator v w) := by
  cases operator with
  | plus => exact add_harmless v w
  | equalEqual => simp [Operator.binary, Harmless, Plain]
  | bangEqual => simp [Operator.binary, Harmless, Plain]
  | minus | star | slash | less | lessEqual | greater | greaterEqual =>
    exact onNumbers_harmless (fun _ _ => by simp [Plain]) v w
  | _ => simp [Operator.binary, Harmless]

theorem printValue_keeps (hr : Valid P r) (v : Value) :
    Keeps P D r (lift (printValue v)) fun _ _ => True := by
  unfold Keeps lift printValue
  by_cases hf : r.machine.sink.fits (v.text ++ "\n").toUTF8
  · simp only [hf, if_true]
    exact ⟨⟨hr.consistent, hr.sound⟩, ⟨.refl D r.memory, rfl⟩, trivial⟩
  · simp only [hf]
    refine ⟨⟨hr.consistent, hr.sound⟩, ⟨.refl D r.memory, rfl⟩, ?_⟩
    intro x line h
    cases h

end Still

section Use

variable {n : Node} {binding : Binding} {name : Token}

theorem Keeps.noted {f : Unit → Recording β} {events : Machine → List Event}
    {Q : β → Memory → Prop} (hf : Follows D r ⟨r.machine, events r.machine ++ r.events⟩)
    (h : Keeps P D ⟨r.machine, events r.machine ++ r.events⟩ (f ()) Q) :
    Keeps P D r (note events >>= f) Q := by
  have hnote : note events r = .ok () ⟨r.machine, events r.machine ++ r.events⟩ := rfl
  unfold Keeps at h ⊢
  rw [bind_apply, hnote]
  simp only
  cases hfr : f () ⟨r.machine, events r.machine ++ r.events⟩ with
  | ok b k =>
    rw [hfr] at h
    exact ⟨h.1, hf.trans h.2.1, h.2.2⟩
  | error stop k =>
    rw [hfr] at h
    exact ⟨h.1, hf.trans h.2.1, h.2.2⟩

theorem Keeps.unnoted {q : Recording β} {events : Machine → List Event} {Q : β → Memory → Prop}
    (hevents : events r.machine = []) (h : Keeps P D r q Q) :
    Keeps P D r (note events >>= fun _ => q) Q := by
  have hnote : note events r = .ok () r := by
    rw [note, hevents]
    rfl
  unfold Keeps at h ⊢
  rw [bind_apply, hnote]
  exact h

theorem Moment.valid (hm : Moment P r place n) (hr : Valid P r) :
    Valid P ⟨r.machine, .used place n r.machine :: r.events⟩ :=
  ⟨hr.consistent.use place n r.machine, hm, hr.sound⟩

theorem follows_use (place : Place) (n : Node) :
    Follows D r ⟨r.machine, .used place n r.machine :: r.events⟩ :=
  ⟨(later_use place n r.machine).lax, rfl⟩

theorem explained_use {older : List Event} {m : Machine}
    (hmiss : Misses n m name) {x : String} {line : Nat} (hx : name.lexeme = x)
    (hline : name.line = line) :
    Explained (.error ⟨.undefinedVariable x, line⟩) (.used place n m :: older) := by
  intro x' line' h
  cases h
  exact ⟨place, n, m, name, older, rfl, hmiss, hx, hline⟩

theorem read_keeps (hr : Valid P r) (hm : Moment P r place n)
    (hu : n.use? = some (binding, name)) :
    Keeps P D r (do note fun m => [.used place n m]; lift (readVariable binding name))
      fun v m => Known P m v := by
  apply Keeps.noted (follows_use place n)
  have hvalid := hm.valid hr
  unfold Keeps lift readVariable
  cases hfind : (r.machine.frameOf? binding).bind (r.machine.store.get? · name.lexeme) with
  | none =>
    simp only
    exact ⟨hvalid, .refl D _, explained_use ⟨binding, hu, hfind⟩ rfl rfl⟩
  | some v =>
    simp only
    refine ⟨hvalid, .refl D _, ?_⟩
    obtain ⟨f, -, hv⟩ := Option.bind_eq_some_iff.mp hfind
    exact (hr.consistent.known f name.lexeme v hv).later (later_use place n r.machine)

theorem write_keeps (hr : Valid P r) (hm : Moment P r place n)
    (hu : n.use? = some (binding, name)) {v : Value} (hv : Known P r.memory v) :
    Keeps P D r ((Host.writeVariable binding name v : Observed Unit) (place.within n))
      fun _ m => Known P m v := by
  apply Keeps.noted (follows_use place n)
  have hvalid := hm.valid hr
  have hknown : Known P (r.memory.use place n r.machine) v := hv.later (later_use place n r.machine)
  unfold Keeps lift
  simp only
  rcases writeVariable_cases binding name v r.machine with ⟨hmiss, hw⟩ | ⟨f, -, hb, hw⟩
  · rw [hw]
    exact ⟨hvalid, .refl D _, explained_use ⟨binding, hu, hmiss⟩ rfl rfl⟩
  · rw [hw]
    have hwrite : Later Nothing (r.memory.use place n r.machine)
        ((r.memory.use place n r.machine).write f name.lexeme v r.machine.nextId) :=
      later_write (.inr hb) (Nat.le_refl _)
    exact ⟨⟨hvalid.consistent.write (.inr hb) (Nat.le_refl _) hknown, hvalid.sound⟩,
      ⟨hwrite.lax, rfl⟩, hknown.later hwrite⟩

end Use

end ScriptLang.Chronicle
