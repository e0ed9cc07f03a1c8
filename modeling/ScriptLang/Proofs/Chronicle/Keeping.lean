import ScriptLang.Proofs.Chronicle.Growth

namespace ScriptLang.Chronicle

open Scope
open Evaluation (bind_apply)
open Recording (inFrame inCall inFrame_apply inCall_apply)

variable {α β : Type}

section Validity

variable (P : List (Stmt Binding) → Prop)

structure At (r : Record) (place : Place) (S : Stack) : Prop where
  program : P place.program
  current : r.machine.current = place.frames.headD r.machine.globals
  stands : Stands r.memory place.program place.around place.frames S

/-- What holds whenever a variable is about to be used. -/
structure Moment (r : Record) (place : Place) (n : Node) : Prop where
  consistent : Consistent P r.memory
  nested : Nested place.program place.around n
  use : ∃ binding name S, n.use? = some (binding, name) ∧
    bindingOf? name.lexeme S = some binding ∧ At P r place S

/-- Every use on record was at such a moment. -/
def Sound : List Event → Prop
  | [] => True
  | .used place n m :: older => Moment P ⟨m, older⟩ place n ∧ Sound older
  | _ :: older => Sound older

structure Valid (r : Record) : Prop where
  consistent : Consistent P r.memory
  sound : Sound P r.events

def Misses (n : Node) (m : Machine) (name : Token) : Prop :=
  ∃ binding, n.use? = some (binding, name) ∧
    (m.frameOf? binding).bind (m.store.get? · name.lexeme) = none

def Explained (stop : Stop) (events : List Event) : Prop :=
  ∀ x line, stop = .error ⟨.undefinedVariable x, line⟩ →
    ∃ place n m name older, events = .used place n m :: older ∧ Misses n m name ∧
      name.lexeme = x ∧ name.line = line

structure Follows (D : Nat → String → Prop) (r n : Record) : Prop where
  later : Later D r.memory n.memory
  current : n.machine.current = r.machine.current

/-- From a valid record the run ends with a valid record, has bound no names in older local frames
but those in `D`, and answers as `Q` says, or else names a use that found nothing. -/
def Keeps (D : Nat → String → Prop) (r : Record) (q : Recording α) (Q : α → Memory → Prop) : Prop :=
  match q r with
  | .ok a n => Valid P n ∧ Follows D r n ∧ Q a n.memory
  | .error stop n => Valid P n ∧ Follows D r n ∧ Explained stop n.events

end Validity

variable {P : List (Stmt Binding) → Prop} {D E : Nat → String → Prop}

section Following

variable {r n k : Record}

theorem Follows.refl (D : Nat → String → Prop) (r : Record) : Follows D r r :=
  ⟨.refl D r.memory, rfl⟩

theorem Follows.trans (h : Follows D r n) (h' : Follows D n k) : Follows D r k :=
  ⟨h.later.trans h'.later, h'.current.trans h.current⟩

theorem Follows.weaken (h : Follows D r n)
    (hD : ∀ f x, f < r.machine.store.size → f ≠ r.machine.globals → D f x → E f x) :
    Follows E r n :=
  ⟨h.later.weaken hD, h.current⟩

theorem At.follows {place : Place} {S : Stack} (h : At P r place S) (hf : Follows D r n) :
    At P n place S where
  program := h.program
  current := by
    have hg : n.machine.globals = r.machine.globals := hf.later.globals
    rw [hf.current, hg, h.current]
  stands := h.stands.later hf.later

theorem At.within {place : Place} {S : Stack} {node : Node} (h : At P r place S)
    (hn : node.opensScope = false) : At P r (place.within node) S :=
  ⟨h.program, h.current, .plain hn h.stands⟩

end Following

section Combination

variable {r : Record} {Q : α → Memory → Prop} {R : β → Memory → Prop}

theorem Keeps.pure {a : α} (hr : Valid P r) (ha : Q a r.memory) :
    Keeps P D r (Pure.pure a) Q :=
  ⟨hr, .refl D r, ha⟩

theorem Keeps.exhausted (hr : Valid P r) : Keeps P D r (throw .exhausted) Q := by
  refine ⟨hr, .refl D r, ?_⟩
  intro x line h
  cases h

/-- One run after another. The first may bind less than both together. -/
theorem Keeps.seq {q : Recording α} {f : α → Recording β} (hq : Keeps P D r q Q)
    (hD : ∀ f x, D f x → E f x)
    (hf : ∀ a n, Valid P n → Follows D r n → Q a n.memory → Keeps P E n (f a) R) :
    Keeps P E r (q >>= f) R := by
  unfold Keeps at hq ⊢
  rw [bind_apply]
  cases hqr : q r with
  | error stop n =>
    rw [hqr] at hq
    exact ⟨hq.1, hq.2.1.weaken fun f x _ _ => hD f x, hq.2.2⟩
  | ok a n =>
    rw [hqr] at hq
    obtain ⟨hn, hrn, ha⟩ := hq
    have hfa := hf a n hn hrn ha
    have hrn' : Follows E r n := hrn.weaken fun f x _ _ => hD f x
    unfold Keeps at hfa
    simp only
    cases hfr : f a n with
    | ok b k =>
      rw [hfr] at hfa
      exact ⟨hfa.1, hrn'.trans hfa.2.1, hfa.2.2⟩
    | error stop k =>
      rw [hfr] at hfa
      exact ⟨hfa.1, hrn'.trans hfa.2.1, hfa.2.2⟩

theorem Keeps.bind {q : Recording α} {f : α → Recording β} (hq : Keeps P Nothing r q Q)
    (hf : ∀ a n, Valid P n → Follows Nothing r n → Q a n.memory → Keeps P D n (f a) R) :
    Keeps P D r (q >>= f) R :=
  hq.seq (fun _ _ h => h.elim) hf

theorem Keeps.get {f : Record → Recording α} (h : Keeps P D r (f r) Q) :
    Keeps P D r (MonadState.get >>= f) Q :=
  h

theorem Keeps.weaken {q : Recording α} {Q' : α → Memory → Prop} (hq : Keeps P D r q Q)
    (hD : ∀ f x, f < r.machine.store.size → f ≠ r.machine.globals → D f x → E f x)
    (hQ : ∀ a m, Q a m → Q' a m) : Keeps P E r q Q' := by
  unfold Keeps at hq ⊢
  cases hqr : q r with
  | ok a n =>
    rw [hqr] at hq
    exact ⟨hq.1, hq.2.1.weaken hD, hQ a _ hq.2.2⟩
  | error stop n =>
    rw [hqr] at hq
    exact ⟨hq.1, hq.2.1.weaken hD, hq.2.2⟩

theorem Keeps.inFrame {q : Recording α} {frame : Nat} (hr : Valid P r)
    (hq : ∀ n, Valid P n → n.memory = r.memory → n.machine.current = frame → Keeps P D n q Q) :
    Keeps P D r (inFrame frame q) Q := by
  have h := hq ⟨{ r.machine with current := frame }, r.events⟩ ⟨hr.consistent, hr.sound⟩ rfl rfl
  unfold Keeps at h ⊢
  simp only [inFrame_apply]
  cases hqr : q ⟨{ r.machine with current := frame }, r.events⟩ with
  | ok a n =>
    rw [hqr] at h
    exact ⟨⟨h.1.consistent, h.1.sound⟩, ⟨h.2.1.later, rfl⟩, h.2.2⟩
  | error stop n =>
    rw [hqr] at h
    exact ⟨⟨h.1.consistent, h.1.sound⟩, ⟨h.2.1.later, rfl⟩, h.2.2⟩

theorem Keeps.inCall {q : Recording α} (hr : Valid P r)
    (hq : ∀ n, Valid P n → n.memory = r.memory → Keeps P D n q Q) :
    Keeps P D r (inCall q) Q := by
  have h := hq ⟨{ r.machine with depth := r.machine.depth + 1 }, r.events⟩
    ⟨hr.consistent, hr.sound⟩ rfl
  unfold Keeps at h ⊢
  simp only [inCall_apply]
  cases hqr : q ⟨{ r.machine with depth := r.machine.depth + 1 }, r.events⟩ with
  | ok a n =>
    rw [hqr] at h
    exact ⟨⟨h.1.consistent, h.1.sound⟩, ⟨h.2.1.later, h.2.1.current⟩, h.2.2⟩
  | error stop n =>
    rw [hqr] at h
    exact ⟨⟨h.1.consistent, h.1.sound⟩, ⟨h.2.1.later, h.2.1.current⟩, h.2.2⟩

end Combination

end ScriptLang.Chronicle
