import ScriptLang.Proofs.Chronicle.Frames

namespace ScriptLang.Captured

open Store

inductive Reaches (m : Machine) : Nat → Prop where
  | current : Reaches m m.current
  | globals : Reaches m m.globals
  | parent {f g : Nat} : Reaches m f → m.store.parent? f = some g → Reaches m g
  | closure {f : Nat} {x : String} {c : Closure} :
    Reaches m f → m.store.get? f x = some (.closure c) → Reaches m c.frame

variable {R : Nat → Prop} {s t u : Store Value} {m : Machine}

def LeadsInto (R : Nat → Prop) (v : Value) : Prop :=
  ∀ c, v = .closure c → R c.frame

/-- A region that nothing in a store leads out of. -/
structure Closed (R : Nat → Prop) (s : Store Value) : Prop where
  parents : ∀ f g, R f → s.parent? f = some g → R g
  values : ∀ f x v, R f → s.get? f x = some v → LeadsInto R v
  coming : ∀ f, s.size ≤ f → R f

structure Holds (R : Nat → Prop) (m : Machine) : Prop extends Closed R m.store where
  current : R m.current
  globals : R m.globals

structure Grown (R : Nat → Prop) (s t : Store Value) : Prop where
  outside : ∀ f, ¬ R f → t.frames[f]? = s.frames[f]?
  size : s.size ≤ t.size
  parents : ∀ f, f < s.size → t.parent? f = s.parent? f
  kept : ∀ f x, s.Binds f x → t.Binds f x

theorem Grown.refl (R : Nat → Prop) (s : Store Value) : Grown R s s :=
  ⟨fun _ _ => rfl, Nat.le_refl _, fun _ _ => rfl, fun _ _ h => h⟩

theorem Grown.trans (h : Grown R s t) (h' : Grown R t u) : Grown R s u where
  outside f hf := (h'.outside f hf).trans (h.outside f hf)
  size := Nat.le_trans h.size h'.size
  parents f hf := (h'.parents f (Nat.lt_of_lt_of_le hf h.size)).trans (h.parents f hf)
  kept f x hb := h'.kept f x (h.kept f x hb)

/-- What a machine reaches, and what is yet to be made, holds the machine. -/
theorem holds_reaches (m : Machine) : Holds (fun f => Reaches m f ∨ m.store.size ≤ f) m where
  current := .inl .current
  globals := .inl .globals
  parents f g hf hg := by
    rcases hf with hf | hf
    · exact .inl (hf.parent hg)
    · exact absurd (m.store.lt_size_of_parent? f hg) (Nat.not_lt_of_le hf)
  values f x v hf hv c hc := by
    subst hc
    rcases hf with hf | hf
    · exact .inl (hf.closure hv)
    · have hbinds : m.store.Binds f x := Option.isSome_of_eq_some hv
      exact absurd (m.store.lt_size_of_binds f x hbinds) (Nat.not_lt_of_le hf)
  coming f hf := .inr hf

theorem holds_everything (m : Machine) : Holds (fun _ => True) m :=
  ⟨⟨fun _ _ _ _ => trivial, fun _ _ _ _ _ _ _ => trivial, fun _ _ => trivial⟩, trivial, trivial⟩

theorem Closed.ancestor? (h : Closed R s) {f g distance : Nat} (hf : R f)
    (hg : s.ancestor? f distance = some g) : R g := by
  induction distance generalizing f with
  | zero =>
    cases hg
    exact hf
  | succ distance ih =>
    rw [Store.ancestor?_succ] at hg
    obtain ⟨parent, hparent, hrest⟩ := Option.bind_eq_some_iff.mp hg
    exact ih (h.parents f parent hf hparent) hrest

theorem Holds.frameOf? (h : Holds R m) {binding : Binding} {f : Nat}
    (hf : m.frameOf? binding = some f) : R f := by
  cases binding with
  | global =>
    cases hf
    exact h.globals
  | hops distance => exact h.toClosed.ancestor? h.current hf

section Define

variable {f : Nat} {v : Value}

theorem grown_define (x : String) (v : Value) (hf : R f) : Grown R s (s.define f x v) where
  outside g hg := by
    have hne : f ≠ g := fun h => hg (h ▸ hf)
    simp [Store.define, Array.getElem?_modify, hne]
  size := by simp
  parents := by simp
  kept g y hb := (s.binds_define g f y x v).mpr (.inl hb)

theorem Closed.define (h : Closed R s) (f : Nat) (x : String) (hv : LeadsInto R v) :
    Closed R (s.define f x v) where
  parents g k hg hk := h.parents g k hg (by simpa using hk)
  values g y w hg hw := by
    rw [Store.get?_define] at hw
    split at hw
    · cases hw
      exact hv
    · exact h.values g y w hg hw
  coming g hg := h.coming g (by simpa using hg)

end Define

section Push

variable {parent : Nat} {bindings : List (String × Value)}

theorem grown_push (h : Closed R s) (parent : Option Nat) : Grown R s (s.push parent) where
  outside f hf := by
    have hlt : f < s.size := Nat.lt_of_not_le fun hle => hf (h.coming f hle)
    rw [Store.push, Array.getElem?_push]
    exact if_neg (Nat.ne_of_lt hlt)
  size := by simp
  parents f hf := by rw [Store.parent?_push, if_neg (Nat.ne_of_lt hf)]
  kept f x hb := by simpa [Store.Binds] using hb

theorem Closed.push (h : Closed R s) (hp : R parent) : Closed R (s.push (some parent)) where
  parents f g hf hg := by
    rw [Store.parent?_push] at hg
    split at hg
    · cases hg
      exact hp
    · exact h.parents f g hf hg
  values f x v hf hv := h.values f x v hf (by simpa using hv)
  coming f hf := h.coming f (Nat.le_of_succ_le (by simpa using hf))

theorem defineAll_region {f : Nat} (h : Closed R s) (hf : R f)
    (hv : ∀ v ∈ bindings.map Prod.snd, LeadsInto R v) :
    Grown R s (s.defineAll f bindings) ∧ Closed R (s.defineAll f bindings) := by
  induction bindings generalizing s with
  | nil => exact ⟨.refl R s, h⟩
  | cons b bs ih =>
    obtain ⟨hfirst, hothers⟩ := List.forall_mem_cons.mp hv
    obtain ⟨hgrown, hclosed⟩ := ih (h.define f b.1 hfirst) hothers
    exact ⟨(grown_define b.1 b.2 hf).trans hgrown, hclosed⟩

end Push

end ScriptLang.Captured
