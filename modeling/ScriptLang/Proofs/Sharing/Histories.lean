import ScriptLang.Proofs.Chronicle.Frames

namespace ScriptLang.Sharing

variable {α β : Type} {n : Nat}

/-- How a forest of `n` frames was built up. Only frames that are there can be worked on. -/
inductive History (α : Type) : Nat → Type where
  | empty : History α 0
  | root {n : Nat} (before : History α n) : History α (n + 1)
  | child {n : Nat} (before : History α n) (parent : Fin n) : History α (n + 1)
  | define {n : Nat} (before : History α n) (frame : Fin n) (name : String) (value : α) :
    History α n
  | assign {n : Nat} (before : History α n) (frame : Fin n) (name : String) (value : α) :
    History α n
  | assignAt {n : Nat} (before : History α n) (frame : Fin n) (distance : Nat) (name : String)
    (value : α) : History α n

def extended (known : Fin n → β) (last : β) : Fin (n + 1) → β :=
  fun f => Fin.lastCases last known f

@[simp] theorem extended_last (known : Fin n → β) (last : β) :
    extended known last (Fin.last n) = last :=
  Fin.lastCases_last

@[simp] theorem extended_castSucc (known : Fin n → β) (last : β) (f : Fin n) :
    extended known last f.castSucc = known f :=
  Fin.lastCases_castSucc f

namespace History

/-- The store after all that happened. -/
def store {n : Nat} : History α n → Store α
  | .empty => .empty
  | .root before => before.store.push none
  | .child before parent => before.store.push (some parent)
  | .define before frame name value => before.store.define frame name value
  | .assign before frame name value => (before.store.assign frame name value).2
  | .assignAt before frame distance name value =>
    (before.store.assignAt frame distance name value).2

def parent? {n : Nat} : History α n → Fin n → Option (Fin n)
  | .empty => Fin.elim0
  | .root before => extended (fun f => (before.parent? f).map Fin.castSucc) none
  | .child before parent =>
    extended (fun f => (before.parent? f).map Fin.castSucc) (some parent.castSucc)
  | .define before _ _ _ => before.parent?
  | .assign before _ _ _ => before.parent?
  | .assignAt before _ _ _ _ => before.parent?

/-- How many frames were around a frame when it was made. -/
def depth {n : Nat} : History α n → Fin n → Nat
  | .empty => Fin.elim0
  | .root before => extended before.depth 0
  | .child before parent => extended before.depth (before.depth parent + 1)
  | .define before _ _ _ => before.depth
  | .assign before _ _ _ => before.depth
  | .assignAt before _ _ _ _ => before.depth

def above? (h : History α n) (f : Fin n) : (distance : Nat) → Option (Fin n)
  | 0 => some f
  | distance + 1 => (h.parent? f).bind fun parent => h.above? parent distance

/-- What was last given to a variable. An assignment gives nothing where no variable was defined. -/
def value? {n : Nat} : History α n → Fin n → String → Option α
  | .empty => Fin.elim0
  | .root before => extended before.value? fun _ => none
  | .child before _ => extended before.value? fun _ => none
  | .define before frame name value => fun f x =>
    if f = frame ∧ x = name then some value else before.value? f x
  | .assign before frame name value => fun f x =>
    if f = frame ∧ x = name ∧ (before.value? f x).isSome then some value else before.value? f x
  | .assignAt before frame distance name value => fun f x =>
    if before.above? frame distance = some f ∧ x = name ∧ (before.value? f x).isSome then some value
    else before.value? f x

variable (h : History α n) (f : Fin n)

theorem size_store : h.store.size = n := by
  induction h with
  | empty => rfl
  | root before ih => rw [store, Store.size_push, ih]
  | child before parent ih => rw [store, Store.size_push, ih]
  | define before frame name value ih => rw [store, Store.size_define, ih]
  | assign before frame name value ih => rw [store, Store.size_assign, ih]
  | assignAt before frame distance name value ih => rw [store, Store.size_assignAt, ih]

theorem lt_size_store : f.val < h.store.size :=
  Nat.lt_of_lt_of_eq f.isLt h.size_store.symm

section Push

variable {h} (parent : Option Nat)

theorem parent?_push_last : (h.store.push parent).parent? (Fin.last n) = parent := by
  rw [Store.parent?_push, Fin.val_last, if_pos h.size_store.symm]

theorem parent?_push_castSucc {f : Fin n} (hf : h.store.parent? f = (h.parent? f).map Fin.val) :
    (h.store.push parent).parent? f.castSucc = ((h.parent? f).map Fin.castSucc).map Fin.val := by
  rw [Store.parent?_push, Fin.val_castSucc, if_neg (Nat.ne_of_lt (h.lt_size_store f)), hf,
    Option.map_map]
  rfl

theorem get?_push_last (x : String) : (h.store.push parent).get? (Fin.last n) x = none := by
  rw [Store.get?_push]
  exact Store.get?_new (Nat.le_of_eq h.size_store) x

end Push

theorem parent?_store : h.store.parent? f = (h.parent? f).map Fin.val := by
  -- a new frame comes last, so its number is not that of any older one
  induction h with
  | empty => exact f.elim0
  | root before ih =>
    cases f using Fin.lastCases with
    | last =>
      rw [store, parent?, extended_last]
      exact parent?_push_last none
    | cast f =>
      rw [store, parent?, extended_castSucc]
      exact parent?_push_castSucc none (ih f)
  | child before parent ih =>
    cases f using Fin.lastCases with
    | last =>
      rw [store, parent?, extended_last]
      exact parent?_push_last (some parent.val)
    | cast f =>
      rw [store, parent?, extended_castSucc]
      exact parent?_push_castSucc (some parent.val) (ih f)
  | define before frame name value ih => exact (Store.parent?_define ..).trans (ih f)
  | assign before frame name value ih => exact (Store.parent?_assign ..).trans (ih f)
  | assignAt before frame distance name value ih => exact (Store.parent?_assignAt ..).trans (ih f)

/-- The links of the store lead to the frames that the history has around a frame. -/
theorem ancestor?_store (d : Nat) : h.store.ancestor? f d = (h.above? f d).map Fin.val := by
  induction d generalizing f with
  | zero => rfl
  | succ d ih =>
    rw [Store.ancestor?_succ, above?, parent?_store, Option.map_bind, Option.bind_map]
    exact Option.bind_congr fun parent _ => ih parent

theorem ancestor?_store_eq_some (d : Nat) (g : Fin n) :
    h.store.ancestor? f d = some g.val ↔ h.above? f d = some g := by
  rw [ancestor?_store, Option.map_eq_some_iff]
  exact ⟨fun ⟨k, hk, hval⟩ => Fin.ext hval ▸ hk, fun hg => ⟨g, hg, rfl⟩⟩

/-- Each frame of the store binds what was given to its variables. -/
theorem get?_store (x : String) : h.store.get? f x = h.value? f x := by
  induction h with
  | empty => exact f.elim0
  | root before ih =>
    cases f using Fin.lastCases with
    | last =>
      rw [store, value?, extended_last]
      exact get?_push_last none x
    | cast f =>
      rw [store, value?, extended_castSucc, Store.get?_push]
      exact ih f
  | child before parent ih =>
    cases f using Fin.lastCases with
    | last =>
      rw [store, value?, extended_last]
      exact get?_push_last (some parent.val) x
    | cast f =>
      rw [store, value?, extended_castSucc, Store.get?_push]
      exact ih f
  | define before frame name value ih =>
    simp only [store, value?, Store.get?_define, ih, before.lt_size_store frame, and_true,
      Fin.val_inj]
  | assign before frame name value ih =>
    simp only [store, value?, Store.get?_assign, Store.Binds, ih, Fin.val_inj, eq_comm]
  | assignAt before frame distance name value ih =>
    simp only [store, value?, Store.get?_assignAt, Store.Binds, ih, ancestor?_store_eq_some]

/-- A frame is a root, or else one deeper than the frame it was made in. -/
theorem depth_cases : (h.parent? f = none ∧ h.depth f = 0) ∨
    ∃ g, h.parent? f = some g ∧ h.depth f = h.depth g + 1 := by
  induction h with
  | empty => exact f.elim0
  | root before ih =>
    cases f using Fin.lastCases with
    | last => exact .inl ⟨extended_last _ _, extended_last _ _⟩
    | cast f =>
      rcases ih f with ⟨hroot, hdepth⟩ | ⟨g, hg, hdepth⟩
      · exact .inl (by simp [parent?, depth, hroot, hdepth])
      · exact .inr ⟨g.castSucc, by simp [parent?, depth, hg, hdepth]⟩
  | child before parent ih =>
    cases f using Fin.lastCases with
    | last => exact .inr ⟨parent.castSucc, by simp [parent?, depth]⟩
    | cast f =>
      rcases ih f with ⟨hroot, hdepth⟩ | ⟨g, hg, hdepth⟩
      · exact .inl (by simp [parent?, depth, hroot, hdepth])
      · exact .inr ⟨g.castSucc, by simp [parent?, depth, hg, hdepth]⟩
  | define before frame name value ih => exact ih f
  | assign before frame name value ih => exact ih f
  | assignAt before frame distance name value ih => exact ih f

theorem isSome_above?_iff (d : Nat) : (h.above? f d).isSome ↔ d ≤ h.depth f := by
  induction d generalizing f with
  | zero => simp [above?]
  | succ d ih =>
    rw [above?]
    rcases h.depth_cases f with ⟨hroot, hdepth⟩ | ⟨g, hg, hdepth⟩
    · simp [hroot, hdepth]
    · rw [hg, hdepth, Option.bind_some, ih, Nat.add_le_add_iff_right]

end History
end ScriptLang.Sharing
