import ScriptLang.Machine

namespace ScriptLang.Store

variable {α : Type}

def Binds (s : Store α) (f : Nat) (x : String) : Prop :=
  (s.get? f x).isSome

instance (s : Store α) (f : Nat) (x : String) : Decidable (s.Binds f x) :=
  inferInstanceAs (Decidable ((s.get? f x).isSome = true))

section Push

variable (s : Store α) (parent : Option Nat) (f : Nat)

@[simp] theorem size_push : (s.push parent).size = s.size + 1 := by
  simp [push, size]

theorem parent?_push : (s.push parent).parent? f = if f = s.size then parent else s.parent? f := by
  unfold parent? push size
  rw [Array.getElem?_push]
  split <;> rfl

@[simp] theorem get?_push (x : String) : (s.push parent).get? f x = s.get? f x := by
  unfold get? push
  rw [Array.getElem?_push]
  split
  · next h => simp [h, Frame.get?]
  · rfl

end Push

section Define

variable (s : Store α) (f g : Nat) (x y : String) (v : α)

@[simp] theorem size_define : (s.define g y v).size = s.size := by
  simp [define, size]

@[simp] theorem parent?_define : (s.define g y v).parent? f = s.parent? f := by
  unfold parent? define
  rw [Array.getElem?_modify]
  split
  · next h =>
    subst h
    cases s.frames[g]? <;> rfl
  · rfl

theorem get?_define : (s.define g y v).get? f x =
    if f = g ∧ x = y ∧ g < s.size then some v else s.get? f x := by
  unfold get? define size
  rw [Array.getElem?_modify]
  by_cases hf : f = g
  · subst hf
    by_cases hlt : f < s.frames.size
    · simp only [if_true, Array.getElem?_eq_getElem hlt, Option.map_some, Option.bind_some,
        Frame.get?_define, hlt, and_true, true_and]
    · simp [hlt]
  · simp [hf, Ne.symm hf]

theorem binds_define : (s.define g y v).Binds f x ↔
    s.Binds f x ∨ f = g ∧ x = y ∧ g < s.size := by
  unfold Binds
  rw [get?_define]
  by_cases h : f = g ∧ x = y ∧ g < s.size
  · simp [h]
  · simp [h]

theorem lt_size_of_binds (h : s.Binds f x) : f < s.size := by
  unfold Binds get? at h
  by_cases hlt : f < s.frames.size
  · exact hlt
  · simp [Array.getElem?_eq_none (Nat.le_of_not_lt hlt)] at h

theorem lt_size_of_parent? {p : Nat} (h : s.parent? f = some p) : f < s.size := by
  unfold parent? at h
  by_cases hlt : f < s.frames.size
  · exact hlt
  · simp [Array.getElem?_eq_none (Nat.le_of_not_lt hlt)] at h

theorem get?_new {s : Store α} {f : Nat} (h : s.size ≤ f) (x : String) : s.get? f x = none := by
  rw [← Option.not_isSome_iff_eq_none]
  intro hsome
  exact absurd (s.lt_size_of_binds f x hsome) (Nat.not_lt.mpr h)

end Define

section Ancestor

variable (s : Store α) (f g d : Nat) (x y : String) (v : α)

theorem ancestor?_succ : s.ancestor? f (d + 1) = (s.parent? f).bind (s.ancestor? · d) := by
  rw [ancestor?]
  cases s.parent? f <;> rfl

theorem ancestor?_add (i j : Nat) :
    s.ancestor? f (i + j) = (s.ancestor? f i).bind (s.ancestor? · j) := by
  induction i generalizing f with
  | zero => rw [Nat.zero_add, ancestor?, Option.bind_some]
  | succ i ih =>
    rw [Nat.succ_add, ancestor?_succ, ancestor?_succ, Option.bind_assoc]
    exact Option.bind_congr fun parent _ => ih parent

theorem ancestor?_congr {β : Type} {s : Store α} {t : Store β}
    (h : ∀ f, t.parent? f = s.parent? f) (f d : Nat) : t.ancestor? f d = s.ancestor? f d := by
  induction d generalizing f with
  | zero => rfl
  | succ d ih =>
    rw [ancestor?_succ, ancestor?_succ, h]
    exact Option.bind_congr fun parent _ => ih parent

@[simp] theorem ancestor?_define : (s.define g y v).ancestor? f d = s.ancestor? f d :=
  ancestor?_congr (fun f => parent?_define s f g y v) f d

theorem getAt?_eq_bind : s.getAt? f d x = (s.ancestor? f d).bind (s.get? · x) := by
  unfold getAt?
  cases s.ancestor? f d <;> rfl

theorem getAt?_define : (s.define g y v).getAt? f d x =
    if s.ancestor? f d = some g ∧ x = y ∧ g < s.size then some v else s.getAt? f d x := by
  rw [getAt?_eq_bind, getAt?_eq_bind, ancestor?_define]
  cases s.ancestor? f d with
  | none => simp
  | some target => simp only [Option.bind_some, get?_define, Option.some.injEq]

end Ancestor

section Assign

variable (s : Store α) (f d : Nat) (x : String) (v : α) (g : Nat) (y : String)

/-- An assignment is refused, or it is a definition of a name that is bound. -/
theorem assign_cases : (s.get? f x = none ∧ s.assign f x v = (false, s)) ∨
    (s.Binds f x ∧ s.assign f x v = (true, s.define f x v)) := by
  cases hx : s.get? f x with
  | none => exact .inl ⟨rfl, by rw [assign, hx]; rfl⟩
  | some w => exact .inr ⟨Option.isSome_of_eq_some hx, by rw [assign, hx]; rfl⟩

theorem assignAt_cases : (s.getAt? f d x = none ∧ s.assignAt f d x v = (false, s)) ∨
    ∃ g w, s.ancestor? f d = some g ∧ s.getAt? f d x = some w ∧ s.Binds g x ∧
      s.assignAt f d x v = (true, s.define g x v) := by
  unfold assignAt
  rw [getAt?_eq_bind]
  cases s.ancestor? f d with
  | none => exact .inl ⟨rfl, rfl⟩
  | some g =>
    rcases s.assign_cases g x v with h | ⟨hb, h⟩
    · exact .inl h
    · obtain ⟨w, hw⟩ := Option.isSome_iff_exists.mp hb
      exact .inr ⟨g, w, rfl, hw, hb, h⟩

@[simp] theorem size_assign : (s.assign f x v).2.size = s.size := by
  rcases s.assign_cases f x v with ⟨-, h⟩ | ⟨-, h⟩
  · rw [h]
  · rw [h, size_define]

@[simp] theorem parent?_assign : (s.assign f x v).2.parent? g = s.parent? g := by
  rcases s.assign_cases f x v with ⟨-, h⟩ | ⟨-, h⟩
  · rw [h]
  · rw [h, parent?_define]

theorem get?_assign : (s.assign f x v).2.get? g y =
    if f = g ∧ y = x ∧ s.Binds g y then some v else s.get? g y := by
  rcases s.assign_cases f x v with ⟨hx, h⟩ | ⟨hb, h⟩
  · rw [h, if_neg]
    rintro ⟨rfl, rfl, hb⟩
    simp [Binds, hx] at hb
  · rw [h, get?_define]
    by_cases hc : f = g ∧ y = x
    · obtain ⟨rfl, rfl⟩ := hc
      rw [if_pos ⟨rfl, rfl, s.lt_size_of_binds f y hb⟩, if_pos ⟨rfl, rfl, hb⟩]
    · rw [if_neg fun hd => hc ⟨hd.1.symm, hd.2.1⟩, if_neg fun hd => hc ⟨hd.1, hd.2.1⟩]

@[simp] theorem size_assignAt : (s.assignAt f d x v).2.size = s.size := by
  unfold assignAt
  cases s.ancestor? f d with
  | none => rfl
  | some target => exact s.size_assign target x v

@[simp] theorem parent?_assignAt : (s.assignAt f d x v).2.parent? g = s.parent? g := by
  unfold assignAt
  cases s.ancestor? f d with
  | none => rfl
  | some target => exact s.parent?_assign target x v g

theorem get?_assignAt : (s.assignAt f d x v).2.get? g y =
    if s.ancestor? f d = some g ∧ y = x ∧ s.Binds g y then some v else s.get? g y := by
  unfold assignAt
  cases s.ancestor? f d with
  | none => simp
  | some target => simp only [get?_assign, Option.some.injEq]

end Assign

def defineAll (s : Store α) (g : Nat) (bindings : List (String × α)) : Store α :=
  bindings.foldl (fun s b => s.define g b.1 b.2) s

section DefineAll

variable (s : Store α) (f g : Nat) (x : String) (bindings : List (String × α))

@[simp] theorem size_defineAll : (s.defineAll g bindings).size = s.size := by
  induction bindings generalizing s with
  | nil => rfl
  | cons b bs ih => exact (ih (s.define g b.1 b.2)).trans (size_define s g b.1 b.2)

@[simp] theorem parent?_defineAll : (s.defineAll g bindings).parent? f = s.parent? f := by
  induction bindings generalizing s with
  | nil => rfl
  | cons b bs ih => exact (ih (s.define g b.1 b.2)).trans (parent?_define s f g b.1 b.2)

theorem binds_defineAll (hg : g < s.size) : (s.defineAll g bindings).Binds f x ↔
    s.Binds f x ∨ f = g ∧ x ∈ bindings.map Prod.fst := by
  induction bindings generalizing s with
  | nil => simp [defineAll]
  | cons b bs ih =>
    have hrest := ih (s.define g b.1 b.2) (by simpa using hg)
    change ((s.define g b.1 b.2).defineAll g bs).Binds f x ↔ _
    rw [hrest, binds_define]
    simp [hg, and_or_left, or_assoc]

/-- A value in the store was there before or is one of those just bound. -/
theorem get?_defineAll {v : α} (h : (s.defineAll g bindings).get? f x = some v) :
    s.get? f x = some v ∨ v ∈ bindings.map Prod.snd := by
  induction bindings generalizing s with
  | nil => exact .inl h
  | cons b bs ih =>
    simp only [List.map_cons, List.mem_cons]
    rcases ih (s.define g b.1 b.2) h with hb | hb
    · rw [get?_define] at hb
      by_cases hc : f = g ∧ x = b.1 ∧ g < s.size
      · rw [if_pos hc] at hb
        exact .inr (.inl (Option.some.inj hb).symm)
      · rw [if_neg hc] at hb
        exact .inl hb
    · exact .inr (.inr hb)

end DefineAll

end ScriptLang.Store
