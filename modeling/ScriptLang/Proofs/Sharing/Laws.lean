import ScriptLang.Proofs.Sharing.Histories

namespace ScriptLang.Sharing

variable {α : Type} {n : Nat}

/-- The variable `x` of frame `g` gets a value. It is seen on every way to the variable. All other
variables, and the links between the frames, stay as they are. -/
structure Sets (s t : Store α) (g : Nat) (x : String) (v : α) : Prop where
  size : t.size = s.size
  links : ∀ f d, t.ancestor? f d = s.ancestor? f d
  value : t.get? g x = some v
  others : ∀ f y, f ≠ g ∨ y ≠ x → t.get? f y = s.get? f y
  reached : ∀ f d, s.ancestor? f d = some g → t.getAt? f d x = some v
  elsewhere : ∀ f d y, s.ancestor? f d ≠ some g ∨ y ≠ x → t.getAt? f d y = s.getAt? f d y

/-- What can be relied on when reading and writing from a frame. -/
structure Lawful (h : History α n) (f : Fin n) : Prop where
  leads : ∀ d, h.store.ancestor? f d = (h.above? f d).map Fin.val
  shows : ∀ d x, h.store.getAt? f d x = (h.above? f d).bind (h.value? · x)
  exist : ∀ d, (h.store.ancestor? f d).isSome ↔ d ≤ h.depth f
  compose : ∀ i j, h.store.ancestor? f (i + j) =
    (h.store.ancestor? f i).bind (h.store.ancestor? · j)
  told : ∀ d x v, (h.store.assignAt f d x v).1 = (h.store.getAt? f d x).isSome
  assigned : ∀ d x v, (h.store.assignAt f d x v).1 = true →
    ∃ g, h.store.ancestor? f d = some g ∧ Sets h.store (h.store.assignAt f d x v).2 g x v
  refused : ∀ d x v, (h.store.assignAt f d x v).1 = false → (h.store.assignAt f d x v).2 = h.store
  /-- Past the root there is nothing to read or to write. -/
  beyond : ∀ d x v, h.depth f < d →
    h.store.getAt? f d x = none ∧ h.store.assignAt f d x v = (false, h.store)
  defined : ∀ x v, Sets h.store (h.store.define f x v) f x v

section Writing

variable {s : Store α} {f g d : Nat} {x : String}

theorem sets_define (hg : g < s.size) (x : String) (v : α) : Sets s (s.define g x v) g x v where
  size := s.size_define g x v
  links f d := s.ancestor?_define f g d x v
  value := by rw [Store.get?_define, if_pos ⟨rfl, rfl, hg⟩]
  others f y h := by
    rw [Store.get?_define, if_neg]
    rintro ⟨rfl, rfl, -⟩
    simp at h
  reached f d h := by rw [Store.getAt?_define, if_pos ⟨h, rfl, hg⟩]
  elsewhere f d y h := by
    rw [Store.getAt?_define, if_neg]
    rintro ⟨hf, rfl, -⟩
    simp [hf] at h

theorem fst_assignAt (s : Store α) (f d : Nat) (x : String) (v : α) :
    (s.assignAt f d x v).1 = (s.getAt? f d x).isSome := by
  rcases s.assignAt_cases f d x v with ⟨hx, hd⟩ | ⟨g, w, -, hx, -, hd⟩
  · rw [hx, hd]
    rfl
  · rw [hx, hd]
    rfl

theorem sets_assignAt {v : α} (h : (s.assignAt f d x v).1 = true) :
    ∃ g, s.ancestor? f d = some g ∧ Sets s (s.assignAt f d x v).2 g x v := by
  rcases s.assignAt_cases f d x v with ⟨-, hd⟩ | ⟨g, w, hg, -, hb, hd⟩
  · rw [hd] at h
    cases h
  · rw [hd]
    exact ⟨g, hg, sets_define (s.lt_size_of_binds g x hb) x v⟩

theorem assignAt_refused {v : α} (h : (s.assignAt f d x v).1 = false) :
    (s.assignAt f d x v).2 = s := by
  rcases s.assignAt_cases f d x v with ⟨-, hd⟩ | ⟨g, w, -, -, -, hd⟩
  · rw [hd]
  · rw [hd] at h
    cases h

theorem assignAt_nowhere (h : s.ancestor? f d = none) (x : String) (v : α) :
    s.getAt? f d x = none ∧ s.assignAt f d x v = (false, s) := by
  rcases s.assignAt_cases f d x v with hd | ⟨g, w, hg, -⟩
  · exact hd
  · rw [h] at hg
    cases hg

end Writing

section Reading

variable (h : History α n) (f : Fin n) (d : Nat)

theorem getAt?_store (x : String) :
    h.store.getAt? f d x = (h.above? f d).bind (h.value? · x) := by
  rw [Store.getAt?_eq_bind, h.ancestor?_store, Option.bind_map]
  exact Option.bind_congr fun g _ => h.get?_store g x

theorem isSome_ancestor?_iff : (h.store.ancestor? f d).isSome ↔ d ≤ h.depth f := by
  rw [h.ancestor?_store, Option.isSome_map, h.isSome_above?_iff]

end Reading

/-- In every forest that is built up by making roots and children, defining and assigning, the laws
of variables hold from every frame. -/
theorem shared_variables_are_lawful {α : Type} {n : Nat} (h : History α n) (f : Fin n) :
    Lawful h f where
  leads := h.ancestor?_store f
  shows := getAt?_store h f
  exist := isSome_ancestor?_iff h f
  compose := h.store.ancestor?_add f
  told := fst_assignAt h.store f
  assigned _ _ _ := sets_assignAt
  refused _ _ _ := assignAt_refused
  beyond d x v hdeep := by
    apply assignAt_nowhere
    rw [← Option.not_isSome_iff_eq_none, isSome_ancestor?_iff]
    exact Nat.not_le_of_lt hdeep
  defined := sets_define (h.lt_size_store f)

example :
    let h : History Nat 3 := .child (.child (.define (.root .empty) 0 "a" 1) 0) 1
    h.depth 2 = 2 ∧ h.store.getAt? 2 2 "a" = some 1 ∧ h.store.getAt? 2 1 "a" = none ∧
      (h.store.assignAt 2 2 "a" 5).2.getAt? 1 1 "a" = some 5 ∧
      h.store.assignAt 2 3 "a" 5 = (false, h.store) := by decide

end ScriptLang.Sharing
