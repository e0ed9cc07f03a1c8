import ScriptLang.Scope
import Mathlib.Data.List.Nodup

namespace ScriptLang

namespace Scope

variable {x y : String} {S T : Stack} {d : Nat}

def status (x : String) (S : Stack) (k : Nat) : Option Bool :=
  S[k]?.bind (List.lookup x)

@[simp]
theorem status_zero {names : Names} : status x (names :: S) 0 = names.lookup x :=
  rfl

@[simp]
theorem status_succ {names : Names} {k : Nat} :
    status x (names :: S) (k + 1) = status x S k :=
  rfl

theorem findIdx?_status {P : Option Bool → Bool} (hP : P none = false) :
    S.findIdx? (fun names => P (names.lookup x)) = some d ↔
      P (status x S d) ∧ ∀ k < d, ¬ P (status x S k) := by
  rw [List.findIdx?_eq_some_iff_getElem]
  constructor
  · rintro ⟨hd, hfound, hbefore⟩
    refine ⟨by simpa [status, hd] using hfound, ?_⟩
    intro k hk
    have hlt := Nat.lt_trans hk hd
    simpa [status, hlt] using hbefore k hk
  · rintro ⟨hfound, hbefore⟩
    have hd : d < S.length := by
      by_contra hge
      simp [status, List.getElem?_eq_none (Nat.le_of_not_lt hge), hP] at hfound
    refine ⟨hd, by simpa [status, hd] using hfound, ?_⟩
    intro k hk
    have hlt := Nat.lt_trans hk hd
    simpa [status, hlt] using hbefore k hk

theorem findIdx?_eq_none_status {P : Option Bool → Bool} (hP : P none = false) :
    S.findIdx? (fun names => P (names.lookup x)) = none ↔ ∀ k, ¬ P (status x S k) := by
  rw [List.findIdx?_eq_none_iff]
  constructor
  · intro h k
    cases hk : S[k]? with
    | none => simp [status, hk, hP]
    | some names => simp [status, hk, h names (List.mem_of_getElem? hk)]
  · intro h names hmem
    obtain ⟨k, hk⟩ := List.mem_iff_getElem?.mp hmem
    simpa [status, hk] using h k

theorem nearest_eq_hops :
    nearest x S = .hops d ↔ status x S d ≠ none ∧ ∀ k < d, status x S k = none := by
  have hfind := findIdx?_status (x := x) (S := S) (d := d) (P := Option.isSome) rfl
  have hnearest : nearest x S = .hops d ↔ S.findIdx? (hasName x) = some d := by
    unfold nearest
    cases S.findIdx? (hasName x) <;> simp
  rw [hnearest]
  unfold hasName
  simpa [Option.isSome_iff_ne_none] using hfind

theorem nearest_eq_global : nearest x S = .global ↔ ∀ k, status x S k = none := by
  have hfind := findIdx?_eq_none_status (x := x) (S := S) (P := Option.isSome) rfl
  have hnearest : nearest x S = .global ↔ S.findIdx? (hasName x) = none := by
    unfold nearest
    cases S.findIdx? (hasName x) <;> simp
  rw [hnearest]
  unfold hasName
  rw [hfind]
  simp

/-- Where a name is not pending in the innermost scope, it means the nearest. -/
theorem bindingOf?_not_pending (h : status x S 0 ≠ some false) :
    bindingOf? x S = some (nearest x S) := by
  cases S with
  | nil => rfl
  | cons names S =>
    have hpending : isPending x names = false := decide_eq_false h
    rw [bindingOf?, hpending]
    rfl

/-- Where a name is pending in the innermost scope, it means the nearest that is ready. -/
theorem bindingOf?_pending (h : status x S 0 = some false) :
    bindingOf? x S ≠ some .global ∧
      (bindingOf? x S = some (.hops d) ↔
        0 < d ∧ status x S d = some true ∧ ∀ k, 0 < k → k < d → status x S k ≠ some true) := by
  cases S with
  | nil => cases h
  | cons names S =>
    have hpending : isPending x names = true := decide_eq_true h
    have hready := fun e => findIdx?_status (x := x) (S := S) (d := e)
      (P := fun b => b = some true) rfl
    simp only [bindingOf?, hpending, if_true]
    refine ⟨by simp, ?_⟩
    -- the search leaves the innermost scope out, so what it finds is one scope nearer to it
    simp only [Option.map_eq_some_iff, Binding.hops.injEq]
    constructor
    · rintro ⟨e, he, rfl⟩
      obtain ⟨hfound, hbefore⟩ := (hready e).mp he
      refine ⟨e.succ_pos, by simpa using hfound, ?_⟩
      intro k hpos hk
      obtain ⟨j, rfl⟩ := Nat.exists_eq_add_one_of_ne_zero (Nat.ne_of_gt hpos)
      simpa using hbefore j (Nat.lt_of_succ_lt_succ hk)
    · rintro ⟨hpos, hfound, hbefore⟩
      obtain ⟨e, rfl⟩ := Nat.exists_eq_add_one_of_ne_zero (Nat.ne_of_gt hpos)
      refine ⟨e, (hready e).mpr ⟨by simpa using hfound, ?_⟩, rfl⟩
      intro k hk
      simpa using hbefore (k + 1) k.succ_pos (Nat.succ_lt_succ hk)

/-- A distance is to the nearest scope with the name, or, if the name is pending in the innermost
scope, to the nearest where it is ready. -/
theorem bindingOf?_eq_hops :
    bindingOf? x S = some (.hops d) ↔
      (status x S 0 ≠ some false ∧ status x S d ≠ none ∧ ∀ k < d, status x S k = none) ∨
        status x S 0 = some false ∧ 0 < d ∧ status x S d = some true ∧
          ∀ k, 0 < k → k < d → status x S k ≠ some true := by
  by_cases h : status x S 0 = some false
  · rw [(bindingOf?_pending h).2]
    simp [h]
  · rw [bindingOf?_not_pending h, Option.some.injEq, nearest_eq_hops]
    simp [h]

theorem bindingOf?_eq_global : bindingOf? x S = some .global ↔ ∀ k, status x S k = none := by
  by_cases h : status x S 0 = some false
  · refine iff_of_false (bindingOf?_pending (d := 0) h).1 ?_
    intro hnone
    rw [hnone 0] at h
    cases h
  · rw [bindingOf?_not_pending h, Option.some.injEq, nearest_eq_global]

theorem bindingOf?_congr (h : ∀ k, status x S k = status y T k) (b : Binding) :
    bindingOf? x S = some b ↔ bindingOf? y T = some b := by
  cases b with
  | global => simp only [bindingOf?_eq_global, h]
  | hops d => simp only [bindingOf?_eq_hops, h]

end Scope

end ScriptLang
