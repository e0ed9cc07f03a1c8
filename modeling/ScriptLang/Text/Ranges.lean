namespace ScriptLang.Text

abbrev Ranges := List (Nat × Nat)

namespace Ranges

/-- No range is empty, and each lies above the one before with a gap between them. -/
def ascending : Ranges → Bool
  | [] => true
  | [r] => r.1 ≤ r.2
  | r :: s :: rest => r.1 ≤ r.2 && r.2 + 1 < s.1 && ascending (s :: rest)

/-- Whether a number lies in one of some ascending ranges: those above it need no look. -/
def contains : Ranges → Nat → Bool
  | [], _ => false
  | r :: rest, n => r.1 ≤ n && (n ≤ r.2 || contains rest n)

theorem first_le_of_mem {r s : Nat × Nat} {rest : Ranges} (h : ascending (r :: rest) = true)
    (hs : s ∈ rest) : r.1 ≤ s.1 := by
  induction rest generalizing r with
  | nil => cases hs
  | cons t rest ih =>
    simp only [ascending, Bool.and_eq_true, decide_eq_true_eq] at h
    obtain ⟨⟨hr, hgap⟩, hrest⟩ := h
    rcases List.mem_cons.mp hs with rfl | hs
    · omega
    · have hle := ih hrest hs
      omega

theorem ascending_tail {r : Nat × Nat} {rest : Ranges} (h : ascending (r :: rest) = true) :
    ascending rest = true := by
  cases rest with
  | nil => rfl
  | cons s rest => exact (Bool.and_eq_true_iff.mp h).2

/-- The search stops at a range above the number, and none further on has it. -/
theorem contains_iff {ranges : Ranges} (h : ascending ranges = true) (n : Nat) :
    contains ranges n = true ↔ ∃ r ∈ ranges, r.1 ≤ n ∧ n ≤ r.2 := by
  induction ranges with
  | nil => simp [contains]
  | cons r rest ih =>
    have hfirst : (∃ s ∈ rest, s.1 ≤ n ∧ n ≤ s.2) → r.1 ≤ n := fun ⟨_, hs, hle, _⟩ =>
      Nat.le_trans (first_le_of_mem h hs) hle
    simp only [contains, Bool.and_eq_true, Bool.or_eq_true, decide_eq_true_eq,
      ih (ascending_tail h), List.mem_cons, or_and_right, exists_or, exists_eq_left]
    constructor
    · rintro ⟨hle, hr | hrest⟩
      · exact .inl ⟨hle, hr⟩
      · exact .inr hrest
    · rintro (⟨hle, hr⟩ | hrest)
      · exact ⟨hle, .inl hr⟩
      · exact ⟨hfirst hrest, .inr hrest⟩

end Ranges
end ScriptLang.Text
