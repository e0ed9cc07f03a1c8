import ScriptLang.Machine.Evaluation

namespace ScriptLang.Sink

variable {s : Sink} {a b : ByteArray}

/-- A sink that takes so many bytes in all. -/
def limited (room : Nat) : Sink := ⟨.empty, some room, false⟩

theorem fits_congr {t : Sink} (h : t.room = s.room) : t.fits a = s.fits a := by
  rw [fits, h, fits]

theorem room_write_congr {t : Sink} (h : t.room = s.room) :
    (t.write a).room = (s.write a).room :=
  congrArg (Option.map (· - a.size)) h

theorem write_empty : s.write .empty = s := by
  obtain ⟨written, room, flushFails⟩ := s
  cases room with
  | none => simp [write, accepted]
  | some n =>
    have hnone : ByteArray.empty.extract 0 n = .empty := by
      rw [ByteArray.extract_eq_empty_iff, ByteArray.size_empty]
      omega
    simp [write, accepted, hnone]

theorem fits_empty : s.fits .empty = true := by
  unfold fits
  cases s.room <;> simp

theorem write_write : (s.write a).write b = s.write (a ++ b) := by
  obtain ⟨written, room, flushFails⟩ := s
  cases room with
  | none => simp [write, accepted, ByteArray.append_assoc]
  | some n =>
    simp only [write, accepted, Option.map_some, ByteArray.append_assoc, ByteArray.extract_append,
      ByteArray.size_append, Nat.zero_sub, Nat.sub_sub]

theorem fits_append : s.fits (a ++ b) = (s.fits a && (s.write a).fits b) := by
  obtain ⟨written, room, flushFails⟩ := s
  cases room with
  | none => rfl
  | some n =>
    simp only [fits, write, Option.map_some, Option.all_some, ByteArray.size_append]
    rw [← Bool.decide_and, decide_eq_decide]
    omega

theorem write_append_of_not_fits (h : s.fits a = false) : s.write (a ++ b) = s.write a := by
  obtain ⟨written, room, flushFails⟩ := s
  cases room with
  | none => cases h
  | some n =>
    have hn : n < a.size := by simpa [fits] using h
    have hnone : b.extract 0 (n - a.size) = .empty := by
      rw [ByteArray.extract_eq_empty_iff]
      omega
    have hroom : n - (a.size + b.size) = n - a.size := by omega
    simp only [write, accepted, Option.map_some, ByteArray.extract_append, ByteArray.size_append,
      Nat.zero_sub, hnone, hroom, ByteArray.append_empty]

theorem fits_limited (k : Nat) : (limited k).fits a = decide (a.size ≤ k) :=
  rfl

theorem written_limited (k : Nat) : ((limited k).write a).written = a.extract 0 k :=
  ByteArray.empty_append

theorem written_unlimited : (unlimited.write a).written = a :=
  ByteArray.empty_append

section Device

def offer (s : Sink) (bytes : ByteArray) : Option (Nat × Sink) :=
  if bytes.size ≠ 0 ∧ s.room = some 0 then none
  else some ((s.accepted bytes).size, s.write bytes)

def writeAll (s : Sink) (bytes : ByteArray) : Bool × Sink :=
  if bytes.size = 0 then (true, s)
  else
    match s.offer bytes with
    | none => (false, s)
    | some (0, t) => (false, t)
    | some (n + 1, t) => writeAll t (bytes.extract (n + 1) bytes.size)
termination_by bytes.size
decreasing_by
  rw [ByteArray.size_extract]
  omega

def printLine (s : Sink) (text : String) : Bool × Sink :=
  match s.writeAll text.toUTF8 with
  | (true, t) => t.writeAll "\n".toUTF8
  | (false, t) => (false, t)

theorem writeAll_empty : s.writeAll .empty = (true, s) := by
  rw [writeAll]
  simp

theorem writeAll_full (h : s.room = some 0) (ha : a ≠ .empty) : s.writeAll a = (false, s) := by
  have hsize : a.size ≠ 0 := by rwa [Ne, ByteArray.size_eq_zero_iff]
  rw [writeAll, if_neg hsize, offer, if_pos ⟨hsize, h⟩]

theorem write_full (h : s.room = some 0) : s.write a = s := by
  obtain ⟨written, room, flushFails⟩ := s
  cases h
  simp [write, accepted, ByteArray.extract_same]

theorem rest_of_offer (s : Sink) (a : ByteArray) :
    s.fits a = true ∧ a.extract (s.accepted a).size a.size = .empty ∨
      s.fits a = false ∧ a.extract (s.accepted a).size a.size ≠ .empty ∧
        (s.write a).room = some 0 := by
  obtain ⟨written, room, flushFails⟩ := s
  cases room with
  | none => exact .inl ⟨rfl, ByteArray.extract_same⟩
  | some n =>
    simp only [fits, accepted, write, Option.all_some, Option.map_some, Option.some.injEq, Ne,
      ByteArray.extract_eq_empty_iff, ByteArray.size_extract, decide_eq_true_eq,
      decide_eq_false_iff_not]
    omega

/-- Offering a text piece by piece writes it as far as there is room. -/
theorem writeAll_eq (s : Sink) (a : ByteArray) : s.writeAll a = (s.fits a, s.write a) := by
  by_cases ha : a = .empty
  · rw [ha, writeAll_empty, fits_empty, write_empty]
  have hsize : a.size ≠ 0 := by rwa [Ne, ByteArray.size_eq_zero_iff]
  by_cases hfull : s.room = some 0
  · have hfits : s.fits a = false := by simp [fits, hfull, hsize]
    rw [writeAll_full hfull ha, hfits, write_full hfull]
  · obtain ⟨n, hn⟩ : ∃ n, (s.accepted a).size = n + 1 := by
      apply Nat.exists_eq_succ_of_ne_zero
      unfold accepted
      cases hroom : s.room with
      | none => exact hsize
      | some k =>
        have hk : k ≠ 0 := by
          intro hk
          exact hfull (hk ▸ hroom)
        simp only [ByteArray.size_extract]
        omega
    have hoffer : s.offer a = some (n + 1, s.write a) := by
      rw [offer, if_neg fun h => hfull h.2, hn]
    rw [writeAll, if_neg hsize, hoffer]
    obtain ⟨hfits, hrest⟩ | ⟨hfits, hrest, hroom⟩ := rest_of_offer s a
    · rw [hn] at hrest
      simp only [hrest, writeAll_empty, hfits]
    · rw [hn] at hrest
      simp only [writeAll_full hroom hrest, hfits]

theorem printLine_eq (s : Sink) (text : String) :
    s.printLine text = (s.fits (text ++ "\n").toUTF8, s.write (text ++ "\n").toUTF8) := by
  have htext : (text ++ "\n").toUTF8 = text.toUTF8 ++ "\n".toUTF8 := String.toByteArray_append
  rw [htext, printLine, writeAll_eq, fits_append]
  cases hfits : s.fits text.toUTF8 with
  | true => simp only [writeAll_eq, write_write, Bool.true_and]
  | false => simp only [write_append_of_not_fits hfits, Bool.false_and]

end Device

end ScriptLang.Sink

namespace ScriptLang.Evaluation

/-- A value is printed as its text and the end of the line, and the first of these that the sink
does not take is an error. -/
theorem printValue_eq (v : Value) (m : Machine) :
    printValue v m =
      match m.sink.printLine v.text with
      | (true, s) => .ok () { m with sink := s }
      | (false, s) => .error (.output .sinkFull) { m with sink := s } := by
  rw [Sink.printLine_eq, printValue]
  cases m.sink.fits (v.text ++ "\n").toUTF8 <;> rfl

end ScriptLang.Evaluation
