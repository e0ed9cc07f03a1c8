import ScriptLang.Source.Cursor
import ScriptLang.Proofs.Lines.Scanning

namespace ScriptLang.Source

def isAscii (c : Char) : Prop :=
  c.toNat < 128

instance (c : Char) : Decidable (isAscii c) :=
  inferInstanceAs (Decidable (_ < _))

theorem isAscii_of_isDigit {c : Char} (h : isDigit c) : isAscii c := by
  simp only [isDigit, Bool.and_eq_true, decide_eq_true_eq] at h
  exact Nat.lt_of_le_of_lt (m := '9'.toNat) h.2 (by decide)

theorem isAscii_of_startsName {c : Char} (h : startsName c) : isAscii c := by
  simp only [startsName, Bool.or_eq_true, Bool.and_eq_true, decide_eq_true_eq] at h
  rcases h with (h | h) | rfl
  · exact Nat.lt_of_le_of_lt (m := 'z'.toNat) h.2 (by decide)
  · exact Nat.lt_of_le_of_lt (m := 'Z'.toNat) h.2 (by decide)
  · decide

theorem isAscii_of_continuesName {c : Char} (h : continuesName c) : isAscii c :=
  (Bool.or_eq_true_iff.mp h).elim isAscii_of_startsName isAscii_of_isDigit

theorem isAscii_of_isBlank {c : Char} (h : isBlank c) : isAscii c := by
  simp only [isBlank, Bool.or_eq_true, decide_eq_true_eq] at h
  rcases h with ((rfl | rfl) | rfl) | rfl <;> decide

section Characters

variable {c : Char} {b : UInt8}

theorem utf8EncodeChar_of_isAscii (h : isAscii c) : String.utf8EncodeChar c = [c.toUInt8] := by
  refine String.utf8EncodeChar_eq_singleton (Char.utf8Size_eq_one_iff.mpr ?_)
  rw [UInt32.le_iff_toNat_le]
  exact Nat.le_of_lt_succ h

theorem ofUInt8_toUInt8 (h : isAscii c) : Char.ofUInt8 c.toUInt8 = c := by
  rw [← Char.toNat_inj]
  change c.val.toNat % 256 = c.val.toNat
  exact Nat.mod_eq_of_lt (Nat.lt_trans h (by decide))

theorem toNat_ofUInt8 : (Char.ofUInt8 b).toNat = b.toNat := rfl

/-- Beyond ASCII the first byte of a character starts one, and all bytes are beyond ASCII. -/
theorem utf8EncodeChar_of_not_isAscii (h : ¬ isAscii c) :
    ∃ b more, String.utf8EncodeChar c = b :: more ∧
      192 ≤ b.toNat ∧ ∀ b' ∈ more, 128 ≤ b'.toNat := by
  fun_cases String.utf8EncodeChar c with
  | case1 _ hle => exact absurd (Nat.lt_succ_of_le hle) h
  | case2 | case3 | case4 =>
    refine ⟨_, _, rfl, ?_, ?_⟩
    · rw [UInt8.toNat_ofNat']
      omega
    · simp only [List.forall_mem_cons, UInt8.toNat_ofNat', List.not_mem_nil, false_imp_iff,
        implies_true, and_true]
      omega

theorem exists_first_utf8EncodeChar (c : Char) :
    ∃ b more, String.utf8EncodeChar c = b :: more ∧ (b.toNat < 128 ∨ 192 ≤ b.toNat) := by
  by_cases h : isAscii c
  · refine ⟨_, _, utf8EncodeChar_of_isAscii h, .inl ?_⟩
    rw [← toNat_ofUInt8, ofUInt8_toUInt8 h]
    exact h
  · obtain ⟨b, more, hbytes, hb, -⟩ := utf8EncodeChar_of_not_isAscii h
    exact ⟨b, more, hbytes, .inr hb⟩

end Characters

section Texts

variable {c : Char} {text rest before : List Char}

theorem utf8_cons (c : Char) (text : List Char) :
    utf8 (c :: text) = String.utf8EncodeChar c ++ utf8 text :=
  List.flatMap_cons

theorem utf8_cons_of_isAscii (h : isAscii c) (text : List Char) :
    utf8 (c :: text) = c.toUInt8 :: utf8 text := by
  rw [utf8_cons, utf8EncodeChar_of_isAscii h]
  rfl

theorem utf8_append (text rest : List Char) : utf8 (text ++ rest) = utf8 text ++ utf8 rest :=
  List.flatMap_append

theorem utf8_inj : utf8 text = utf8 rest ↔ text = rest := by
  refine ⟨fun h => ?_, congrArg utf8⟩
  have hencode : text.utf8Encode = rest.utf8Encode := congrArg List.toByteArray h
  rwa [← String.toByteArray_ofList, ← String.toByteArray_ofList, String.toByteArray_inj,
    String.ofList_inj] at hencode

theorem length_utf8 (text : List Char) : (utf8 text).length = byteSize text := by
  induction text with
  | nil => rfl
  | cons c text ih =>
    rw [utf8_cons, List.length_append, String.length_utf8EncodeChar, ih]
    rfl

theorem byteSize_eq_zero : byteSize text = 0 ↔ text = [] := by
  cases text with
  | nil => exact iff_of_true rfl rfl
  | cons c text =>
    have hpos := c.utf8Size_pos
    simp only [byteSize, List.foldr_cons, reduceCtorEq, iff_false]
    omega

theorem byteSize_singleton (h : isAscii c) : byteSize [c] = 1 := by
  rw [← length_utf8, utf8_cons_of_isAscii h]
  rfl

theorem not_isAscii_of_mem_utf8EncodeChar {b : UInt8} (hc : ¬ isAscii c)
    (hb : b ∈ String.utf8EncodeChar c) : ¬ isAscii (Char.ofUInt8 b) := by
  obtain ⟨first, more, hbytes, hfirst, hmore⟩ := utf8EncodeChar_of_not_isAscii hc
  have hge : 128 ≤ b.toNat := by
    rw [hbytes] at hb
    rcases List.mem_cons.mp hb with rfl | hb
    · exact Nat.le_trans (by decide) hfirst
    · exact hmore b hb
  exact Nat.not_lt_of_le hge

def front (text : List Char) : Char :=
  Char.ofUInt8 ((utf8 text)[0]?.getD 0)

theorem front_of_isAscii (h : isAscii c) : front (c :: text) = c := by
  rw [front, utf8_cons_of_isAscii h]
  exact ofUInt8_toUInt8 h

theorem not_isAscii_front (h : ¬ isAscii c) : ¬ isAscii (front (c :: text)) := by
  obtain ⟨b, more, hbytes, -⟩ := exists_first_utf8EncodeChar c
  rw [front, utf8_cons, hbytes]
  have hb : b ∈ String.utf8EncodeChar c := hbytes ▸ List.mem_cons_self
  exact not_isAscii_of_mem_utf8EncodeChar h hb

def IsMark (a : Char) : Prop :=
  isAscii a ∧ a ≠ Char.ofUInt8 0

instance (a : Char) : Decidable (IsMark a) :=
  inferInstanceAs (Decidable (_ ∧ _))

theorem front_mem_iff {p : Char → Bool} (hp : p (Char.ofUInt8 0) = false)
    (hascii : ∀ a, p a → isAscii a) : p (front text) ↔ ∃ d more, text = d :: more ∧ p d := by
  cases text with
  | nil => simpa [front, utf8] using hp
  | cons d text =>
    simp only [List.cons.injEq, and_assoc, exists_and_left, exists_eq_left']
    by_cases hd : isAscii d
    · rw [front_of_isAscii hd]
    · exact iff_of_false (fun h => not_isAscii_front hd (hascii _ h)) fun h => hd (hascii d h)

theorem front_eq_iff {a : Char} (ha : IsMark a) : front text = a ↔ [a] <+: text := by
  have hmem : decide (front text = a) ↔ ∃ d more, text = d :: more ∧ decide (d = a) :=
    front_mem_iff (p := fun d => d = a) (by simpa using ha.2.symm)
      fun d hd => of_decide_eq_true hd ▸ ha.1
  rw [decide_eq_true_iff] at hmem
  rw [hmem]
  constructor
  · rintro ⟨d, more, rfl, hd⟩
    exact of_decide_eq_true hd ▸ ⟨more, rfl⟩
  · rintro ⟨more, rfl⟩
    exact ⟨a, more, rfl, by simp⟩

theorem toUInt8_mem_utf8EncodeChar_iff {a d : Char} (ha : isAscii a) :
    a.toUInt8 ∈ String.utf8EncodeChar d ↔ d = a := by
  by_cases hd : isAscii d
  · rw [utf8EncodeChar_of_isAscii hd, List.mem_singleton]
    exact ⟨fun h => by rw [← ofUInt8_toUInt8 hd, ← h, ofUInt8_toUInt8 ha], fun h => by rw [h]⟩
  · refine iff_of_false (fun hmem => ?_) fun h => hd (h ▸ ha)
    exact not_isAscii_of_mem_utf8EncodeChar hd hmem ((ofUInt8_toUInt8 ha).symm ▸ ha)

/-- The bytes of a text have an ASCII character where the text has it. -/
theorem idxOf_utf8 {a : Char} (ha : isAscii a) (text : List Char) :
    (utf8 text).idxOf a.toUInt8 = byteSize (text.takeWhile (· ≠ a)) := by
  induction text with
  | nil => rfl
  | cons d text ih =>
    by_cases hd : d = a
    · subst hd
      rw [utf8_cons_of_isAscii ha, List.idxOf_cons_self]
      simp [byteSize]
    · rw [utf8_cons, List.idxOf_append_of_notMem ((toUInt8_mem_utf8EncodeChar_iff ha).not.mpr hd),
        ih, String.length_utf8EncodeChar, List.takeWhile_cons_of_pos (by simpa using hd)]
      rfl

/-- The bytes of a text have an ASCII character as often as the text has it. -/
theorem count_utf8 {a : Char} (ha : isAscii a) (text : List Char) :
    (utf8 text).count a.toUInt8 = text.count a := by
  induction text with
  | nil => rfl
  | cons d text ih =>
    rw [utf8_cons, List.count_append, ih, List.count_cons, Nat.add_comm]
    by_cases hd : d = a
    · subst hd
      rw [utf8EncodeChar_of_isAscii ha, List.count_singleton_self, if_pos (beq_self_eq_true d)]
    · rw [List.count_eq_zero.mpr ((toUInt8_mem_utf8EncodeChar_iff ha).not.mpr hd),
        if_neg (by simpa using hd)]

/-- The bytes of a source are those that its characters are encoded as. -/
theorem utf8_toList (source : String) : utf8 source.toList = source.toUTF8.data.toList := by
  rw [String.toUTF8_eq_toByteArray, ← String.utf8Encode_toList]
  exact List.toList_data_toByteArray.symm

end Texts

/-- The offset is between two characters, and `rest` is the text from there on. -/
def At (bytes : List UInt8) (offset : Nat) (rest : List Char) : Prop :=
  ∃ before, bytes = utf8 (before ++ rest) ∧ offset = byteSize before

section Places

variable {bytes : List UInt8} {offset : Nat} {text rest : List Char}

theorem At.drop (h : At bytes offset rest) : bytes.drop offset = utf8 rest := by
  obtain ⟨before, rfl, rfl⟩ := h
  rw [utf8_append, ← length_utf8, List.drop_left]

theorem At.getElem? (h : At bytes offset rest) (n : Nat) :
    bytes[offset + n]? = (utf8 rest)[n]? := by
  rw [← List.getElem?_drop, h.drop]

theorem At.length (h : At bytes offset rest) : bytes.length = offset + byteSize rest := by
  obtain ⟨before, rfl, rfl⟩ := h
  rw [utf8_append, List.length_append, length_utf8, length_utf8]

theorem At.lt_length_iff (h : At bytes offset rest) : offset < bytes.length ↔ rest ≠ [] := by
  rw [h.length, ne_eq, ← byteSize_eq_zero]
  omega

theorem At.after (text : List Char) (h : At bytes offset (text ++ rest)) :
    At bytes (offset + byteSize text) rest := by
  obtain ⟨before, rfl, rfl⟩ := h
  exact ⟨before ++ text, by rw [List.append_assoc], (byteSize_append before text).symm⟩

theorem At.isBoundary (h : At bytes offset rest) : isBoundary bytes offset := by
  have hbyte := h.getElem? 0
  rw [Nat.add_zero] at hbyte
  unfold Source.isBoundary
  rw [hbyte]
  cases rest with
  | nil =>
    have hlength := h.length
    simp [utf8, hlength, byteSize]
  | cons c rest =>
    obtain ⟨b, more, hbytes, hb⟩ := exists_first_utf8EncodeChar c
    rw [utf8_cons, hbytes]
    simpa [UInt8.lt_iff_toNat_lt, UInt8.le_iff_toNat_le] using .inr hb

theorem At.take (h : At bytes offset (text ++ rest)) :
    (bytes.drop offset).take (byteSize text) = utf8 text := by
  rw [h.drop, utf8_append, ← length_utf8, List.take_left]

theorem At.after_le_length (h : At bytes offset (text ++ rest)) :
    offset + byteSize text ≤ bytes.length := by
  rw [h.length, byteSize_append]
  omega

theorem At.slice (h : At bytes offset (text ++ rest)) :
    slice bytes offset (offset + byteSize text) = .ok (String.ofList text) := by
  have hvalid : (utf8 text).toByteArray.IsValidUTF8 := ⟨text, rfl⟩
  have hdecode : String.fromUTF8? (utf8 text).toByteArray = some (String.ofList text) := by
    rw [String.fromUTF8?, dif_pos hvalid, Option.some.injEq, ← String.toByteArray_inj,
      String.toByteArray_ofList]
    rfl
  rw [Source.slice, if_pos ⟨Nat.le_add_right _ _, h.after_le_length⟩, h.isBoundary,
    (h.after text).isBoundary, Nat.add_sub_cancel_left, h.take, hdecode]
  rfl

end Places
end ScriptLang.Source
