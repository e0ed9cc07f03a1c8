import ScriptLang.Proofs.Lines.Moving
import ScriptLang.Source.Item
import Mathlib.Data.List.Basic

namespace ScriptLang.Source

open Comment

def Form.isOpen : Form → Bool
  | .openString => true
  | .openComment _ => true
  | _ => false

section Cutting

variable {rest : List Char} (us : List Char)

theorem takeWhile_line {p : Char → Bool} (hp : p '\n' = false) :
    (rest ++ '\n' :: us).takeWhile p = rest.takeWhile p := by
  induction rest with
  | nil => simp [hp]
  | cons c rest ih =>
    by_cases hc : p c
    · simp [hc, ih]
    · simp [hc]

theorem cutOperator_line {short long : Kind} :
    cutOperator short long (rest ++ '\n' :: us) = cutOperator short long rest ∧
      (cutOperator short long rest).2 ≤ rest.length := by
  cases rest with
  | nil => exact ⟨rfl, Nat.le_refl _⟩
  | cons c rest =>
    by_cases hc : c = '='
    · subst hc
      exact ⟨rfl, Nat.succ_pos _⟩
    · simp [cutOperator, hc]

theorem extentFrom_append {openers : List Nat} {read length : Nat}
    (h : extentFrom openers read rest = .closed length) :
    extentFrom openers read (rest ++ us) = .closed length ∧ length ≤ read + rest.length := by
  fun_induction extentFrom openers read rest with
  | case1 read rest =>
    cases h
    exact ⟨by rw [extentFrom], Nat.le_add_right _ _⟩
  | case2 _ _ _ _ ih =>
    obtain ⟨hclosed, hle⟩ := ih h
    simp only [List.cons_append, extentFrom, hclosed, List.length_cons, true_and]
    omega
  | case3 _ _ _ _ ih =>
    obtain ⟨hclosed, hle⟩ := ih h
    simp only [List.cons_append, extentFrom, hclosed, List.length_cons, true_and]
    omega
  | case4 inner outer read c rest hclose hopen ih =>
    obtain ⟨hclosed, hle⟩ := ih h
    cases rest with
    | nil => simp [extentFrom] at h
    | cons d rest =>
      -- two characters decide whether a mark begins here, and both belong to the shorter text
      rw [List.cons_append, List.cons_append, extentFrom]
      · rw [List.length_cons]
        exact ⟨hclosed, by omega⟩
      · rintro _ hc hd
        exact hclose rest hc (congrArg (· :: rest) (List.cons.inj hd).1)
      · rintro _ hc hd
        exact hopen rest hc (congrArg (· :: rest) (List.cons.inj hd).1)
  | case5 => cases h

theorem cutSlash_line (h : (cutSlash rest).1.isOpen = false) :
    cutSlash (rest ++ '\n' :: us) = cutSlash rest ∧ (cutSlash rest).2 ≤ rest.length := by
  unfold cutSlash at h ⊢
  split at h
  case h_1 rest =>
    have hline : (rest ++ '\n' :: us).takeWhile (· ≠ '\n') = rest.takeWhile (· ≠ '\n') :=
      takeWhile_line us rfl
    simp only [List.cons_append, hline, List.length_cons, true_and, Nat.add_le_add_iff_right]
    exact (List.takeWhile_prefix _).length_le
  case h_2 rest =>
    cases hextent : extent rest with
    | closed length =>
      obtain ⟨hclosed, hle⟩ := extentFrom_append ('\n' :: us) hextent
      simp only [List.cons_append, extent, hclosed, List.length_cons, true_and]
      omega
    | unclosed opener =>
      rw [hextent] at h
      cases h
  case h_3 hline hblock =>
    cases rest with
    | nil => exact ⟨rfl, Nat.le_refl _⟩
    | cons c rest =>
      have hc : c ≠ '/' := fun hc => hline rest (congrArg (· :: rest) hc)
      have hc' : c ≠ '*' := fun hc => hblock rest (congrArg (· :: rest) hc)
      simp [hc, hc']

theorem cutString_line (h : (cutString rest).1.isOpen = false) :
    cutString (rest ++ us) = cutString rest ∧ (cutString rest).2 ≤ rest.length := by
  unfold cutString at h ⊢
  by_cases hlt : (rest.takeWhile (· ≠ '"')).length < rest.length
  · have htake : (rest ++ us).takeWhile (· ≠ '"') = rest.takeWhile (· ≠ '"') := by
      rw [List.takeWhile_append, if_neg (Nat.ne_of_lt hlt)]
    simp only [htake, hlt, if_true, List.length_append, Nat.lt_add_right _ hlt, true_and]
    exact hlt
  · simp only [hlt, if_false] at h
    cases h

theorem fractionDigits_line :
    fractionDigits (rest ++ '\n' :: us) = fractionDigits rest := by
  cases rest with
  | nil => rfl
  | cons c rest =>
    by_cases hc : c = '.'
    · subst hc
      exact takeWhile_line us rfl
    · simp [fractionDigits, hc]

theorem fractionDigits_length (h : (fractionDigits rest).isEmpty = false) :
    (fractionDigits rest).length < rest.length := by
  unfold fractionDigits at h ⊢
  split at h
  case h_1 rest =>
    exact Nat.lt_succ_of_le (List.takeWhile_prefix _).length_le
  case h_2 => cases h

theorem cutNumber_line (first : Char) :
    cutNumber first (rest ++ '\n' :: us) = cutNumber first rest ∧
      (cutNumber first rest).2 ≤ rest.length := by
  have hwhole : (rest ++ '\n' :: us).takeWhile isDigit = rest.takeWhile isDigit :=
    takeWhile_line us rfl
  have hle : (rest.takeWhile isDigit).length ≤ rest.length :=
    (List.takeWhile_prefix _).length_le
  unfold cutNumber
  simp only [hwhole, List.drop_append_of_le_length hle, fractionDigits_line us, true_and]
  cases hempty : (fractionDigits (rest.drop (rest.takeWhile isDigit).length)).isEmpty with
  | true =>
    simp only [if_true, List.isEmpty_iff.mp hempty, List.length_nil]
    exact hle
  | false =>
    have hlt := fractionDigits_length hempty
    rw [List.length_drop] at hlt
    simp only [Bool.false_eq_true, if_false]
    omega

theorem cutName_line (first : Char) :
    cutName first (rest ++ '\n' :: us) = cutName first rest ∧
      (cutName first rest).2 ≤ rest.length := by
  have hothers : (rest ++ '\n' :: us).takeWhile continuesName = rest.takeWhile continuesName :=
    takeWhile_line us rfl
  unfold cutName
  simp only [hothers, true_and]
  exact (List.takeWhile_prefix _).length_le

/-- A piece that is not open is the same before a line break, and ends there at the latest. -/
theorem cut_line {first : Char} (h : (cut first rest).1.isOpen = false) :
    cut first (rest ++ '\n' :: us) = cut first rest ∧ (cut first rest).2 ≤ rest.length := by
  unfold cut at h ⊢
  split at h
  case h_11 | h_12 | h_13 | h_14 => exact cutOperator_line us
  case h_15 => exact cutSlash_line us h
  case h_16 => exact cutString_line ('\n' :: us) h
  case h_17 =>
    by_cases hblank : isBlank first
    · simp [hblank]
    · by_cases hdigit : isDigit first
      · simp only [hblank, hdigit, if_true]
        exact cutNumber_line us first
      · by_cases hname : startsName first
        · simp only [hblank, hdigit, hname, if_true]
          exact cutName_line us first
        · simp [hblank, hdigit, hname]
  all_goals exact ⟨rfl, Nat.zero_le _⟩

/-- Where the first source leaves nothing open, the line break after it is a piece of its own. -/
theorem pieces_line {source : List Char} (h : ∀ p ∈ pieces source, p.form.isOpen = false) :
    pieces (source ++ '\n' :: us) = pieces source ++ ⟨.blank, ['\n']⟩ :: pieces us := by
  fun_induction pieces source with
  | case1 =>
    rw [List.nil_append, pieces]
    rfl
  | case2 first rest form count hcut ih =>
    obtain ⟨hopen, hothers⟩ := List.forall_mem_cons.mp h
    have hform : (cut first rest).1.isOpen = false := by rw [hcut]; exact hopen
    obtain ⟨hline, hle⟩ := cut_line us hform
    rw [hcut] at hline hle
    rw [List.cons_append, pieces, hline]
    simp only [List.take_append_of_le_length hle, List.drop_append_of_le_length hle, ih hothers,
      List.cons_append]

end Cutting

section Items

variable {ps qs : List Piece} {p : Piece} {line line' offset offset' : Nat}

theorem newlines_append (xs ys : List Char) : newlines (xs ++ ys) = newlines xs + newlines ys :=
  List.count_append

theorem byteSize_append (xs ys : List Char) : byteSize (xs ++ ys) = byteSize xs + byteSize ys := by
  induction xs with
  | nil => exact (Nat.zero_add _).symm
  | cons c xs ih =>
    change c.utf8Size + byteSize (xs ++ ys) = c.utf8Size + byteSize xs + byteSize ys
    rw [ih, Nat.add_assoc]

theorem itemsFrom_append :
    itemsFrom line offset (ps ++ qs) = itemsFrom line offset ps ++
      itemsFrom (line + newlines (ps.flatMap Piece.text))
        (offset + byteSize (ps.flatMap Piece.text)) qs := by
  induction ps generalizing line offset with
  | nil => rfl
  | cons p ps ih =>
    rw [List.cons_append, itemsFrom, ih, itemsFrom, List.flatMap_cons, newlines_append,
      byteSize_append, List.append_assoc, Nat.add_assoc, Nat.add_assoc]

def Fault.moved (bytes : Nat) : Fault → Fault
  | .unterminatedComment offset => .unterminatedComment (offset + bytes)
  | fault => fault

/-- An item that many lines further down and that many bytes further on. -/
def Item.moved (lines bytes : Nat) : Item → Item
  | .token t => .token (t.moved (· + lines))
  | .error e => .error ⟨e.fault.moved bytes, e.line + lines⟩

theorem item?_moved (lines bytes : Nat) :
    p.item? (line + lines) (offset + bytes) =
      (p.item? line offset).map (Item.moved lines bytes) := by
  obtain ⟨form, text⟩ := p
  cases form with
  | lexeme => simp [Piece.item?, Item.moved, Token.moved, Nat.add_right_comm]
  | openString | openComment => simp [Piece.item?, Item.moved, Fault.moved, Nat.add_right_comm]
  | stray => cases text <;> rfl
  | _ => rfl

/-- Pieces that start further on give the items that they gave, further on. -/
theorem itemsFrom_moved (lines bytes : Nat) :
    itemsFrom (line + lines) (offset + bytes) ps =
      (itemsFrom line offset ps).map (Item.moved lines bytes) := by
  induction ps generalizing line offset with
  | nil => rfl
  | cons p ps ih =>
    rw [itemsFrom, itemsFrom, List.map_append, item?_moved, Nat.add_right_comm line,
      Nat.add_right_comm offset, ih]
    cases p.item? line offset <;> rfl

theorem tokens_moved (lines bytes : Nat) (items : List Item) :
    (items.map (Item.moved lines bytes)).filterMap Item.token? =
      (items.filterMap Item.token?).map (Token.moved (· + lines)) := by
  rw [List.filterMap_map, List.map_filterMap]
  congr 1
  funext item
  cases item <;> rfl

theorem errors_moved {lines bytes : Nat} {items : List Item} :
    (items.map (Item.moved lines bytes)).filterMap Item.error? = [] ↔
      items.filterMap Item.error? = [] := by
  simp only [List.filterMap_eq_nil_iff, List.forall_mem_map]
  refine forall₂_congr fun item _ => ?_
  cases item <;> simp [Item.moved, Item.error?]

/-- Whether a string or a comment lacks its end. -/
def Fault.isOpen : Fault → Bool
  | .unexpected _ => false
  | _ => true

theorem isOpen_of_errors
    (h : ∀ e ∈ (itemsFrom line offset ps).filterMap Item.error?, e.fault.isOpen = false) :
    ∀ p ∈ ps, p.form.isOpen = false := by
  induction ps generalizing line offset with
  | nil => exact fun _ hp => by cases hp
  | cons p ps ih =>
    rw [itemsFrom, List.filterMap_append, List.forall_mem_append] at h
    obtain ⟨hp, hps⟩ := h
    refine List.forall_mem_cons.mpr ⟨?_, ih hps⟩
    obtain ⟨form, text⟩ := p
    cases form with
    | openString | openComment opener => cases hp _ (List.mem_singleton_self _)
    | _ => rfl

end Items

section Joining

variable {A B : String}

theorem items_joined (hA : ∀ e ∈ errors A, e.fault.isOpen = false) :
    items (A ++ "\n" ++ B) = items A ++
      (items B).map (Item.moved (newlines A.toList + 1) (byteSize A.toList + 1)) := by
  have hlist : (A ++ "\n" ++ B).toList = A.toList ++ '\n' :: B.toList := by
    simp [String.toList_append]
  have hpieces := pieces_line B.toList (isOpen_of_errors hA)
  have hblank : ∀ line offset ps, itemsFrom line offset (⟨.blank, ['\n']⟩ :: ps) =
      itemsFrom (line + 1) (offset + 1) ps := fun _ _ _ => rfl
  rw [items, hlist, hpieces, itemsFrom_append, text_pieces, hblank, Nat.add_assoc, Nat.add_assoc,
    itemsFrom_moved]
  rfl

theorem tokens_joined (hA : errors A = []) :
    tokens (A ++ "\n" ++ B) =
      tokens A ++ (tokens B).map (Token.moved (· + (newlines A.toList + 1))) := by
  rw [tokens, items_joined (by simp [hA]), List.filterMap_append, tokens_moved]
  rfl

theorem errors_joined (hA : errors A = []) (hB : errors B = []) : errors (A ++ "\n" ++ B) = [] := by
  rw [errors, items_joined (by simp [hA]), List.filterMap_append, errors_moved.mpr hB,
    List.append_nil]
  exact hA

end Joining

end ScriptLang.Source
