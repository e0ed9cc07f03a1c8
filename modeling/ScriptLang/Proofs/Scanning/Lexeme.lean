import ScriptLang.Proofs.Lines.Scanning
import Mathlib.Data.List.TakeWhile

namespace ScriptLang

theorem Kind.ofWord_eq (word : List Char) :
    Kind.ofWord word = (Kind.reserved.lookup (String.ofList word)).getD .identifier := by
  unfold Kind.ofWord
  generalize String.ofList word = w
  split
  case h_15 => simp_all [Kind.reserved, List.lookup_cons, ← beq_eq_false_iff_ne]
  all_goals rfl

namespace Source

def operators : List (List Char × Kind) :=
  [(['('], .leftParen), ([')'], .rightParen), (['{'], .leftBrace), (['}'], .rightBrace),
    ([','], .comma), (['.'], .dot), (['-'], .minus), (['+'], .plus), ([';'], .semicolon),
    (['*'], .star), (['/'], .slash), (['!'], .bang), (['!', '='], .bangEqual), (['='], .equal),
    (['=', '='], .equalEqual), (['<'], .less), (['<', '='], .lessEqual), (['>'], .greater),
    (['>', '='], .greaterEqual)]

/-- Which whole texts are lexemes, told without the cutter. -/
inductive Lexeme : List Char → Kind → Prop where
  | operator {mark : List Char} {kind : Kind} : (mark, kind) ∈ operators → Lexeme mark kind
  | name {first : Char} {others : List Char} :
    startsName first → (∀ c ∈ others, continuesName c) →
    Lexeme (first :: others)
      ((Kind.reserved.lookup (String.ofList (first :: others))).getD .identifier)
  | integer {digits : List Char} : digits ≠ [] → (∀ c ∈ digits, isDigit c) →
    Lexeme digits (.number (Number.ofNumeral digits []))
  | decimal {whole fraction : List Char} :
    whole ≠ [] → (∀ c ∈ whole, isDigit c) → fraction ≠ [] → (∀ c ∈ fraction, isDigit c) →
    Lexeme (whole ++ '.' :: fraction) (.number (Number.ofNumeral whole fraction))
  | string {body : List Char} : '"' ∉ body →
    Lexeme ('"' :: (body ++ ['"'])) (.string (String.ofList body))

structure Longest (text lexeme : List Char) (kind : Kind) : Prop where
  isPrefix : lexeme <+: text
  isLexeme : Lexeme lexeme kind
  length_le {other : List Char} {kind' : Kind} :
    other <+: text → Lexeme other kind' → other.length ≤ lexeme.length

def OpensComment (text : List Char) : Prop :=
  ['/', '/'] <+: text ∨ ['/', '*'] <+: text

section Classes

variable {first : Char} {rest : List Char}

theorem isBlank_of_continuesName (h : continuesName first) : isBlank first = false := by
  by_contra hblank
  simp only [isBlank, Bool.not_eq_false, Bool.or_eq_true, decide_eq_true_eq] at hblank
  rcases hblank with ((rfl | rfl) | rfl) | rfl <;> exact absurd h (by decide)

theorem isDigit_of_startsName (h : startsName first) : isDigit first = false := by
  simp only [startsName, isDigit, Bool.or_eq_true, Bool.and_eq_true, decide_eq_true_eq,
    Bool.and_eq_false_imp, decide_eq_false_iff_not, Char.le_def, Char.ext_iff] at *
  rcases h with (h | h) | h <;> grind

theorem cut_blank (h : isBlank first) : cut first rest = (.blank, 0) := by
  unfold cut
  split
  case h_17 => rw [if_pos h]
  all_goals exact absurd h (by decide)

theorem cut_digit (h : isDigit first) : cut first rest = cutNumber first rest := by
  have hblank : isBlank first = false := isBlank_of_continuesName (by simp [continuesName, h])
  unfold cut
  split
  case h_17 => simp [hblank, h]
  all_goals exact absurd h (by decide)

theorem cut_name (h : startsName first) : cut first rest = cutName first rest := by
  have hblank : isBlank first = false := isBlank_of_continuesName (by simp [continuesName, h])
  unfold cut
  split
  case h_17 => simp [hblank, h, isDigit_of_startsName h]
  all_goals exact absurd h (by decide)

end Classes

section Soundness

variable {first : Char} {rest : List Char} {kind : Kind} {count : Nat}

theorem take_takeWhile (p : Char → Bool) (text : List Char) :
    text.take (text.takeWhile p).length = text.takeWhile p :=
  (List.prefix_iff_eq_take.mp (List.takeWhile_prefix p)).symm

theorem takeWhile_append_drop (p : Char → Bool) (text : List Char) :
    text.takeWhile p ++ text.drop (text.takeWhile p).length = text := by
  have htext := List.take_append_drop (text.takeWhile p).length text
  rwa [take_takeWhile] at htext

theorem takeWhile_ne_append {a : Char} {text : List Char} (h : a ∉ text) (rest : List Char) :
    (text ++ rest).takeWhile (· ≠ a) = text ++ rest.takeWhile (· ≠ a) :=
  List.takeWhile_append_of_pos fun c hc => by simpa using fun hca : c = a => h (hca ▸ hc)

theorem takeWhile_ne_cons {a : Char} {text : List Char} (h : a ∉ text) (rest : List Char) :
    (text ++ a :: rest).takeWhile (· ≠ a) = text := by
  rw [takeWhile_ne_append h]
  simp

theorem takeWhile_ne_self {a : Char} {text : List Char} (h : a ∉ text) :
    text.takeWhile (· ≠ a) = text := by
  simpa using takeWhile_ne_append h []

def pointed (text : List Char) : List Char :=
  if fractionDigits text = [] then [] else '.' :: fractionDigits text

theorem pointed_isPrefix (text : List Char) : pointed text <+: text := by
  by_cases hempty : fractionDigits text = []
  · rw [pointed, if_pos hempty]
    exact List.nil_prefix
  · rw [pointed, if_neg hempty]
    unfold fractionDigits at hempty ⊢
    split at hempty
    · exact List.cons_prefix_cons.mpr ⟨rfl, List.takeWhile_prefix _⟩
    · exact absurd rfl hempty

def numberTail (text : List Char) : List Char :=
  text.takeWhile isDigit ++ pointed (text.drop (text.takeWhile isDigit).length)

theorem numberTail_isPrefix (text : List Char) : numberTail text <+: text := by
  obtain ⟨more, hmore⟩ := pointed_isPrefix (text.drop (text.takeWhile isDigit).length)
  exact ⟨more, by rw [numberTail, List.append_assoc, hmore, takeWhile_append_drop]⟩

theorem cutNumber_eq (first : Char) (rest : List Char) :
    cutNumber first rest =
      (.lexeme (.number (Number.ofNumeral (first :: rest.takeWhile isDigit)
        (fractionDigits (rest.drop (rest.takeWhile isDigit).length)))),
        (numberTail rest).length) := by
  unfold cutNumber numberTail pointed
  by_cases hempty : fractionDigits (rest.drop (rest.takeWhile isDigit).length) = []
  · simp [hempty]
  · simp [hempty]
    omega

theorem isDigit_of_mem_fractionDigits {c : Char} (h : c ∈ fractionDigits rest) : isDigit c := by
  unfold fractionDigits at h
  split at h
  · exact List.mem_takeWhile_imp h
  · cases h

theorem lexeme_cutOperator {short long : Kind} (hshort : ([first], short) ∈ operators)
    (hlong : ([first, '='], long) ∈ operators)
    (h : cutOperator short long rest = (.lexeme kind, count)) :
    Lexeme (first :: rest.take count) kind := by
  unfold cutOperator at h
  split at h <;> cases h
  · exact .operator hlong
  · exact .operator hshort

theorem lexeme_cutSlash (h : cutSlash rest = (.lexeme kind, count)) :
    Lexeme ('/' :: rest.take count) kind := by
  unfold cutSlash at h
  split at h
  · cases h
  · split at h <;> cases h
  · cases h
    exact .operator (by simp [operators])

theorem cutString_closed {body more : List Char} (h : '"' ∉ body) :
    cutString (body ++ '"' :: more) =
      (.lexeme (.string (String.ofList body)), body.length + 1) := by
  simp only [cutString, takeWhile_ne_cons h]
  exact if_pos (by simp)

theorem cutString_open (h : '"' ∉ rest) : cutString rest = (.openString, rest.length) := by
  simp only [cutString, takeWhile_ne_self h]
  exact if_neg (Nat.lt_irrefl _)

theorem lexeme_cutString (h : cutString rest = (.lexeme kind, count)) :
    Lexeme ('"' :: rest.take count) kind := by
  by_cases hquote : '"' ∈ rest
  · obtain ⟨body, more, rfl, hbody⟩ := List.eq_append_cons_of_mem hquote
    rw [cutString_closed hbody] at h
    cases h
    rw [List.take_length_add_append]
    exact .string hbody
  · rw [cutString_open hquote] at h
    cases h

theorem lexeme_cutNumber (hfirst : isDigit first)
    (h : cutNumber first rest = (.lexeme kind, count)) :
    Lexeme (first :: rest.take count) kind := by
  have hwhole : ∀ c ∈ first :: rest.takeWhile isDigit, isDigit c :=
    List.forall_mem_cons.mpr ⟨hfirst, fun c => List.mem_takeWhile_imp⟩
  rw [cutNumber_eq] at h
  cases h
  rw [← List.prefix_iff_eq_take.mp (numberTail_isPrefix rest), numberTail, pointed]
  split
  case isTrue hempty =>
    rw [hempty, List.append_nil]
    exact .integer (List.cons_ne_nil _ _) hwhole
  case isFalse hempty =>
    exact .decimal (List.cons_ne_nil _ _) hwhole hempty fun c => isDigit_of_mem_fractionDigits

theorem lexeme_cutName (hfirst : startsName first)
    (h : cutName first rest = (.lexeme kind, count)) :
    Lexeme (first :: rest.take count) kind := by
  unfold cutName at h
  cases h
  rw [take_takeWhile, Kind.ofWord_eq]
  exact .name hfirst fun c => List.mem_takeWhile_imp

theorem lexeme_cut (h : cut first rest = (.lexeme kind, count)) :
    Lexeme (first :: rest.take count) kind := by
  unfold cut at h
  split at h
  case h_11 | h_12 | h_13 | h_14 =>
    exact lexeme_cutOperator (by simp [operators]) (by simp [operators]) h
  case h_15 => exact lexeme_cutSlash h
  case h_16 => exact lexeme_cutString h
  case h_17 =>
    split at h
    · cases h
    · split at h
      case isTrue hdigit => exact lexeme_cutNumber hdigit h
      case isFalse =>
        split at h
        case isTrue hname => exact lexeme_cutName hname h
        case isFalse => cases h
  all_goals
    cases h
    exact .operator (by simp [operators])

end Soundness

/-- A cut that takes a lexeme of at least `length` characters, and one of that kind if it takes no
more. -/
def Covers (cut : Cut) (length : Nat) (kind : Kind) : Prop :=
  ∃ kind', cut.1 = .lexeme kind' ∧ length ≤ cut.2 + 1 ∧ (length = cut.2 + 1 → kind' = kind)

section Coverage

variable {first : Char} {rest text : List Char} {kind : Kind}

theorem Covers.exact (length : Nat) (kind : Kind) :
    Covers (.lexeme kind, length) (length + 1) kind :=
  ⟨kind, rfl, Nat.le_refl _, fun _ => rfl⟩

theorem covers_cutOperator_short (short long : Kind) :
    Covers (cutOperator short long rest) 1 short := by
  unfold cutOperator
  split
  · exact ⟨long, rfl, Nat.le_succ 1, fun h => by cases h⟩
  · exact .exact 0 short

theorem covers_cutOperator_long (short long : Kind) (h : ['='] <+: rest) :
    Covers (cutOperator short long rest) 2 long := by
  obtain ⟨more, rfl⟩ := h
  exact .exact 1 long

theorem covers_cutSlash (h : ¬ OpensComment ('/' :: rest)) : Covers (cutSlash rest) 1 .slash := by
  unfold cutSlash
  split
  · exact absurd (.inl ⟨_, rfl⟩) h
  · exact absurd (.inr ⟨_, rfl⟩) h
  · exact .exact 0 .slash

theorem covers_operator (hcomment : ¬ OpensComment (first :: rest))
    (hmem : (text, kind) ∈ operators) (h : text <+: first :: rest) :
    Covers (cut first rest) text.length kind := by
  simp only [operators, List.mem_cons, Prod.mk.injEq, List.not_mem_nil, or_false] at hmem
  rcases hmem with ⟨rfl, rfl⟩ | ⟨rfl, rfl⟩ | ⟨rfl, rfl⟩ | ⟨rfl, rfl⟩ | ⟨rfl, rfl⟩ | ⟨rfl, rfl⟩ |
    ⟨rfl, rfl⟩ | ⟨rfl, rfl⟩ | ⟨rfl, rfl⟩ | ⟨rfl, rfl⟩ | ⟨rfl, rfl⟩ | ⟨rfl, rfl⟩ | ⟨rfl, rfl⟩ |
    ⟨rfl, rfl⟩ | ⟨rfl, rfl⟩ | ⟨rfl, rfl⟩ | ⟨rfl, rfl⟩ | ⟨rfl, rfl⟩ | ⟨rfl, rfl⟩ <;>
  obtain ⟨rfl, hrest⟩ := List.cons_prefix_cons.mp h
  case inr.inr.inr.inr.inr.inr.inr.inr.inr.inr.inl => exact covers_cutSlash hcomment
  all_goals
    first
    | exact covers_cutOperator_long _ _ hrest
    | exact covers_cutOperator_short _ _
    | exact .exact 0 _

theorem covers_cutName {others : List Char} (hothers : ∀ c ∈ others, continuesName c)
    (h : others <+: rest) :
    Covers (cutName first rest) (others.length + 1)
      ((Kind.reserved.lookup (String.ofList (first :: others))).getD .identifier) := by
  obtain ⟨more, rfl⟩ := h
  unfold cutName
  rw [List.takeWhile_append_of_pos hothers]
  refine ⟨_, rfl, ?_, fun hlength => ?_⟩
  · simp
  · have hmore : more.takeWhile continuesName = [] :=
      List.length_eq_zero_iff.mp (by simpa using hlength)
    rw [hmore, List.append_nil, Kind.ofWord_eq]

theorem covers_cutNumber_integer {digits : List Char} (hdigits : ∀ c ∈ digits, isDigit c)
    (h : digits <+: rest) :
    Covers (cutNumber first rest) (digits.length + 1)
      (.number (Number.ofNumeral (first :: digits) [])) := by
  obtain ⟨more, rfl⟩ := h
  unfold cutNumber
  rw [List.takeWhile_append_of_pos hdigits]
  refine ⟨_, rfl, ?_, fun hlength => ?_⟩
  · simp only [List.length_append]
    omega
  · simp only [List.length_append] at hlength
    have hmore : more.takeWhile isDigit = [] := List.length_eq_zero_iff.mp (by omega)
    have hfraction :
        fractionDigits ((digits ++ more).drop (digits ++ more.takeWhile isDigit).length) = [] :=
      List.length_eq_zero_iff.mp (by simp only [List.length_append]; omega)
    rw [hfraction, hmore, List.append_nil]

theorem covers_cutNumber_decimal {whole fraction : List Char} (hwhole : ∀ c ∈ whole, isDigit c)
    (hne : fraction ≠ []) (hfraction : ∀ c ∈ fraction, isDigit c)
    (h : whole ++ '.' :: fraction <+: rest) :
    Covers (cutNumber first rest) ((whole ++ '.' :: fraction).length + 1)
      (.number (Number.ofNumeral (first :: whole) fraction)) := by
  obtain ⟨more, rfl⟩ := h
  have htake : ((whole ++ '.' :: fraction) ++ more).takeWhile isDigit = whole := by
    rw [List.append_assoc, List.takeWhile_append_of_pos hwhole]
    simp [show isDigit '.' = false from rfl]
  have hdigits : fractionDigits (((whole ++ '.' :: fraction) ++ more).drop whole.length) =
      fraction ++ more.takeWhile isDigit := by
    rw [List.append_assoc, List.drop_left]
    exact List.takeWhile_append_of_pos hfraction
  unfold cutNumber
  simp only [htake, hdigits, List.isEmpty_iff, List.append_eq_nil_iff, hne, false_and, if_false]
  refine ⟨_, rfl, ?_, fun hlength => ?_⟩
  · simp only [List.length_append, List.length_cons]
    omega
  · simp only [List.length_append, List.length_cons] at hlength
    have hmore : more.takeWhile isDigit = [] := List.length_eq_zero_iff.mp (by omega)
    rw [hmore, List.append_nil]

/-- Where no comment opens, no lexeme goes further than the cut does. -/
theorem covers_cut (hcomment : ¬ OpensComment (first :: rest)) (hlexeme : Lexeme text kind)
    (h : text <+: first :: rest) : Covers (cut first rest) text.length kind := by
  cases hlexeme with
  | operator hmem => exact covers_operator hcomment hmem h
  | name hfirst hothers =>
    obtain ⟨rfl, hrest⟩ := List.cons_prefix_cons.mp h
    rw [cut_name hfirst]
    exact covers_cutName hothers hrest
  | @integer digits hne hdigits =>
    obtain ⟨first', digits, rfl⟩ := List.exists_cons_of_ne_nil hne
    obtain ⟨rfl, hrest⟩ := List.cons_prefix_cons.mp h
    obtain ⟨hfirst, hdigits⟩ := List.forall_mem_cons.mp hdigits
    rw [cut_digit hfirst]
    exact covers_cutNumber_integer hdigits hrest
  | @decimal whole fraction hne hwhole hne' hfraction =>
    obtain ⟨first', whole, rfl⟩ := List.exists_cons_of_ne_nil hne
    obtain ⟨rfl, hrest⟩ := List.cons_prefix_cons.mp h
    obtain ⟨hfirst, hwhole⟩ := List.forall_mem_cons.mp hwhole
    rw [cut_digit hfirst]
    exact covers_cutNumber_decimal hwhole hne' hfraction hrest
  | @string body hbody =>
    obtain ⟨rfl, more, rfl⟩ := List.cons_prefix_cons.mp h
    have hcut : cut '"' (body ++ ['"'] ++ more) = cutString (body ++ '"' :: more) := by
      rw [List.append_assoc]
      rfl
    rw [hcut, cutString_closed hbody]
    simpa using Covers.exact (body.length + 1) (.string (String.ofList body))

end Coverage
end Source
end ScriptLang
