import ScriptLang.Proofs.Scanning.Cursors

namespace ScriptLang.Source

def Piece.outcome (p : Piece) (line offset : Nat) : Outcome :=
  match p.item? line offset with
  | none => .skipped
  | some (.error e) => .error e
  | some (.token t) => .lexeme t.kind

theorem Piece.outcome_lexeme (kind : Kind) (text : List Char) (line offset : Nat) :
    Piece.outcome ⟨.lexeme kind, text⟩ line offset = .lexeme kind := rfl

/-- Names are told apart by their bytes as they are by their characters. -/
theorem wordKind_utf8 (word : List Char) : wordKind (utf8 word) = Kind.ofWord word := by
  have hentry : ∀ entry : String × Kind,
      decide (utf8 entry.1.toList = utf8 word) = (String.ofList word == entry.1) := by
    intro entry
    rw [Bool.eq_iff_iff, decide_eq_true_iff, utf8_inj, beq_iff_eq, ← String.toList_inj,
      String.toList_ofList, eq_comm]
  have hfind : ∀ entries : List (String × Kind),
      (entries.find? fun entry => utf8 entry.1.toList = utf8 word).map Prod.snd =
        entries.lookup (String.ofList word) := by
    intro entries
    induction entries with
    | nil => rfl
    | cons entry entries ih =>
      rw [List.find?_cons, List.lookup_cons, hentry]
      cases String.ofList word == entry.1 with
      | true => rfl
      | false => exact ih
  rw [wordKind, hfind, Kind.ofWord_eq]

/-- A numeral is taken apart at its point into the digits that it was read from. -/
theorem numeralValue_eq {whole rest : List Char} (hwhole : ∀ c ∈ whole, isDigit c) :
    numeralValue (String.ofList (whole ++ pointed rest)) =
      Number.ofNumeral whole (fractionDigits rest) := by
  have hpoint : ∀ c ∈ whole, decide (c ≠ '.') = true := fun c hc =>
    decide_eq_true fun hdot => absurd (hdot ▸ hwhole c hc) (by decide)
  rw [numeralValue, String.toList_ofList, List.takeWhile_append_of_pos hpoint,
    List.dropWhile_append_of_pos hpoint, pointed]
  split
  case isTrue hnil => simp [hnil]
  case isFalse => simp

namespace Cursor

open Comment

/-- A cursor that stood at a piece has read it. -/
def Reads (c : Cursor) (p : Piece) (result : Except Trap (Outcome × Cursor)) : Prop :=
  result = .ok (p.outcome c.line c.position, c.past p.text)

section Pieces

variable {bytes : List UInt8} {c : Cursor} {first : Char} {rest : List Char} {kind : Kind}

theorem reads_operator (short long : Kind) (h : At bytes c.position (first :: rest)) :
    Reads c (pieceOf first rest (cutOperator short long rest))
      ((c.past [first]).operator bytes short long) := by
  have hat : At bytes (c.past [first]).position rest := h.after [first]
  by_cases hequal : ['='] <+: rest
  · rw [operator, eat_of_isPrefix hat (by decide) hequal,
      forward_one (a := '=') (by decide) (by decide), past_past]
    obtain ⟨more, rfl⟩ := hequal
    rfl
  · have hcut : cutOperator short long rest = (.lexeme short, 0) := by
      unfold cutOperator
      split
      · exact absurd ⟨_, rfl⟩ hequal
      · rfl
    rw [operator, eat_of_not_isPrefix hat (by decide) hequal, hcut]
    rfl

theorem reads_lineComment {more : List Char} (h : At bytes c.position ('/' :: '/' :: more)) :
    Reads c (pieceOf '/' ('/' :: more) (cutSlash ('/' :: more))) ((c.past ['/']).slash bytes) := by
  have hat : At bytes (c.past ['/']).position ('/' :: more) := h.after ['/']
  have hat' : At bytes (c.past ['/', '/']).position more := h.after ['/', '/']
  have hmove : (c.past ['/']).forward 1 = c.past ['/', '/'] := by
    rw [forward_one (a := '/') (by decide) (by decide), past_past]
    rfl
  have htext : ('/' :: more).take ((more.takeWhile (· ≠ '\n')).length + 1) =
      '/' :: more.takeWhile (· ≠ '\n') := by
    rw [List.take_succ_cons, take_takeWhile]
  simp only [slash, eat_of_isPrefix hat (a := '/') (by decide) ⟨more, rfl⟩, hmove,
    toLineEnd_eq hat', past_past, cutSlash, pieceOf, htext]
  rfl

/-- A slash and a star open a comment, which goes as the loop for comments does. -/
theorem slash_eq_comment {more : List Char} (hstart : c.start = c.position)
    (h : At bytes c.position ('/' :: '*' :: more)) :
    (c.past ['/']).slash bytes =
      match (c.past ['/', '*']).comment bytes [(c.line, c.position)] with
      | ([], d) => .ok (.skipped, d)
      | ((line, offset) :: _, d) => .ok (.error ⟨.unterminatedComment offset, line⟩, d) := by
  have hat : At bytes (c.past ['/']).position ('*' :: more) := h.after ['/']
  have hmove : (c.past ['/']).forward 1 = c.past ['/', '*'] := by
    rw [forward_one (a := '*') (by decide) (by decide), past_past]
    rfl
  have hopener : ((c.past ['/', '*']).line, (c.past ['/', '*']).start) = (c.line, c.position) := by
    rw [past, hstart]
    rfl
  rcases hended : (c.past ['/', '*']).comment bytes [(c.line, c.position)] with
    ⟨_ | ⟨⟨line, offset⟩, openers⟩, d⟩ <;>
  simp only [slash, eat_of_not_isPrefix hat (a := '/') (by decide) (by simp),
    eat_of_isPrefix hat (a := '*') (by decide) ⟨more, rfl⟩, hmove, hopener, hended]

theorem ends_opened {more : List Char} (h : At bytes c.position ('/' :: '*' :: more)) :
    Ends c ('/' :: '*' :: more)
      ((c.past ['/', '*']).comment bytes [(c.line, c.position)]) (extent more) := by
  have hseen : At bytes c.position (['/', '*'] ++ more) := h
  exact ends_comment [0] hseen rfl

theorem reads_blockComment {more : List Char} (hstart : c.start = c.position)
    (h : At bytes c.position ('/' :: '*' :: more)) :
    Reads c (pieceOf '/' ('*' :: more) (cutSlash ('*' :: more))) ((c.past ['/']).slash bytes) := by
  have hends := ends_opened h
  rw [slash_eq_comment hstart h]
  rcases closes_or_unclosed more with ⟨rest, hcloses⟩ | hopens
  · rw [extent_of_closes hcloses, Ends] at hends
    simp only [hends, cutSlash, extent_of_closes hcloses, pieceOf]
    rfl
  · obtain ⟨innermost, hinnermost⟩ := hopens 0 2
    rw [extent_of_unclosed hinnermost, Ends] at hends
    obtain ⟨outer, hends⟩ := hends
    have htext : ('*' :: more).take (more.length + 1) = '*' :: more := by simp
    simp only [hends, cutSlash, extent_of_unclosed hinnermost, pieceOf, htext]
    rfl

theorem reads_slash (hstart : c.start = c.position) (h : At bytes c.position ('/' :: rest)) :
    Reads c (pieceOf '/' rest (cutSlash rest)) ((c.past ['/']).slash bytes) := by
  have hat : At bytes (c.past ['/']).position rest := h.after ['/']
  by_cases hline : ['/'] <+: rest
  · obtain ⟨more, rfl⟩ := hline
    exact reads_lineComment h
  by_cases hblock : ['*'] <+: rest
  · obtain ⟨more, rfl⟩ := hblock
    exact reads_blockComment hstart h
  · have hcut : cutSlash rest = (.lexeme .slash, 0) := by
      unfold cutSlash
      split
      · exact absurd ⟨_, rfl⟩ hline
      · exact absurd ⟨_, rfl⟩ hblock
      · rfl
    simp only [slash, eat_of_not_isPrefix hat (a := '/') (by decide) hline,
      eat_of_not_isPrefix hat (a := '*') (by decide) hblock, hcut]
    rfl

theorem reads_string (hstart : c.start = c.position) (h : At bytes c.position ('"' :: rest)) :
    Reads c (pieceOf '"' rest (cutString rest)) ((c.past ['"']).string bytes) := by
  have hat : At bytes (c.past ['"']).position rest := h.after ['"']
  by_cases hquote : '"' ∈ rest
  · obtain ⟨body, more, rfl, hbody⟩ := List.eq_append_cons_of_mem hquote
    have hat' : At bytes (c.past ('"' :: body)).position ('"' :: more) := h.after ('"' :: body)
    have hquote := eat_of_isPrefix hat' (a := '"') (by decide) ⟨more, rfl⟩
    rw [forward_one (a := '"') (by decide) (by decide), past_past] at hquote
    have hfirst : (c.past ('"' :: body ++ ['"'])).start + 1 = (c.past ['"']).position :=
      congrArg (· + 1) hstart
    have hlast : (c.past ('"' :: body ++ ['"'])).position - 1 =
        (c.past ['"']).position + byteSize body := by
      have hquote : byteSize ['"'] = 1 := byteSize_singleton (by decide)
      rw [← List.singleton_append (x := '"'), past, past, byteSize_append, byteSize_append, hquote]
      dsimp only
      omega
    simp only [string, toQuote_eq hat, takeWhile_ne_cons hbody, past_past, List.singleton_append,
      hquote, hfirst, hlast, hat.slice, cutString_closed hbody, pieceOf,
      List.take_length_add_append]
    rfl
  · have hat' : At bytes (c.past ('"' :: rest)).position [] :=
      At.after ('"' :: rest) (by simpa using h)
    simp only [string, toQuote_eq hat, takeWhile_ne_self hquote, past_past, List.singleton_append,
      eat_of_not_isPrefix hat' (a := '"') (by decide) (by simp), cutString_open hquote, pieceOf,
      List.take_length]
    rfl

theorem fraction_eq (h : At bytes c.position rest) : c.fraction bytes = c.past (pointed rest) := by
  by_cases hpoint : ['.'] <+: rest
  · obtain ⟨more, rfl⟩ := hpoint
    have hdot : c.ahead bytes 0 = '.' := by
      rw [ahead_zero h, front_eq_iff (by decide)]
      exact ⟨more, rfl⟩
    have hat : At bytes (c.past ['.']).position more := h.after ['.']
    have hdigits : fractionDigits ('.' :: more) = more.takeWhile isDigit := rfl
    have hdigit : isDigit (c.ahead bytes 1) ↔ more.takeWhile isDigit ≠ [] := by
      rw [ahead_one h (by decide), front_mem_iff (by decide) fun a => isAscii_of_isDigit]
      cases more with
      | nil => simp
      | cons d more => by_cases hd : isDigit d <;> simp [hd]
    rw [List.singleton_append, pointed, hdigits]
    by_cases hnil : more.takeWhile isDigit = []
    · rw [fraction, if_neg fun hmark => hdigit.mp hmark.2 hnil, if_pos hnil, past_nil]
    · rw [fraction, if_pos ⟨hdot, hdigit.mpr hnil⟩, if_neg hnil,
        forward_one (a := '.') (by decide) (by decide),
        skip_eq _ (fun a => isAscii_of_isDigit) (by decide) hat, past_past]
      rfl
  · have hdigits : fractionDigits rest = [] := by
      unfold fractionDigits
      split
      · exact absurd ⟨_, rfl⟩ hpoint
      · rfl
    have hdot : c.ahead bytes 0 ≠ '.' := by
      rwa [ahead_zero h, ne_eq, front_eq_iff (by decide)]
    rw [fraction, if_neg fun hmark => hdot hmark.1, pointed, if_pos hdigits, past_nil]

theorem reads_number (hstart : c.start = c.position) (h : At bytes c.position (first :: rest))
    (hfirst : isDigit first) :
    Reads c (pieceOf first rest (cutNumber first rest)) ((c.past [first]).number bytes) := by
  obtain ⟨more, hmore⟩ := numberTail_isPrefix rest
  have hat : At bytes (c.past [first]).position rest := h.after [first]
  have hat' : At bytes ((c.past [first]).past (rest.takeWhile isDigit)).position
      (rest.drop (rest.takeWhile isDigit).length) :=
    At.after _ ((takeWhile_append_drop isDigit rest).symm ▸ hat)
  have hwhole : ∀ d ∈ first :: rest.takeWhile isDigit, isDigit d :=
    List.forall_mem_cons.mpr ⟨hfirst, fun d => List.mem_takeWhile_imp⟩
  have hcursor : (skip bytes isDigit (by decide) (c.past [first])).fraction bytes =
      c.past (first :: numberTail rest) := by
    rw [skip_eq _ (fun a => isAscii_of_isDigit) (by decide) hat, fraction_eq hat', past_past,
      past_past]
    rfl
  have hslice : slice bytes (c.past (first :: numberTail rest)).start
      (c.past (first :: numberTail rest)).position =
      .ok (String.ofList (first :: numberTail rest)) := by
    rw [past_start, past_position, hstart]
    exact At.slice (by rwa [List.cons_append, hmore])
  have hvalue : numeralValue (String.ofList (first :: numberTail rest)) =
      Number.ofNumeral (first :: rest.takeWhile isDigit)
        (fractionDigits (rest.drop (rest.takeWhile isDigit).length)) := by
    rw [numberTail, ← List.cons_append]
    exact numeralValue_eq hwhole
  have hpiece := List.prefix_iff_eq_take.mp (numberTail_isPrefix rest)
  rw [Reads, cutNumber_eq, pieceOf, ← hpiece, Piece.outcome_lexeme]
  simp only [number, hcursor, hslice, hvalue]

theorem reads_name (hstart : c.start = c.position) (h : At bytes c.position (first :: rest)) :
    Reads c (pieceOf first rest (cutName first rest)) ((c.past [first]).name bytes) := by
  have hat : At bytes (c.past [first]).position rest := h.after [first]
  have hat' : At bytes c.position ((first :: rest.takeWhile continuesName) ++
      rest.drop (rest.takeWhile continuesName).length) := by
    rwa [List.cons_append, takeWhile_append_drop]
  have hcursor : skip bytes continuesName (by decide) (c.past [first]) =
      c.past (first :: rest.takeWhile continuesName) := by
    rw [skip_eq _ (fun a => isAscii_of_continuesName) (by decide) hat, past_past]
    rfl
  have hrange : c.position ≤ c.position + byteSize (first :: rest.takeWhile continuesName) ∧
      c.position + byteSize (first :: rest.takeWhile continuesName) ≤ bytes.length :=
    ⟨Nat.le_add_right _ _, hat'.after_le_length⟩
  rw [Reads, cutName, pieceOf, take_takeWhile, Piece.outcome_lexeme]
  simp only [name, hcursor, past_start, past_position, hstart, if_pos hrange,
    Nat.add_sub_cancel_left, hat'.take, wordKind_utf8]

/-- What starts no lexeme is passed over as a whole, although only its first byte has been taken. -/
theorem reads_unexpected (hstart : c.start = c.position) (h : At bytes c.position (first :: rest))
    (hbreak : first ≠ '\n') : Reads c ⟨.stray, [first]⟩ ((c.forward 1).unexpected bytes) := by
  have hslice : slice bytes c.position bytes.length = .ok (String.ofList (first :: rest)) := by
    have hall : At bytes c.position ((first :: rest) ++ []) := by rwa [List.append_nil]
    rw [h.length]
    exact hall.slice
  have hcursor : c.past [first] = { c.forward 1 with position := c.position + first.utf8Size } := by
    simp [past, forward, byteSize, newlines, hbreak]
  simp only [unexpected, forward, hstart, hslice, String.toList_ofList, List.head?_cons,
    Option.getD_some, Reads, hcursor]
  rfl

theorem reads_single (ha : isAscii first) (hbreak : first ≠ '\n')
    (hcut : cut first rest = (.lexeme kind, 0)) :
    Reads c (firstPiece first rest) (.ok (.lexeme kind, c.forward 1)) := by
  rw [forward_one ha hbreak, firstPiece, hcut]
  rfl

theorem reads_blank (ha : isAscii first) (hbreak : first ≠ '\n') (hblank : isBlank first) :
    Reads c (firstPiece first rest) (.ok (.skipped, c.forward 1)) := by
  rw [forward_one ha hbreak, firstPiece, cut_blank hblank]
  rfl

theorem dispatch_of_not_isAscii (ha : ¬ isAscii first) :
    c.dispatch bytes first = c.unexpected bytes := by
  have hdigit : ¬ isDigit first := fun h => ha (isAscii_of_isDigit h)
  have hname : ¬ startsName first := fun h => ha (isAscii_of_startsName h)
  unfold dispatch
  split
  case h_21 => rw [if_neg hdigit, if_neg hname]
  all_goals exact absurd (by decide) ha

theorem cut_of_not_isAscii (ha : ¬ isAscii first) : cut first rest = (.stray, 0) := by
  have hblank : ¬ isBlank first := fun h => ha (isAscii_of_isBlank h)
  have hdigit : ¬ isDigit first := fun h => ha (isAscii_of_isDigit h)
  have hname : ¬ startsName first := fun h => ha (isAscii_of_startsName h)
  unfold cut
  split
  case h_17 => rw [if_neg hblank, if_neg hdigit, if_neg hname]
  all_goals exact absurd (by decide) ha

/-- The first byte of a piece tells the cursor how to read the piece. -/
theorem reads_dispatch (hstart : c.start = c.position) (h : At bytes c.position (first :: rest)) :
    Reads c (firstPiece first rest) ((c.forward 1).dispatch bytes (front (first :: rest))) := by
  by_cases ha : isAscii first
  · rw [front_of_isAscii ha]
    unfold dispatch
    split
    case h_11 | h_12 | h_13 | h_14 =>
      rw [forward_one ha (by decide)]
      exact reads_operator _ _ h
    case h_15 | h_16 | h_17 => exact reads_blank ha (by decide) (by decide)
    case h_18 => rfl
    case h_19 =>
      rw [forward_one ha (by decide)]
      exact reads_slash hstart h
    case h_20 =>
      rw [forward_one ha (by decide)]
      exact reads_string hstart h
    case h_21 =>
      -- the cutter asks for blanks here, which the cursor has told apart already
      have hcut : cut first rest = if isDigit first then cutNumber first rest
          else if startsName first then cutName first rest else (.stray, 0) := by
        unfold cut
        split
        case h_17 => simp_all [isBlank]
        all_goals simp_all
      have hbreak : first ≠ '\n' := by assumption
      rw [firstPiece, hcut]
      split
      case isTrue hdigit =>
        rw [forward_one ha hbreak]
        exact reads_number hstart h hdigit
      split
      case isTrue =>
        rw [forward_one ha hbreak]
        exact reads_name hstart h
      case isFalse => exact reads_unexpected hstart h hbreak
    all_goals exact reads_single ha (by decide) rfl
  · have hbreak : first ≠ '\n' := fun hbreak => ha (hbreak ▸ by decide)
    rw [dispatch_of_not_isAscii (not_isAscii_front ha), firstPiece, cut_of_not_isAscii ha]
    exact reads_unexpected hstart h hbreak

end Pieces
end Cursor
end ScriptLang.Source
