import ScriptLang.Proofs.Scanning.Lexeme
import ScriptLang.Proofs.Scanning.Comments

namespace ScriptLang.Source

open Comment

inductive Tile : List Char → Piece → Prop where
  | blank {c : Char} {rest : List Char} :
    c ∈ [' ', '\t', '\r', '\n'] → Tile (c :: rest) ⟨.blank, [c]⟩
  /-- A line comment goes up to the next line break, or to the end. -/
  | lineComment {comment rest : List Char} :
    '\n' ∉ comment → rest = [] ∨ ['\n'] <+: rest →
    Tile ('/' :: '/' :: (comment ++ rest)) ⟨.lineComment, '/' :: '/' :: comment⟩
  | blockComment {comment rest : List Char} :
    Closes (comment ++ rest) rest →
    Tile ('/' :: '*' :: (comment ++ rest)) ⟨.blockComment, '/' :: '*' :: comment⟩
  | lexeme {text lexeme : List Char} {kind : Kind} :
    ¬ OpensComment text → Longest text lexeme kind → Tile text ⟨.lexeme kind, lexeme⟩
  | stray {c : Char} {rest : List Char} :
    c ∉ [' ', '\t', '\r', '\n'] → (∀ others kind, ¬ Lexeme (c :: others) kind) →
    Tile (c :: rest) ⟨.stray, [c]⟩
  | openString {body : List Char} : '"' ∉ body → Tile ('"' :: body) ⟨.openString, '"' :: body⟩
  | openComment {body : List Char} {opener : Nat} :
    (∀ rest, ¬ Closes body rest) → Unclosed 0 2 body opener →
    Tile ('/' :: '*' :: body) ⟨.openComment opener, '/' :: '*' :: body⟩

/-- Pieces that follow each other without a gap and make up a text. -/
inductive Tiled : List Char → List Piece → Prop where
  | nil : Tiled [] []
  | cons {p : Piece} {rest : List Char} {ps : List Piece} :
    Tile (p.text ++ rest) p → Tiled rest ps → Tiled (p.text ++ rest) (p :: ps)

def pieceOf (first : Char) (rest : List Char) (cut : Cut) : Piece :=
  ⟨cut.1, first :: rest.take cut.2⟩

def firstPiece (first : Char) (rest : List Char) : Piece :=
  pieceOf first rest (cut first rest)

theorem firstPiece_append (first : Char) (rest : List Char) :
    (firstPiece first rest).text ++ rest.drop (cut first rest).2 = first :: rest := by
  simp [firstPiece, pieceOf]

theorem pieces_cons (first : Char) (rest : List Char) :
    pieces (first :: rest) = firstPiece first rest :: pieces (rest.drop (cut first rest).2) := by
  rw [pieces]
  rfl

section Slashes

variable {comment rest body : List Char}

theorem cut_lineComment (h : '\n' ∉ comment) (hrest : rest = [] ∨ ['\n'] <+: rest) :
    cut '/' ('/' :: (comment ++ rest)) = (.lineComment, comment.length + 1) := by
  have hstop : rest.takeWhile (· ≠ '\n') = [] := by
    rcases hrest with rfl | ⟨more, rfl⟩ <;> rfl
  change (Form.lineComment, ((comment ++ rest).takeWhile (· ≠ '\n')).length + 1) = _
  rw [takeWhile_ne_append h, hstop, List.append_nil]

theorem cut_blockComment (h : Closes (comment ++ rest) rest) :
    cut '/' ('*' :: (comment ++ rest)) = (.blockComment, comment.length + 1) := by
  simp only [cut, cutSlash, extent_of_closes h, List.length_append, Nat.add_sub_cancel]
  rfl

theorem cut_openComment {opener : Nat} (h : Unclosed 0 2 body opener) :
    cut '/' ('*' :: body) = (.openComment opener, body.length + 1) := by
  simp only [cut, cutSlash, extent_of_unclosed h]

end Slashes

section Tiles

variable {first c : Char} {rest others text lexeme : List Char} {kind : Kind} {p : Piece}

theorem isBlank_iff : isBlank c ↔ c ∈ [' ', '\t', '\r', '\n'] := by
  simp [isBlank, or_assoc]

theorem Lexeme.ne_nil (h : Lexeme text kind) : text ≠ [] := by
  cases h with
  | operator hmem =>
    rintro rfl
    simp [operators] at hmem
  | integer hne => exact hne
  | decimal => simp
  | name | string => exact List.cons_ne_nil _ _

theorem Lexeme.head (h : Lexeme (first :: others) kind) :
    first = '"' ∨ ∃ kind', Lexeme [first] kind' := by
  generalize htext : first :: others = text at h
  cases h with
  | operator hmem =>
    subst htext
    simp only [operators, List.mem_cons, Prod.mk.injEq, List.cons.injEq, List.not_mem_nil,
      or_false] at hmem
    right
    rcases hmem with h | h | h | h | h | h | h | h | h | h | h | h | h | h | h | h | h | h | h <;>
    · obtain ⟨⟨rfl, -⟩, -⟩ := h
      exact ⟨_, .operator (by simp [operators]; rfl)⟩
  | name hfirst _ =>
    cases htext
    exact .inr ⟨_, .name hfirst (by simp)⟩
  | integer _ hdigits =>
    subst htext
    exact .inr ⟨_, .integer (List.cons_ne_nil _ _) (by simpa using hdigits first (by simp))⟩
  | @decimal whole _ hne hwhole =>
    obtain ⟨d, ds, rfl⟩ := List.exists_cons_of_ne_nil hne
    cases htext
    exact .inr ⟨_, .integer (List.cons_ne_nil _ _) (by simpa using hwhole first (by simp))⟩
  | string =>
    cases htext
    exact .inl rfl

theorem Tile.ne_nil (h : Tile text p) : text ≠ [] := by
  cases h with
  | lexeme _ hlongest =>
    rintro rfl
    exact hlongest.isLexeme.ne_nil (List.prefix_nil.mp hlongest.isPrefix)
  | _ => exact List.cons_ne_nil _ _

theorem cut_stray (hblank : c ∉ [' ', '\t', '\r', '\n'])
    (h : ∀ others kind, ¬ Lexeme (c :: others) kind) : cut c rest = (.stray, 0) := by
  unfold cut
  split
  case h_16 => exact absurd (.string List.not_mem_nil) (h ['"'] (.string ""))
  case h_17 =>
    rw [if_neg (isBlank_iff.not.mpr hblank), if_neg fun hdigit => ?_, if_neg fun hname => ?_]
    · exact h [] _ (.name hname (by simp))
    · exact h [] _ (.integer (List.cons_ne_nil _ _) (by simpa using hdigit))
  all_goals exact absurd (.operator (by simp [operators]; rfl)) (h [] _)

theorem eq_firstPiece_of_longest (hcomment : ¬ OpensComment (first :: rest))
    (h : Longest (first :: rest) lexeme kind) : ⟨.lexeme kind, lexeme⟩ = firstPiece first rest := by
  obtain ⟨kind', hform, hle, hkind⟩ := covers_cut hcomment h.isLexeme h.isPrefix
  have hcount : (cut first rest).2 ≤ rest.length := (cut_line [] (by rw [hform]; rfl)).2
  have hge : (cut first rest).2 + 1 ≤ lexeme.length := by
    have hcut : Lexeme (first :: rest.take (cut first rest).2) kind' := lexeme_cut (by rw [← hform])
    have hlength := h.length_le (List.cons_prefix_cons.mpr ⟨rfl, List.take_prefix _ _⟩) hcut
    rwa [List.length_cons, List.length_take, Nat.min_eq_left hcount] at hlength
  have hlength := Nat.le_antisymm hle hge
  rw [firstPiece, pieceOf, hform, hkind hlength, List.prefix_iff_eq_take.mp h.isPrefix, hlength]
  rfl

/-- A text starts with one piece only, the one that the cutter takes. -/
theorem eq_firstPiece (h : Tile (first :: rest) p) : p = firstPiece first rest := by
  generalize htext : first :: rest = text at h
  cases h with
  | blank hblank =>
    cases htext
    rw [firstPiece, pieceOf, cut_blank (isBlank_iff.mpr hblank)]
    rfl
  | lineComment hcomment hrest =>
    cases htext
    simp [firstPiece, pieceOf, cut_lineComment hcomment hrest]
  | blockComment hcloses =>
    cases htext
    simp [firstPiece, pieceOf, cut_blockComment hcloses]
  | lexeme hcomment hlongest =>
    subst htext
    exact eq_firstPiece_of_longest hcomment hlongest
  | stray hblank hlexeme =>
    cases htext
    rw [firstPiece, pieceOf, cut_stray hblank hlexeme]
    rfl
  | openString hbody =>
    cases htext
    simp only [firstPiece, pieceOf, cut, cutString_open hbody, List.take_length]
  | openComment _ hopen =>
    cases htext
    simp [firstPiece, pieceOf, cut_openComment hopen]

theorem longest_firstPiece (hcomment : ¬ OpensComment (first :: rest))
    (h : (cut first rest).1 = .lexeme kind) :
    Longest (first :: rest) (first :: rest.take (cut first rest).2) kind where
  isPrefix := List.cons_prefix_cons.mpr ⟨rfl, List.take_prefix _ _⟩
  isLexeme := lexeme_cut (by rw [← h])
  length_le hprefix hlexeme := by
    obtain ⟨_, -, hle, -⟩ := covers_cut hcomment hlexeme hprefix
    have hcount : (cut first rest).2 ≤ rest.length := (cut_line [] (by rw [h]; rfl)).2
    rwa [List.length_cons, List.length_take, Nat.min_eq_left hcount]

theorem exists_tile_of_opensComment (h : OpensComment text) : ∃ p, Tile text p := by
  rcases h with ⟨rest, rfl⟩ | ⟨body, rfl⟩
  · by_cases hbreak : '\n' ∈ rest
    · obtain ⟨comment, more, rfl, hcomment⟩ := List.eq_append_cons_of_mem hbreak
      exact ⟨_, @Tile.lineComment comment ('\n' :: more) hcomment (.inr ⟨more, rfl⟩)⟩
    · have htile := @Tile.lineComment rest [] hbreak (.inl rfl)
      rw [List.append_nil] at htile
      exact ⟨_, htile⟩
  · rcases closes_or_unclosed body with ⟨rest, hrest⟩ | hopen
    · obtain ⟨comment, rfl⟩ := hrest.isSuffix
      exact ⟨_, @Tile.blockComment comment rest hrest⟩
    · obtain ⟨opener, hopener⟩ := hopen 0 2
      exact ⟨_, .openComment (fun rest => hopener.not_closes) hopener⟩

theorem exists_tile (first : Char) (rest : List Char) : ∃ p, Tile (first :: rest) p := by
  -- a comment goes before the operator that its slash is
  by_cases hcomment : OpensComment (first :: rest)
  · exact exists_tile_of_opensComment hcomment
  by_cases hblank : first ∈ [' ', '\t', '\r', '\n']
  · exact ⟨_, .blank hblank⟩
  by_cases hhead : ∃ kind, Lexeme [first] kind
  · obtain ⟨kind, hlexeme⟩ := hhead
    obtain ⟨kind', hform, -⟩ :=
      covers_cut hcomment hlexeme (List.cons_prefix_cons.mpr ⟨rfl, List.nil_prefix⟩)
    exact ⟨_, .lexeme hcomment (longest_firstPiece hcomment hform)⟩
  by_cases hquote : first = '"'
  · subst hquote
    by_cases hend : '"' ∈ rest
    · obtain ⟨body, more, rfl, hbody⟩ := List.eq_append_cons_of_mem hend
      have hform : (cutString (body ++ '"' :: more)).1 = .lexeme (.string (String.ofList body)) :=
        congrArg Prod.fst (cutString_closed hbody)
      exact ⟨_, .lexeme hcomment (longest_firstPiece hcomment hform)⟩
    · exact ⟨_, .openString hend⟩
  · refine ⟨_, .stray hblank fun others kind hlexeme => ?_⟩
    exact (hlexeme.head).elim hquote hhead

theorem tile_firstPiece (first : Char) (rest : List Char) :
    Tile (first :: rest) (firstPiece first rest) := by
  obtain ⟨p, hp⟩ := exists_tile first rest
  exact eq_firstPiece hp ▸ hp

end Tiles

theorem eq_pieces_of_tiled {text : List Char} {ps : List Piece} (h : Tiled text ps) :
    ps = pieces text := by
  induction h with
  | nil => rw [pieces]
  | @cons p rest ps htile _ ih =>
    obtain ⟨first, others, htext⟩ := List.exists_cons_of_ne_nil htile.ne_nil
    rw [htext] at htile ⊢
    have hp := eq_firstPiece htile
    have hrest : rest = others.drop (cut first others).2 := by
      rw [hp, firstPiece, pieceOf, List.cons_append] at htext
      have hothers := (List.cons.inj htext).2
      conv at hothers => rhs; rw [← List.take_append_drop (cut first others).2 others]
      exact List.append_cancel_left hothers
    rw [pieces_cons, ← hp, ← hrest, ih]

theorem tiled_pieces (text : List Char) : Tiled text (pieces text) := by
  induction hlength : text.length using Nat.strongRecOn generalizing text with
  | ind n ih =>
    cases text with
    | nil =>
      rw [pieces]
      exact .nil
    | cons first rest =>
      have hlt : (rest.drop (cut first rest).2).length < n := by
        rw [← hlength, List.length_drop, List.length_cons]
        omega
      rw [pieces_cons, ← firstPiece_append]
      exact .cons (firstPiece_append first rest ▸ tile_firstPiece first rest) (ih _ hlt _ rfl)

/-- A text has exactly one tiling, and it is what the cutter makes of the text. -/
theorem tiled_iff {text : List Char} {ps : List Piece} : Tiled text ps ↔ ps = pieces text :=
  ⟨eq_pieces_of_tiled, fun h => h ▸ tiled_pieces text⟩

end ScriptLang.Source
