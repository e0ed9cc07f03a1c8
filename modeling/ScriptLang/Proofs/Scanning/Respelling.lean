import ScriptLang.Proofs.Layout.Sessions
import ScriptLang.Proofs.Scanning.Sources

namespace ScriptLang.Source

open Comment

inductive Gap : List Char → Prop where
  | nil : Gap []
  | blank {c : Char} {rest : List Char} : isBlank c → Gap rest → Gap (c :: rest)
  | comment {body rest : List Char} :
    Closes body [] → Gap rest → Gap ('/' :: '*' :: (body ++ rest))

/-- A gap that begins with a blank. -/
structure Separator where
  first : Char
  others : List Char
  isBlank_first : isBlank first
  gap_others : Gap others

instance : Inhabited Separator := ⟨⟨' ', [], rfl, .nil⟩⟩

def Separator.text (s : Separator) : List Char := s.first :: s.others

theorem Separator.gap (s : Separator) : Gap s.text :=
  .blank s.isBlank_first s.gap_others

/-- The lexemes of tokens with separators between them, each chosen by how many tokens follow it. -/
def spelled (separator : Nat → Separator) : List Token → List Char
  | [] => []
  | [t] => t.lexeme.toList
  | t :: u :: ts =>
    t.lexeme.toList ++ ((separator (ts.length + 1)).text ++ spelled separator (u :: ts))

section Lexemes

variable {first c : Char} {text rest others more : List Char} {kind kind' : Kind}

theorem operators_have_no_blank : ∀ p ∈ operators, ∀ c ∈ p.1, isBlank c = false := by
  simp [operators, isBlank]

theorem Lexeme.string_of_blank (h : Lexeme text kind) (hc : isBlank c) (hmem : c ∈ text) :
    ∃ body, text = '"' :: (body ++ ['"']) ∧ '"' ∉ body := by
  have hdigit : ∀ {digits : List Char}, (∀ d ∈ digits, isDigit d) → c ∉ digits := by
    intro digits hdigits hin
    have hblank : isBlank c = false :=
      isBlank_of_continuesName (by simp [continuesName, hdigits c hin])
    simp [hc] at hblank
  have hname : ∀ d, continuesName d → c ≠ d := by
    rintro d hd rfl
    simp [isBlank_of_continuesName hd] at hc
  cases h with
  | operator hop => simp [operators_have_no_blank _ hop c hmem] at hc
  | @name first others hfirst hothers =>
    rcases List.mem_cons.mp hmem with heq | hin
    · exact absurd heq (hname first (by simp [continuesName, hfirst]))
    · exact absurd rfl (hname c (hothers c hin))
  | integer _ hdigits => exact absurd hmem (hdigit hdigits)
  | decimal _ hwhole _ hfraction =>
    rcases List.mem_append.mp hmem with hin | hin
    · exact absurd hin (hdigit hwhole)
    · rcases List.mem_cons.mp hin with rfl | hin
      · exact absurd hc (by decide)
      · exact absurd hin (hdigit hfraction)
  | string hbody => exact ⟨_, rfl, hbody⟩

/-- What begins with neither a letter nor a digit is an operator or a string. -/
theorem Lexeme.operator_or_string (h : Lexeme (first :: others) kind)
    (hname : startsName first = false) (hdigit : isDigit first = false) :
    (first :: others, kind) ∈ operators ∨
      first = '"' ∧ ∃ body, others = body ++ ['"'] ∧ '"' ∉ body := by
  generalize htext : first :: others = text at h
  cases h with
  | operator hmem => exact .inl hmem
  | name hfirst =>
    cases htext
    simp [hname] at hfirst
  | integer _ hdigits =>
    subst htext
    simp [hdigit] at hdigits
  | @decimal whole _ hne hwhole =>
    obtain ⟨d, ds, rfl⟩ := List.exists_cons_of_ne_nil hne
    cases htext
    simp [hdigit] at hwhole
  | string hbody =>
    cases htext
    exact .inr ⟨rfl, _, rfl, hbody⟩

theorem Lexeme.slash (h : Lexeme ('/' :: others) kind) : others = [] := by
  rcases h.operator_or_string rfl rfl with hmem | ⟨hquote, -⟩
  · simp [operators] at hmem
    exact hmem.1
  · cases hquote

theorem Lexeme.string_of_quote (h : Lexeme ('"' :: others) kind) :
    ∃ body, others = body ++ ['"'] := by
  rcases h.operator_or_string rfl rfl with hmem | ⟨-, body, hbody, -⟩
  · simp [operators] at hmem
  · exact ⟨body, hbody⟩

theorem Lexeme.not_past_blank (h : Lexeme text kind) (hc : isBlank c) :
    ¬ Lexeme (text ++ c :: more) kind' := by
  intro hlong
  obtain ⟨body, hbody, hquote⟩ := hlong.string_of_blank hc (by simp)
  obtain ⟨first, others, rfl⟩ := List.exists_cons_of_ne_nil h.ne_nil
  obtain ⟨rfl, hothers⟩ := List.cons.inj hbody
  obtain ⟨body', rfl⟩ := h.string_of_quote
  -- the quote that ends the shorter string would stand inside the longer one
  have hinner := congrArg List.dropLast hothers
  rw [List.append_eq, List.dropLast_append_of_ne_nil (List.cons_ne_nil c more),
    List.dropLast_concat] at hinner
  exact hquote (hinner ▸ by simp)

/-- In front of a blank, or at the end, a lexeme is cut off whole. -/
theorem pieces_lexeme (h : Lexeme text kind) (hrest : ∀ c ∈ rest.head?, isBlank c) :
    pieces (text ++ rest) = ⟨.lexeme kind, text⟩ :: pieces rest := by
  have hcomment : ¬ OpensComment (text ++ rest) := by
    rintro (⟨more, hmore⟩ | ⟨more, hmore⟩) <;>
    · obtain ⟨first, others, rfl⟩ := List.exists_cons_of_ne_nil h.ne_nil
      obtain ⟨rfl, hothers⟩ := List.cons.inj hmore
      obtain rfl := h.slash
      rw [List.append_eq, List.append_eq, List.nil_append] at hothers
      subst hothers
      simp [isBlank] at hrest
  have hlongest : Longest (text ++ rest) text kind := by
    refine ⟨List.prefix_append _ _, h, fun {other kind'} hother hlexeme => ?_⟩
    by_contra hlt
    obtain ⟨past, rfl⟩ := List.prefix_of_prefix_length_le (List.prefix_append text rest) hother
      (Nat.le_of_not_le hlt)
    cases past with
    | nil => simp at hlt
    | cons c more =>
      obtain ⟨rest', hrest'⟩ := (List.prefix_append_right_inj text).mp hother
      exact h.not_past_blank (hrest c (by rw [← hrest']; rfl)) hlexeme
  exact (eq_pieces_of_tiled (.cons (p := ⟨.lexeme kind, text⟩) (.lexeme hcomment hlongest)
    (tiled_pieces rest))).symm

theorem pieces_of_lexeme (h : Lexeme text kind) : pieces text = [⟨.lexeme kind, text⟩] := by
  have hend : ∀ c ∈ ([] : List Char).head?, isBlank c := by simp
  have hpieces := pieces_lexeme h hend
  rwa [List.append_nil, pieces] at hpieces

end Lexemes

section Rescanning

variable {text rest gap : List Char} {kind : Kind} {ts : List Token}

theorem itemsFrom_gap (h : Gap gap) (rest : List Char) (line offset : Nat) : ∃ line' offset',
    itemsFrom line offset (pieces (gap ++ rest)) = itemsFrom line' offset' (pieces rest) := by
  induction h generalizing line offset with
  | nil => exact ⟨line, offset, rfl⟩
  | @blank c gap hc _ ih =>
    obtain ⟨line', offset', hitems⟩ := ih (line + newlines [c]) (offset + byteSize [c])
    refine ⟨line', offset', ?_⟩
    rw [List.cons_append, pieces_cons, firstPiece, pieceOf, cut_blank hc]
    exact hitems
  | @comment body gap hbody _ ih =>
    have htile : Tile ('/' :: '*' :: (body ++ (gap ++ rest))) ⟨.blockComment, '/' :: '*' :: body⟩ :=
      .blockComment (hbody.append (gap ++ rest))
    have hpieces := eq_pieces_of_tiled
      (.cons (p := ⟨.blockComment, '/' :: '*' :: body⟩) htile (tiled_pieces (gap ++ rest)))
    obtain ⟨line', offset', hitems⟩ := ih (line + newlines ('/' :: '*' :: body))
      (offset + byteSize ('/' :: '*' :: body))
    refine ⟨line', offset', ?_⟩
    rw [List.cons_append, List.cons_append, List.append_assoc]
    exact (congrArg (itemsFrom line offset) hpieces.symm).trans hitems

theorem itemsFrom_lexeme (h : Lexeme text kind) (hrest : ∀ c ∈ rest.head?, isBlank c)
    (line offset : Nat) :
    itemsFrom line offset (pieces (text ++ rest)) =
      .token ⟨kind, String.ofList text, line + newlines text⟩ ::
        itemsFrom (line + newlines text) (offset + byteSize text) (pieces rest) := by
  rw [pieces_lexeme h hrest]
  rfl

theorem spelled_tokens (separator : Nat → Separator)
    (h : ∀ t ∈ ts, Lexeme t.lexeme.toList t.kind) (line offset : Nat) :
    ∃ us : List Token,
      itemsFrom line offset (pieces (spelled separator ts)) = us.map Item.token ∧
        us.map Token.spelling = ts.map Token.spelling := by
  induction ts generalizing line offset with
  | nil => exact ⟨[], by simp [spelled, pieces, itemsFrom]⟩
  | cons t ts ih =>
    obtain ⟨ht, hts⟩ := List.forall_mem_cons.mp h
    have hspelling (n : Nat) :
        Token.spelling ⟨t.kind, String.ofList t.lexeme.toList, n⟩ = t.spelling := by
      simp [Token.spelling]
    cases ts with
    | nil =>
      have hend : ∀ c ∈ ([] : List Char).head?, isBlank c := by simp
      have hlexeme := itemsFrom_lexeme ht hend line offset
      rw [List.append_nil, pieces] at hlexeme
      exact ⟨[_], hlexeme, congrArg (· :: []) (hspelling _)⟩
    | cons u ts =>
      let s := separator (ts.length + 1)
      have hblank : ∀ c ∈ (s.text ++ spelled separator (u :: ts)).head?, isBlank c := by
        simpa [Separator.text] using s.isBlank_first
      have hlexeme := itemsFrom_lexeme ht hblank line offset
      obtain ⟨line', offset', hgap⟩ := itemsFrom_gap s.gap (spelled separator (u :: ts))
        (line + newlines t.lexeme.toList) (offset + byteSize t.lexeme.toList)
      obtain ⟨us, hitems, hus⟩ := ih hts line' offset'
      rw [hgap, hitems] at hlexeme
      refine ⟨_ :: us, hlexeme, ?_⟩
      rw [List.map_cons, hspelling, hus]
      rfl

theorem lexeme_of_mem_itemsFrom {ps : List Piece} {t : Token} (h : Tiled text ps)
    (line offset : Nat) (hmem : .token t ∈ itemsFrom line offset ps) :
    Lexeme t.lexeme.toList t.kind := by
  induction h generalizing line offset with
  | nil => cases hmem
  | @cons p rest ps htile _ ih =>
    rcases List.mem_append.mp hmem with hmem | hmem
    · have hitem : p.item? line offset = some (.token t) := by simpa using hmem
      generalize p.text ++ rest = whole at htile
      cases htile with
      | lexeme _ hlongest =>
        cases hitem
        simpa using hlongest.isLexeme
      | _ => cases hitem
    · exact ih _ _ hmem

theorem lexeme_of_mem_tokens {source : String} {t : Token} (h : t ∈ tokens source) :
    Lexeme t.lexeme.toList t.kind := by
  obtain ⟨item, hmem, htoken⟩ := List.mem_filterMap.mp h
  cases item with
  | error e => cases htoken
  | token t' =>
    cases htoken
    exact lexeme_of_mem_itemsFrom (tiled_pieces _) 1 0 hmem

end Rescanning

/-- The lexemes of the good tokens of any source, with separators between them, are scanned without
an error as tokens of the same kinds, lexemes and values. -/
theorem rescanning_gives_the_tokens (source : String) (separator : Nat → Separator) :
    let again := String.ofList (spelled separator (tokens source))
    errors again = [] ∧ (tokens again).map Token.spelling = (tokens source).map Token.spelling := by
  intro again
  obtain ⟨us, hitems, hus⟩ := spelled_tokens separator (fun t => lexeme_of_mem_tokens) 1 0
  have hagain : items again = us.map Item.token := by
    rw [items, String.toList_ofList]
    exact hitems
  constructor
  · rw [errors, hagain, List.filterMap_map]
    exact List.filterMap_eq_nil_iff.mpr fun _ _ => rfl
  · rw [tokens, hagain, List.filterMap_map, ← hus]
    congr 1
    exact List.filterMap_some

end ScriptLang.Source
