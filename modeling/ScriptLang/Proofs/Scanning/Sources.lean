import ScriptLang.Proofs.Scanning.Rounds

namespace ScriptLang.Source

theorem Lexeme.ne_endOfFile {text : List Char} {kind : Kind} (h : Lexeme text kind) :
    kind ≠ .endOfFile := by
  cases h with
  | operator hmem =>
    rintro rfl
    simp [operators] at hmem
  | name =>
    rw [← Kind.ofWord_eq, Kind.ofWord]
    split <;> decide
  | integer | decimal | string => exact Kind.noConfusion

theorem kind_ne_endOfFile {p : Piece} {text : List Char} {t : Token} {line offset : Nat}
    (h : Tile text p) (ht : p.item? line offset = some (.token t)) : t.kind ≠ .endOfFile := by
  cases h with
  | lexeme _ hlongest =>
    cases ht
    exact hlongest.isLexeme.ne_endOfFile
  | _ => simp [Piece.item?] at ht

/-- A token has the text of its piece and the line that it ends on. -/
theorem token_of_item? {p : Piece} {t : Token} {line offset : Nat}
    (h : p.item? line offset = some (.token t)) :
    t = ⟨t.kind, String.ofList p.text, line + newlines p.text⟩ := by
  unfold Piece.item? at h
  split at h
  case h_4 =>
    cases h
    rfl
  all_goals simp at h

namespace Cursor

variable {bytes : List UInt8} {c c' last : Cursor} {first : Char} {rest text : List Char}
  {p : Piece} {ps : List Piece} {item : Item} {items : List Item}

def across (c : Cursor) (p : Piece) : Cursor :=
  { c with start := c.position }.past p.text

/-- From `c` on, each round reads one of the pieces: it takes the bytes of the piece and gives the
item that the piece has on that line and at that offset. -/
inductive Rounds (bytes : List UInt8) : Cursor → List Piece → Cursor → Prop where
  | done {c : Cursor} : Rounds bytes c [] c
  | round {c last : Cursor} {p : Piece} {ps : List Piece} :
    p.text ≠ [] → (bytes.drop c.position).take (byteSize p.text) = utf8 p.text →
    c.round bytes = .ok (p.item? c.line c.position, c.across p) →
    Rounds bytes (c.across p) ps last → Rounds bytes c (p :: ps) last

/-- Asked again and again from `c` on, a cursor gives these items. -/
inductive Yields (bytes : List UInt8) : Cursor → List Item → Cursor → Prop where
  | nil {c : Cursor} : Yields bytes c [] c
  | cons {c c' last : Cursor} {item : Item} {items : List Item} :
    c.next bytes = .ok (some item, c') → Yields bytes c' items last →
    Yields bytes c (item :: items) last

theorem advance_eq (h : At bytes c.position (first :: rest)) :
    c.advance bytes = .ok (front (first :: rest), c.forward 1) := by
  obtain ⟨b, more, hbytes, -⟩ := exists_first_utf8EncodeChar first
  have hbyte := h.getElem? 0
  rw [Nat.add_zero, utf8_cons, hbytes] at hbyte
  rw [advance, hbyte, front, utf8_cons, hbytes]
  rfl

theorem round_eq (h : At bytes c.position (first :: rest)) :
    c.round bytes = .ok ((firstPiece first rest).item? c.line c.position,
      c.across (firstPiece first rest)) := by
  have hstart : ({ c with start := c.position } : Cursor).start = c.position := rfl
  have hadvance := advance_eq (c := { c with start := c.position }) h
  have hdispatch := reads_dispatch (c := { c with start := c.position }) rfl h
  rw [← firstPiece_append] at h
  have hslice := h.slice
  unfold Reads Piece.outcome at hdispatch
  dsimp only at hdispatch
  rw [round, hadvance]
  dsimp only
  rw [hdispatch]
  cases hitem : (firstPiece first rest).item? c.line c.position with
  | none => rfl
  | some item =>
    cases item with
    | error e => rfl
    | token t =>
      dsimp only [across, past]
      rw [hslice, token_of_item? hitem]

/-- The rounds of a cursor read the pieces of the text before it, down to the end. -/
theorem exists_rounds (h : At bytes c.position text) :
    ∃ last, Rounds bytes c (pieces text) last ∧ last.position = bytes.length := by
  induction hlength : text.length using Nat.strongRecOn generalizing text c with
  | ind n ih =>
    cases text with
    | nil =>
      rw [pieces]
      exact ⟨c, .done, by rw [h.length]; rfl⟩
    | cons first rest =>
      have hlt : (rest.drop (cut first rest).2).length < n := by
        rw [← hlength, List.length_drop, List.length_cons]
        omega
      have hat := h
      rw [← firstPiece_append] at hat
      have hrest : At bytes (c.across (firstPiece first rest)).position
          (rest.drop (cut first rest).2) := hat.after _
      obtain ⟨last, hrounds, hlast⟩ := ih _ hlt hrest rfl
      rw [pieces_cons]
      exact ⟨last, .round (List.cons_ne_nil _ _) hat.take (round_eq h) hrounds, hlast⟩

theorem Rounds.line_eq (h : Rounds bytes c ps last) :
    last.line = c.line + newlines (ps.flatMap Piece.text) := by
  induction h with
  | done => rfl
  | round _ _ _ _ ih => rw [ih, List.flatMap_cons, newlines_append, ← Nat.add_assoc]; rfl

theorem next_of_item (h : c.position < bytes.length)
    (hround : c.round bytes = .ok (some item, c')) :
    c.next bytes = .ok (some item, c') := by
  rw [next, if_neg (Nat.not_lt_of_lt h), if_neg (Nat.ne_of_lt h), hround]

theorem next_of_skipped (h : c.position < bytes.length) (hround : c.round bytes = .ok (none, c'))
    (hmove : c.position < c'.position) : c.next bytes = c'.next bytes := by
  rw [next, if_neg (Nat.not_lt_of_lt h), if_neg (Nat.ne_of_lt h), hround]
  exact if_pos hmove

theorem Yields.of_next_eq (hnext : c.next bytes = c'.next bytes) (h : Yields bytes c' items last)
    (hitems : items ≠ []) : Yields bytes c items last := by
  cases h with
  | nil => exact absurd rfl hitems
  | cons hitem hrest => exact .cons (hnext.trans hitem) hrest

/-- Rounds down to the end give the items of their pieces, then the end. -/
theorem Rounds.yields (h : Rounds bytes c ps last) (hend : last.position = bytes.length) :
    Yields bytes c (itemsFrom c.line c.position ps ++ [.token ⟨.endOfFile, "", last.line⟩])
      (last.forward 1) := by
  induction h with
  | @done c =>
    have hnext : c.next bytes = .ok (some (.token ⟨.endOfFile, "", c.line⟩), c.forward 1) := by
      rw [next, if_neg (Nat.not_lt.mpr (Nat.le_of_eq hend)), if_pos hend]
    exact .cons hnext .nil
  | @round c last p ps hne hbytes hround _ ih =>
    have hpos : 0 < byteSize p.text := Nat.pos_of_ne_zero (byteSize_eq_zero.not.mpr hne)
    have hlt : c.position < bytes.length := by
      by_contra hge
      rw [List.drop_eq_nil_of_le (Nat.le_of_not_lt hge), List.take_nil] at hbytes
      rw [← length_utf8, ← hbytes] at hpos
      exact Nat.lt_irrefl 0 hpos
    rw [itemsFrom]
    cases hitem : p.item? c.line c.position with
    | none =>
      -- the call goes on after the piece as a call from there would
      rw [hitem] at hround
      exact (ih hend).of_next_eq (next_of_skipped hlt hround (Nat.lt_add_of_pos_right hpos))
        (by simp)
    | some item =>
      rw [hitem] at hround
      exact .cons (next_of_item hlt hround) (ih hend)

end Cursor

theorem exists_piece_of_mem_itemsFrom {item : Item} {line offset : Nat} {ps : List Piece}
    (h : item ∈ itemsFrom line offset ps) :
    ∃ p ∈ ps, ∃ line' offset', p.item? line' offset' = some item := by
  induction ps generalizing line offset with
  | nil => cases h
  | cons p ps ih =>
    rcases List.mem_append.mp h with hitem | hrest
    · exact ⟨p, List.mem_cons_self, line, offset, Option.mem_toList.mp hitem⟩
    · obtain ⟨q, hq, hitem⟩ := ih hrest
      exact ⟨q, List.mem_cons_of_mem _ hq, hitem⟩

theorem Tiled.exists_tile {text : List Char} {p : Piece} {ps : List Piece} (h : Tiled text ps)
    (hp : p ∈ ps) : ∃ text', Tile text' p := by
  induction h with
  | nil => cases hp
  | cons htile _ ih =>
    rcases List.mem_cons.mp hp with rfl | hp
    · exact ⟨_, htile⟩
    · exact ih hp

theorem items_ne_eof {source : String} {t : Token} (h : .token t ∈ items source) :
    t.kind ≠ .endOfFile := by
  obtain ⟨p, hp, line, offset, hitem⟩ := exists_piece_of_mem_itemsFrom h
  obtain ⟨text, htile⟩ := (tiled_pieces source.toList).exists_tile hp
  exact kind_ne_endOfFile htile hitem

open Cursor

/-- Every source is tiled by its pieces, each the one that may stand where it stands, and in no
other way. A cursor over the bytes of the source cuts them into the bytes of these pieces, and it
gives the items of the pieces, the end, and then nothing. Only the last item is the end. -/
theorem cursor_gives_the_tiling (source : String) :
    (∀ ps, Tiled source.toList ps ↔ ps = pieces source.toList) ∧
      (∃ last, Rounds source.toUTF8.data.toList .initial (pieces source.toList) last ∧
        last.position = source.toUTF8.data.toList.length) ∧
      (∃ last, Yields source.toUTF8.data.toList .initial (listing source) last ∧
        last.next source.toUTF8.data.toList = .ok (none, last)) ∧
      ∀ t, .token t ∈ items source → t.kind ≠ .endOfFile := by
  have hat : At (utf8 source.toList) Cursor.initial.position source.toList := ⟨[], rfl, rfl⟩
  rw [← utf8_toList]
  obtain ⟨last, hrounds, hlast⟩ := exists_rounds hat
  have hyields := hrounds.yields hlast
  rw [hrounds.line_eq, text_pieces] at hyields
  refine ⟨fun ps => tiled_iff, ⟨last, hrounds, hlast⟩, ⟨last.forward 1, hyields, ?_⟩,
    fun t => items_ne_eof⟩
  rw [next, if_pos (by rw [← hlast]; exact Nat.lt_succ_self _)]

end ScriptLang.Source
