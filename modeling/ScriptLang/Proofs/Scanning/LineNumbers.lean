import ScriptLang.Proofs.Scanning.Sources

namespace ScriptLang.Source

def lineAt (bytes : List UInt8) (offset : Nat) : Nat :=
  1 + (bytes.take offset).count '\n'.toUInt8

/-- An item is on the right line, where `c` is the cursor that it leaves. -/
def Item.OnItsLine (bytes : List UInt8) (c : Cursor) : Item → Prop
  | .token t =>
    if t.kind = .endOfFile then t.line = lineAt bytes bytes.length
    else slice bytes c.start c.position = .ok t.lexeme ∧ t.line = lineAt bytes c.position
  | .error ⟨.unexpected found, line⟩ =>
    slice bytes c.start c.position = .ok (String.singleton found) ∧ line = lineAt bytes c.start
  | .error ⟨.unterminatedString, line⟩ => line = lineAt bytes bytes.length
  | .error ⟨.unterminatedComment offset, line⟩ =>
    offset < bytes.length ∧ line = lineAt bytes offset

section Places

variable {bytes : List UInt8} {before text rest : List Char} {offset : Nat}

theorem lineAt_byteSize (before rest : List Char) :
    lineAt (utf8 (before ++ rest)) (byteSize before) = 1 + newlines before := by
  rw [lineAt, utf8_append, ← length_utf8, List.take_left, count_utf8 (by decide), newlines]

theorem At.lineAt (h : At bytes offset (text ++ rest)) :
    lineAt bytes (offset + byteSize text) = lineAt bytes offset + newlines text := by
  obtain ⟨before, rfl, rfl⟩ := h
  rw [← byteSize_append, ← List.append_assoc, lineAt_byteSize, List.append_assoc, lineAt_byteSize,
    newlines_append, Nat.add_assoc]

end Places

namespace Cursor

variable {bytes : List UInt8} {c c' last : Cursor} {first : Char} {text rest : List Char}
  {p : Piece} {item : Item} {items : List Item}

structure Dated (bytes : List UInt8) (c : Cursor) (rest : List Char) : Prop where
  place : At bytes c.position rest
  line : c.line = lineAt bytes c.position

theorem Dated.across (h : Dated bytes c (p.text ++ rest)) : Dated bytes (c.across p) rest where
  place := h.place.after p.text
  line := by
    have hline := h.place.lineAt
    rw [← h.line] at hline
    exact hline.symm

theorem line_of_openComment {body : List Char} {opener : Nat} (h : Dated bytes c body)
    (hlt : opener < body.length) :
    c.position + byteSize (body.take opener) < bytes.length ∧
      c.line + newlines (body.take opener) =
        lineAt bytes (c.position + byteSize (body.take opener)) := by
  have hat := h.place
  rw [← List.take_append_drop opener body] at hat
  refine ⟨(hat.after _).lt_length_iff.mpr ?_, by rw [hat.lineAt, ← h.line]⟩
  simpa using hlt

theorem onItsLine_of_item? (h : Dated bytes c (p.text ++ rest)) (htile : Tile (p.text ++ rest) p)
    (hitem : p.item? c.line c.position = some item) : item.OnItsLine bytes (c.across p) := by
  have hslice : slice bytes (c.across p).start (c.across p).position = .ok (String.ofList p.text) :=
    h.place.slice
  generalize htext : p.text ++ rest = text at htile
  cases htile with
  | blank | lineComment | blockComment => cases hitem
  | lexeme _ hlongest =>
    cases hitem
    exact (if_neg hlongest.isLexeme.ne_endOfFile).mpr ⟨hslice, h.across.line⟩
  | stray =>
    cases hitem
    exact ⟨hslice, h.line⟩
  | openString =>
    cases hitem
    have hend := h.across.place.length
    rw [List.append_right_eq_self.mp htext] at hend
    change (c.across ⟨.openString, _⟩).line = lineAt bytes bytes.length
    rw [hend]
    exact h.across.line
  | @openComment body _ _ hopen =>
    cases hitem
    rw [htext] at h
    refine line_of_openComment h ?_
    have hlt := hopen.lt_length (by decide)
    simp only [List.length_cons]
    omega

def Ended (bytes : List UInt8) (c : Cursor) : Prop :=
  bytes.length < c.position

/-- A cursor between two pieces gives an item on its line, and stands between two pieces again or
behind the end. -/
theorem next_onItsLine (h : Dated bytes c rest) (hnext : c.next bytes = .ok (some item, c')) :
    item.OnItsLine bytes c' ∧ (Ended bytes c' ∨ ∃ rest', Dated bytes c' rest') := by
  induction hlength : rest.length using Nat.strongRecOn generalizing rest c with
  | ind n ih =>
    cases rest with
    | nil =>
      have hend : c.position = bytes.length := h.place.length.symm
      rw [next, if_neg (Nat.not_lt_of_le (Nat.le_of_eq hend)), if_pos hend] at hnext
      cases hnext
      have hline : c.line = lineAt bytes bytes.length := hend ▸ h.line
      exact ⟨by simpa [Item.OnItsLine] using hline,
        .inl (Nat.lt_succ_of_le (Nat.le_of_eq hend.symm))⟩
    | cons first rest =>
      have hlt : c.position < bytes.length := h.place.lt_length_iff.mpr (List.cons_ne_nil _ _)
      have hround := round_eq h.place
      have hdated := h
      rw [← firstPiece_append] at hdated
      cases hitem : (firstPiece first rest).item? c.line c.position with
      | none =>
        -- the call goes on after a piece that gives nothing
        rw [hitem] at hround
        have hpos : byteSize (firstPiece first rest).text ≠ 0 :=
          byteSize_eq_zero.not.mpr (List.cons_ne_nil _ _)
        have hmove : c.position < (c.across (firstPiece first rest)).position :=
          Nat.lt_add_of_pos_right (Nat.pos_of_ne_zero hpos)
        rw [next_of_skipped hlt hround hmove] at hnext
        refine ih _ ?_ hdated.across hnext rfl
        rw [← hlength, List.length_drop, List.length_cons]
        omega
      | some found =>
        rw [hitem] at hround
        rw [next_of_item hlt hround] at hnext
        cases hnext
        have htile := tile_firstPiece first rest
        rw [← firstPiece_append] at htile
        exact ⟨onItsLine_of_item? hdated htile hitem, .inr ⟨_, hdated.across⟩⟩

theorem next_of_ended (h : Ended bytes c) : c.next bytes = .ok (none, c) := by
  rw [next]
  exact if_pos h

/-- A cursor over the bytes of a source gives the listing of the source, and then nothing. -/
theorem exists_yields_listing (source : String) :
    ∃ last, Yields (utf8 source.toList) .initial (listing source) last ∧
      last.next (utf8 source.toList) = .ok (none, last) := by
  have hat : At (utf8 source.toList) Cursor.initial.position source.toList := ⟨[], rfl, rfl⟩
  obtain ⟨last, hrounds, hlast⟩ := exists_rounds hat
  have hyields := hrounds.yields hlast
  rw [hrounds.line_eq, text_pieces] at hyields
  refine ⟨last.forward 1, hyields, next_of_ended ?_⟩
  rw [Ended, ← hlast]
  exact Nat.lt_succ_self _

/-- Wherever a cursor has come from a place between two pieces, its next item is on its line. -/
theorem Yields.next_onItsLine (h : Yields bytes c items last) (hc : Dated bytes c rest)
    (hnext : last.next bytes = .ok (some item, c')) : item.OnItsLine bytes c' := by
  induction h generalizing rest with
  | nil => exact (Cursor.next_onItsLine hc hnext).1
  | cons hitem hrest ih =>
    rcases (Cursor.next_onItsLine hc hitem).2 with hended | ⟨rest', hdated⟩
    · cases hrest with
      | nil => simp [next_of_ended hended] at hnext
      | cons hagain _ => simp [next_of_ended hended] at hagain
    · exact ih hdated hnext

end Cursor

section Order

def Item.line : Item → Nat
  | .token t => t.line
  | .error e => e.line

theorem line_of_item? {p : Piece} {line offset : Nat} {item : Item}
    (h : p.item? line offset = some item) :
    line ≤ item.line ∧ item.line ≤ line + newlines p.text := by
  unfold Piece.item? at h
  split at h
  · cases h
  · cases h
  · cases h
  · cases h
    exact ⟨Nat.le_add_right _ _, Nat.le_refl _⟩
  · obtain ⟨found, -, rfl⟩ := Option.map_eq_some_iff.mp h
    exact ⟨Nat.le_refl _, Nat.le_add_right _ _⟩
  · cases h
    exact ⟨Nat.le_add_right _ _, Nat.le_refl _⟩
  · next opener _ =>
    cases h
    have hbefore : newlines (p.text.take opener) ≤ newlines p.text :=
      (List.take_sublist _ _).count_le _
    exact ⟨Nat.le_add_right _ _, Nat.add_le_add_left hbefore line⟩

/-- The items of pieces come line after line, none before the line that the pieces start on and
none after the line that they end on. -/
theorem lines_itemsFrom (line offset : Nat) (ps : List Piece) :
    (itemsFrom line offset ps).Pairwise (fun i j => i.line ≤ j.line) ∧
      ∀ i ∈ itemsFrom line offset ps,
        line ≤ i.line ∧ i.line ≤ line + newlines (ps.flatMap Piece.text) := by
  induction ps generalizing line offset with
  | nil => exact ⟨.nil, fun _ h => by cases h⟩
  | cons p ps ih =>
    obtain ⟨hsorted, hbounds⟩ := ih (line + newlines p.text) (offset + byteSize p.text)
    have hall : newlines ((p :: ps).flatMap Piece.text) =
        newlines p.text + newlines (ps.flatMap Piece.text) := by
      rw [List.flatMap_cons, newlines_append]
    have hlater : ∀ i ∈ itemsFrom (line + newlines p.text) (offset + byteSize p.text) ps,
        line ≤ i.line ∧ i.line ≤ line + newlines ((p :: ps).flatMap Piece.text) := by
      intro i hi
      have hbound := hbounds i hi
      omega
    rw [itemsFrom]
    cases hitem : p.item? line offset with
    | none => exact ⟨hsorted, hlater⟩
    | some item =>
      have hline := line_of_item? hitem
      refine ⟨List.pairwise_cons.mpr ⟨fun i hi => ?_, hsorted⟩,
        List.forall_mem_cons.mpr ⟨?_, hlater⟩⟩
      · have hbound := hbounds i hi
        omega
      · omega

theorem lines_items (source : String) :
    (listing source).Pairwise (fun i j => i.line ≤ j.line) := by
  obtain ⟨hsorted, hbounds⟩ := lines_itemsFrom 1 0 (pieces source.toList)
  rw [text_pieces] at hbounds
  refine List.pairwise_append.mpr ⟨hsorted, List.pairwise_singleton _ _, fun i hi j hj => ?_⟩
  obtain rfl := List.mem_singleton.mp hj
  exact (hbounds i hi).2

theorem lines_listing (source : String) :
    ((listing source).filterMap Item.token?).Pairwise (fun s t => s.line ≤ t.line) := by
  refine (lines_items source).filterMap _ fun i j hij s hs t ht => ?_
  cases i with
  | error e => cases hs
  | token s' =>
    cases j with
    | error e => cases ht
    | token t' =>
      cases hs
      cases ht
      exact hij

end Order

open Cursor

/-- A cursor over the bytes of a source gives the items of the source and its end, however many of
them have been asked for, and each of them is on its line. The lines of tokens never decrease. -/
theorem items_are_on_their_lines (source : String) :
    (∃ last, Yields source.toUTF8.data.toList .initial (listing source) last ∧
        last.next source.toUTF8.data.toList = .ok (none, last)) ∧
      (∀ items c item c', Yields source.toUTF8.data.toList .initial items c →
        c.next source.toUTF8.data.toList = .ok (some item, c') →
        item.OnItsLine source.toUTF8.data.toList c') ∧
      ((listing source).filterMap Item.token?).Pairwise fun s t => s.line ≤ t.line := by
  rw [← utf8_toList]
  refine ⟨exists_yields_listing source, fun items c item c' hitems hnext => ?_,
    lines_listing source⟩
  have hinitial : Dated (utf8 source.toList) .initial source.toList := ⟨⟨[], rfl, rfl⟩, rfl⟩
  exact hitems.next_onItsLine hinitial hnext

end ScriptLang.Source
