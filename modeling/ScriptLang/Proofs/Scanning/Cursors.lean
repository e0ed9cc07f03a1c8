import ScriptLang.Proofs.Scanning.Encoding
import ScriptLang.Proofs.Scanning.Tiling

namespace ScriptLang.Source.Cursor

/-- The cursor after some text. -/
def past (c : Cursor) (text : List Char) : Cursor :=
  { c with position := c.position + byteSize text, line := c.line + newlines text }

section Moves

variable {bytes : List UInt8} {c : Cursor} {a b : Char} {text rest : List Char}

@[simp] theorem past_start : (c.past text).start = c.start := rfl

@[simp] theorem past_position : (c.past text).position = c.position + byteSize text := rfl

@[simp] theorem past_nil : c.past [] = c := rfl

@[simp] theorem past_past (text rest : List Char) :
    (c.past text).past rest = c.past (text ++ rest) := by
  simp [past, byteSize_append, newlines_append, Nat.add_assoc]

theorem forward_one (ha : isAscii a) (hbreak : a ≠ '\n') : c.forward 1 = c.past [a] := by
  simp [forward, past, byteSize_singleton ha, newlines, hbreak]

theorem step_eq (h : At bytes c.position (a :: rest)) (ha : isAscii a) :
    c.step bytes = c.past [a] := by
  have hahead : c.ahead bytes 0 = a := by
    rw [ahead, h.getElem?]
    exact front_of_isAscii ha
  by_cases hbreak : a = '\n'
  · subst hbreak
    simp only [step, hahead]
    rfl
  · simp only [step, hahead, hbreak, if_false]
    exact forward_one (c := c) ha hbreak

theorem step_of_not_isAscii (h : ¬ isAscii (c.ahead bytes 0)) : c.step bytes = c.forward 1 := by
  have hbreak : c.ahead bytes 0 ≠ '\n' := fun hbreak => h (hbreak ▸ by decide)
  simp only [step, hbreak, if_false]
  rfl

theorem forward_two (ha : isAscii a) (hb : isAscii b) (hbreak : a ≠ '\n') (hbreak' : b ≠ '\n') :
    c.forward 2 = c.past [a, b] := by
  have htwo : c.forward 2 = (c.forward 1).forward 1 := rfl
  rw [htwo, forward_one (c := c) ha hbreak, forward_one (c := c.past [a]) hb hbreak', past_past]
  rfl

theorem ahead_zero (h : At bytes c.position rest) : c.ahead bytes 0 = front rest := by
  rw [ahead, h.getElem?]
  rfl

theorem ahead_one (h : At bytes c.position (a :: rest)) (ha : isAscii a) :
    c.ahead bytes 1 = front rest := by
  rw [ahead, h.getElem?, utf8_cons_of_isAscii ha]
  rfl

theorem ahead_two_iff (h : At bytes c.position rest) (ha : IsMark a) (hb : IsMark b) :
    c.ahead bytes 0 = a ∧ c.ahead bytes 1 = b ↔ [a, b] <+: rest := by
  rw [ahead_zero h, front_eq_iff ha]
  constructor
  · rintro ⟨⟨more, rfl⟩, hone⟩
    rw [ahead_one h ha.1, front_eq_iff hb] at hone
    exact List.cons_prefix_cons.mpr ⟨rfl, hone⟩
  · rintro ⟨more, rfl⟩
    refine ⟨⟨b :: more, rfl⟩, ?_⟩
    rw [ahead_one h ha.1, front_eq_iff hb]
    exact ⟨more, rfl⟩

theorem eat_of_isPrefix (h : At bytes c.position rest) (ha : IsMark a) (hrest : [a] <+: rest) :
    c.eat bytes a = (true, c.forward 1) := by
  have hlt := h.lt_length_iff.mpr fun hnil => by simp [hnil] at hrest
  rw [eat, if_pos ⟨hlt, by rwa [ahead_zero h, front_eq_iff ha]⟩]

theorem eat_of_not_isPrefix (h : At bytes c.position rest) (ha : IsMark a)
    (hrest : ¬ [a] <+: rest) :
    c.eat bytes a = (false, c) := by
  rw [eat, if_neg]
  rw [ahead_zero h, front_eq_iff ha]
  exact fun hmark => hrest hmark.2

/-- A character beyond ASCII is read to its end by a loop that its bytes do not stop. -/
theorem pass_character {α : Type} (loop : Cursor → α)
    (hloop : ∀ c : Cursor, c.position < bytes.length → ¬ isAscii (c.ahead bytes 0) →
      loop c = loop (c.forward 1))
    (h : At bytes c.position (a :: rest)) (ha : ¬ isAscii a) : loop c = loop (c.past [a]) := by
  -- each of its bytes takes one round of the loop
  have hbytes : ∀ n ≤ (String.utf8EncodeChar a).length, loop c = loop (c.forward n) := by
    intro n hn
    induction n with
    | zero => rfl
    | succ n ih =>
      have hbyte : bytes[c.position + n]? = some (String.utf8EncodeChar a)[n] := by
        rw [h.getElem?, utf8_cons, List.getElem?_append_left hn, List.getElem?_eq_getElem]
      have hahead : ¬ isAscii ((c.forward n).ahead bytes 0) := by
        rw [ahead, Nat.add_zero, forward, hbyte]
        exact not_isAscii_of_mem_utf8EncodeChar ha (List.getElem_mem hn)
      rw [ih (Nat.le_of_succ_le hn), hloop _ (List.getElem?_eq_some_iff.mp hbyte).1 hahead]
      rfl
  have hbreak : newlines [a] = 0 := by
    have hne : a ≠ '\n' := fun hbreak => ha (hbreak ▸ by decide)
    simp [newlines, hne]
  rw [hbytes _ (Nat.le_refl _), forward, past, hbreak, String.length_utf8EncodeChar]
  rfl

end Moves

section Loops

variable {bytes : List UInt8} {c : Cursor} {a : Char} {rest : List Char}

theorem skip_eq {p : Char → Bool} (hp : p (Char.ofUInt8 0) = false)
    (hascii : ∀ a, p a → isAscii a) (hbreak : p '\n' = false) (h : At bytes c.position rest) :
    skip bytes p hp c = c.past (rest.takeWhile p) := by
  induction rest generalizing c with
  | nil =>
    rw [skip, ahead_zero h, if_neg (by simpa [front, utf8] using hp)]
    rfl
  | cons a rest ih =>
    by_cases ha : p a
    · have hne : a ≠ '\n' := by
        rintro rfl
        simp [hbreak] at ha
      rw [skip, ahead_zero h, front_of_isAscii (hascii a ha), if_pos ha,
        forward_one (hascii a ha) hne, ih (h.after [a]), past_past,
        List.takeWhile_cons_of_pos ha]
      rfl
    · have hfront : ¬ p (front (a :: rest)) := by
        by_cases hmem : isAscii a
        · rwa [front_of_isAscii hmem]
        · exact fun hfront => not_isAscii_front hmem (hascii _ hfront)
      rw [skip, ahead_zero h, if_neg hfront, List.takeWhile_cons_of_neg ha, past_nil]

theorem toLineEnd_eq (h : At bytes c.position rest) :
    c.toLineEnd bytes = .ok (c.past (rest.takeWhile (· ≠ '\n'))) := by
  have hlines : newlines (rest.takeWhile (· ≠ '\n')) = 0 := by
    refine List.count_eq_zero.mpr fun hmem => ?_
    simpa using List.mem_takeWhile_imp hmem
  rw [toLineEnd, if_pos (by rw [h.length]; exact Nat.le_add_right _ _), h.drop,
    idxOf_utf8 (by decide), past, hlines]
  rfl

theorem toQuote_eq (h : At bytes c.position rest) :
    c.toQuote bytes = c.past (rest.takeWhile (· ≠ '"')) := by
  induction rest generalizing c with
  | nil =>
    rw [toQuote, if_neg fun hlt => h.lt_length_iff.mp hlt.1 rfl]
    rfl
  | cons a rest ih =>
    have hlt := h.lt_length_iff.mpr (List.cons_ne_nil _ _)
    by_cases ha : isAscii a
    · by_cases hquote : a = '"'
      · subst hquote
        rw [toQuote, if_neg fun hmark => hmark.2 (by rw [ahead_zero h, front_of_isAscii ha])]
        rfl
      · rw [toQuote, ahead_zero h, front_of_isAscii ha, if_pos ⟨hlt, hquote⟩, step_eq h ha,
          ih (h.after [a]), past_past, List.takeWhile_cons_of_pos (by simpa using hquote)]
        rfl
    · have hquote : a ≠ '"' := fun hquote => ha (hquote ▸ by decide)
      have hpass : c.toQuote bytes = (c.past [a]).toQuote bytes := by
        refine pass_character (toQuote bytes) (fun c hc hahead => ?_) h ha
        rw [toQuote, if_pos ⟨hc, fun hmark => hahead (hmark ▸ by decide)⟩,
          step_of_not_isAscii hahead]
      rw [hpass, ih (h.after [a]), past_past,
        List.takeWhile_cons_of_pos (by simpa using hquote)]
      rfl

def marker (origin : Cursor) (text : List Char) (read : Nat) : Nat × Nat :=
  ((origin.past (text.take read)).line, (origin.past (text.take read)).position)

/-- What is left open after a comment, and where its end leaves the cursor. -/
def Ends (origin : Cursor) (text : List Char) (result : List (Nat × Nat) × Cursor) :
    Comment.Extent → Prop
  | .closed length => result = ([], origin.past (text.take length))
  | .unclosed opener => ∃ outer, result = (marker origin text opener :: outer, origin.past text)

section CommentSteps

variable {m : Nat × Nat} {ms : List (Nat × Nat)}

theorem comment_close (h : At bytes c.position ('*' :: '/' :: rest)) :
    c.comment bytes (m :: ms) = (c.past ['*', '/']).comment bytes ms := by
  have hmark := (ahead_two_iff h (a := '*') (b := '/') (by decide) (by decide)).mpr ⟨rest, rfl⟩
  rw [comment, if_pos (h.lt_length_iff.mpr (List.cons_ne_nil _ _)), if_pos hmark,
    forward_two (a := '*') (b := '/') (by decide) (by decide) (by decide) (by decide)]

theorem comment_open (h : At bytes c.position ('/' :: '*' :: rest)) :
    c.comment bytes (m :: ms) =
      (c.past ['/', '*']).comment bytes ((c.line, c.position) :: m :: ms) := by
  have hmark := (ahead_two_iff h (a := '/') (b := '*') (by decide) (by decide)).mpr ⟨rest, rfl⟩
  have hclose : ¬ (c.ahead bytes 0 = '*' ∧ c.ahead bytes 1 = '/') := by
    rw [hmark.1, hmark.2]
    decide
  rw [comment, if_pos (h.lt_length_iff.mpr (List.cons_ne_nil _ _)), if_neg hclose, if_pos hmark,
    forward_two (a := '/') (b := '*') (by decide) (by decide) (by decide) (by decide)]

theorem comment_other (h : At bytes c.position (a :: rest)) (hclose : ¬ ['*', '/'] <+: a :: rest)
    (hopen : ¬ ['/', '*'] <+: a :: rest) :
    c.comment bytes (m :: ms) = (c.past [a]).comment bytes (m :: ms) := by
  by_cases ha : isAscii a
  · rw [comment, if_pos (h.lt_length_iff.mpr (List.cons_ne_nil _ _)),
      if_neg ((ahead_two_iff h (by decide) (by decide)).not.mpr hclose),
      if_neg ((ahead_two_iff h (by decide) (by decide)).not.mpr hopen), step_eq h ha]
  · refine pass_character (comment bytes (m :: ms)) (fun c hc hahead => ?_) h ha
    have hmark : ∀ a b, isAscii a → ¬ (c.ahead bytes 0 = a ∧ c.ahead bytes 1 = b) :=
      fun a b ha hmark => hahead (hmark.1 ▸ ha)
    rw [comment, if_pos hc, if_neg (hmark '*' '/' (by decide)), if_neg (hmark '/' '*' (by decide)),
      step_of_not_isAscii hahead]

end CommentSteps

/-- Reading a comment by its bytes leaves open what reading it by its characters does. -/
theorem ends_comment {origin : Cursor} {text seen rest : List Char} (openers : List Nat)
    (h : At bytes origin.position text) (htext : text = seen ++ rest) :
    Ends origin text ((origin.past seen).comment bytes (openers.map (marker origin text)))
      (Comment.extentFrom openers seen.length rest) := by
  -- along the reader of characters: the cursor has passed `seen`, and an opener is its marker
  generalize hread : seen.length = read
  fun_induction Comment.extentFrom openers read rest generalizing seen with
  | case1 rest read =>
    rw [List.map_nil, comment, Ends, ← hread, htext, List.take_left]
  | case2 inner outer read rest ih =>
    have hat : At bytes (origin.past seen).position ('*' :: '/' :: rest) :=
      At.after seen (htext ▸ h)
    rw [List.map_cons, comment_close hat, past_past]
    exact ih (by simp [htext]) (by simp [hread])
  | case3 inner outer read rest ih =>
    have hat : At bytes (origin.past seen).position ('/' :: '*' :: rest) :=
      At.after seen (htext ▸ h)
    have hmarker : marker origin text read =
        ((origin.past seen).line, (origin.past seen).position) := by
      rw [marker, ← hread, htext, List.take_left]
    have hrest := @ih (seen ++ ['/', '*']) (by simp [htext]) (by simp [hread])
    rwa [List.map_cons, List.map_cons, hmarker, ← past_past, ← comment_open hat] at hrest
  | case4 inner outer read a rest hclose hopen ih =>
    have hat : At bytes (origin.past seen).position (a :: rest) := At.after seen (htext ▸ h)
    rw [List.map_cons, comment_other hat, past_past]
    · exact ih (by simp [htext]) (by simp [hread])
    · rintro ⟨more, hmore⟩
      cases hmore
      exact hclose more rfl rfl
    · rintro ⟨more, hmore⟩
      cases hmore
      exact hopen more rfl rfl
  | case5 inner outer read =>
    have hat : At bytes (origin.past seen).position [] := At.after seen (htext ▸ h)
    rw [List.append_nil] at htext
    rw [List.map_cons, comment, if_neg fun hlt => hat.lt_length_iff.mp hlt rfl, htext]
    exact ⟨_, rfl⟩

end Loops

end ScriptLang.Source.Cursor
