import ScriptLang.Proofs.Scanning.LineNumbers

namespace ScriptLang.Source

open Cursor

theorem byteSize_toList (source : String) : byteSize source.toList = source.utf8ByteSize := by
  rw [← length_utf8, utf8_toList]
  rfl

/-- The items of two sources with a line break between them are those of the first and then those of
the second, on lines further down by the line breaks before them and with offsets further on by the
bytes before them. A cursor over the bytes of the whole gives the same. -/
theorem scanning_is_compositional {a b : String} (h : ∀ e ∈ errors a, e.fault.isOpen = false) :
    listing (a ++ "\n" ++ b) = items a ++
        (listing b).map (Item.moved (newlines a.toList + 1) (a.utf8ByteSize + 1)) ∧
      ∃ last, Yields (a ++ "\n" ++ b).toUTF8.data.toList .initial
          (items a ++ (listing b).map (Item.moved (newlines a.toList + 1) (a.utf8ByteSize + 1)))
          last ∧
        last.next (a ++ "\n" ++ b).toUTF8.data.toList = .ok (none, last) := by
  have heof : Item.token (eof (a ++ "\n" ++ b)) =
      (Item.token (eof b)).moved (newlines a.toList + 1) (a.utf8ByteSize + 1) := by
    simp only [Item.moved, Token.moved, eof, String.toList_append, newlines_append]
    have hline : newlines "\n".toList = 1 := rfl
    rw [hline, Nat.add_right_comm 1, Nat.add_assoc 1]
  have hlisting : listing (a ++ "\n" ++ b) = items a ++
      (listing b).map (Item.moved (newlines a.toList + 1) (a.utf8ByteSize + 1)) := by
    rw [listing, listing, items_joined h, heof, byteSize_toList, List.map_append, List.append_assoc]
    rfl
  refine ⟨hlisting, ?_⟩
  rw [← hlisting, ← utf8_toList]
  exact exists_yields_listing _

theorem bang_stays_before_break :
    let a := "@1.\n!"
    let b := "= /* /* */"
    (∀ e ∈ errors a, e.fault.isOpen = false) ∧
      (listing (a ++ "\n" ++ b)).filterMap Item.error? =
        [⟨.unexpected '@', 1⟩, ⟨.unterminatedComment 8, 3⟩] ∧
      ((listing (a ++ "\n" ++ b)).filterMap Item.token?).map (fun t => (t.lexeme, t.line)) =
        [("1", 1), (".", 1), ("!", 2), ("=", 3), ("", 3)] := by
  intro a b
  have hopen : ∀ e ∈ errors a, e.fault.isOpen = false := by decide +kernel
  obtain ⟨hlisting, -⟩ := scanning_is_compositional (b := b) hopen
  rw [hlisting]
  exact ⟨hopen, by decide +kernel, by decide +kernel⟩

end ScriptLang.Source
