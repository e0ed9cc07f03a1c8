import ScriptLang.Session.Interactive

namespace ScriptLang.Session

def trimmed (line : List UInt8) : List UInt8 :=
  if line.getLast? = some 13 then line.dropLast else line

def linesOf (pieces : List (List UInt8)) : List (List UInt8) :=
  pieces.dropLast.map trimmed ++ pieces.getLast?.toList.filter (!·.isEmpty)

theorem linesOf_cons {piece : List UInt8} {pieces : List (List UInt8)} (h : pieces ≠ []) :
    linesOf (piece :: pieces) = trimmed piece :: linesOf pieces := by
  unfold linesOf
  rw [List.dropLast_cons_of_ne_nil h, List.getLast?_cons_of_ne_nil h]
  rfl

theorem withoutReturn_reverse (line : List UInt8) :
    (withoutReturn line).reverse = trimmed line.reverse := by
  unfold trimmed
  rw [List.getLast?_reverse, List.dropLast_reverse]
  cases line with
  | nil => rfl
  | cons b line =>
    by_cases hb : b = 13
    · subst hb
      rfl
    · simp [withoutReturn, hb]

theorem modifyHead_nil_append (pieces : List (List UInt8)) :
    pieces.modifyHead (([] : List UInt8) ++ ·) = pieces := by
  cases pieces <;> rfl

theorem linesFrom_eq (line input : List UInt8) :
    linesFrom line input = linesOf ((input.splitOn 10).modifyHead (line.reverse ++ ·)) := by
  induction input generalizing line with
  | nil =>
    cases line with
    | nil => rfl
    | cons b line => simp [linesFrom, linesOf]
  | cons b rest ih =>
    have hne : rest.splitOn 10 ≠ [] := List.splitOnP_ne_nil _ _
    by_cases hb : b = 10
    · subst hb
      have hsplit : List.splitOn (10 : UInt8) (10 :: rest) = [] :: rest.splitOn 10 := by
        simp [List.splitOn, List.splitOnP_cons_eq_if_modifyHead]
      have hrest : linesFrom [] rest = linesOf (rest.splitOn 10) := by
        rw [ih, List.reverse_nil, modifyHead_nil_append]
      rw [linesFrom, hsplit, List.modifyHead_cons, linesOf_cons hne, hrest, List.append_nil,
        withoutReturn_reverse]
    · have hsplit : List.splitOn (10 : UInt8) (b :: rest) =
          (rest.splitOn 10).modifyHead (List.cons b) := by
        simp [List.splitOn, List.splitOnP_cons_eq_if_modifyHead, hb]
      have hline : linesFrom line (b :: rest) = linesFrom (b :: line) rest := by
        rw [linesFrom]
        exact hb
      rw [hline, ih, hsplit, List.modifyHead_modifyHead]
      congr 2
      funext piece
      simp

theorem lines_eq (input : List UInt8) : lines input = linesOf (input.splitOn 10) := by
  rw [lines, linesFrom_eq, List.reverse_nil, modifyHead_nil_append]

/-- The texts of the lines before the first one that is not text. -/
def texts : List (List UInt8) → List String
  | [] => []
  | line :: rest =>
    match decode? line with
    | some source => source :: texts rest
    | none => []

/-- A line that is not run stands at or behind one that is not text. -/
theorem texts_prefix (ls : List (List UInt8)) :
    ∃ rest, ls.map decode? = (texts ls).map some ++ rest ∧ ∀ o ∈ rest.head?, o = none := by
  induction ls with
  | nil => exact ⟨[], rfl, by simp⟩
  | cons line ls ih =>
    rw [List.map_cons, texts]
    cases decode? line with
    | none => exact ⟨none :: ls.map decode?, rfl, by simp⟩
    | some source =>
      obtain ⟨rest, hrest, hnone⟩ := ih
      exact ⟨rest, congrArg (List.cons _) hrest, hnone⟩

end ScriptLang.Session
