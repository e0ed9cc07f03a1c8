import ScriptLang.Source.Comment
import Mathlib.Data.List.Basic

namespace ScriptLang.Source.Comment

/-- A comment with the text `body` after its opening mark ends where `rest` begins. -/
inductive Closes : List Char → List Char → Prop where
  | mark {rest : List Char} : Closes ('*' :: '/' :: rest) rest
  | nested {body middle rest : List Char} :
    Closes body middle → Closes middle rest → Closes ('/' :: '*' :: body) rest
  | other {c : Char} {body rest : List Char} :
    ¬ ['*', '/'] <+: c :: body → ¬ ['/', '*'] <+: c :: body →
    Closes body rest → Closes (c :: body) rest

/-- A comment that opened after `opener` characters and of which `read` are read has `body` left and
does not close there. The innermost opener left open stands after `innermost` characters. -/
inductive Unclosed : (opener read : Nat) → List Char → (innermost : Nat) → Prop where
  | finish {opener read : Nat} : Unclosed opener read [] opener
  | other {opener read innermost : Nat} {c : Char} {body : List Char} :
    ¬ ['*', '/'] <+: c :: body → ¬ ['/', '*'] <+: c :: body →
    Unclosed opener (read + 1) body innermost → Unclosed opener read (c :: body) innermost
  | after {opener read innermost : Nat} {body middle : List Char} :
    Closes body middle →
    Unclosed opener (read + 2 + (body.length - middle.length)) middle innermost →
    Unclosed opener read ('/' :: '*' :: body) innermost
  | inside {opener read innermost : Nat} {body : List Char} :
    Unclosed read (read + 2) body innermost → Unclosed opener read ('/' :: '*' :: body) innermost

variable {body rest : List Char}

theorem Closes.isSuffix (h : Closes body rest) : rest <:+ body := by
  induction h with
  | mark => exact ⟨['*', '/'], rfl⟩
  | nested _ _ ih ih' => exact (ih'.trans ih).trans ⟨['/', '*'], rfl⟩
  | other _ _ _ ih => exact ih.trans (List.suffix_cons _ _)

theorem Closes.length_lt (h : Closes body rest) : rest.length < body.length := by
  induction h with
  | mark => exact Nat.lt_add_of_pos_right (Nat.succ_pos 1)
  | nested _ _ ih ih' =>
    simp only [List.length_cons]
    omega
  | other _ _ _ ih => exact Nat.lt_succ_of_lt ih

/-- A comment closes in front of any text where it closes in front of nothing more. -/
theorem Closes.append (h : Closes body rest) (more : List Char) :
    Closes (body ++ more) (rest ++ more) := by
  induction h with
  | mark => exact .mark
  | nested _ _ ih ih' => exact .nested ih ih'
  | other hclose hopen h ih =>
    -- the comment goes on, so two characters tell whether a mark begins here
    have hlt := h.length_lt
    obtain ⟨d, body, rfl⟩ := List.exists_cons_of_length_pos (Nat.zero_lt_of_lt hlt)
    refine .other (fun hmark => hclose ?_) (fun hmark => hopen ?_) ih
    all_goals simpa using hmark

theorem extentFrom_other {inner read : Nat} {outer : List Nat} {c : Char}
    (hclose : ¬ ['*', '/'] <+: c :: body) (hopen : ¬ ['/', '*'] <+: c :: body) :
    extentFrom (inner :: outer) read (c :: body) = extentFrom (inner :: outer) (read + 1) body := by
  rw [extentFrom]
  · rintro rest rfl rfl
    exact hclose ⟨rest, rfl⟩
  · rintro rest rfl rfl
    exact hopen ⟨rest, rfl⟩

theorem extentFrom_of_closes (h : Closes body rest) (inner : Nat) (outer : List Nat) (read : Nat) :
    extentFrom (inner :: outer) read body =
      extentFrom outer (read + (body.length - rest.length)) rest := by
  induction h generalizing inner outer read with
  | mark =>
    rw [extentFrom, List.length_cons, List.length_cons, Nat.add_assoc, Nat.add_sub_cancel_left]
  | nested h h' ih ih' =>
    have hlt := h.length_lt
    have hlt' := h'.length_lt
    rw [extentFrom, ih, ih']
    congr 1
    simp only [List.length_cons]
    omega
  | other hclose hopen h ih =>
    have hlt := h.length_lt
    rw [extentFrom_other hclose hopen, ih]
    congr 1
    simp only [List.length_cons]
    omega

theorem extentFrom_of_unclosed {opener read innermost : Nat}
    (h : Unclosed opener read body innermost) (outer : List Nat) :
    extentFrom (opener :: outer) read body = .unclosed innermost := by
  induction h generalizing outer with
  | finish => rfl
  | other hclose hopen _ ih => rw [extentFrom_other hclose hopen, ih]
  | after hcloses _ ih => rw [extentFrom, extentFrom_of_closes hcloses, ih]
  | inside _ ih => rw [extentFrom, ih]

theorem extent_of_closes (h : Closes body rest) :
    extent body = .closed (body.length - rest.length + 2) := by
  rw [extent, extentFrom_of_closes h, extentFrom, Nat.add_comm]

theorem extent_of_unclosed {innermost : Nat} (h : Unclosed 0 2 body innermost) :
    extent body = .unclosed innermost :=
  extentFrom_of_unclosed h []

theorem Unclosed.not_closes {opener read innermost : Nat}
    (h : Unclosed opener read body innermost) : ¬ Closes body rest := by
  intro hcloses
  have hclosed := extentFrom_of_closes hcloses opener [] read
  rw [extentFrom_of_unclosed h, extentFrom] at hclosed
  cases hclosed

theorem Unclosed.lt_length {opener read innermost : Nat}
    (h : Unclosed opener read body innermost) (hopener : opener < read) :
    innermost < read + body.length := by
  induction h with
  | finish => exact hopener
  | other _ _ _ ih =>
    have hlt := ih (Nat.lt_succ_of_lt hopener)
    simp only [List.length_cons]
    omega
  | after hcloses _ ih =>
    have hlt := ih (by omega)
    have hcloses := hcloses.length_lt
    simp only [List.length_cons]
    omega
  | inside _ ih =>
    have hlt := ih (by omega)
    simp only [List.length_cons]
    omega

theorem closes_or_unclosed (body : List Char) :
    (∃ rest, Closes body rest) ∨
      ∀ opener read, ∃ innermost, Unclosed opener read body innermost := by
  induction hlength : body.length using Nat.strongRecOn generalizing body with
  | ind n ih =>
    subst hlength
    match body with
    | [] => exact .inr fun opener read => ⟨opener, .finish⟩
    | c :: body =>
      by_cases hclose : ['*', '/'] <+: c :: body
      · obtain ⟨rest, hrest⟩ := hclose
        exact .inl ⟨rest, hrest ▸ .mark⟩
      by_cases hopen : ['/', '*'] <+: c :: body
      · obtain ⟨inner, rfl⟩ := List.cons_prefix_cons.mp hopen |>.2
        obtain rfl := (List.cons_prefix_cons.mp hopen).1
        have hinner : inner.length < ('/' :: (['*'] ++ inner)).length := by
          simp only [List.length_cons, List.length_append]
          omega
        rcases ih inner.length hinner inner rfl with ⟨middle, hmiddle⟩ | hinside
        · have hlt := Nat.lt_trans hmiddle.length_lt hinner
          rcases ih middle.length hlt middle rfl with ⟨rest, hrest⟩ | hafter
          · exact .inl ⟨rest, .nested hmiddle hrest⟩
          · refine .inr fun opener read => ?_
            obtain ⟨innermost, h⟩ := hafter opener (read + 2 + (inner.length - middle.length))
            exact ⟨innermost, .after hmiddle h⟩
        · refine .inr fun opener read => ?_
          obtain ⟨innermost, h⟩ := hinside read (read + 2)
          exact ⟨innermost, .inside h⟩
      · rcases ih body.length (Nat.lt_succ_self _) body rfl with ⟨rest, hrest⟩ | hopens
        · exact .inl ⟨rest, .other hclose hopen hrest⟩
        · refine .inr fun opener read => ?_
          obtain ⟨innermost, h⟩ := hopens opener (read + 1)
          exact ⟨innermost, .other hclose hopen h⟩

end ScriptLang.Source.Comment
