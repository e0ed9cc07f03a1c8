import ScriptLang.Proofs.Numerals.ReadingBack
import ScriptLang.Proofs.Printing.Bracketed
import ScriptLang.Proofs.Printing.Leaves

namespace ScriptLang

open Source Number

section Kinds

variable {text text' : List Char} {kind kind' : Kind}

theorem Source.Lexeme.kind_eq (h : Lexeme text kind) (h' : Lexeme text kind') : kind = kind' := by
  have hpieces := (pieces_of_lexeme h).symm.trans (pieces_of_lexeme h')
  cases hpieces
  rfl

theorem lexeme_word (first : Char) (others : List Char)
    (h : (startsName first && others.all continuesName) = true) :
    Lexeme (first :: others)
      ((Kind.reserved.lookup (String.ofList (first :: others))).getD .identifier) := by
  rw [Bool.and_eq_true, List.all_eq_true] at h
  exact .name h.1 h.2

def Kind.varies : Kind → Bool
  | .identifier => true
  | .string _ => true
  | .number _ => true
  | _ => false

def fixedTexts : List (List Char × Kind) :=
  operators ++ Kind.reserved.map fun p => (p.1.toList, p.2)

theorem Source.Lexeme.mem_fixedTexts (h : Lexeme text kind) (hkind : kind.varies = false) :
    (text, kind) ∈ fixedTexts := by
  cases h with
  | operator hmem => exact List.mem_append_left _ hmem
  | @name first others =>
    generalize hword : String.ofList (first :: others) = word at hkind
    have htext : first :: others = word.toList := by rw [← hword, String.toList_ofList]
    cases hlookup : Kind.reserved.lookup word with
    | none => simp [hlookup, Kind.varies] at hkind
    | some kind =>
      obtain ⟨before, after, hreserved, -⟩ := List.lookup_eq_some_iff.mp hlookup
      rw [htext]
      exact List.mem_append_right _ (List.mem_map.mpr ⟨(word, kind), by simp [hreserved], rfl⟩)
  | _ => cases hkind

theorem fixedTexts_functional : ∀ p ∈ fixedTexts, ∀ q ∈ fixedTexts, p.2 = q.2 → p.1 = q.1 := by
  decide

theorem Source.Lexeme.text_eq (h : Lexeme text kind) (h' : Lexeme text' kind)
    (hkind : kind.varies = false) : text = text' :=
  fixedTexts_functional _ (h.mem_fixedTexts hkind) _ (h'.mem_fixedTexts hkind) rfl

end Kinds

namespace Bracketed

/-- The token that a word is, on no line in particular. -/
def token? (w : String) : Option Token :=
  match pieces w.toList with
  | [⟨.lexeme kind, _⟩] => some ⟨kind, w, 0⟩
  | _ => none

section Words

variable {w : String} {kind : Kind}

theorem token?_of_lexeme (h : Lexeme w.toList kind) : token? w = some ⟨kind, w, 0⟩ := by
  rw [token?, pieces_of_lexeme h]

theorem endsWord_of_continuesName {c : Char} (h : continuesName c) : endsWord c = false := by
  by_contra hends
  simp only [endsWord, Bool.not_eq_false, Bool.or_eq_true, decide_eq_true_eq] at hends
  rcases hends with (rfl | rfl) | rfl <;> exact absurd h (by decide)

theorem endsWord_of_isDigit {c : Char} (h : isDigit c) : endsWord c = false :=
  endsWord_of_continuesName (by simp [continuesName, h])

theorem endsWord_of_mem_operators : ∀ p ∈ operators, p.2 ≠ .leftParen → p.2 ≠ .rightParen →
    ∀ c ∈ p.1, endsWord c = false := by
  simp [operators, endsWord]

/-- A token other than a bracket or a string can be told from what stands around it. -/
theorem legibleWord_of_lexeme (h : Lexeme w.toList kind) (hleft : kind ≠ .leftParen)
    (hright : kind ≠ .rightParen) (hstring : ∀ s, kind ≠ .string s) : LegibleWord w := by
  refine ⟨h.ne_nil, ?_⟩
  generalize w.toList = text at h
  cases h with
  | operator hmem => exact endsWord_of_mem_operators _ hmem hleft hright
  | @name first others hfirst hothers =>
    have hcontinues : continuesName first := by simp [continuesName, hfirst]
    exact List.forall_mem_cons.mpr ⟨endsWord_of_continuesName hcontinues,
      fun c hc => endsWord_of_continuesName (hothers c hc)⟩
  | integer _ hdigits => exact fun c hc => endsWord_of_isDigit (hdigits c hc)
  | decimal _ hwhole _ hfraction =>
    refine List.forall_mem_append.mpr ⟨fun c hc => endsWord_of_isDigit (hwhole c hc), ?_⟩
    exact List.forall_mem_cons.mpr ⟨rfl, fun c hc => endsWord_of_isDigit (hfraction c hc)⟩
  | string => exact absurd rfl (hstring _)

end Words

end Bracketed

section Leaves

/-- Neither a string nor a number that is not finite. -/
def Literal.Plain : Literal → Prop
  | .string _ => False
  | .number x => x.isFinite
  | _ => True

def Leaf.Spelled : Leaf → Prop
  | .token t => Lexeme t.lexeme.toList t.kind
  | .literal v => v.Plain → Lexeme v.text.toList v.kind

theorem shape_of_numeral {text : List Char} {x : Float} (h : Lexeme text (.number x))
    (hx : x.isFinite) : ∃ p, Binary.shape x = .finite false p := by
  have hnearest : ∃ num den, x = Binary.ofPattern (Binary.nearest num den) := by
    generalize hkind : Kind.number x = kind at h
    cases h with
    | operator hmem => simp [operators, ← hkind] at hmem
    | name =>
      rw [← Kind.ofWord_eq, Kind.ofWord] at hkind
      split at hkind <;> cases hkind
    | integer | decimal =>
      cases hkind
      exact ⟨_, _, rfl⟩
    | string => cases hkind
  obtain ⟨num, den, rfl⟩ := hnearest
  have hle : Binary.nearest num den ≤ Binary.infinity := Nat.min_le_right _ _
  rcases Nat.lt_or_eq_of_le hle with hlt | heq
  · exact ⟨_, Binary.shape_ofPattern hlt⟩
  · rw [heq] at hx
    exact absurd hx (by decide)

theorem spelled_of_plain {v : Literal} (h : v.Plain) (hnumber : ∀ x, v = .number x → x.isFinite →
    ∃ p, Binary.shape x = .finite false p) : Lexeme v.text.toList v.kind := by
  cases v with
  | nil => exact lexeme_word 'n' ['i', 'l'] rfl
  | boolean b =>
    cases b with
    | true => exact lexeme_word 't' ['r', 'u', 'e'] rfl
    | false => exact lexeme_word 'f' ['a', 'l', 's', 'e'] rfl
  | number x =>
    obtain ⟨p, hshape⟩ := hnumber x rfl h
    exact lexeme_text hshape (by decide)
  | string s => exact h.elim

theorem gives_of_lexeme {t : Token} (h : Lexeme t.lexeme.toList t.kind) :
    Grammar.Gives Leaf.Spelled t where
  token := h
  literal v hv hplain := spelled_of_plain hplain fun x hx hfinite => by
    have hkind := Grammar.literal_spelling hv
    subst hx
    exact shape_of_numeral (hkind ▸ h) hfinite

def Leaf.Legible : Leaf → Prop
  | .token t => Lexeme t.lexeme.toList t.kind
  | .literal v => v.Plain ∧ Lexeme v.text.toList v.kind

end Leaves

end ScriptLang
