import ScriptLang.Syntax.Printer

namespace ScriptLang

inductive Bracketed where
  | word (text : String)
  | list (parts : List Bracketed)

namespace Bracketed

mutual

def text : Bracketed → String
  | .word w => w
  | .list parts => parenthesized (texts parts)

def texts : List Bracketed → List String
  | [] => []
  | b :: bs => b.text :: texts bs

end

def endsWord (c : Char) : Bool :=
  c = ' ' || c = '(' || c = ')'

structure LegibleWord (w : String) : Prop where
  ne_nil : w.toList ≠ []
  inside : ∀ c ∈ w.toList, endsWord c = false

mutual

def Legible : Bracketed → Prop
  | .word w => LegibleWord w
  | .list parts => AllLegible parts

def AllLegible : List Bracketed → Prop
  | [] => True
  | b :: bs => b.Legible ∧ AllLegible bs

end

def behind : List Bracketed → List Char
  | [] => [')']
  | b :: bs => ' ' :: (b.text.toList ++ behind bs)

def inside : List Bracketed → List Char
  | [] => [')']
  | b :: bs => b.text.toList ++ behind bs

def Follows (rest : List Char) : Prop :=
  ∀ c ∈ rest.head?, c = ' ' ∨ c = ')'

section Characters

variable {b c : Bracketed} {bs cs : List Bracketed} {rest rest' : List Char} {v w : String}

theorem text_list (parts : List Bracketed) : (list parts).text.toList = '(' :: inside parts := by
  cases parts with
  | nil => rfl
  | cons b bs =>
    have hjoin : [' '].intercalate ((texts (b :: bs)).map String.toList) ++ [')'] =
        inside (b :: bs) := by
      induction bs generalizing b with
      | nil => simp [texts, inside, behind]
      | cons c cs ih =>
        have hc : _ = c.text.toList ++ behind cs := ih c
        rw [inside, behind, ← hc]
        simp [texts, List.intercalate]
    simp only [text, parenthesized, String.toList_append, String.toList_intercalate, ← hjoin]
    rfl

theorem follows_behind (bs : List Bracketed) (rest : List Char) : Follows (behind bs ++ rest) := by
  cases bs <;> simp [Follows, behind]

theorem inside_of_behind (h : behind bs ++ rest = behind cs ++ rest') :
    inside bs ++ rest = inside cs ++ rest' := by
  cases bs with
  | nil =>
    cases cs with
    | nil => exact h
    | cons c cs => cases h
  | cons b bs =>
    cases cs with
    | nil => cases h
    | cons c cs => exact (List.cons.inj h).2

theorem LegibleWord.first (hw : LegibleWord w) :
    ∃ first others, w.toList = first :: others ∧ endsWord first = false := by
  obtain ⟨first, others, hcons⟩ := List.exists_cons_of_ne_nil hw.ne_nil
  exact ⟨first, others, hcons, hw.inside first (by simp [hcons])⟩

theorem LegibleWord.ne_cons {mark : Char} (hw : LegibleWord w) (hmark : endsWord mark = true) :
    w.toList ++ rest ≠ mark :: rest' := by
  obtain ⟨first, others, hcons, hfirst⟩ := hw.first
  intro h
  rw [hcons] at h
  obtain ⟨rfl, -⟩ := List.cons.inj h
  exact absurd hmark (by simp [hfirst])

theorem text_ne_closing (hb : b.Legible) : b.text.toList ++ rest ≠ ')' :: rest' := by
  cases b with
  | word w => exact LegibleWord.ne_cons hb rfl
  | list parts => simp [text_list]

theorem takeWhile_word (hw : LegibleWord w) (hrest : Follows rest) :
    (w.toList ++ rest).takeWhile (endsWord · = false) = w.toList := by
  rw [List.takeWhile_append_of_pos (by simpa using hw.inside)]
  cases rest with
  | nil => simp
  | cons c rest =>
    have hc : endsWord c = true := by
      rcases hrest c rfl with rfl | rfl <;> rfl
    simp [hc]

theorem word_cancel (hv : LegibleWord v) (hw : LegibleWord w) (hrest : Follows rest)
    (hrest' : Follows rest') (h : v.toList ++ rest = w.toList ++ rest') : v = w ∧ rest = rest' := by
  have hsame : v.toList = w.toList := by
    rw [← takeWhile_word hv hrest, h, takeWhile_word hw hrest']
  rw [hsame] at h
  exact ⟨String.toList_inj.mp hsame, List.append_cancel_left h⟩

mutual

theorem text_cancel (b c : Bracketed) (hb : b.Legible) (hc : c.Legible) {rest rest' : List Char}
    (hrest : Follows rest) (hrest' : Follows rest')
    (h : b.text.toList ++ rest = c.text.toList ++ rest') : b = c ∧ rest = rest' := by
  cases b with
  | word v =>
    cases c with
    | word w =>
      obtain ⟨rfl, hsame⟩ := word_cancel hb hc hrest hrest' h
      exact ⟨rfl, hsame⟩
    | list cs =>
      rw [text_list] at h
      exact absurd h (LegibleWord.ne_cons hb rfl)
  | list bs =>
    rw [text_list] at h
    cases c with
    | word w => exact absurd h.symm (LegibleWord.ne_cons hc rfl)
    | list cs =>
      rw [text_list] at h
      obtain ⟨rfl, hsame⟩ := inside_cancel bs cs hb hc (List.cons.inj h).2
      exact ⟨rfl, hsame⟩

theorem inside_cancel (bs cs : List Bracketed) (hb : AllLegible bs) (hc : AllLegible cs)
    {rest rest' : List Char} (h : inside bs ++ rest = inside cs ++ rest') :
    bs = cs ∧ rest = rest' := by
  cases bs with
  | nil =>
    cases cs with
    | nil => exact ⟨rfl, List.append_cancel_left h⟩
    | cons c cs =>
      rw [inside, inside, List.append_assoc] at h
      exact absurd h.symm (text_ne_closing hc.1)
  | cons b bs =>
    rw [inside, List.append_assoc] at h
    cases cs with
    | nil => exact absurd h (text_ne_closing hb.1)
    | cons c cs =>
      rw [inside, List.append_assoc] at h
      obtain ⟨rfl, hbehind⟩ := text_cancel b c hb.1 hc.1 (follows_behind bs rest)
        (follows_behind cs rest') h
      obtain ⟨rfl, hsame⟩ := inside_cancel bs cs hb.2 hc.2 (inside_of_behind hbehind)
      exact ⟨rfl, hsame⟩

end

theorem text_injective (hb : b.Legible) (hc : c.Legible) (h : b.text = c.text) : b = c := by
  have hnil : Follows [] := fun c hc => by cases hc
  exact (text_cancel b c hb hc hnil hnil (by rw [h])).1

theorem texts_injective (hb : AllLegible bs) (hc : AllLegible cs) (h : texts bs = texts cs) :
    bs = cs := by
  induction bs generalizing cs with
  | nil =>
    cases cs with
    | nil => rfl
    | cons c cs => cases h
  | cons b bs ih =>
    cases cs with
    | nil => cases h
    | cons c cs =>
      obtain ⟨hhead, htail⟩ := List.cons.inj h
      rw [text_injective hb.1 hc.1 hhead, ih hb.2 hc.2 htail]

end Characters

end Bracketed

section Trees

variable {ρ : Type}

namespace Bracketed

def block (body : List Bracketed) : Bracketed :=
  .list (.word "block" :: body)

def parameters (params : List Token) : Bracketed :=
  .list (params.map fun p => .word p.lexeme)

end Bracketed

open Bracketed (parameters block)

mutual

def Expr.bracketed : Expr ρ → Bracketed
  | .literal value => .word value.text
  | .group inner => .list [.word "group", inner.bracketed]
  | .unary operator right => .list [.word operator.lexeme, right.bracketed]
  | .binary left operator right =>
    .list [.word operator.lexeme, left.bracketed, right.bracketed]
  | .logical left operator right =>
    .list [.word operator.lexeme, left.bracketed, right.bracketed]
  | .ident _ name => .word name.lexeme
  | .assign _ name value => .list [.word "=", .word name.lexeme, value.bracketed]
  | .call callee _ arguments =>
    .list (.word "call" :: callee.bracketed :: Expr.allBracketed arguments)
  | .lambda params body =>
    .list [.word "fun", parameters params, block (Stmt.allBracketed body)]

def Expr.allBracketed : List (Expr ρ) → List Bracketed
  | [] => []
  | e :: es => e.bracketed :: Expr.allBracketed es

def Stmt.bracketed : Stmt ρ → Bracketed
  | .exprStmt e => .list [.word ";", e.bracketed]
  | .printStmt e => .list [.word "print", e.bracketed]
  | .varDecl name none => .list [.word "var", .word name.lexeme]
  | .varDecl name (some initial) => .list [.word "var", .word name.lexeme, initial.bracketed]
  | .block body => block (Stmt.allBracketed body)
  | .ifStmt condition yes none => .list [.word "if", condition.bracketed, yes.bracketed]
  | .ifStmt condition yes (some no) =>
    .list [.word "if", condition.bracketed, yes.bracketed, no.bracketed]
  | .whileStmt condition body => .list [.word "while", condition.bracketed, body.bracketed]
  | .breakStmt _ => .list [.word "break"]
  | .returnStmt _ none => .list [.word "return"]
  | .returnStmt _ (some value) => .list [.word "return", value.bracketed]
  | .funDecl name params body =>
    .list [.word "fun", .word name.lexeme, parameters params, block (Stmt.allBracketed body)]

def Stmt.allBracketed : List (Stmt ρ) → List Bracketed
  | [] => []
  | s :: ss => s.bracketed :: Stmt.allBracketed ss

end

theorem texts_words (params : List Token) :
    Bracketed.texts (params.map fun p => .word p.lexeme) = params.map Token.lexeme := by
  induction params with
  | nil => rfl
  | cons p ps ih => simp [Bracketed.texts, Bracketed.text, ih]

mutual

theorem Expr.text_bracketed (e : Expr ρ) : e.bracketed.text = e.text := by
  cases e with
  | call callee paren arguments =>
    simp only [Expr.bracketed, Expr.text, Bracketed.text, Bracketed.texts, callee.text_bracketed,
      Expr.texts_bracketed arguments]
  | _ =>
    simp only [Expr.bracketed, Expr.text, Bracketed.text, Bracketed.texts, parameters, block,
      parameterText, texts_words, Expr.text_bracketed, Stmt.texts_bracketed]

theorem Expr.texts_bracketed (es : List (Expr ρ)) :
    Bracketed.texts (Expr.allBracketed es) = Expr.texts es := by
  cases es with
  | nil => rfl
  | cons e es =>
    simp only [Expr.allBracketed, Bracketed.texts, Expr.texts, e.text_bracketed,
      Expr.texts_bracketed es]

theorem Stmt.text_bracketed (s : Stmt ρ) : s.bracketed.text = s.text := by
  cases s with
  | varDecl name initial =>
    cases initial <;>
      simp only [Stmt.bracketed, Stmt.text, Bracketed.text, Bracketed.texts, Expr.text_bracketed]
  | ifStmt condition yes no =>
    cases no <;>
      simp only [Stmt.bracketed, Stmt.text, Bracketed.text, Bracketed.texts, Expr.text_bracketed,
        Stmt.text_bracketed]
  | returnStmt keyword value =>
    cases value <;>
      simp only [Stmt.bracketed, Stmt.text, Bracketed.text, Bracketed.texts, Expr.text_bracketed]
  | _ =>
    simp only [Stmt.bracketed, Stmt.text, Bracketed.text, Bracketed.texts, parameters, block,
      parameterText, texts_words, Expr.text_bracketed, Stmt.text_bracketed, Stmt.texts_bracketed]

theorem Stmt.texts_bracketed (ss : List (Stmt ρ)) :
    Bracketed.texts (Stmt.allBracketed ss) = Stmt.texts ss := by
  cases ss with
  | nil => rfl
  | cons s ss =>
    simp only [Stmt.allBracketed, Bracketed.texts, Stmt.texts, s.text_bracketed,
      Stmt.texts_bracketed ss]

end

end Trees

end ScriptLang
