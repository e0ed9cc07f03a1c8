import ScriptLang.Proofs.Printing.Decoding

namespace ScriptLang

open Source Grammar Session

section Lines

open Bracketed (parameters block)

variable {ρ : Type} {f : Nat → Nat}

theorem parameters_moved (params : List Token) :
    parameters (params.map (Token.moved f)) = parameters params := by
  rw [parameters, List.map_map]
  rfl

mutual

theorem Expr.bracketed_moved (e : Expr ρ) : (e.moved f).bracketed = e.bracketed := by
  cases e <;>
    simp only [Expr.moved, Expr.bracketed, Token.moved, parameters_moved, Expr.bracketed_moved,
      Expr.allBracketed_moved, Stmt.allBracketed_moved]

theorem Expr.allBracketed_moved (es : List (Expr ρ)) :
    Expr.allBracketed (Expr.allMoved f es) = Expr.allBracketed es := by
  cases es with
  | nil => rfl
  | cons e es =>
    simp only [Expr.allMoved, Expr.allBracketed, e.bracketed_moved, Expr.allBracketed_moved es]

theorem Stmt.bracketed_moved (s : Stmt ρ) : (s.moved f).bracketed = s.bracketed := by
  cases s with
  | varDecl name initial =>
    cases initial <;> simp only [Stmt.moved, Stmt.bracketed, Token.moved, Expr.bracketed_moved]
  | ifStmt condition yes no =>
    cases no <;>
      simp only [Stmt.moved, Stmt.bracketed, Expr.bracketed_moved, Stmt.bracketed_moved]
  | returnStmt keyword value =>
    cases value <;> simp only [Stmt.moved, Stmt.bracketed, Expr.bracketed_moved]
  | _ =>
    simp only [Stmt.moved, Stmt.bracketed, Token.moved, parameters_moved, Expr.bracketed_moved,
      Stmt.bracketed_moved, Stmt.allBracketed_moved]

theorem Stmt.allBracketed_moved (ss : List (Stmt ρ)) :
    Stmt.allBracketed (Stmt.allMoved f ss) = Stmt.allBracketed ss := by
  cases ss with
  | nil => rfl
  | cons s ss =>
    simp only [Stmt.allMoved, Stmt.allBracketed, s.bracketed_moved, Stmt.allBracketed_moved ss]

end

end Lines

section Sources

variable {source : String} {ss tt : List (Stmt Unit)}

theorem shaped_of_parse (h : Session.parse source = .ok ss) : Stmt.AllShaped false ss :=
  (Session.parse_eq_ok.mp h).2.shaped

theorem legible_of_parse (h : Session.parse source = .ok ss)
    (hplain : ∀ v, .literal v ∈ Stmt.allLeaves ss → v.Plain) :
    Each Leaf.Legible (Stmt.allLeaves ss) := by
  have htrue : Leaf.Spelled (.literal (.boolean true)) :=
    fun hplain => spelled_of_plain hplain fun x hx => by cases hx
  have hspelled : Each Leaf.Spelled (Stmt.allLeaves ss) :=
    (Session.parse_eq_ok.mp h).2.leaves htrue fun t ht => gives_of_lexeme (lexeme_of_mem_tokens ht)
  intro l hl
  cases l with
  | token t => exact hspelled _ hl
  | literal v => exact ⟨hplain v hl, hspelled _ hl (hplain v hl)⟩

end Sources

/-- Two sources that are scanned without an error and parsed, without strings and numbers too large,
have the same printed statements exactly if they have the same statements but for lines. -/
theorem printed_statements_tell_the_trees {a b : String} {ss tt : List (Stmt Unit)}
    (ha : Session.parse a = .ok ss) (hb : Session.parse b = .ok tt)
    (hss : ∀ v, .literal v ∈ Stmt.allLeaves ss → v.Plain)
    (htt : ∀ v, .literal v ∈ Stmt.allLeaves tt → v.Plain) :
    Stmt.texts ss = Stmt.texts tt ↔ Stmt.allMoved flat ss = Stmt.allMoved flat tt := by
  obtain ⟨hlegible, hread⟩ :=
    Stmt.allRead_bracketed ss (shaped_of_parse ha) (legible_of_parse ha hss)
  obtain ⟨hlegible', hread'⟩ :=
    Stmt.allRead_bracketed tt (shaped_of_parse hb) (legible_of_parse hb htt)
  rw [← Stmt.texts_bracketed ss, ← Stmt.texts_bracketed tt]
  constructor
  · intro h
    rw [Bracketed.texts_injective hlegible hlegible' h, hread'] at hread
    exact (Option.some.inj hread).symm
  · intro h
    have hsame := congrArg Stmt.allBracketed h
    rw [Stmt.allBracketed_moved, Stmt.allBracketed_moved] at hsame
    rw [hsame]

theorem called_head_told_from_the_text :
    let name (lexeme : String) (line : Nat) : Token := ⟨.identifier, lexeme, line⟩
    let tree (line : Nat) : Stmt Unit := .exprStmt (.call (.ident () (name "call" 1))
      ⟨.rightParen, ")", line⟩ [.unary ⟨.minus, "-", 1⟩ (.ident () (name "x" line)), .literal .nil])
    Session.parse "call(-x, nil);" = .ok [tree 1] ∧
      Session.parse "call(-\nx, nil);" = .ok [tree 2] ∧
      Stmt.texts [tree 1] = Stmt.texts [tree 2] ∧
      Stmt.allMoved flat [tree 1] = Stmt.allMoved flat [tree 2] := by
  intro name tree
  have hparse (source : String) (line : Nat) (eof : Token) (herrors : errors source = [])
      (htokens : tokens source = [name "call" 1, ⟨.leftParen, "(", 1⟩, ⟨.minus, "-", 1⟩,
        name "x" line, ⟨.comma, ",", line⟩, ⟨.nilWord, "nil", line⟩, ⟨.rightParen, ")", line⟩,
        ⟨.semicolon, ";", line⟩]) : Session.parse source = .ok [tree line] := by
    refine Session.parse_eq_ok.mpr ⟨herrors, ?_⟩
    rw [htokens]
    exact (Parsing.parseProgram_ok_iff_reads ⟨_, eof⟩ _).mp rfl
  have hplain (line : Nat) : ∀ v, .literal v ∈ Stmt.allLeaves [tree line] → v.Plain := by
    intro v hv
    obtain rfl : v = .nil := by simpa [tree, Stmt.allLeaves, Stmt.leaves, Expr.leaves,
      Expr.allLeaves] using hv
    trivial
  have ha := hparse "call(-x, nil);" 1 (delimiter .endOfFile) (by decide +kernel)
    (by decide +kernel)
  have hb := hparse "call(-\nx, nil);" 2 (delimiter .endOfFile) (by decide +kernel)
    (by decide +kernel)
  exact ⟨ha, hb, rfl, (printed_statements_tell_the_trees ha hb (hplain 1) (hplain 2)).mp rfl⟩

end ScriptLang
