import ScriptLang.Proofs.Grammar.Shape

namespace ScriptLang.Grammar

open Syntax (forLoop)

section Shape

variable {l : Level} {left right e : Expr Unit} {operator : Token} {kind : Kind}

theorem operatorLevel_eq (h : kind ∈ l.operators) : operatorLevel kind = l := by
  cases l <;> revert h <;> cases kind <;> simp [Level.operators, operatorLevel]

theorem node_shaped (ho : operator.kind ∈ l.operators) (hl : left.Shaped) (hm : l.rank ≤ left.rank)
    (hr : right.Shaped) (hn : l.next.rank ≤ right.rank) :
    (l.node left operator right).Shaped ∧ l.rank ≤ (l.node left operator right).rank := by
  have hlevel := operatorLevel_eq ho
  cases l with
  | unary => cases ho
  | disjunction | conjunction =>
    refine ⟨⟨?_, ?_, hl, ?_, hr⟩, ?_⟩ <;> simp only [Level.node, Expr.rank, hlevel]
    · decide
    · exact hm
    · exact hn
    · exact Nat.le_refl _
  | _ =>
    refine ⟨⟨?_, ?_, hl, ?_, hr⟩, ?_⟩ <;> simp only [Level.node, Expr.rank, hlevel]
    · decide
    · exact hm
    · exact hn
    · exact Nat.le_refl _

def Phrase.Shaped : Phrase → Prop
  | .expression e => e.Shaped
  | .level l e => e.Shaped ∧ l.rank ≤ e.rank
  | .chain l left e => left.Shaped → l.rank ≤ left.rank → e.Shaped ∧ l.rank ≤ e.rank
  | .primary e => e.Shaped ∧ 8 ≤ e.rank
  | .calls callee e => callee.Shaped → 8 ≤ callee.rank → e.Shaped ∧ 8 ≤ e.rank
  | .arguments es => Expr.AllShaped es
  | .parameters ps => ∀ p ∈ ps, p.kind = .identifier
  | .function params body => ShapedParameters params ∧ Stmt.AllShaped false body
  | .optional o => ∀ e ∈ o, e.Shaped
  | .variable s => ∀ inLoop, s.Shaped inLoop
  | .initial o => ∀ s ∈ o, ∀ inLoop, s.Shaped inLoop
  | .statement inLoop dangling s =>
    s.Shaped inLoop ∧ s.isBody = true ∧ (dangling = false → s.isOpen = false)
  | .declaration inLoop s => s.Shaped inLoop
  | .declarations inLoop ss => Stmt.AllShaped inLoop ss

theorem rank_le_next (l : Level) : l.rank ≤ l.next.rank := by
  cases l <;> decide

theorem forLoop_shaped {initial : Option (Stmt Unit)} {condition increment : Option (Expr Unit)}
    {body : Stmt Unit} {inLoop dangling : Bool} (hi : (Phrase.initial initial).Shaped)
    (hc : (Phrase.optional condition).Shaped) (hn : (Phrase.optional increment).Shaped)
    (hb : (Phrase.statement true dangling body).Shaped) :
    (Phrase.statement inLoop dangling (forLoop initial condition increment body)).Shaped := by
  obtain ⟨hshape, hbody, hopen⟩ := hb
  have hcondition : (condition.getD (.literal (.boolean true))).Shaped := by
    cases condition with
    | none => trivial
    | some e => exact hc e rfl
  have hloop :
      (Phrase.statement inLoop dangling (forLoop none condition increment body)).Shaped := by
    cases increment with
    | none => exact ⟨⟨hcondition, hbody, hshape⟩, rfl, hopen⟩
    | some e => exact ⟨⟨hcondition, rfl, hshape, hn e rfl, trivial⟩, rfl, fun _ => rfl⟩
  cases initial with
  | none => exact hloop
  | some s => exact ⟨⟨hi s rfl inLoop, hloop.1, trivial⟩, rfl, fun _ => rfl⟩

theorem Reads.shaped {p : Phrase} {ts : List Token} (h : Reads p ts) : p.Shaped := by
  induction h with
  | assign hn _ _ ih => exact ⟨hn, ih⟩
  | plain _ ih => exact ih.1
  | @level l _ _ _ _ _ _ _ ih ihc => exact ihc ih.1 (Nat.le_trans (rank_le_next l) ih.2)
  | chainEnd => exact fun hs hr => ⟨hs, hr⟩
  | chainStep ho _ _ ih ihc =>
    intro hs hr
    have hnode := node_shaped ho hs hr ih.1 ih.2
    exact ihc hnode.1 hnode.2
  | unary ho _ ih => exact ⟨⟨ho, ih.2, ih.1⟩, Nat.le_refl _⟩
  | call _ _ ih ihc =>
    have hcall := ihc ih.1 ih.2
    exact ⟨hcall.1, Nat.le_trans (by decide) hcall.2⟩
  | callsEnd => exact fun hs hr => ⟨hs, hr⟩
  | callsPlain _ hp _ ih => exact fun hs hr => ih ⟨hr, hs, hp, by simp, trivial⟩ (Nat.le_refl _)
  | callsStep _ _ hn hp _ ih ihc =>
    exact fun hs hr => ihc ⟨hr, hs, hp, hn, ih⟩ (Nat.le_refl _)
  | lastArgument _ ih => exact ⟨ih, trivial⟩
  | moreArguments _ _ _ ih ihs => exact ⟨ih, ihs⟩
  | literal => exact ⟨trivial, Nat.le_refl _⟩
  | ident hn => exact ⟨hn, Nat.le_refl _⟩
  | group _ _ _ ih => exact ⟨ih, Nat.le_refl _⟩
  | lambda _ _ ih => exact ⟨ih, Nat.le_refl _⟩
  | lastParameter h => exact List.forall_mem_singleton.mpr h
  | moreParameters h _ _ ih => exact List.forall_mem_cons.mpr ⟨h, ih⟩
  | functionPlain _ _ _ _ _ ih => exact ⟨⟨by simp, by simp⟩, ih⟩
  | function _ _ hn _ _ _ _ ihp ih => exact ⟨⟨hn, ihp⟩, ih⟩
  | absent => exact fun e he => by cases he
  | present _ ih =>
    intro e he
    cases he
    exact ih
  | variablePlain hn _ => exact fun _ => hn
  | variableInitial hn _ _ _ ih => exact fun _ => ⟨hn, ih⟩
  | initialNone _ => exact fun s hs => by cases hs
  | initialVariable _ _ ih | initialExpression _ _ ih =>
    intro s hs
    cases hs
    first | exact ih | exact fun _ => ih
  | exprStmt _ _ ih => exact ⟨ih, rfl, fun _ => rfl⟩
  | printStmt _ _ _ ih => exact ⟨ih, rfl, fun _ => rfl⟩
  | block _ _ _ ih => exact ⟨ih, rfl, fun _ => rfl⟩
  | ifStmt _ _ _ _ _ ih ihy => exact ⟨⟨ih, ihy.2.1, ihy.1⟩, rfl, fun hd => by cases hd⟩
  | ifElse _ _ _ _ _ _ _ ih ihy ihn =>
    exact ⟨⟨ih, ihy.2.1, ihy.1, ihy.2.2 rfl, ihn.2.1, ihn.1⟩, rfl, ihn.2.2⟩
  | whileStmt _ _ _ _ _ ih ihb => exact ⟨⟨ih, ihb.2.1, ihb.1⟩, rfl, ihb.2.2⟩
  | forStmt _ _ _ _ _ _ _ _ ihi ihc ihn ihb => exact forLoop_shaped ihi ihc ihn ihb
  | breakStmt hw _ => exact ⟨⟨hw, rfl⟩, rfl, fun _ => rfl⟩
  | @returnStmt _ _ _ value _ hw _ _ ih =>
    cases value with
    | none => exact ⟨hw, rfl, fun _ => rfl⟩
    | some e => exact ⟨⟨hw, ih e rfl⟩, rfl, fun _ => rfl⟩
  | funDecl _ hn _ ih => exact ⟨hn, ih⟩
  | varDecl _ _ ih => exact ih _
  | statement _ ih => exact ih.1
  | declarationsEnd => trivial
  | declarationsStep _ _ ih ihs => exact ⟨ih, ihs⟩

end Shape

section Spelling

def Phrase.Respelled : Phrase → List Kind → Prop
  | .expression e, w | .level _ e, w | .primary e, w => e.tokens.map Token.kind = w
  | .chain _ left e, w | .calls left e, w =>
    e.tokens.map Token.kind = left.tokens.map Token.kind ++ w
  | .arguments es, w => (Expr.allTokens es).map Token.kind = w
  | .parameters ps, w => (ps.intersperse (delimiter .comma)).map Token.kind = w
  | .function params body, w =>
    (functionTokens params (Stmt.allTokens body)).map Token.kind = w
  | .optional o, w => (o.elim [] Expr.tokens).map Token.kind = w
  | .variable s, w => s.tokens.map Token.kind = .varWord :: w
  | .initial _, _ => True
  | .statement _ _ s, w | .declaration _ s, w => s.tokens.map Token.kind = w
  | .declarations _ ss, w => (Stmt.allTokens ss).map Token.kind = w

theorem literal_spelling {v : Literal} {kind : Kind} (h : literal? kind = some v) :
    v.kind = kind := by
  cases kind <;> cases h <;> rfl

theorem node_tokens {l : Level} {left right : Expr Unit} {operator : Token} :
    (l.node left operator right).tokens = left.tokens ++ operator :: right.tokens := by
  cases l <;> rfl

theorem Reads.respelled {p : Phrase} {ts : List Token} (h : Reads p ts)
    (hfor : .forWord ∉ ts.map Token.kind) : p.Respelled (ts.map Token.kind) := by
  induction h with
  | forStmt hw => simp [hw] at hfor
  | literal hv => simpa [Phrase.Respelled, Expr.tokens, delimiter] using literal_spelling hv
  | moreArguments _ hc hs ih ihs =>
    -- A comma is written only if a further entry follows, so that one has to be exposed.
    cases hs <;> simp_all [Phrase.Respelled, Expr.allTokens, delimiter]
  | moreParameters h hc hs ih => cases hs <;> simp_all [Phrase.Respelled, delimiter]
  | @returnStmt _ _ _ value _ hw _ hs ih =>
    cases value <;> simp_all [Phrase.Respelled, Stmt.tokens, delimiter]
  | _ =>
    simp_all [Phrase.Respelled, Expr.tokens, Expr.allTokens, Stmt.tokens, Stmt.allTokens,
      functionTokens, delimiter, node_tokens]

end Spelling

end ScriptLang.Grammar
