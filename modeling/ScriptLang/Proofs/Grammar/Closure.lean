import ScriptLang.Proofs.Grammar.Derivation

namespace ScriptLang.Grammar

section Else

def Phrase.enclosed? : Phrase → Option Phrase
  | .statement _ dangling s => some (.statement true dangling s)
  | .declaration _ s => some (.declaration true s)
  | .declarations _ ss => some (.declarations true ss)
  | _ => none

theorem Reads.enclosed {p q : Phrase} {ts : List Token} (h : Reads p ts)
    (hq : p.enclosed? = some q) : Reads q ts := by
  induction h generalizing q with
  | exprStmt h hs => cases hq; exact .exprStmt h hs
  | printStmt hw h hs => cases hq; exact .printStmt hw h hs
  | block hb _ hc ih => cases hq; exact .block hb (ih rfl) hc
  | ifStmt hw hl hc hr _ _ ih => cases hq; exact .ifStmt hw hl hc hr (ih rfl)
  | ifElse hw hl hc hr _ ho _ _ ihy ihn =>
    cases hq; exact .ifElse hw hl hc hr (ihy rfl) ho (ihn rfl)
  | whileStmt hw hl hc hr hb => cases hq; exact .whileStmt hw hl hc hr hb
  | forStmt hw hl hi hc hs hn hr hb => cases hq; exact .forStmt hw hl hi hc hs hn hr hb
  | breakStmt hw hs => cases hq; exact .breakStmt hw hs
  | returnStmt hw h hs => cases hq; exact .returnStmt hw h hs
  | funDecl hw hn h => cases hq; exact .funDecl hw hn h
  | varDecl hw h => cases hq; exact .varDecl hw h
  | statement _ ih => cases hq; exact .statement (ih rfl)
  | declarationsEnd => cases hq; exact .declarationsEnd
  | declarationsStep _ _ ih ihs => cases hq; exact .declarationsStep (ih rfl) (ihs rfl)
  | _ => cases hq

variable {inLoop dangling : Bool} {yes no : Stmt Unit} {other : Token} {us vs : List Token}

theorem enclosed_statement (h : Reads (.statement inLoop dangling no) vs) :
    Reads (.statement true dangling no) vs :=
  h.enclosed rfl

/-- An `else` is taken into the statement before it if that ends in an open `if`. -/
theorem reads_else (h : Reads (.statement inLoop true yes) us) (ho : other.kind = .elseWord)
    (hn : Reads (.statement inLoop dangling no) vs) :
    ∃ d s, Reads (.statement inLoop d s) (us ++ other :: vs) := by
  generalize hp : Phrase.statement inLoop true yes = p at h
  induction h generalizing inLoop yes with
  | @ifStmt _ inner _ _ _ _ _ _ _ hw hl hc hr hy _ ih =>
    cases hp
    cases inner with
    | false => exact ⟨dangling, _, by simpa using Reads.ifElse hw hl hc hr hy ho hn⟩
    | true =>
      obtain ⟨d, s, hs⟩ := ih hn rfl
      exact ⟨true, _, by simpa using Reads.ifStmt hw hl hc hr hs⟩
  | ifElse hw hl hc hr hy ho' _ _ _ ih =>
    cases hp
    obtain ⟨d, s, hs⟩ := ih hn rfl
    exact ⟨d, _, by simpa using Reads.ifElse hw hl hc hr hy ho' hs⟩
  | whileStmt hw hl hc hr _ _ ih =>
    cases hp
    obtain ⟨d, s, hs⟩ := ih (enclosed_statement hn) rfl
    exact ⟨d, _, by simpa using Reads.whileStmt hw hl hc hr hs⟩
  | forStmt hw hl hi hc hs hi' hr _ _ _ _ ih =>
    cases hp
    obtain ⟨d, s, hb⟩ := ih (enclosed_statement hn) rfl
    exact ⟨d, _, by simpa using Reads.forStmt hw hl hi hc hs hi' hr hb⟩
  | _ => cases hp

end Else

section Meaning

def Meaning : Name → List Token → Prop
  | .program, ts =>
    ∃ ss us eof, ts = us ++ [eof] ∧ eof.kind = .endOfFile ∧ Reads (.declarations false ss) us
  | .declaration inLoop, ts => ∃ s, Reads (.declaration inLoop s) ts
  | .funDecl, ts => ∃ word name params body us, ts = word :: name :: us ∧ word.kind = .funWord ∧
      name.kind = .identifier ∧ Reads (.function params body) us
  | .function, ts => ∃ params body, Reads (.function params body) ts
  | .parameters, ts => ∃ ps, ps.length ≤ 255 ∧ Reads (.parameters ps) ts
  | .varDecl, ts =>
    ∃ word s us, ts = word :: us ∧ word.kind = .varWord ∧ Reads (.variable s) us
  | .exprStmt, ts =>
    ∃ e us semi, ts = us ++ [semi] ∧ Reads (.expression e) us ∧ semi.kind = .semicolon
  | .block inLoop, ts => ∃ brace ss us close, ts = brace :: (us ++ [close]) ∧
      brace.kind = .leftBrace ∧ Reads (.declarations inLoop ss) us ∧ close.kind = .rightBrace
  | .statement inLoop, ts | .ifStmt inLoop, ts | .breakStmt inLoop, ts =>
    ∃ dangling s, Reads (.statement inLoop dangling s) ts
  | .printStmt, ts | .whileStmt, ts | .forStmt, ts | .returnStmt, ts =>
    ∀ inLoop, ∃ dangling s, Reads (.statement inLoop dangling s) ts
  | .expression, ts | .assignment, ts => ∃ e, Reads (.expression e) ts
  | .logicOr, ts => ∃ e, Reads (.level .disjunction e) ts
  | .logicAnd, ts => ∃ e, Reads (.level .conjunction e) ts
  | .equality, ts => ∃ e, Reads (.level .equality e) ts
  | .comparison, ts => ∃ e, Reads (.level .comparison e) ts
  | .term, ts => ∃ e, Reads (.level .term e) ts
  | .factor, ts => ∃ e, Reads (.level .factor e) ts
  | .unary, ts | .call, ts => ∃ e, Reads (.level .unary e) ts
  | .arguments, ts => ∃ es, es.length ≤ 255 ∧ Reads (.arguments es) ts
  | .primary, ts => ∃ e, Reads (.primary e) ts

abbrev Ebnf.Means (e : Ebnf Name Kind) (ts : List Token) : Prop :=
  e.Holds Meaning Token.kind ts

variable {ts : List Token} {kind : Kind} {a b : Ebnf Name Kind}

theorem means_symbol : (symbol kind).Means ts ↔ ∃ t, ts = [t] ∧ t.kind = kind := by
  simp [symbol, oneOf, Ebnf.Means, Ebnf.Holds]

theorem means_symbol_append : (symbol kind ++ a).Means ts ↔
    ∃ t us, ts = t :: us ∧ t.kind = kind ∧ a.Means us := by
  constructor
  · rintro ⟨us, vs, rfl, hu, hv⟩
    obtain ⟨t, rfl, ht⟩ := means_symbol.mp hu
    exact ⟨t, vs, rfl, ht, hv⟩
  · rintro ⟨t, us, rfl, ht, hu⟩
    exact ⟨[t], us, rfl, means_symbol.mpr ⟨t, rfl, ht⟩, hu⟩

theorem means_assoc {c : Ebnf Name Kind} : (a ++ b ++ c).Means ts ↔ (a ++ (b ++ c)).Means ts := by
  constructor
  · rintro ⟨_, w, rfl, ⟨u, v, rfl, hu, hv⟩, hw⟩
    exact ⟨u, v ++ w, List.append_assoc _ _ _, hu, v, w, rfl, hv, hw⟩
  · rintro ⟨u, _, rfl, hu, v, w, rfl, hv, hw⟩
    exact ⟨u ++ v, w, (List.append_assoc _ _ _).symm, ⟨u, v, rfl, hu, hv⟩, hw⟩

theorem meaning_level {l : Level} : Meaning l.name ts ↔ ∃ e, Reads (.level l e) ts := by
  cases l <;> rfl

theorem meaning_chain {l : Level} {left : Expr Unit}
    (h : (Ebnf.many (oneOf l.operators ++ .rule l.next.name) : Ebnf Name Kind).Means ts) :
    ∃ e, Reads (.chain l left e) ts := by
  obtain ⟨ws, rfl, hws⟩ := h
  induction ws generalizing left with
  | nil => exact ⟨left, .chainEnd⟩
  | cons w ws ih =>
    obtain ⟨us, vs, rfl, ⟨operator, rfl, ho⟩, hr⟩ := hws w (List.mem_cons_self ..)
    obtain ⟨right, hr⟩ := meaning_level.mp hr
    obtain ⟨e, he⟩ := @ih (l.node left operator right)
      fun u hu => hws u (List.mem_cons_of_mem _ hu)
    exact ⟨e, by simpa using Reads.chainStep ho hr he⟩

theorem meaning_operators {l : Level} (hl : l ≠ .unary) (h : (rules l.name).Means ts) :
    Meaning l.name ts := by
  rw [Level.rules_name l hl] at h
  obtain ⟨us, vs, rfl, hu, hv⟩ := h
  obtain ⟨left, hleft⟩ := meaning_level.mp hu
  obtain ⟨e, he⟩ := meaning_chain hv
  exact meaning_level.mpr ⟨e, .level hl hleft he⟩

theorem meaning_declarations {inLoop : Bool}
    (h : (Ebnf.many (.rule (.declaration inLoop)) : Ebnf Name Kind).Means ts) :
    ∃ ss, Reads (.declarations inLoop ss) ts := by
  obtain ⟨ws, rfl, hws⟩ := h
  induction ws with
  | nil => exact ⟨[], .declarationsEnd⟩
  | cons w ws ih =>
    obtain ⟨s, hs⟩ := hws w (List.mem_cons_self ..)
    obtain ⟨ss, hss⟩ := ih fun u hu => hws u (List.mem_cons_of_mem _ hu)
    exact ⟨s :: ss, .declarationsStep hs hss⟩

theorem meaning_entries {α : Type} {R : List Token → α → Prop} {entry : Ebnf Name Kind}
    (he : ∀ us, entry.Means us → ∃ a, R us a) (h : (entries entry).Means ts) :
    ∃ as : List α, as.length ≤ 255 ∧ Separated R ts as := by
  obtain ⟨us, _, rfl, hu, ws, hn, rfl, hws⟩ := h
  suffices hall : ∃ as : List α, as.length = ws.length + 1 ∧ Separated R (us ++ ws.flatten) as by
    obtain ⟨as, hlen, has⟩ := hall
    exact ⟨as, by omega, has⟩
  clear hn
  induction ws generalizing us with
  | nil =>
    obtain ⟨a, ha⟩ := he us hu
    exact ⟨[a], rfl, by simpa using Separated.last ha⟩
  | cons w ws ih =>
    obtain ⟨comma, vs, rfl, hc, hv⟩ := means_symbol_append.mp (hws w (List.mem_cons_self ..))
    obtain ⟨a, ha⟩ := he us hu
    obtain ⟨as, hlen, has⟩ := ih vs hv fun u hu => hws u (List.mem_cons_of_mem _ hu)
    exact ⟨a :: as, by simp [hlen], by simpa using Separated.more ha hc has⟩

theorem meaning_calls {callee : Expr Unit} (h : (Ebnf.many
      (symbol .leftParen ++ .optional (.rule .arguments) ++ symbol .rightParen)).Means ts) :
    ∃ e, Reads (.calls callee e) ts := by
  obtain ⟨ws, rfl, hws⟩ := h
  induction ws generalizing callee with
  | nil => exact ⟨callee, .callsEnd⟩
  | cons w ws ih =>
    have hrest := fun u hu => hws u (List.mem_cons_of_mem w hu)
    obtain ⟨left, us, rfl, hl, vs, _, rfl, ha, hp⟩ :=
      means_symbol_append.mp (means_assoc.mp (hws w (List.mem_cons_self ..)))
    obtain ⟨paren, rfl, hparen⟩ := means_symbol.mp hp
    cases ha with
    | inl hnone =>
      subst hnone
      obtain ⟨e, he⟩ := @ih (.call callee paren []) hrest
      exact ⟨e, by simpa using Reads.callsPlain hl hparen he⟩
    | inr hsome =>
      obtain ⟨es, hn, hes⟩ := hsome
      obtain ⟨e, he⟩ := @ih (.call callee paren es) hrest
      exact ⟨e, by simpa using Reads.callsStep hl hes hn hparen he⟩

theorem meaning_optional (h : (Ebnf.optional (.rule .expression)).Means ts) :
    ∃ o, Reads (.optional o) ts := by
  cases h with
  | inl hnone => exact ⟨none, hnone ▸ .absent⟩
  | inr hsome =>
    obtain ⟨e, he⟩ := hsome
    exact ⟨some e, .present he⟩

theorem meaning_primary (h : (rules .primary).Means ts) : Meaning .primary ts := by
  have hword {kind : Kind} {v : Literal} (hl : literal? kind = some v)
      (hs : (symbol kind).Means ts) : Meaning .primary ts := by
    obtain ⟨t, rfl, ht⟩ := means_symbol.mp hs
    exact ⟨_, .literal (v := v) (ht ▸ hl)⟩
  obtain ((((((⟨t, rfl, x, ht⟩ | ⟨t, rfl, x, ht⟩) | h) | h) | h) | h) | h) | h := h
  · exact ⟨_, .literal (v := .number x) (by rw [ht]; rfl)⟩
  · exact ⟨_, .literal (v := .string x) (by rw [ht]; rfl)⟩
  · exact hword rfl h
  · exact hword rfl h
  · exact hword rfl h
  · obtain ⟨t, rfl, ht⟩ := means_symbol.mp h
    exact ⟨_, .ident ht⟩
  · obtain ⟨left, us, rfl, hl, vs, _, rfl, ⟨e, he⟩, hr⟩ :=
      means_symbol_append.mp (means_assoc.mp h)
    obtain ⟨right, rfl, hright⟩ := means_symbol.mp hr
    exact ⟨_, .group hl he hright⟩
  · obtain ⟨word, us, rfl, hw, params, body, hf⟩ := means_symbol_append.mp h
    exact ⟨_, .lambda hw hf⟩

theorem meaning_block {inLoop : Bool} (h : (rules (.block inLoop)).Means ts) :
    Meaning (.block inLoop) ts := by
  simp only [rules, means_assoc, means_symbol_append] at h
  obtain ⟨brace, _, rfl, hb, us, _, rfl, hs, hc⟩ := h
  obtain ⟨close, rfl, hclose⟩ := means_symbol.mp hc
  obtain ⟨ss, hss⟩ := meaning_declarations hs
  exact ⟨brace, ss, us, close, rfl, hb, hss, hclose⟩

theorem meaning_varDecl (h : (rules .varDecl).Means ts) : Meaning .varDecl ts := by
  simp only [rules, means_assoc, means_symbol_append] at h
  obtain ⟨word, _, rfl, hw, name, _, rfl, hn, us, _, rfl, ho, hs⟩ := h
  obtain ⟨semi, rfl, hsemi⟩ := means_symbol.mp hs
  obtain rfl | ho := ho
  · exact ⟨word, _, _, rfl, hw, .variablePlain hn hsemi⟩
  · obtain ⟨equal, us, rfl, he, e, hv⟩ := means_symbol_append.mp ho
    exact ⟨word, _, _, rfl, hw, .variableInitial hn he hv hsemi⟩

theorem meaning_while (h : (rules .whileStmt).Means ts) : Meaning .whileStmt ts := by
  simp only [rules, means_assoc, means_symbol_append] at h
  obtain ⟨word, _, rfl, hw, left, _, rfl, hl, us, _, rfl, ⟨e, he⟩, hr⟩ := h
  obtain ⟨right, vs, rfl, hright, d, s, hs⟩ := means_symbol_append.mp hr
  exact fun inLoop => ⟨d, _, .whileStmt hw hl he hright hs⟩

theorem meaning_initial
    (h : (Ebnf.rule Name.varDecl ||| Ebnf.rule Name.exprStmt ||| symbol .semicolon).Means ts) :
    ∃ o, Reads (.initial o) ts := by
  obtain (⟨word, s, us, rfl, hw, hs⟩ | ⟨e, us, semi, rfl, he, hs⟩) | h := h
  · exact ⟨_, .initialVariable hw hs⟩
  · exact ⟨_, .initialExpression he hs⟩
  · obtain ⟨semi, rfl, hs⟩ := means_symbol.mp h
    exact ⟨_, .initialNone hs⟩

theorem meaning_for (h : (rules .forStmt).Means ts) : Meaning .forStmt ts := by
  simp only [rules, means_assoc, means_symbol_append] at h
  obtain ⟨word, _, rfl, hw, left, _, rfl, hl, us, _, rfl, hi, vs, _, rfl, hc, hrest⟩ := h
  obtain ⟨semi, _, rfl, hs, ws, _, rfl, hn, hrest⟩ := means_symbol_append.mp hrest
  obtain ⟨right, xs, rfl, hr, d, s, hb⟩ := means_symbol_append.mp hrest
  obtain ⟨initial, hi⟩ := meaning_initial hi
  obtain ⟨condition, hc⟩ := meaning_optional hc
  obtain ⟨increment, hn⟩ := meaning_optional hn
  exact fun inLoop => ⟨d, _, .forStmt hw hl hi hc hs hn hr hb⟩

theorem meaning_if {inLoop : Bool} (h : (rules (.ifStmt inLoop)).Means ts) :
    Meaning (.ifStmt inLoop) ts := by
  simp only [rules, means_assoc, means_symbol_append] at h
  obtain ⟨word, _, rfl, hw, left, _, rfl, hl, us, _, rfl, ⟨e, he⟩, hrest⟩ := h
  obtain ⟨right, _, rfl, hr, vs, ws, rfl, ⟨d, yes, hy⟩, hrest⟩ := means_symbol_append.mp hrest
  obtain rfl | hrest := hrest
  · exact ⟨true, _, .ifStmt hw hl he hr (by simpa using hy)⟩
  · obtain ⟨other, xs, rfl, ho, d', no, hn⟩ := means_symbol_append.mp hrest
    cases d with
    | false => exact ⟨d', _, .ifElse hw hl he hr hy ho hn⟩
    | true =>
      obtain ⟨d'', s, hs⟩ := reads_else hy ho hn
      exact ⟨true, _, .ifStmt hw hl he hr hs⟩

theorem meaning_function (h : (rules .function).Means ts) : Meaning .function ts := by
  simp only [rules, means_assoc, means_symbol_append] at h
  obtain ⟨left, _, rfl, hl, us, _, rfl, hp, hrest⟩ := h
  obtain ⟨right, _, rfl, hr, brace, body, vs, close, rfl, hb, hs, hc⟩ :=
    means_symbol_append.mp hrest
  obtain rfl | ⟨params, hn, hp⟩ := hp
  · exact ⟨[], body, .functionPlain hl hr hb hs hc⟩
  · exact ⟨params, body, .function hl hp hn hr hb hs hc⟩

theorem meaning_closed (name : Name) (ts : List Token) (h : (rules name).Means ts) :
    Meaning name ts := by
  -- one case for each rule; only that of `if` needs more than its own parts
  cases name with
  | program =>
    obtain ⟨us, _, rfl, hs, heof⟩ := h
    obtain ⟨eof, rfl, hk⟩ := means_symbol.mp heof
    obtain ⟨ss, hss⟩ := meaning_declarations hs
    exact ⟨ss, us, eof, rfl, hk, hss⟩
  | declaration inLoop =>
    obtain (⟨word, name, params, body, us, rfl, hw, hn, hf⟩ | ⟨word, s, us, rfl, hw, hs⟩) |
      ⟨d, s, hs⟩ := h
    · exact ⟨_, .funDecl hw hn hf⟩
    · exact ⟨_, .varDecl hw hs⟩
    · exact ⟨_, .statement hs⟩
  | funDecl =>
    simp only [rules, means_assoc, means_symbol_append] at h
    obtain ⟨word, _, rfl, hw, name, us, rfl, hn, params, body, hf⟩ := h
    exact ⟨word, name, params, body, us, rfl, hw, hn, hf⟩
  | function => exact meaning_function h
  | parameters =>
    obtain ⟨ps, hlen, hps⟩ := meaning_entries (fun us hu => means_symbol.mp hu) h
    exact ⟨ps, hlen, reads_parameters.mpr hps⟩
  | varDecl => exact meaning_varDecl h
  | statement inLoop =>
    obtain ((((((⟨e, us, semi, rfl, he, hs⟩ | h) | h) | h) | h) |
      ⟨brace, ss, us, close, rfl, hb, hss, hc⟩) | h) | h := h
    · exact ⟨false, _, .exprStmt he hs⟩
    · exact h inLoop
    · exact h inLoop
    · exact h inLoop
    · exact h
    · exact ⟨false, _, .block hb hss hc⟩
    · exact h inLoop
    · exact h
  | exprStmt =>
    obtain ⟨us, _, rfl, ⟨e, he⟩, hs⟩ := h
    obtain ⟨semi, rfl, hsemi⟩ := means_symbol.mp hs
    exact ⟨e, us, semi, rfl, he, hsemi⟩
  | printStmt =>
    simp only [rules, means_assoc, means_symbol_append] at h
    obtain ⟨word, _, rfl, hw, us, _, rfl, ⟨e, he⟩, hs⟩ := h
    obtain ⟨semi, rfl, hsemi⟩ := means_symbol.mp hs
    exact fun inLoop => ⟨false, _, .printStmt hw he hsemi⟩
  | whileStmt => exact meaning_while h
  | forStmt => exact meaning_for h
  | ifStmt inLoop => exact meaning_if h
  | block inLoop => exact meaning_block h
  | returnStmt =>
    simp only [rules, means_assoc, means_symbol_append] at h
    obtain ⟨word, _, rfl, hw, us, _, rfl, ho, hs⟩ := h
    obtain ⟨semi, rfl, hsemi⟩ := means_symbol.mp hs
    obtain ⟨o, ho⟩ := meaning_optional ho
    exact fun inLoop => ⟨false, _, .returnStmt hw ho hsemi⟩
  | breakStmt inLoop =>
    obtain ⟨_, _, rfl, ⟨word, rfl, hw, rfl⟩, hs⟩ := h
    obtain ⟨semi, rfl, hsemi⟩ := means_symbol.mp hs
    exact ⟨false, _, .breakStmt hw hsemi⟩
  | expression => exact h
  | assignment =>
    obtain h | ⟨e, he⟩ := h
    · obtain ⟨name, _, rfl, hn, hrest⟩ := means_symbol_append.mp (means_assoc.mp h)
      obtain ⟨equal, us, rfl, he, value, hv⟩ := means_symbol_append.mp hrest
      exact ⟨_, .assign hn he hv⟩
    · exact ⟨e, .plain he⟩
  | logicOr => exact meaning_operators (l := .disjunction) (by decide) h
  | logicAnd => exact meaning_operators (l := .conjunction) (by decide) h
  | equality => exact meaning_operators (l := .equality) (by decide) h
  | comparison => exact meaning_operators (l := .comparison) (by decide) h
  | term => exact meaning_operators (l := .term) (by decide) h
  | factor => exact meaning_operators (l := .factor) (by decide) h
  | unary =>
    obtain ⟨_, us, rfl, ⟨operator, rfl, ho⟩, right, hr⟩ | h := h
    · exact ⟨_, .unary ho hr⟩
    · exact h
  | call =>
    obtain ⟨us, vs, rfl, ⟨callee, hp⟩, hc⟩ := h
    obtain ⟨e, he⟩ := meaning_calls hc
    exact ⟨e, .call hp he⟩
  | arguments =>
    have hentry (us : List Token) (hu : (Ebnf.rule Name.expression).Means us) :
        ∃ e, Reads (.expression e) us := hu
    obtain ⟨es, hlen, hes⟩ := meaning_entries hentry h
    exact ⟨es, hlen, reads_arguments.mpr hes⟩
  | primary => exact meaning_primary h

end Meaning

theorem derives_program_iff (ts : List Token) :
    Derives rules (.rule .program) (ts.map Token.kind ++ [.endOfFile]) ↔
      ∃ ss, Reads (.declarations false ss) ts := by
  constructor
  · intro h
    let eof : Token := ⟨.endOfFile, "", 0⟩
    have hm : Meaning .program (ts ++ [eof]) := h.holds meaning_closed _ (by simp [eof])
    obtain ⟨ss, us, eof', he, -, hss⟩ := hm
    obtain ⟨rfl, -⟩ := List.append_inj' he rfl
    exact ⟨ss, hss⟩
  · rintro ⟨ss, hss⟩
    have hd : Derives rules (.many (.rule (.declaration false))) (ts.map Token.kind) := hss.derives
    exact .rule (hd.append (kind_derives .endOfFile))

end ScriptLang.Grammar
