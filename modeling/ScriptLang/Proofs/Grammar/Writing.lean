import ScriptLang.Proofs.Grammar.Shape

namespace ScriptLang.Grammar

variable {l : Level} {left right e callee : Expr Unit} {operator paren : Token}
  {ts us : List Token}

section Level

theorem rank_next (hl : l ≠ .unary) : l.next.rank = l.rank + 1 := by
  cases l with
  | unary => exact absurd rfl hl
  | _ => rfl

theorem rank_pos (l : Level) : 0 < l.rank := by
  cases l <;> decide

theorem rank_le_seven (l : Level) : l.rank ≤ 7 := by
  cases l <;> decide

theorem rank_injective {l m : Level} (h : l.rank = m.rank) : l = m := by
  cases l <;> cases m <;> first | rfl | cases h

theorem reads_level_mono {m : Level} (h : Reads (.level l e) ts) (hm : m.rank ≤ l.rank) :
    Reads (.level m e) ts := by
  obtain ⟨n, hn⟩ := Nat.exists_eq_add_of_le hm
  induction n generalizing m with
  | zero =>
    obtain rfl := rank_injective hn
    exact h
  | succ n ih =>
    have hu : m ≠ .unary := by
      rintro rfl
      have hle := rank_le_seven l
      have h7 : Level.unary.rank = 7 := rfl
      omega
    have hnext := rank_next hu
    exact reads_level_of_next hu (ih (by omega) (by omega))

theorem chain_snoc {first : Expr Unit} (h : Reads (.chain l first left) ts)
    (ho : operator.kind ∈ l.operators) (hr : Reads (.level l.next right) us) :
    Reads (.chain l first (l.node left operator right)) (ts ++ operator :: us) := by
  generalize hp : Phrase.chain l first left = p at h
  induction h generalizing first with
  | chainEnd =>
    cases hp
    simpa using Reads.chainStep ho hr .chainEnd
  | chainStep ho' hr' _ _ ih =>
    cases hp
    simpa using Reads.chainStep ho' hr' (ih rfl)
  | _ => cases hp

/-- An operand on the left may have operators of the same level, one on the right may not. -/
theorem reads_operator (hl : l ≠ .unary) (h : Reads (.level l left) ts)
    (ho : operator.kind ∈ l.operators) (hr : Reads (.level l.next right) us) :
    Reads (.level l (l.node left operator right)) (ts ++ operator :: us) := by
  cases h with
  | level _ hfirst hc => simpa using Reads.level hl hfirst (chain_snoc hc ho hr)
  | unary => exact absurd rfl hl
  | call => exact absurd rfl hl

end Level

section Call

def ReadsCall (e : Expr Unit) (ts : List Token) : Prop :=
  ∃ callee us vs, ts = us ++ vs ∧ Reads (.primary callee) us ∧ Reads (.calls callee e) vs

theorem readsCall_of_primary (h : Reads (.primary e) ts) : ReadsCall e ts :=
  ⟨e, ts, [], by simp, h, .callsEnd⟩

theorem calls_snoc {args : List (Expr Unit)} {first : Expr Unit} {opening : Token}
    (h : Reads (.calls first callee) ts) (hl : opening.kind = .leftParen)
    (ha : args = [] ∧ us = [] ∨ args.length ≤ 255 ∧ Reads (.arguments args) us)
    (hp : paren.kind = .rightParen) :
    Reads (.calls first (.call callee paren args)) (ts ++ opening :: (us ++ [paren])) := by
  generalize hq : Phrase.calls first callee = p at h
  induction h generalizing first with
  | callsEnd =>
    cases hq
    obtain ⟨rfl, rfl⟩ | ⟨hn, ha⟩ := ha
    · exact .callsPlain hl hp .callsEnd
    · exact .callsStep hl ha hn hp .callsEnd
  | callsPlain hl' hp' _ ih =>
    cases hq
    exact .callsPlain hl' hp' (ih rfl)
  | callsStep hl' ha' hn' hp' _ _ ih =>
    cases hq
    simpa using Reads.callsStep hl' ha' hn' hp' (ih rfl)
  | _ => cases hq

theorem ReadsCall.call {args : List (Expr Unit)} {opening : Token} (h : ReadsCall callee ts)
    (hl : opening.kind = .leftParen)
    (ha : args = [] ∧ us = [] ∨ args.length ≤ 255 ∧ Reads (.arguments args) us)
    (hp : paren.kind = .rightParen) :
    ReadsCall (.call callee paren args) (ts ++ opening :: (us ++ [paren])) := by
  obtain ⟨first, vs, ws, rfl, hfirst, hc⟩ := h
  exact ⟨first, vs, _, by simp, hfirst, calls_snoc hc hl ha hp⟩

end Call

structure ReadsAt (n : Nat) (e : Expr Unit) (ts : List Token) : Prop where
  expression : Reads (.expression e) ts
  level : ∀ l : Level, l.rank ≤ n → Reads (.level l e) ts
  call : 8 ≤ n → ReadsCall e ts

theorem readsAt_of_expression (h : Reads (.expression e) ts) : ReadsAt 0 e ts := by
  refine ⟨h, fun l hl => ?_, fun hn => ?_⟩
  · have hpos := rank_pos l
    omega
  · omega

theorem readsAt_of_level (h : Reads (.level l e) ts) : ReadsAt l.rank e ts := by
  have hdisjunction : Reads (.level .disjunction e) ts := reads_level_mono h (rank_pos l)
  refine ⟨.plain hdisjunction, fun m hm => reads_level_mono h hm, fun hn => ?_⟩
  have hle := rank_le_seven l
  omega

theorem readsAt_of_call (h : ReadsCall e ts) : ReadsAt 8 e ts := by
  have hunary : Reads (.level .unary e) ts := by
    obtain ⟨callee, us, vs, rfl, hp, hc⟩ := h
    exact .call hp hc
  have hat := readsAt_of_level hunary
  exact ⟨hat.expression, fun l _ => hat.level l (rank_le_seven l), fun _ => h⟩

theorem operator_mem {kind : Kind} (h : operatorLevel kind ≠ .unary) :
    kind ∈ (operatorLevel kind).operators := by
  cases kind <;> simp_all [operatorLevel, Level.operators]

theorem readsAt_operator (hl : operatorLevel operator.kind = l) (hu : l ≠ .unary)
    {m n : Nat} (h : ReadsAt m left ts) (hm : l.rank ≤ m) (hr : ReadsAt n right us)
    (hn : l.rank < n) : ReadsAt l.rank (l.node left operator right) (ts ++ operator :: us) := by
  have ho : operator.kind ∈ l.operators := by
    subst hl
    exact operator_mem hu
  have hnext := rank_next hu
  exact readsAt_of_level (reads_operator hu (h.level l hm) ho (hr.level l.next (by omega)))

section Function

variable {params : List Token} {body : List (Stmt Unit)}

theorem reads_parameters_of_shaped (h : ∀ p ∈ params, p.kind = .identifier) (hne : params ≠ []) :
    Reads (.parameters params) (params.intersperse (delimiter .comma)) := by
  induction params with
  | nil => exact absurd rfl hne
  | cons p ps ih =>
    have hp : p.kind = .identifier := h p (List.mem_cons_self ..)
    cases ps with
    | nil => exact .lastParameter hp
    | cons q qs =>
      have hrest := ih (fun r hr => h r (List.mem_cons_of_mem p hr)) (List.cons_ne_nil q qs)
      exact .moreParameters hp rfl hrest

theorem reads_function (hp : ShapedParameters params) (hb : Reads (.declarations false body) us) :
    Reads (.function params body) (functionTokens params us) := by
  cases params with
  | nil => exact .functionPlain rfl rfl rfl hb rfl
  | cons p ps =>
    have hparams := reads_parameters_of_shaped hp.2 (List.cons_ne_nil p ps)
    exact .function rfl hparams hp.1 rfl rfl hb rfl

end Function

theorem literal_kind (v : Literal) : literal? v.kind = some v := by
  cases v with
  | boolean b => cases b <;> rfl
  | _ => rfl

section Tree

/-- What is written for a statement is read as a declaration and, if it may stand alone, as a
statement. -/
def Written (inLoop : Bool) (s : Stmt Unit) : Prop :=
  Reads (.declaration inLoop s) s.tokens ∧
    (s.isBody = true → Reads (.statement inLoop s.isOpen s) s.tokens)

theorem written_of_statement {inLoop : Bool} {s : Stmt Unit}
    (h : Reads (.statement inLoop s.isOpen s) s.tokens) : Written inLoop s :=
  ⟨.statement h, fun _ => h⟩

mutual

theorem expr_readsAt (e : Expr Unit) (h : e.Shaped) : ReadsAt e.rank e e.tokens := by
  cases e with
  | literal v => exact readsAt_of_call (readsCall_of_primary (.literal (literal_kind v)))
  | group inner =>
    have hinner := expr_readsAt inner h
    exact readsAt_of_call (readsCall_of_primary (.group rfl hinner.expression rfl))
  | unary operator right =>
    obtain ⟨ho, hrank, hright⟩ := h
    have hr := expr_readsAt right hright
    exact readsAt_of_level (.unary ho (hr.level .unary hrank))
  | binary left operator right =>
    obtain ⟨hlevel, hlrank, hleft, hrrank, hright⟩ := h
    have hl := expr_readsAt left hleft
    have hr := expr_readsAt right hright
    have hu : operatorLevel operator.kind ≠ .unary := by
      rintro he
      simp [he] at hlevel
    have hnode : (operatorLevel operator.kind).node = .binary := by
      revert hlevel
      cases operatorLevel operator.kind <;> simp [Level.node]
    have hat := readsAt_operator rfl hu hl hlrank hr hrrank
    rwa [hnode] at hat
  | logical left operator right =>
    obtain ⟨hlevel, hlrank, hleft, hrrank, hright⟩ := h
    have hl := expr_readsAt left hleft
    have hr := expr_readsAt right hright
    have hu : operatorLevel operator.kind ≠ .unary := by
      rintro he
      simp [he] at hlevel
    have hnode : (operatorLevel operator.kind).node = .logical := by
      revert hlevel
      cases operatorLevel operator.kind <;> simp [Level.node]
    have hat := readsAt_operator rfl hu hl hlrank hr hrrank
    rwa [hnode] at hat
  | ident u name => exact readsAt_of_call (readsCall_of_primary (.ident h))
  | assign u name value =>
    obtain ⟨hn, hvalue⟩ := h
    have hv := expr_readsAt value hvalue
    exact readsAt_of_expression (.assign hn rfl hv.expression)
  | call callee paren args =>
    obtain ⟨hrank, hcallee, hp, hn, hargs⟩ := h
    have hc := expr_readsAt callee hcallee
    refine readsAt_of_call ((hc.call hrank).call rfl ?_ hp)
    cases args with
    | nil => exact .inl ⟨rfl, rfl⟩
    | cons e es => exact .inr ⟨hn, arguments_reads (e :: es) hargs (List.cons_ne_nil e es)⟩
  | lambda params body =>
    obtain ⟨hparams, hbody⟩ := h
    have hb := declarations_reads body false hbody
    exact readsAt_of_call (readsCall_of_primary (.lambda rfl (reads_function hparams hb)))

theorem arguments_reads (es : List (Expr Unit)) (h : Expr.AllShaped es) (hne : es ≠ []) :
    Reads (.arguments es) (Expr.allTokens es) := by
  cases es with
  | nil => exact absurd rfl hne
  | cons e es =>
    obtain ⟨he, hes⟩ := h
    have hfirst := (expr_readsAt e he).expression
    cases es with
    | nil => exact .lastArgument hfirst
    | cons e' es => exact .moreArguments hfirst rfl (arguments_reads _ hes (List.cons_ne_nil e' es))

theorem stmt_written (s : Stmt Unit) (inLoop : Bool) (h : s.Shaped inLoop) :
    Written inLoop s := by
  -- a declaration may not stand alone, so its second half is void
  cases s with
  | exprStmt e => exact written_of_statement (.exprStmt (expr_readsAt e h).expression rfl)
  | printStmt e => exact written_of_statement (.printStmt rfl (expr_readsAt e h).expression rfl)
  | varDecl name initial =>
    refine ⟨?_, fun hb => absurd hb (by simp [Stmt.isBody])⟩
    cases initial with
    | none => exact .varDecl rfl (.variablePlain h rfl)
    | some e =>
      obtain ⟨hn, he⟩ := h
      exact .varDecl rfl (.variableInitial hn rfl (expr_readsAt e he).expression rfl)
  | block body => exact written_of_statement (.block rfl (declarations_reads body inLoop h) rfl)
  | ifStmt condition yes no =>
    apply written_of_statement
    cases no with
    | none =>
      obtain ⟨hc, hbody, hy⟩ := h
      have hcondition := (expr_readsAt condition hc).expression
      exact .ifStmt rfl rfl hcondition rfl ((stmt_written yes inLoop hy).2 hbody)
    | some no =>
      obtain ⟨hc, hybody, hy, hopen, hnbody, hn⟩ := h
      have hcondition := (expr_readsAt condition hc).expression
      have hyes := (stmt_written yes inLoop hy).2 hybody
      have hno := (stmt_written no inLoop hn).2 hnbody
      rw [hopen] at hyes
      exact .ifElse rfl rfl hcondition rfl hyes rfl hno
  | whileStmt condition body =>
    obtain ⟨hc, hbody, hs⟩ := h
    have hcondition := (expr_readsAt condition hc).expression
    exact written_of_statement
      (.whileStmt rfl rfl hcondition rfl ((stmt_written body true hs).2 hbody))
  | breakStmt keyword =>
    obtain ⟨hk, rfl⟩ := h
    exact written_of_statement (.breakStmt hk rfl)
  | returnStmt keyword value =>
    apply written_of_statement
    cases value with
    | none => exact .returnStmt h .absent rfl
    | some e =>
      obtain ⟨hk, he⟩ := h
      exact .returnStmt hk (.present (expr_readsAt e he).expression) rfl
  | funDecl name params body =>
    refine ⟨?_, fun hb => absurd hb (by simp [Stmt.isBody])⟩
    obtain ⟨hn, hparams, hbody⟩ := h
    exact .funDecl rfl hn (reads_function hparams (declarations_reads body false hbody))

theorem declarations_reads (ss : List (Stmt Unit)) (inLoop : Bool)
    (h : Stmt.AllShaped inLoop ss) : Reads (.declarations inLoop ss) (Stmt.allTokens ss) := by
  cases ss with
  | nil => exact .declarationsEnd
  | cons s ss =>
    obtain ⟨hs, hss⟩ := h
    exact .declarationsStep (stmt_written s inLoop hs).1 (declarations_reads ss inLoop hss)

end

end Tree

end ScriptLang.Grammar
