import ScriptLang.Proofs.Parsing.Taking

namespace ScriptLang.Parsing

open Syntax Syntax.Reader Grammar

def Answers {α : Type} (n : Nat) (follow : List Token → Prop) (phrase : α → Phrase)
    (p : Reader α) : Prop :=
  ∀ ⦃a ts⦄, Reads (phrase a) ts → ts.length < n → ∀ d rest, follow rest → Takes p d ts rest a

def AnswersStatement (n : Nat) (p : Reader (Stmt Unit)) : Prop :=
  ∀ ⦃inLoop dangling s ts⦄, Reads (.statement inLoop dangling s) ts → ts.length < n →
    ∀ d rest, (inLoop = true → 0 < d) → (dangling = true → ¬ NextIs .elseWord rest) →
      Takes p d ts rest s

def AnswersDeclaration (n : Nat) (p : Reader (Option (Stmt Unit))) : Prop :=
  ∀ ⦃inLoop s ts⦄, Reads (.declaration inLoop s) ts → ts.length < n →
    ∀ d rest, (inLoop = true → 0 < d) → ¬ NextIs .elseWord rest → Takes p d ts rest (some s)

structure CompleteRules (r : Rules Reader Unit) : Prop where
  expression : Answers r.bound StopsExpression .expression r.expression
  unary : Answers r.bound Level.unary.Stops (.level .unary) r.unary
  statement : AnswersStatement r.bound r.statement
  declaration : AnswersDeclaration r.bound r.declaration

theorem Answers.before {n : Nat} {p : Reader (Expr Unit)}
    (h : Answers n StopsExpression .expression p) {e : Expr Unit} {d : Nat} {kind : Kind}
    {t : Token} {ts us : List Token} (he : Reads (.expression e) ts) (hn : ts.length < n)
    (hk : t.kind = kind) (hm : kind ∈ [.rightParen, .comma, .semicolon]) :
    Takes p d ts (t :: us) e :=
  h he hn d _ (stopsExpression_of_nextIs (nextIs_cons.mpr hk) hm)

section Repetition

variable {d : Nat} {ts rest : List Token}

theorem items_takes {α : Type} {R : List Token → α → Prop} {tooMany : Fault} {item : Reader α}
    {as : List α} {n : Nat} (h : ∀ ⦃ts a⦄, R ts a → ts.length < n → ∀ rest,
      (NextIs .comma rest ∨ NextIs .rightParen rest) → Takes item d ts rest a)
    (hs : Separated R ts as) (hn : ts.length < n) (hr : NextIs .rightParen rest)
    {bound count : Nat} (hb : as.length ≤ bound) (hc : count + as.length ≤ 255) :
    Takes (items tooMany item bound count) d ts rest as := by
  induction hs generalizing bound count with
  | @last ts a ha =>
    cases bound with
    | zero => simp at hb
    | succ bound =>
      have hlt : decide (255 ≤ count) = false := by
        simp only [List.length_singleton] at hc
        simp only [decide_eq_false_iff_not]
        omega
      unfold items
      rw [hlt]
      apply (recordIf_passes tooMany).first
      apply (h ha hn rest (.inr hr)).last
      exact accept_passes _ (hr.ne (by simp)) (pure_takes _)
  | @more ts us comma a as ha hcomma hs ih =>
    simp only [List.length_append, List.length_cons] at hn hb hc
    cases bound with
    | zero => omega
    | succ bound =>
      have hlt : decide (255 ≤ count) = false := by
        simp only [decide_eq_false_iff_not]
        omega
      have hfirst := h ha (by omega) (comma :: us ++ rest) (.inl (nextIs_cons.mpr hcomma))
      have hothers : Takes (items tooMany item bound (count + 1)) d us rest as :=
        ih (by omega) (by omega) (by omega)
      unfold items
      rw [hlt]
      apply (recordIf_passes tooMany).first
      apply hfirst.bind
      apply accept_takes _ hcomma
      exact hothers.last (pure_takes _)

theorem chain_takes {l : Level} (hl : l ≠ .unary) {operand : Reader (Expr Unit)} {n : Nat}
    (ho : Answers n l.next.Stops (.level l.next) operand) {bound : Nat} {left e : Expr Unit}
    (h : Reads (.chain l left e) ts) (hb : ts.length < bound) (hn : ts.length < n)
    (hs : l.Stops rest) : Takes (chain l.operators l.node operand bound left) d ts rest e := by
  induction bound generalizing left ts with
  | zero => simp at hb
  | succ bound ih =>
    cases h with
    | chainEnd => exact acceptAny_passes _ (hs.operators hl) (pure_takes e)
    | chainStep hop hr hc =>
      simp only [List.length_cons, List.length_append] at hb hn
      apply acceptAny_takes _ hop
      apply (ho hr (by omega) d _ (chain_stops hc hl hs)).bind
      exact ih hc (by omega) (by omega)

theorem level_takes {l : Level} (hl : l ≠ .unary) {operand : Reader (Expr Unit)} {bound : Nat}
    (ho : Answers (bound + 1) l.next.Stops (.level l.next) operand) :
    Answers (bound + 1) l.Stops (.level l) (level l.operators l.node bound operand) := by
  intro e ts h hn d rest hs
  cases h with
  | @level _ _ _ us vs _ h hc =>
    have hpos : 0 < us.length := h.opens.length_pos
    simp only [List.length_append] at hn
    apply (ho h (by omega) d _ (chain_stops hc hl hs)).bind
    exact chain_takes hl ho hc (by omega) (by omega) hs
  | unary => exact absurd rfl hl
  | call => exact absurd rfl hl

theorem declarations_takes {p : Reader (Option (Stmt Unit))} {n bound : Nat}
    (hp : AnswersDeclaration n p) {inLoop : Bool} {ss : List (Stmt Unit)}
    (h : Reads (.declarations inLoop ss) ts) (hb : ts.length < bound) (hn : ts.length < n)
    (hd : inLoop = true → 0 < d) (hr : NextIs .rightBrace rest) :
    Takes (declarations p bound) d ts rest ss := by
  induction bound generalizing ts ss with
  | zero => simp at hb
  | succ bound ih =>
    cases h with
    | declarationsEnd =>
      apply check_takes _ hr
      exact atEnd_takes _ (pure_takes _)
    | @declarationsStep _ _ _ us vs h hs =>
      have hpos : 0 < us.length := h.opens.length_pos
      simp only [List.length_append] at hb hn
      have hne : ((us ++ vs) ++ rest).isEmpty = false := by
        cases us with
        | nil => simp at hpos
        | cons => rfl
      have hothers := ih hs (by omega) (by omega)
      apply check_passes _ (h.opens.append.append.not_nextIs rfl)
      apply atEnd_takes
      rw [hne]
      apply (hp h (by omega) d _ hd (declarations_not_else hs (hr.ne (by simp)))).bind
      exact hothers.last (pure_takes _)

end Repetition

variable {r : Rules Reader Unit} {d : Nat} {ts rest : List Token}

theorem block_takes (h : CompleteRules r) {inLoop : Bool} {ss : List (Stmt Unit)} {close : Token}
    (hs : Reads (.declarations inLoop ss) ts) (hc : close.kind = .rightBrace)
    (hn : ts.length < r.bound) (hd : inLoop = true → 0 < d) :
    Takes (block r) d (ts ++ [close]) rest ss := by
  have hr : NextIs .rightBrace ([close] ++ rest) := nextIs_cons.mpr hc
  have hbody := declarations_takes h.declaration hs hn hn hd hr
  apply hbody.bind
  exact Takes.expect _ _ hc (pure_takes ss)

theorem parameters_takes {params : List Token} (hp : Reads (.parameters params) ts)
    (hn : params.length ≤ 255) {bound : Nat} (hb : ts.length < bound)
    (hr : NextIs .rightParen rest) :
    Takes (itemsBeforeParen .tooManyParameters (expect .identifier .noParameterName) bound) d ts
      rest params := by
  have hs := reads_parameters.mp hp
  have hlen := hs.length_le
  have hnext : ¬ NextIs .rightParen (ts ++ rest) := by
    cases hp with
    | lastParameter h | moreParameters h => exact (nextIs_cons.mpr h).ne (by simp)
  apply check_passes _ hnext
  refine items_takes ?_ hs (Nat.lt_succ_self _) hr (by omega) (by omega)
  rintro us p ⟨rfl, hk⟩ _ rest' _
  exact expect_takes _ hk

theorem arguments_takes (h : CompleteRules r) {args : List (Expr Unit)}
    (ha : Reads (.arguments args) ts) (hn : args.length ≤ 255) (hb : ts.length < r.bound)
    (hr : NextIs .rightParen rest) :
    Takes (itemsBeforeParen .tooManyArguments r.expression r.bound) d ts rest args := by
  have hs := reads_arguments.mp ha
  have hlen := hs.length_le
  have hnext : ¬ NextIs .rightParen (ts ++ rest) := ha.opens.append.not_nextIs rfl
  apply check_passes _ hnext
  refine items_takes ?_ hs hb hr (by omega) (by omega)
  intro us e he hlt rest' hr'
  apply h.expression he hlt d rest'
  cases hr' with
  | inl hc => exact stopsExpression_of_nextIs hc (by simp)
  | inr hp => exact stopsExpression_of_nextIs hp (by simp)

theorem noItems_takes {α : Type} (tooMany : Fault) (item : Reader α) (bound : Nat)
    (hr : NextIs .rightParen rest) : Takes (itemsBeforeParen tooMany item bound) d [] rest [] :=
  check_takes _ hr (pure_takes [])

theorem function_takes (h : CompleteRules r) {params : List Token} {body : List (Stmt Unit)}
    (hf : Reads (.function params body) ts) (hn : ts.length < r.bound) :
    Takes (function r) d ts rest (params, body) := by
  cases hf with
  | @functionPlain _ left right brace close us hl hr hb hs hc =>
    simp only [List.length_cons, List.length_append, List.length_nil] at hn
    have hparams : Takes (itemsBeforeParen .tooManyParameters (expect .identifier .noParameterName)
        r.bound) d [] (right :: brace :: (us ++ [close]) ++ rest) [] :=
      noItems_takes _ _ _ (nextIs_cons.mpr hr)
    have hbody : Takes (block r) 0 (us ++ [close]) rest body :=
      block_takes h hs hc (by omega) (by simp)
    apply Takes.expect _ _ hl
    apply hparams.first
    apply Takes.expect _ _ hr
    apply Takes.expect _ _ hb
    exact (outsideLoops_takes hbody).last (pure_takes _)
  | @function _ _ left right brace close vs us hl hp hlen hr hb hs hc =>
    simp only [List.length_cons, List.length_append, List.length_nil] at hn
    have hparams : Takes (itemsBeforeParen .tooManyParameters (expect .identifier .noParameterName)
        r.bound) d vs (right :: brace :: (us ++ [close]) ++ rest) params :=
      parameters_takes hp hlen (by omega) (nextIs_cons.mpr hr)
    have hbody : Takes (block r) 0 (us ++ [close]) rest body :=
      block_takes h hs hc (by omega) (by simp)
    apply Takes.expect _ _ hl
    apply hparams.bind
    apply Takes.expect _ _ hr
    apply Takes.expect _ _ hb
    exact (outsideLoops_takes hbody).last (pure_takes _)

theorem primary_takes (h : CompleteRules r) {e : Expr Unit} (he : Reads (.primary e) ts)
    (hn : ts.length < r.bound + 1) : Takes (primary r) d ts rest e := by
  cases he with
  | @literal v t hv =>
    apply look_takes _ rfl
    cases hk : t.kind <;> rw [hk] at hv <;> cases hv <;> exact next_takes _ (pure_takes _)
  | ident hk =>
    apply look_takes _ hk
    exact next_takes _ (pure_takes _)
  | group hl hi hr =>
    simp only [List.length_cons, List.length_append, List.length_nil] at hn
    apply look_takes _ hl
    apply next_takes
    apply (h.expression.before hi (by omega) hr (by simp)).bind
    exact Takes.expect _ _ hr (pure_takes _)
  | lambda hw hf =>
    simp only [List.length_cons] at hn
    apply look_takes _ hw
    apply next_takes
    exact (function_takes h hf (by omega)).last (pure_takes _)

theorem calls_takes (h : CompleteRules r) {bound : Nat} {callee e : Expr Unit}
    (hc : Reads (.calls callee e) ts) (hb : ts.length < bound) (hn : ts.length < r.bound)
    (hs : Level.unary.Stops rest) : Takes (calls r bound callee) d ts rest e := by
  induction bound generalizing callee ts with
  | zero => simp at hb
  | succ bound ih =>
    cases hc with
    | callsEnd =>
      have hnext : ¬ NextIs .leftParen rest := hs .leftParen (by simp [Level.continuing])
      exact accept_passes _ hnext (pure_takes _)
    | callsPlain hl hp hc =>
      simp only [List.length_cons] at hb hn
      apply accept_takes _ hl
      apply (noItems_takes _ _ _ (nextIs_cons.mpr hp)).first
      apply Takes.expect _ _ hp
      exact ih hc (by omega) (by omega)
    | callsStep hl ha hlen hp hc =>
      simp only [List.length_cons, List.length_append] at hb hn
      apply accept_takes _ hl
      apply (arguments_takes h ha hlen (by omega) (nextIs_cons.mpr hp)).bind
      apply Takes.expect _ _ hp
      exact ih hc (by omega) (by omega)

theorem unary_takes (h : CompleteRules r) :
    Answers (r.bound + 1) Level.unary.Stops (.level .unary) (unary r) := by
  intro e ts he hn d rest hs
  cases he with
  | level hl => exact absurd rfl hl
  | unary ho hr =>
    simp only [List.length_cons] at hn
    apply acceptAny_takes _ ho
    exact (h.unary hr (by omega) d rest hs).last (pure_takes _)
  | @call _ _ us vs hp hc =>
    have hpos : 0 < us.length := hp.opens.length_pos
    simp only [List.length_append] at hn
    apply acceptAny_passes _ (primary_not_operator hp)
    apply (primary_takes h hp (by omega)).bind
    exact calls_takes h hc (by omega) (by omega) hs

theorem disjunction_takes (h : CompleteRules r) :
    Answers (r.bound + 1) Level.disjunction.Stops (.level .disjunction) (disjunction r) := by
  have hf := level_takes (l := .factor) (by decide) (unary_takes h)
  have ht := level_takes (l := .term) (by decide) hf
  have hc := level_takes (l := .comparison) (by decide) ht
  have he := level_takes (l := .equality) (by decide) hc
  have ha := level_takes (l := .conjunction) (by decide) he
  exact level_takes (l := .disjunction) (by decide) ha

theorem expression_takes (h : CompleteRules r) :
    Answers (r.bound + 1) StopsExpression .expression (expression r) := by
  intro e ts he hn d rest hs
  cases he with
  | @assign name equal value us hname hequal hv =>
    simp only [List.length_cons] at hn
    have hleft : Takes (disjunction r) d [name] (equal :: us ++ rest) (.ident () name) := by
      have hl := reads_level_of_primary (.ident hname)
      have hstop : Level.disjunction.Stops (equal :: us ++ rest) :=
        Level.stops_of_nextIs (nextIs_cons.mpr hequal) (by simp)
      exact disjunction_takes h hl (by simp; omega) d _ hstop
    apply hleft.bind
    apply accept_takes _ hequal
    exact (h.expression hv (by omega) d rest hs).last (pure_takes _)
  | plain hl =>
    apply (disjunction_takes h hl hn d rest hs.1).last
    exact accept_passes _ hs.2 (pure_takes _)

section Statement

/-- An optional expression up to a token that no expression begins with. -/
theorem expressionUnless_takes (h : CompleteRules r) {o : Option (Expr Unit)} {kind : Kind}
    {t : Token} {us : List Token} (ho : Reads (.optional o) ts) (hn : ts.length < r.bound + 1)
    (hk : t.kind = kind) (hm : kind ∈ [.rightParen, .semicolon]) :
    Takes (expressionUnless r kind) d ts (t :: us) o := by
  cases ho with
  | absent => exact check_takes _ (nextIs_cons.mpr hk) (pure_takes _)
  | present he =>
    have hfollow : kind ∈ [.rightParen, .comma, .semicolon] := by
      simp only [List.mem_cons, List.not_mem_nil, or_false] at hm ⊢
      tauto
    have hopen : startsExpression kind = false := by
      simp only [List.mem_cons, List.not_mem_nil, or_false] at hm
      obtain rfl | rfl := hm <;> rfl
    apply check_passes _ (he.opens.append.not_nextIs hopen)
    exact ((expression_takes h).before he hn hk hfollow).last (pure_takes _)

theorem variableDeclaration_takes (h : CompleteRules r) {s : Stmt Unit}
    (hs : Reads (.variable s) ts) (hn : ts.length < r.bound + 1) :
    Takes (variableDeclaration r) d ts rest s := by
  cases hs with
  | variablePlain hname hsemi =>
    apply Takes.expect _ _ hname
    apply accept_passes _ ((nextIs_cons.mpr hsemi).ne (by simp))
    exact Takes.expect _ _ hsemi (pure_takes _)
  | variableInitial hname hequal he hsemi =>
    simp only [List.length_cons, List.length_append, List.length_nil] at hn
    apply Takes.expect _ _ hname
    apply accept_takes _ hequal
    apply ((expression_takes h).before he (by omega) hsemi (by simp)).bind
    exact Takes.expect _ _ hsemi (pure_takes _)

theorem beforeSemicolon_takes (h : CompleteRules r) (fault : Fault) (f : Expr Unit → Stmt Unit)
    {e : Expr Unit} {semi : Token} (he : Reads (.expression e) ts) (hn : ts.length < r.bound + 1)
    (hs : semi.kind = .semicolon) :
    Takes (do let e ← expression r; let _ ← expect .semicolon fault; pure (f e)) d (ts ++ [semi])
      rest (f e) := by
  apply ((expression_takes h).before he hn hs (by simp)).bind
  exact Takes.expect _ _ hs (pure_takes _)

theorem forInitial_takes (h : CompleteRules r) {o : Option (Stmt Unit)}
    (ho : Reads (.initial o) ts) (hn : ts.length < r.bound + 1) :
    Takes (forInitial r) d ts rest o := by
  cases ho with
  | initialNone hs => exact accept_takes _ hs (pure_takes _)
  | initialVariable hw hv =>
    simp only [List.length_cons] at hn
    apply accept_passes _ ((nextIs_cons.mpr hw).ne (by simp))
    apply accept_takes _ hw
    exact (variableDeclaration_takes h hv (by omega)).last (pure_takes _)
  | initialExpression he hs =>
    simp only [List.length_append] at hn
    apply accept_passes _ (he.opens.append.append.not_nextIs rfl)
    apply accept_passes _ (he.opens.append.append.not_nextIs rfl)
    exact (beforeSemicolon_takes h _ .exprStmt he (by omega) hs).last (pure_takes _)

theorem ifStatement_takes (h : CompleteRules r) {inLoop dangling : Bool} {left right : Token}
    {condition : Expr Unit} {yes : Stmt Unit} {us : List Token} (hl : left.kind = .leftParen)
    (hc : Reads (.expression condition) ts) (hr : right.kind = .rightParen)
    (hy : Reads (.statement inLoop dangling yes) us) (hn : ts.length + us.length + 2 < r.bound)
    (hd : inLoop = true → 0 < d) (hopen : ¬ NextIs .elseWord rest) :
    Takes (ifStatement r) d (left :: (ts ++ right :: us)) rest (.ifStmt condition yes none) := by
  apply Takes.expect _ _ hl
  apply ((expression_takes h).before hc (by omega) hr (by simp)).bind
  apply Takes.expect _ _ hr
  apply (h.statement hy (by omega) d rest hd fun _ => hopen).last
  exact accept_passes _ hopen (pure_takes _)

theorem ifElse_takes (h : CompleteRules r) {inLoop dangling : Bool} {left right other : Token}
    {condition : Expr Unit} {yes no : Stmt Unit} {us vs : List Token}
    (hl : left.kind = .leftParen) (hc : Reads (.expression condition) ts)
    (hr : right.kind = .rightParen) (hy : Reads (.statement inLoop false yes) us)
    (ho : other.kind = .elseWord) (hno : Reads (.statement inLoop dangling no) vs)
    (hn : ts.length + us.length + vs.length + 3 < r.bound) (hd : inLoop = true → 0 < d)
    (hopen : dangling = true → ¬ NextIs .elseWord rest) :
    Takes (ifStatement r) d (left :: (ts ++ right :: (us ++ other :: vs))) rest
      (.ifStmt condition yes (some no)) := by
  apply Takes.expect _ _ hl
  apply ((expression_takes h).before hc (by omega) hr (by simp)).bind
  apply Takes.expect _ _ hr
  apply (h.statement hy (by omega) d _ hd (by simp)).bind
  apply accept_takes _ ho
  exact (h.statement hno (by omega) d rest hd hopen).last (pure_takes _)

theorem whileStatement_takes (h : CompleteRules r) {dangling : Bool} {left right : Token}
    {condition : Expr Unit} {body : Stmt Unit} {us : List Token} (hl : left.kind = .leftParen)
    (hc : Reads (.expression condition) ts) (hr : right.kind = .rightParen)
    (hb : Reads (.statement true dangling body) us) (hn : ts.length + us.length + 2 < r.bound)
    (hopen : dangling = true → ¬ NextIs .elseWord rest) :
    Takes (insideLoop (whileStatement r)) d (left :: (ts ++ right :: us)) rest
      (.whileStmt condition body) := by
  apply insideLoop_takes
  apply Takes.expect _ _ hl
  apply ((expression_takes h).before hc (by omega) hr (by simp)).bind
  apply Takes.expect _ _ hr
  exact (h.statement hb (by omega) _ rest (by simp) hopen).last (pure_takes _)

theorem forStatement_takes (h : CompleteRules r) {dangling : Bool} {left semi right : Token}
    {initial : Option (Stmt Unit)} {condition increment : Option (Expr Unit)} {body : Stmt Unit}
    {us vs ws : List Token} (hl : left.kind = .leftParen) (hi : Reads (.initial initial) ts)
    (hc : Reads (.optional condition) us) (hs : semi.kind = .semicolon)
    (hi' : Reads (.optional increment) vs) (hr : right.kind = .rightParen)
    (hb : Reads (.statement true dangling body) ws)
    (hn : ts.length + us.length + vs.length + ws.length + 3 < r.bound)
    (hopen : dangling = true → ¬ NextIs .elseWord rest) :
    Takes (insideLoop (forStatement r)) d
      (left :: (ts ++ (us ++ semi :: (vs ++ right :: ws)))) rest
      (forLoop initial condition increment body) := by
  apply insideLoop_takes
  apply Takes.expect _ _ hl
  apply (forInitial_takes h hi (by omega)).bind
  apply (expressionUnless_takes h hc (by omega) hs (by simp)).bind
  apply Takes.expect _ _ hs
  apply (expressionUnless_takes h hi' (by omega) hr (by simp)).bind
  apply Takes.expect _ _ hr
  exact (h.statement hb (by omega) _ rest (by simp) hopen).last (pure_takes _)

theorem breakStatement_takes {keyword semi : Token} (hd : d ≠ 0) (hs : semi.kind = .semicolon) :
    Takes (breakStatement keyword) d [semi] rest (Stmt.breakStmt keyword : Stmt Unit) := by
  apply loopDepth_takes
  rw [if_neg hd]
  exact Takes.expect _ _ hs (pure_takes _)

theorem statement_takes (h : CompleteRules r) : AnswersStatement (r.bound + 1) (statement r) := by
  intro inLoop dangling s ts hst hn d rest hd hopen
  cases hst with
  | exprStmt he hs =>
    simp only [List.length_append, List.length_nil, List.length_cons] at hn
    have hplain : Takes (expressionStatement r) d _ rest _ :=
      beforeSemicolon_takes h _ .exprStmt he (by omega) hs
    obtain ⟨t, us, rfl, hstart, _⟩ := he.opens
    apply look_takes _ rfl
    cases hk : t.kind <;> rw [hk] at hstart <;> first
      | exact hplain
      | cases hstart
  | printStmt hw he hs =>
    simp only [List.length_cons, List.length_append] at hn
    apply look_takes _ hw
    apply next_takes
    exact beforeSemicolon_takes h _ .printStmt he (by omega) hs
  | block hb hss hc =>
    simp only [List.length_cons, List.length_append, List.length_nil] at hn
    apply look_takes _ hb
    apply next_takes
    exact (block_takes h hss hc (by omega) hd).last (pure_takes _)
  | ifStmt hw hl hc hr hy =>
    simp only [List.length_cons, List.length_append] at hn
    apply look_takes _ hw
    apply next_takes
    exact ifStatement_takes h hl hc hr hy (by omega) hd (hopen rfl)
  | ifElse hw hl hc hr hy ho hno =>
    simp only [List.length_cons, List.length_append] at hn
    apply look_takes _ hw
    apply next_takes
    exact ifElse_takes h hl hc hr hy ho hno (by omega) hd hopen
  | whileStmt hw hl hc hr hb =>
    simp only [List.length_cons, List.length_append] at hn
    apply look_takes _ hw
    apply next_takes
    exact whileStatement_takes h hl hc hr hb (by omega) hopen
  | forStmt hw hl hi hc hs hi' hr hb =>
    simp only [List.length_cons, List.length_append] at hn
    apply look_takes _ hw
    apply next_takes
    exact forStatement_takes h hl hi hc hs hi' hr hb (by omega) hopen
  | breakStmt hw hs =>
    have hd' : d ≠ 0 := Nat.pos_iff_ne_zero.mp (hd rfl)
    apply look_takes _ hw
    apply next_takes
    exact breakStatement_takes hd' hs
  | returnStmt hw hv hs =>
    simp only [List.length_cons, List.length_append, List.length_nil] at hn
    apply look_takes _ hw
    apply next_takes
    apply (expressionUnless_takes h hv (by omega) hs (by simp)).bind
    exact Takes.expect _ _ hs (pure_takes _)

theorem declarationOrFail_takes (h : CompleteRules r) {inLoop : Bool} {s : Stmt Unit}
    (hs : Reads (.declaration inLoop s) ts) (hn : ts.length < r.bound + 1)
    (hd : inLoop = true → 0 < d) (hrest : ¬ NextIs .elseWord rest) :
    Takes (declarationOrFail r) d ts rest s := by
  cases hs with
  | funDecl hw hname hf =>
    simp only [List.length_cons] at hn
    apply acceptFunctionName_takes _ hw hname
    exact (function_takes h hf (by omega)).last (pure_takes _)
  | @varDecl _ word _ us hw hv =>
    simp only [List.length_cons] at hn
    have hnot : ∀ w vs, word :: us ++ rest = w :: vs → w.kind = .funWord →
        ¬ NextIs .identifier vs := by
      rintro w vs he hk
      cases he
      cases hw.symm.trans hk
    apply acceptFunctionName_passes _ hnot
    apply accept_takes _ hw
    exact variableDeclaration_takes h hv (by omega)
  | statement hst =>
    apply acceptFunctionName_passes _ hst.opens.append.not_function
    apply accept_passes _ (hst.opens.append.not_nextIs rfl (by simp [statementWords]))
    exact statement_takes h hst hn d rest hd fun _ => hrest

theorem declaration_takes (h : CompleteRules r) :
    AnswersDeclaration (r.bound + 1) (declaration r) := by
  intro inLoop s ts hs hn d rest hd hrest eof errors
  simp only [declaration, Host.recovering, recovering,
    declarationOrFail_takes h hs hn hd hrest eof errors]

end Statement

theorem rules_complete (depth : Nat) : CompleteRules (Syntax.rules depth) := by
  induction depth with
  | zero =>
    have hzero {n : Nat} (h : n < (Syntax.rules 0).bound) : False := Nat.not_lt_zero n h
    exact ⟨fun _ _ _ h => (hzero h).elim, fun _ _ _ h => (hzero h).elim,
      fun _ _ _ _ _ h => (hzero h).elim, fun _ _ _ _ h => (hzero h).elim⟩
  | succ depth ih =>
    have hb : (Syntax.rules depth).bound = depth := by cases depth <;> rfl
    have he := expression_takes ih
    have hu := unary_takes ih
    have hs := statement_takes ih
    have hd := declaration_takes ih
    rw [hb] at he hu hs hd
    exact ⟨he, hu, hs, hd⟩

theorem program_takes {p : Reader (Option (Stmt Unit))} {n bound : Nat}
    (hp : AnswersDeclaration n p) {inLoop : Bool} {ss : List (Stmt Unit)}
    (h : Reads (.declarations inLoop ss) ts) (hb : ts.length < bound) (hn : ts.length < n)
    (hd : inLoop = true → 0 < d) : Takes (program p bound) d ts [] ss := by
  induction bound generalizing ts ss with
  | zero => simp at hb
  | succ bound ih =>
    cases h with
    | declarationsEnd => exact atEnd_takes _ (pure_takes _)
    | @declarationsStep _ _ _ us vs h hs =>
      have hpos : 0 < us.length := h.opens.length_pos
      simp only [List.length_append] at hb hn
      have hne : (us ++ vs ++ []).isEmpty = false := by
        cases us with
        | nil => simp at hpos
        | cons => rfl
      have hothers := ih hs (by omega) (by omega)
      apply atEnd_takes
      rw [hne]
      apply (hp h (by omega) d _ hd (declarations_not_else hs not_nextIs_nil)).bind
      exact hothers.last (pure_takes _)

end ScriptLang.Parsing
