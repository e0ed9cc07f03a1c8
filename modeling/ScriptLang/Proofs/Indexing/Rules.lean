import ScriptLang.Proofs.Indexing.Parts

namespace ScriptLang.Indexing

open Syntax Parsing
open Syntax.Indexed (Parser Step Action Rule Tokens)

variable {α β γ : Type} {tokens : Tokens} {body : List Token} {eof t : Token} {ts : List Token}
  {p q : Parser} {s : State}

structure FollowsRules (tokens : Tokens) (body : List Token) (eof : Token)
    (r : Rules Reader Unit) : Prop where
  tame : TameRules r
  expression : Follows body eof tokens.expression r.expression
  unary : Follows body eof tokens.unary r.unary
  statement : Follows body eof tokens.statement r.statement
  declaration : ∀ p s, Stands body p s → s.rest ≠ [] →
    ActsAs body p tokens.declaration (r.declaration eof s)

section Loop

variable (he : Ended tokens body eof)

include he

theorem items_follow {loop : Nat → Rule (List α)} {item : Rule α} {tooMany : Fault} {r : Reader α}
    (hround : ∀ count, loop count = do
      tokens.recordExcess tooMany count
      let first ← item
      if ← tokens.accepts .comma then do
        let others ← loop (count + 1)
        pure (first :: others)
      else pure [first])
    (h : Follows body eof item r) (bound count : Nat) :
    Follows body eof (loop count) (Reader.items tooMany r bound count) := by
  induction bound generalizing count with
  | zero => exact exhausted_follows _
  | succ bound ih =>
    rw [hround, Reader.items]
    refine (recordExcess_acts he tooMany count).lift.bind fun _ => h.bind fun first => ?_
    exact accepts_follows he (pure_follows [first]) fun _ =>
      ((ih (count + 1)).bind fun others => pure_follows (first :: others)).after

theorem parameters_follow (bound : Nat) :
    Follows body eof tokens.parameters
      (Reader.itemsBeforeParen .tooManyParameters (Reader.expect .identifier .noParameterName)
        bound) := by
  refine (check_acts he .rightParen).lift.bind fun close => ?_
  cases close with
  | true => exact pure_follows []
  | false =>
    exact items_follow he (fun count => by rw [Tokens.parametersFrom])
      (consume_follows he .identifier .noParameterName) bound 0

theorem operationsAfter_follow {level : Indexed.Level} {operand : Reader (Expr Unit)}
    (h : Follows body eof (tokens.operand level) operand) (bound : Nat)
    (left : Expr Unit) :
    Follows body eof (tokens.operationsAfter level left)
      (Syntax.chain level.kinds level.node operand bound left) := by
  induction bound generalizing left with
  | zero => exact exhausted_follows _
  | succ bound ih =>
    rw [Tokens.operationsAfter, Syntax.chain]
    exact acceptsAny_follows he (pure_follows left) fun operator => previous_follows <|
      h.bind fun right => ih (level.node left operator right)

theorem operation_follows {level : Indexed.Level} {operand : Reader (Expr Unit)}
    (h : Follows body eof (tokens.operand level) operand) (bound : Nat) :
    Follows body eof (tokens.operation level)
      (Syntax.level level.kinds level.node bound operand) := by
  rw [Tokens.operation]
  exact h.bind fun first => operationsAfter_follow he h bound first

omit he in
theorem note_lands {step : Step} (hc : Indexing.cursorOf step = p.cursor) (hsound : Sound step) :
    Lands p (Indexed.note step) fun _ q => Still p q :=
  ⟨(), { p with trail := p.trail ++ [step] }, rfl, .step (Nat.le_refl _) rfl hc hsound,
    ⟨rfl, rfl, rfl⟩⟩

omit he in
theorem Stands.cursor_lt_of_rest {u : State} (hs : Stands body p s) (hq : Stands body q u)
    (h : u.rest.length < s.rest.length) : p.cursor < q.cursor := by
  rw [← hs.rest, ← hq.rest, List.length_drop, List.length_drop] at h
  omega

omit he in
theorem declared_acts {n : Nat} {a : Action α} {r : Reader α} {f : α → Action β}
    {g : α → Reader β} (hr : TameAhead n 1 r) (hs : Stands body p s) (hne : s.rest ≠ [])
    (h : ActsAs body p a (r eof s)) (hf : ∀ x, Acts body eof (f x) (g x)) :
    ActsAs body p (do
      let before ← Indexed.getCursor
      let first ← a
      let after ← Indexed.getCursor
      Indexed.note (.declared before after)
      f first) ((r >>= g) eof s) := by
  refine ActsAs.prepared getCursor_lands fun before q ⟨hbefore, hq⟩ => ?_
  subst hbefore hq
  refine h.bind fun first k u hu hk => ?_
  refine ActsAs.prepared getCursor_lands fun after l ⟨hafter, hl⟩ => ?_
  subst hafter hl
  have hstays := hr eof s hne
  rw [hu] at hstays
  have hstep : Sound (.declared q.cursor l.cursor) := hs.cursor_lt_of_rest hk hstays.2
  exact ActsAs.prepared (note_lands rfl hstep) fun _ k hk' => hf first k u (hk.still hk')

theorem declarations_act {r : Rules Reader Unit} (h : FollowsRules tokens body eof r)
    (bound : Nat) :
    Acts body eof tokens.declarations (Syntax.declarations r.declaration bound) := by
  induction bound with
  | zero => exact fun _ _ _ => trivial
  | succ bound ih =>
    intro p s hs
    rw [Tokens.declarations, Syntax.declarations]
    refine ActsAs.bind (check_acts he .rightBrace p s hs) fun close q u _ hq => ?_
    cases close with
    | true => exact pure_lands ⟨rfl, hq⟩
    | false =>
      refine ActsAs.bind (atEnd_acts he q u hq) fun atEnd k v hv hk => ?_
      cases atEnd with
      | true => exact pure_lands ⟨rfl, hk⟩
      | false =>
        have hne : v.rest ≠ [] := by
          injection hv with hempty hvu
          subst hvu
          exact fun hnil => by simp [hnil] at hempty
        exact declared_acts h.tame.declaration hk hne (h.declaration k v hk hne) fun first k v hk =>
          (ih k v hk).bind fun others l w _ hl => pure_lands ⟨rfl, hl⟩

theorem block_follows {r : Rules Reader Unit} (h : FollowsRules tokens body eof r) :
    Follows body eof tokens.block (Syntax.block r) := by
  have hblock : tokens.block = (do
      let body ← liftM tokens.declarations
      let _ ← tokens.consume .rightBrace .noBraceAfterBlock
      pure body : Rule (List (Stmt Unit))) := by
    rw [Tokens.block]
    exact (ExceptT.run_bind_lift _ _).symm
  rw [hblock]
  exact (declarations_act he h r.bound).lift.bind fun body =>
    (consume_follows he .rightBrace .noBraceAfterBlock).bind fun _ => pure_follows body

end Loop

section Choice

theorem EndsAs.taken {a : Rule α} {f : Token → Option Kind → Reader α} {r : Reader α} {kind : Kind}
    (hr : s.rest = t :: ts) (hk : t.kind = kind)
    (hf : f t (some kind) = do let _ ← Reader.next; r)
    (h : EndsAs body q a (r eof { s with rest := ts })) :
    EndsAs body q a ((do
      let token ← Reader.peek
      let kind ← Reader.peekKind
      f token kind) eof s) := by
  have hchosen : (do
      let token ← Reader.peek
      let kind ← Reader.peekKind
      f token kind) eof s = (f t (some kind)) eof s := by
    simp only [Reader.bind_apply, Reader.peek, Reader.peekKind, hr, List.headD_cons,
      List.head?_cons, Option.map_some, hk]
  rw [hchosen, hf, Reader.bind_apply, Reader.next, hr]
  exact h

def literalOf : Kind → Option Literal
  | .falseWord => some (.boolean false)
  | .trueWord => some (.boolean true)
  | .nilWord => some .nil
  | .number x => some (.number x)
  | .string text => some (.string text)
  | _ => none

inductive LiteralRead (body : List Token) (s : State) (q : Parser) : Option Literal → Prop where
  | taken {t : Token} {ts : List Token} {value : Literal} (hr : s.rest = t :: ts)
    (hk : literalOf t.kind = some value) (hq : Stands body q { s with rest := ts }) :
    LiteralRead body s q (some value)
  | missing (hnone : ∀ t ts, s.rest = t :: ts → literalOf t.kind = none) (hq : Stands body q s) :
    LiteralRead body s q none

variable (he : Ended tokens body eof)

include he

theorem Lands.accepts {kind : Kind} {f : Bool → Action γ} {Q : γ → Parser → Prop}
    (hs : Stands body p s)
    (hhit : ∀ t ts q, s.rest = t :: ts → t.kind = kind → Stands body q { s with rest := ts } →
      Lands q (f true) Q)
    (hmiss : ∀ q, (∀ t ts, s.rest = t :: ts → t.kind ≠ kind) → Stands body q s →
      Lands q (f false) Q) :
    Lands p (tokens.accepts kind >>= f) Q := by
  refine (accepts_lands he hs kind).bind fun b q hb => ?_
  cases hb with
  | taken hr hk hq _ => exact hhit _ _ q hr (List.mem_singleton.mp hk) hq
  | missing hnone hq =>
    exact hmiss q (fun t ts hr heq => hnone t ts hr (List.mem_singleton.mpr heq)) hq

/-- A token that does not end the file is one the reader has left. -/
theorem Ended.head_of_kind (hs : Stands body p s) {kind : Kind}
    (hk : (s.rest.headD eof).kind = kind) (hne : kind ≠ .endOfFile) :
    ∃ t ts, s.rest = t :: ts ∧ t.kind = kind := by
  cases hr : s.rest with
  | nil => exact absurd (hk.symm.trans ((he.next_kind hs).mpr hr)) hne
  | cons t ts => exact ⟨t, ts, rfl, by simpa [hr] using hk⟩

theorem acceptLiteral_lands (hs : Stands body p s) :
    Lands p tokens.acceptLiteral fun found q => LiteralRead body s q found := by
  have hfound : ∀ {kind : Kind} {value : Literal}, literalOf kind = some value →
      ∀ t ts q, s.rest = t :: ts → t.kind = kind → Stands body q { s with rest := ts } →
        Lands q (pure (some value)) fun found q => LiteralRead body s q found :=
    fun hvalue t ts q hr hk hq => pure_lands (.taken hr (hk ▸ hvalue) hq)
  refine Lands.accepts he hs (hfound rfl) fun p hfalse hs => ?_
  refine Lands.accepts he hs (hfound rfl) fun p htrue hs => ?_
  refine Lands.accepts he hs (hfound rfl) fun p hnil hs => ?_
  refine (peek_lands he hs).bind fun next p ⟨hnext, hp⟩ => ?_
  have hs := hs.still hp
  subst hnext
  split
  · next x hx =>
    obtain ⟨t, ts, hr, hk⟩ := he.head_of_kind hs hx (by simp)
    exact (advance_lands he hs hr).bind fun _ q ⟨_, hq, _⟩ => hfound rfl t ts q hr hk hq
  · next hnumber =>
    refine (peek_lands he hs).bind fun next p ⟨hnext, hp⟩ => ?_
    have hs := hs.still hp
    subst hnext
    split
    · next text htext =>
      obtain ⟨t, ts, hr, hk⟩ := he.head_of_kind hs htext (by simp)
      exact (advance_lands he hs hr).bind fun _ q ⟨_, hq, _⟩ => hfound rfl t ts q hr hk hq
    · next hstring =>
      refine pure_lands (.missing (fun t ts hr => ?_) hs)
      rw [hr, List.headD_cons] at hnumber hstring
      have h₁ := hfalse t ts hr
      have h₂ := htrue t ts hr
      have h₃ := hnil t ts hr
      unfold literalOf
      split <;> first | rfl | simp_all

end Choice

section Expression

variable (he : Ended tokens body eof) {r : Rules Reader Unit} (h : FollowsRules tokens body eof r)

include he h

theorem function_follows :
    Follows body eof tokens.function (Syntax.function r) := by
  have hbody : Follows body eof tokens.functionBody
      (Reader.outsideLoops (Syntax.block r)) := by
    rw [Tokens.functionBody]
    exact outsideLoops_follows (block_follows he h)
  rw [Tokens.function]
  exact (consume_follows he _ _).bind fun _ => (parameters_follow he r.bound).bind fun params =>
    (consume_follows he _ _).bind fun _ => (consume_follows he _ _).bind fun _ =>
      hbody.bind fun body => pure_follows (params, body)

omit he h in
theorem primary_of_literal {value : Literal} (hr : s.rest = t :: ts)
    (hk : literalOf t.kind = some value) :
    Syntax.primary r eof s = .done (.literal value) { s with rest := ts } := by
  unfold literalOf at hk
  simp only [Syntax.primary, monadLift_self, Reader.bind_apply, Reader.peek, Reader.peekKind, hr,
    List.head?_cons, Option.map_some]
  split at hk <;> cases hk <;> simp [*, Reader.bind_apply, Reader.next, Reader.pure_apply]

omit he h in
theorem primary_of_other (hliteral : ∀ t ts, s.rest = t :: ts → literalOf t.kind = none)
    (hident : ∀ t ts, s.rest = t :: ts → t.kind ≠ .identifier)
    (hparen : ∀ t ts, s.rest = t :: ts → t.kind ≠ .leftParen)
    (hfun : ∀ t ts, s.rest = t :: ts → t.kind ≠ .funWord) :
    Syntax.primary r eof s = (Reader.peek >>= fun t => Reader.fail .noExpression t) eof s := by
  simp only [Syntax.primary, monadLift_self, Reader.bind_apply, Reader.peek, Reader.peekKind]
  cases hr : s.rest with
  | nil => rfl
  | cons t ts =>
    have hlit := hliteral t ts hr
    have hnone : t.kind ≠ .identifier ∧ t.kind ≠ .leftParen ∧ t.kind ≠ .funWord :=
      ⟨hident t ts hr, hparen t ts hr, hfun t ts hr⟩
    simp only [List.head?_cons, Option.map_some]
    generalize t.kind = kind at hlit hnone
    cases kind with
    | falseWord | trueWord | nilWord | number x | string text => cases hlit
    | identifier | leftParen | funWord => simp at hnone
    | _ => rfl

theorem primary_follows : Follows body eof tokens.primary (Syntax.primary r) := by
  intro p s hs
  rw [Tokens.primary]
  refine EndsAs.after (acceptLiteral_lands he hs) fun found p hfound => ?_
  cases hfound with
  | taken hr hk hq =>
    rw [primary_of_literal hr hk]
    exact ⟨_, p, rfl, .refl p, rfl, hq⟩
  | missing hnone hs =>
    refine accepts_ends he hs (fun t ts q hr hk hq hb => ?_) fun p hident hs => ?_
    · have hname : FollowsAfter tokens body eof t
          (liftM tokens.previous >>= fun name => pure (Expr.ident () name))
          (pure (Expr.ident () t)) := previous_follows (pure_follows _)
      exact EndsAs.taken hr hk rfl (hname q _ hq hb)
    refine accepts_ends he hs (fun t ts q hr hk hq _ => ?_) fun p hparen hs => ?_
    · have hgroup := h.expression.bind fun inner =>
        (consume_follows he .rightParen .noParenAfterExpression).bind fun _ =>
          pure_follows (Expr.group inner)
      exact EndsAs.taken hr hk rfl (hgroup q _ hq)
    refine accepts_ends he hs (fun t ts q hr hk hq _ => ?_) fun p hfun hs => ?_
    · have hlambda := (function_follows he h).bind fun f => pure_follows (Expr.lambda f.1 f.2)
      exact EndsAs.taken hr hk rfl (hlambda q _ hq)
    rw [primary_of_other hnone hident hparen hfun]
    exact failHere_follows he .noExpression p s hs

theorem callsAfter_follow (bound : Nat) (callee : Expr Unit) :
    Follows body eof (tokens.callsAfter callee) (Syntax.calls r bound callee) := by
  have harguments : Follows body eof tokens.arguments
      (Reader.itemsBeforeParen .tooManyArguments r.expression r.bound) := by
    rw [Tokens.arguments]
    refine (check_acts he .rightParen).lift.bind fun close => ?_
    cases close with
    | true => exact pure_follows []
    | false =>
      exact items_follow he (fun count => by rw [Tokens.argumentsFrom]) h.expression r.bound 0
  induction bound generalizing callee with
  | zero => exact exhausted_follows _
  | succ bound ih =>
    rw [Tokens.callsAfter, Syntax.calls]
    exact accepts_follows he (pure_follows callee) fun _ => Follows.after <|
      harguments.bind fun arguments => (consume_follows he _ _).bind fun paren =>
        ih (.call callee paren arguments)

theorem call_follows : Follows body eof tokens.call (Syntax.call r) := by
  rw [Tokens.call]
  exact (primary_follows he h).bind fun callee => callsAfter_follow he h r.bound callee

theorem unary_follows : Follows body eof tokens.unary (Syntax.unary r) := by
  rw [Tokens.unary]
  exact acceptsAny_follows he (call_follows he h) fun operator => previous_follows <|
    h.unary.bind fun right => pure_follows (Expr.unary operator right)

/-- From the tightest operators to the loosest, operands are those of the level before. -/
theorem disjunction_follows :
    Follows body eof (tokens.operation .disjunction) (Syntax.disjunction r) := by
  have hfactor : Follows body eof (tokens.operation .factor) (Syntax.factor r) :=
    operation_follows he (by rw [Tokens.operand]; exact unary_follows he h) r.bound
  have hterm : Follows body eof (tokens.operation .term) (Syntax.term r) :=
    operation_follows he (by rw [Tokens.operand]; exact hfactor) r.bound
  have hcomparison : Follows body eof (tokens.operation .comparison)
      (Syntax.comparison r) :=
    operation_follows he (by rw [Tokens.operand]; exact hterm) r.bound
  have hequality : Follows body eof (tokens.operation .equality) (Syntax.equality r) :=
    operation_follows he (by rw [Tokens.operand]; exact hcomparison) r.bound
  have hconjunction : Follows body eof (tokens.operation .conjunction)
      (Syntax.conjunction r) :=
    operation_follows he (by rw [Tokens.operand]; exact hequality) r.bound
  exact operation_follows he (by rw [Tokens.operand]; exact hconjunction) r.bound

theorem expression_follows :
    Follows body eof tokens.expression (Syntax.expression r) := by
  rw [Tokens.expression]
  refine (disjunction_follows he h).bind fun target => ?_
  refine accepts_follows he (pure_follows target) fun equal => previous_follows ?_
  refine h.expression.bind fun value => ?_
  cases target with
  | ident _ name => exact pure_follows (Expr.assign () name value)
  | _ => exact (record_acts _ _).lift.bind fun _ => pure_follows _

theorem expressionUnless_follows (kind : Kind) :
    Follows body eof (tokens.expressionUnless kind) (Syntax.expressionUnless r kind) := by
  rw [Tokens.expressionUnless]
  refine (check_acts he kind).lift.bind fun found => ?_
  cases found with
  | true => exact pure_follows none
  | false => exact (expression_follows he h).bind fun e => pure_follows (some e)

end Expression

section Statement

variable (he : Ended tokens body eof) {r : Rules Reader Unit} (h : FollowsRules tokens body eof r)

include he h

theorem variableDeclaration_follows :
    Follows body eof tokens.variableDeclaration (Syntax.variableDeclaration r) := by
  rw [Tokens.variableDeclaration]
  refine (consume_follows he _ _).bind fun name => accepts_follows he ?_ fun _ => Follows.after ?_
  · exact (consume_follows he _ _).bind fun _ => pure_follows (Stmt.varDecl name none)
  · exact (expression_follows he h).bind fun initial => (consume_follows he _ _).bind fun _ =>
      pure_follows (Stmt.varDecl name (some initial))

theorem expressionStatement_follows :
    Follows body eof tokens.expressionStatement (Syntax.expressionStatement r) := by
  rw [Tokens.expressionStatement]
  exact (expression_follows he h).bind fun e => (consume_follows he _ _).bind fun _ =>
    pure_follows (Stmt.exprStmt e)

theorem printStatement_follows :
    Follows body eof tokens.printStatement (Syntax.printStatement r) := by
  rw [Tokens.printStatement]
  exact (expression_follows he h).bind fun e => (consume_follows he _ _).bind fun _ =>
    pure_follows (Stmt.printStmt e)

theorem ifStatement_follows :
    Follows body eof tokens.ifStatement (Syntax.ifStatement r) := by
  rw [Tokens.ifStatement]
  refine (consume_follows he _ _).bind fun _ => (expression_follows he h).bind fun condition =>
    (consume_follows he _ _).bind fun _ => h.statement.bind fun yes => ?_
  exact accepts_follows he (pure_follows (Stmt.ifStmt condition yes none)) fun _ => Follows.after <|
    h.statement.bind fun no => pure_follows (Stmt.ifStmt condition yes (some no))

theorem whileClauses_follow :
    Follows body eof tokens.whileClauses (Syntax.whileStatement r) := by
  rw [Tokens.whileClauses]
  exact (consume_follows he _ _).bind fun _ => (expression_follows he h).bind fun condition =>
    (consume_follows he _ _).bind fun _ => h.statement.bind fun body =>
      pure_follows (Stmt.whileStmt condition body)

theorem forInitial_follows :
    Follows body eof tokens.forInitial (Syntax.forInitial r) := by
  rw [Tokens.forInitial]
  refine accepts_follows he (accepts_follows he ?_ fun _ => Follows.after ?_) fun _ =>
    (pure_follows none).after
  · exact (expressionStatement_follows he h).bind fun s => pure_follows (some s)
  · exact (variableDeclaration_follows he h).bind fun s => pure_follows (some s)

theorem forClauses_follow :
    Follows body eof tokens.forClauses (Syntax.forStatement r) := by
  rw [Tokens.forClauses]
  exact (consume_follows he _ _).bind fun _ => (forInitial_follows he h).bind fun initial =>
    (expressionUnless_follows he h .semicolon).bind fun condition =>
    (consume_follows he _ _).bind fun _ =>
    (expressionUnless_follows he h .rightParen).bind fun increment =>
    (consume_follows he _ _).bind fun _ => h.statement.bind fun body =>
      pure_follows (forLoop initial condition increment body)

theorem loop_follows :
    Follows body eof (tokens.insideLoop true)
        (Reader.insideLoop (Syntax.forStatement r)) ∧
      Follows body eof (tokens.insideLoop false)
        (Reader.insideLoop (Syntax.whileStatement r)) := by
  constructor
  · rw [Tokens.insideLoop]
    exact insideLoop_follows (forClauses_follow he h)
  · rw [Tokens.insideLoop]
    exact insideLoop_follows (whileClauses_follow he h)

omit h in
/-- The word has just been taken, so there is a token to look back at. -/
theorem breakStatement_follows :
    FollowsAfter tokens body eof t tokens.breakStatement
      (Syntax.breakStatement t) := by
  refine previous_follows (loopDepth_acts.lift.bind fun depth => ?_)
  by_cases hdepth : depth = 0
  · rw [if_pos hdepth, if_pos hdepth]
    exact throw_follows .breakOutsideLoop t
  · rw [if_neg hdepth, if_neg hdepth]
    exact (consume_follows he _ _).bind fun _ => pure_follows (Stmt.breakStmt t)

theorem returnStatement_follows :
    FollowsAfter tokens body eof t tokens.returnStatement
      (Syntax.returnStatement r t) := by
  rw [Tokens.returnStatement]
  exact previous_follows <| (expressionUnless_follows he h .semicolon).bind fun value =>
    (consume_follows he _ _).bind fun _ => pure_follows (Stmt.returnStmt t value)

omit he h in
theorem statement_of_other (hk : ∀ t ts, s.rest = t :: ts → t.kind ∉
      [.forWord, .ifWord, .whileWord, .breakWord, .returnWord, .leftBrace, .printWord]) :
    Syntax.statement r eof s = Syntax.expressionStatement r eof s := by
  simp only [Syntax.statement, monadLift_self, Reader.bind_apply, Reader.peek, Reader.peekKind]
  cases hr : s.rest with
  | nil => rfl
  | cons t ts =>
    have hnone := hk t ts hr
    simp only [List.head?_cons, Option.map_some]
    generalize t.kind = kind at hnone
    cases kind with
    | forWord | ifWord | whileWord | breakWord | returnWord | leftBrace | printWord =>
      simp at hnone
    | _ => rfl

theorem statement_follows : Follows body eof tokens.statement (Syntax.statement r) := by
  rw [Tokens.statement]
  refine Follows.look he fun _ p s hs => ?_
  refine accepts_ends he hs (fun t ts q hr hk hq _ => ?_) fun p hfor hs => ?_
  · exact EndsAs.taken hr hk rfl ((loop_follows he h).1 q _ hq)
  refine accepts_ends he hs (fun t ts q hr hk hq _ => ?_) fun p hif hs => ?_
  · exact EndsAs.taken hr hk rfl (ifStatement_follows he h q _ hq)
  refine accepts_ends he hs (fun t ts q hr hk hq _ => ?_) fun p hwhile hs => ?_
  · exact EndsAs.taken hr hk rfl ((loop_follows he h).2 q _ hq)
  refine accepts_ends he hs (fun t ts q hr hk hq hb => ?_) fun p hbreak hs => ?_
  · exact EndsAs.taken hr hk rfl (breakStatement_follows he q _ hq hb)
  refine accepts_ends he hs (fun t ts q hr hk hq hb => ?_) fun p hreturn hs => ?_
  · exact EndsAs.taken hr hk rfl (returnStatement_follows he h q _ hq hb)
  refine accepts_ends he hs (fun t ts q hr hk hq _ => ?_) fun p hbrace hs => ?_
  · exact EndsAs.taken hr hk rfl
      (((block_follows he h).bind fun body => pure_follows (Stmt.block body)) q _ hq)
  refine accepts_ends he hs (fun t ts q hr hk hq _ => ?_) fun p hprint hs => ?_
  · exact EndsAs.taken hr hk rfl (printStatement_follows he h q _ hq)
  rw [statement_of_other fun t ts hr => by
    simp [hfor t ts hr, hif t ts hr, hwhile t ts hr, hbreak t ts hr, hreturn t ts hr,
      hbrace t ts hr, hprint t ts hr]]
  exact expressionStatement_follows he h p s hs

end Statement

section Declaration

variable (he : Ended tokens body eof)

include he

theorem checkNext_lands (hs : Stands body p s) (hr : s.rest = t :: ts) (kind : Kind) :
    Lands p (tokens.checkNext kind) fun b q =>
      b = ((ts.headD eof).kind = kind) ∧ q = p := by
  have hnext := he.next (hs.forward (q := { p with cursor := p.cursor + 1 }) hr rfl rfl rfl)
  refine getCursor_lands.bind fun cursor q ⟨hc, hq⟩ => ?_
  subst hc hq
  refine pure_lands ⟨?_, rfl⟩
  rw [show tokens.list[q.cursor + 1]? = some (ts.headD eof) from hnext]
  simp

/-- A function is declared exactly where its reader finds the word and a name. -/
theorem checkFunction_lands (hs : Stands body p s) :
    Lands p tokens.checkFunction fun b q => Still p q ∧
      (b = true ↔ ∃ word name ts, s.rest = word :: name :: ts ∧ word.kind = .funWord ∧
        name.kind = .identifier) := by
  refine (check_lands he hs .funWord).bind fun b q ⟨hb, hq⟩ => ?_
  cases hr : s.rest with
  | nil =>
    rw [hr] at hb
    subst hb
    exact pure_lands ⟨hq, by simp⟩
  | cons word us =>
    by_cases hword : word.kind = .funWord
    · have htrue : b = true := by simp [hb, hr, hword]
      subst htrue
      refine (checkNext_lands he (hs.still hq) hr .identifier).weaken fun b k ⟨hb, hk⟩ => ?_
      subst hk
      refine ⟨hq, ?_⟩
      cases us with
      | nil => simp [hb, he.eof_kind]
      | cons name ts => simp [hb, hword]
    · have hfalse : b = false := by simp [hb, hr, hword]
      subst hfalse
      refine pure_lands ⟨hq, ?_⟩
      simp [hword]

variable {r : Rules Reader Unit} (h : FollowsRules tokens body eof r)

include h

theorem functionDeclaration_ends (hs : Stands body p s) (hr : s.rest = t :: ts)
    (hk : t.kind = .identifier) :
    EndsAs body p tokens.functionDeclaration ((do
      let (params, body) ← Syntax.function r
      pure (Stmt.funDecl t params body)) eof { s with rest := ts }) := by
  rw [Tokens.functionDeclaration]
  have hname : EndsAs body p tokens.consumeName (.done t { s with rest := ts }) := by
    refine EndsAs.after (check_lands he hs .identifier) fun b q ⟨hb, hq⟩ => ?_
    have htrue : b = true := by simp [hb, hr, hk]
    subst htrue
    exact ActsAs.lift (o := .done t { s with rest := ts })
      ((advance_lands he (hs.still hq) hr).weaken fun _ _ h => ⟨h.1, h.2.1⟩)
  exact hname.andThen fun q hq =>
    ((function_follows he h).bind fun f => pure_follows (Stmt.funDecl t f.1 f.2)) q _ hq

theorem declarationOrFail_follows :
    Follows body eof tokens.declarationOrFail (Syntax.declarationOrFail r) := by
  rw [Tokens.declarationOrFail]
  refine Follows.look he fun _ p s hs => ?_
  refine EndsAs.after (checkFunction_lands he hs) fun b q ⟨hq, hb⟩ => ?_
  have hsq := hs.still hq
  by_cases hf : ∃ word name ts, s.rest = word :: name :: ts ∧ word.kind = .funWord ∧
      name.kind = .identifier
  · have htrue := hb.mpr hf
    subst htrue
    obtain ⟨word, name, ts, hr, hword, hname⟩ := hf
    simp only [Syntax.declarationOrFail, monadLift_self]
    rw [bind_of_done (acceptFunctionName_hit hr hword hname)]
    exact EndsAs.after (advance_lands he hsq hr) fun _ k ⟨_, hk, _⟩ =>
      functionDeclaration_ends (s := { s with rest := name :: ts }) he h hk rfl hname
  · have hfalse : b = false := Bool.eq_false_iff.mpr fun htrue => hf (hb.mp htrue)
    subst hfalse
    have hnone : Syntax.acceptFunctionName eof s = .done none s :=
      acceptFunctionName_miss fun word name ts hr hk hi => hf ⟨word, name, ts, hr, hk, hi⟩
    simp only [Syntax.declarationOrFail, monadLift_self]
    rw [bind_of_done hnone]
    exact accepts_follows he (statement_follows he h)
      (fun _ => (variableDeclaration_follows he h).after) q s hsq

/-- After a failure, recovery has a token to drop or one to look back at. -/
theorem declaration_acts (hs : Stands body p s) (hne : s.rest ≠ []) :
    ActsAs body p tokens.declaration (Syntax.declaration r eof s) := by
  have hends := declarationOrFail_follows he h p s hs
  rw [Tokens.declaration]
  simp only [Syntax.declaration, Host.recovering, recovering]
  cases hr : Syntax.declarationOrFail r eof s with
  | exhausted => trivial
  | done stmt u =>
    refine (hends.of_done hr).bind fun x q hdone => ?_
    obtain ⟨rfl, hq⟩ := hdone
    exact pure_lands ⟨rfl, hq⟩
  | failed e u =>
    refine (hends.of_failed hr).bind fun x q hfailed => ?_
    obtain ⟨rfl, hq⟩ := hfailed
    refine (record_lands hq e).bind fun _ k hrecorded => ?_
    obtain ⟨hk, hcursor⟩ := hrecorded
    have hpos : u.rest = [] → 1 ≤ k.cursor := by
      intro hnil
      obtain ⟨t, ts, hcons⟩ := List.exists_cons_of_ne_nil hne
      have hlt := hs.cursor_lt hcons
      have hend : body.length ≤ q.cursor := List.drop_eq_nil_iff.mp (hq.rest.trans hnil)
      omega
    exact (synchronize_lands he hk hpos).bind fun _ l hl => pure_lands ⟨rfl, hl⟩

end Declaration

theorem rules_follow (he : Ended tokens body eof) (depth : Nat) :
    FollowsRules tokens body eof (Syntax.rules depth) := by
  induction depth with
  | zero =>
    exact ⟨rules_tame 0, exhausted_follows _, exhausted_follows _, exhausted_follows _,
      fun _ _ _ _ => trivial⟩
  | succ depth ih =>
    exact ⟨rules_tame (depth + 1), expression_follows he ih, unary_follows he ih,
      statement_follows he ih, fun _ _ hs hne => declaration_acts he ih hs hne⟩

end ScriptLang.Indexing
