import ScriptLang.Proofs.Parsing.Spelling

namespace ScriptLang.Parsing

open Syntax Syntax.Reader Grammar

def SpellsStatement (depth : Nat) (ts : List Token) (st : Stmt Unit) (rest : List Token) : Prop :=
  ∃ dangling, Reads (.statement (decide (0 < depth)) dangling st) ts ∧
    (dangling = true → ¬ NextIs .elseWord rest)

structure SoundRules (r : Rules Reader Unit) : Prop where
  expression : ∀ eof s, Spells (fun ts e _ => Reads (.expression e) ts) s (r.expression eof s)
  unary : ∀ eof s, Spells (fun ts e _ => Reads (.level .unary e) ts) s (r.unary eof s)
  statement : ∀ eof s, Spells (SpellsStatement s.loopDepth) s (r.statement eof s)
  declaration : ∀ eof s, Spells (fun ts o _ => ∃ st, o = some st ∧
    Reads (.declaration (decide (0 < s.loopDepth)) st) ts) s (r.declaration eof s)

section Repetition

variable {α : Type}

theorem items_spells {R : List Token → α → Prop} {tooMany : Fault} {item : Reader α}
    (h : ∀ eof s, Spells (fun ts a _ => R ts a) s (item eof s)) (bound count : Nat) (eof : Token)
    (s : State) : Spells (fun ts as _ => Separated R ts as ∧ count + as.length ≤ 255) s
      (items tooMany item bound count eof s) := by
  induction bound generalizing count s with
  | zero => trivial
  | succ bound ih =>
    refine (recordIf_spells _ tooMany eof s).bind fun _ t => ?_
    refine (h eof t).bind fun first u => ?_
    refine accept_bind_spells (fun _ => ?_) fun comma v hc _ => ?_
    · refine pure_spells fun ts _ ha us _ hu => ?_
      obtain ⟨rfl, hlt⟩ := hu
      have hlt' : ¬ 255 ≤ count := of_decide_eq_false hlt
      refine ⟨by simpa using Separated.last ha, ?_⟩
      simp only [List.length_singleton]
      omega
    · refine (ih (count + 1) v).bind fun others w => ?_
      refine pure_spells fun vs _ hv ts _ ha us _ hu => ?_
      obtain ⟨rfl, _⟩ := hu
      refine ⟨by simpa using Separated.more ha hc hv.1, ?_⟩
      have hlen := hv.2
      simp only [List.length_cons]
      omega

theorem itemsBeforeParen_spells {R : List Token → α → Prop} {tooMany : Fault} {item : Reader α}
    (h : ∀ eof s, Spells (fun ts a _ => R ts a) s (item eof s)) (bound : Nat) (eof : Token)
    (s : State) : Spells (fun ts as _ => ts = [] ∧ as = [] ∨ Separated R ts as ∧ as.length ≤ 255) s
      (itemsBeforeParen tooMany item bound eof s) := by
  refine check_bind_spells (fun _ => pure_spells (.inl ⟨rfl, rfl⟩)) fun _ => ?_
  refine (items_spells h bound 0 eof s).mono fun ts as _ ha => .inr ⟨ha.1, ?_⟩
  simpa using ha.2

theorem chain_spells {l : Level} {operand : Reader (Expr Unit)}
    (h : ∀ eof s, Spells (fun ts e _ => Reads (.level l.next e) ts) s (operand eof s))
    (bound : Nat) (left : Expr Unit) (eof : Token) (s : State) :
    Spells (fun ts e _ => Reads (.chain l left e) ts) s
      (chain l.operators l.node operand bound left eof s) := by
  induction bound generalizing left s with
  | zero => trivial
  | succ bound ih =>
    refine acceptAny_bind_spells (fun _ => pure_spells .chainEnd) fun operator t ho _ => ?_
    refine (h eof t).bind fun right u => ?_
    refine (ih (l.node left operator right) u).mono fun us e _ he ts _ hr => ?_
    exact .chainStep ho hr he

theorem level_spells {l : Level} (hl : l ≠ .unary) {operand : Reader (Expr Unit)}
    (h : ∀ eof s, Spells (fun ts e _ => Reads (.level l.next e) ts) s (operand eof s))
    (bound : Nat) (eof : Token) (s : State) :
    Spells (fun ts e _ => Reads (.level l e) ts) s
      (level l.operators l.node bound operand eof s) := by
  refine (h eof s).bind fun first t => ?_
  refine (chain_spells h bound first eof t).mono fun us e _ he ts _ hf => ?_
  exact .level hl hf he

theorem declarations_spells {p : Reader (Option (Stmt Unit))}
    (h : ∀ eof s, Spells (fun ts o _ => ∃ st, o = some st ∧
      Reads (.declaration (decide (0 < s.loopDepth)) st) ts) s (p eof s))
    (bound : Nat) (eof : Token) (s : State) :
    Spells (fun ts ss _ => Reads (.declarations (decide (0 < s.loopDepth)) ss) ts) s
      (declarations p bound eof s) := by
  induction bound generalizing s with
  | zero => trivial
  | succ bound ih =>
    have hstep : Spells (fun ts ss _ => Reads (.declarations (decide (0 < s.loopDepth)) ss) ts) s
        ((do
          let first ← p
          let others ← declarations p bound
          pure (first.toList ++ others) : Reader (List (Stmt Unit))) eof s) := by
      refine (h eof s).bind fun first t => ?_
      refine (ih t).bind fun others u => ?_
      refine pure_spells fun us _ hs ts ht hd => ?_
      obtain ⟨st, rfl, hd⟩ := hd
      rw [ht] at hs
      simpa using Reads.declarationsStep hd hs
    refine check_bind_spells (fun _ => ?_) fun _ => ?_
    · exact @pure_spells _ _ eof s [] .declarationsEnd
    · change Spells _ s ((if (false || s.rest.isEmpty) = true then
        pure [] else _ : Reader (List (Stmt Unit))) eof s)
      split
      · exact pure_spells .declarationsEnd
      · exact hstep

end Repetition

variable {r : Rules Reader Unit}

theorem block_spells (h : SoundRules r) (eof : Token) (s : State) :
    Spells (fun ts ss _ => ∃ us close, ts = us ++ [close] ∧ close.kind = .rightBrace ∧
      Reads (.declarations (decide (0 < s.loopDepth)) ss) us) s (block r eof s) := by
  refine (declarations_spells h.declaration r.bound eof s).bind fun body t => ?_
  refine (expect_spells _ _ eof t).bind fun close u => ?_
  refine pure_spells fun vs _ hc us _ hb => ?_
  obtain ⟨rfl, hk⟩ := hc
  exact ⟨us, close, by simp, hk, hb⟩

theorem function_spells (h : SoundRules r) (eof : Token) (s : State) :
    Spells (fun ts f _ => Reads (.function f.1 f.2) ts) s (function r eof s) := by
  refine (expect_spells _ _ eof s).bind fun left t => ?_
  refine (itemsBeforeParen_spells (expect_spells .identifier .noParameterName)
    r.bound eof t).bind fun params u => ?_
  refine (expect_spells _ _ eof u).bind fun right v => ?_
  refine (expect_spells _ _ eof v).bind fun brace w => ?_
  have hbody : Spells (fun zs ss _ => ∃ us close, zs = us ++ [close] ∧ close.kind = .rightBrace ∧
      Reads (.declarations false ss) us) w (outsideLoops (block r) eof w) := by
    refine outsideLoops_spells fun x hx => ?_
    have hb := block_spells h eof x
    rwa [hx] at hb
  refine hbody.bind fun body y => ?_
  refine pure_spells fun zs _ hz bs _ hb rs _ hr ps _ hps ls _ hl => ?_
  obtain ⟨us, close, rfl, hc, hd⟩ := hz
  obtain ⟨rfl, hb⟩ := hb
  obtain ⟨rfl, hr⟩ := hr
  obtain ⟨rfl, hl⟩ := hl
  obtain ⟨rfl, rfl⟩ | ⟨hps, hn⟩ := hps
  · simpa using Reads.functionPlain hl hr hb hd hc
  · simpa using Reads.function hl (reads_parameters.mpr hps) hn hr hb hd hc

theorem primary_spells (h : SoundRules r) (eof : Token) (s : State) :
    Spells (fun ts e _ => Reads (.primary e) ts) s (primary r eof s) := by
  refine peek_bind_spells (peekKind_bind_spells (fun _ => trivial) fun t ts k hr hk => ?_)
  have hliteral {v : Literal} (hv : literal? k = some v) :
      Spells (fun ts e _ => Reads (.primary e) ts) s
        ((do let _ ← next; pure (.literal v) : Reader (Expr Unit)) eof s) :=
    next_bind_spells hr fun u _ => pure_spells (.literal (hk ▸ hv))
  cases k with
  | falseWord => exact hliteral rfl
  | trueWord => exact hliteral rfl
  | nilWord => exact hliteral rfl
  | number x => exact hliteral rfl
  | string x => exact hliteral rfl
  | identifier =>
    rw [hr]
    exact next_bind_spells hr fun u _ => @pure_spells _ _ eof u _ (.ident hk)
  | leftParen =>
    refine next_bind_spells hr fun u _ => ?_
    refine (h.expression eof u).bind fun inner v => ?_
    refine (expect_spells _ _ eof v).bind fun right w => ?_
    refine pure_spells fun rs _ hright us _ hi => ?_
    obtain ⟨rfl, hright⟩ := hright
    simpa using Reads.group hk hi hright
  | funWord =>
    refine next_bind_spells hr fun u _ => ?_
    refine (function_spells h eof u).bind fun f v => ?_
    refine pure_spells fun us _ hf => ?_
    simpa using Reads.lambda hk hf
  | _ => trivial

theorem calls_spells (h : SoundRules r) (bound : Nat) (callee : Expr Unit) (eof : Token)
    (s : State) : Spells (fun ts e _ => Reads (.calls callee e) ts) s
      (calls r bound callee eof s) := by
  induction bound generalizing callee s with
  | zero => trivial
  | succ bound ih =>
    refine accept_bind_spells (fun _ => pure_spells .callsEnd) fun left t hl _ => ?_
    refine (itemsBeforeParen_spells h.expression r.bound eof t).bind fun args u => ?_
    refine (expect_spells _ _ eof u).bind fun paren v => ?_
    refine (ih (.call callee paren args) v).mono fun us e _ he ps _ hp ts _ ha => ?_
    obtain ⟨rfl, hp⟩ := hp
    obtain ⟨rfl, rfl⟩ | ⟨ha, hn⟩ := ha
    · exact .callsPlain hl hp he
    · simpa using Reads.callsStep hl (reads_arguments.mpr ha) hn hp he

theorem unary_spells (h : SoundRules r) (eof : Token) (s : State) :
    Spells (fun ts e _ => Reads (.level .unary e) ts) s (unary r eof s) := by
  refine acceptAny_bind_spells (fun _ => ?_) fun operator t ho _ => ?_
  · refine (primary_spells h eof s).bind fun callee t => ?_
    exact (calls_spells h r.bound callee eof t).mono fun us e _ he ts _ hp => .call hp he
  · refine (h.unary eof t).bind fun right u => ?_
    refine pure_spells fun ts _ hr => ?_
    simpa using Reads.unary ho hr

theorem disjunction_spells (h : SoundRules r) (eof : Token) (s : State) :
    Spells (fun ts e _ => Reads (.level .disjunction e) ts) s (disjunction r eof s) := by
  have hf := level_spells (l := .factor) (by decide) (unary_spells h) r.bound
  have ht := level_spells (l := .term) (by decide) hf r.bound
  have hc := level_spells (l := .comparison) (by decide) ht r.bound
  have he := level_spells (l := .equality) (by decide) hc r.bound
  have ha := level_spells (l := .conjunction) (by decide) he r.bound
  exact level_spells (l := .disjunction) (by decide) ha r.bound eof s

theorem expression_spells (h : SoundRules r) (eof : Token) (s : State) :
    Spells (fun ts e _ => Reads (.expression e) ts) s (expression r eof s) := by
  refine (disjunction_spells h eof s).bind fun left t => ?_
  refine accept_bind_spells (fun _ => ?_) fun equal u he _ => ?_
  · refine pure_spells fun ts _ hl => ?_
    simpa using Reads.plain hl
  · refine (h.expression eof u).bind fun value v => ?_
    cases left with
    | ident b name =>
      refine @pure_spells _ _ eof v _ fun us _ hv ts _ hl => ?_
      obtain ⟨rfl, hn⟩ := reads_ident hl
      simpa using Reads.assign hn he hv
    | _ =>
      refine (record_spells (Q := fun _ _ _ => False) _ _ eof v).bind fun _ w => ?_
      exact pure_spells fun _ _ hf => hf.elim

theorem expressionUnless_spells (h : SoundRules r) (kind : Kind) (eof : Token) (s : State) :
    Spells (fun ts o _ => Reads (.optional o) ts) s (expressionUnless r kind eof s) := by
  refine check_bind_spells (fun _ => ?_) fun _ => ?_
  · exact @pure_spells _ _ eof s none .absent
  · refine (expression_spells h eof s).bind fun e t => ?_
    refine pure_spells fun ts _ he => ?_
    simpa using Reads.present he

theorem variableDeclaration_spells (h : SoundRules r) (eof : Token) (s : State) :
    Spells (fun ts st _ => Reads (.variable st) ts) s (variableDeclaration r eof s) := by
  refine (expect_spells _ _ eof s).bind fun name t => ?_
  refine accept_bind_spells (fun _ => ?_) fun equal u he _ => ?_
  · refine (expect_spells _ _ eof t).bind fun semi u => ?_
    refine pure_spells fun us _ hs ts _ hn => ?_
    obtain ⟨rfl, hs⟩ := hs
    obtain ⟨rfl, hn⟩ := hn
    exact .variablePlain hn hs
  · refine (expression_spells h eof u).bind fun initial v => ?_
    refine (expect_spells _ _ eof v).bind fun semi w => ?_
    refine pure_spells fun vs _ hs us _ hi ts _ hn => ?_
    obtain ⟨rfl, hs⟩ := hs
    obtain ⟨rfl, hn⟩ := hn
    simpa using Reads.variableInitial hn he hi hs

theorem beforeSemicolon_spells (h : SoundRules r) (fault : Fault) (f : Expr Unit → Stmt Unit)
    (eof : Token) (s : State) :
    Spells (fun ts st _ => ∃ e us semi, st = f e ∧ ts = us ++ [semi] ∧ Reads (.expression e) us ∧
      semi.kind = .semicolon) s
      ((do let e ← expression r; let _ ← expect .semicolon fault; pure (f e) :
        Reader (Stmt Unit)) eof s) := by
  refine (expression_spells h eof s).bind fun e t => ?_
  refine (expect_spells _ _ eof t).bind fun semi u => ?_
  refine pure_spells fun us _ hs ts _ he => ?_
  obtain ⟨rfl, hs⟩ := hs
  exact ⟨e, ts, semi, rfl, by simp, he, hs⟩

theorem forInitial_spells (h : SoundRules r) (eof : Token) (s : State) :
    Spells (fun ts o _ => Reads (.initial o) ts) s (forInitial r eof s) := by
  refine accept_bind_spells (fun _ => ?_) fun semi t hs _ => pure_spells (.initialNone hs)
  refine accept_bind_spells (fun _ => ?_) fun word t hw _ => ?_
  · refine (beforeSemicolon_spells h _ .exprStmt eof s).bind fun st t => ?_
    refine pure_spells fun ts _ hst => ?_
    obtain ⟨e, us, semi, rfl, rfl, he, hs⟩ := hst
    simpa using Reads.initialExpression he hs
  · refine (variableDeclaration_spells h eof t).bind fun st u => ?_
    refine pure_spells fun ts _ hv => ?_
    simpa using Reads.initialVariable hw hv

theorem expressionStatement_spells (h : SoundRules r) (eof : Token) (s : State) :
    Spells (SpellsStatement s.loopDepth) s (expressionStatement r eof s) := by
  refine (beforeSemicolon_spells h _ .exprStmt eof s).mono fun ts st rest hst => ?_
  obtain ⟨e, us, semi, rfl, rfl, he, hs⟩ := hst
  exact ⟨false, .exprStmt he hs, fun hd => Bool.noConfusion hd⟩

theorem ifStatement_spells (h : SoundRules r) {word : Token} (hw : word.kind = .ifWord)
    (eof : Token) (s : State) :
    Spells (fun ts => SpellsStatement s.loopDepth (word :: ts)) s (ifStatement r eof s) := by
  refine (expect_spells _ _ eof s).bind fun left t => ?_
  refine (expression_spells h eof t).bind fun condition u => ?_
  refine (expect_spells _ _ eof u).bind fun right v => ?_
  refine (h.statement eof v).bind fun yes w => ?_
  refine accept_bind_spells (fun hno => ?_) fun other x ho hx => ?_
  · refine pure_spells fun ys hw' hy rs hv hr cs hu hc ls ht hl => ?_
    obtain ⟨rfl, hr⟩ := hr
    obtain ⟨rfl, hl⟩ := hl
    obtain ⟨dangling, hy, _⟩ := hy
    rw [hv, hu, ht] at hy
    refine ⟨true, ?_, fun _ => hno⟩
    simpa using Reads.ifStmt hw hl hc hr hy
  · refine (h.statement eof x).bind fun no y => ?_
    refine pure_spells fun ns hy' hn ys hw' hy rs hv hr cs hu hc ls ht hl => ?_
    obtain ⟨rfl, hr⟩ := hr
    obtain ⟨rfl, hl⟩ := hl
    obtain ⟨yesDangling, hy, hyes⟩ := hy
    obtain ⟨dangling, hn, hrest⟩ := hn
    obtain ⟨hx, hdepth⟩ := hx
    rw [hdepth, hw', hv, hu, ht] at hn
    rw [hv, hu, ht] at hy
    -- An `else` follows the first branch, so that branch does not end in an open `if`.
    cases yesDangling with
    | true => exact absurd ⟨other, x.rest, hx, ho⟩ (hyes rfl)
    | false =>
      refine ⟨dangling, ?_, hrest⟩
      simpa using Reads.ifElse hw hl hc hr hy ho hn

theorem whileStatement_spells (h : SoundRules r) {word : Token} (hw : word.kind = .whileWord)
    (eof : Token) (s : State) :
    Spells (fun ts => SpellsStatement s.loopDepth (word :: ts)) s
      (insideLoop (whileStatement r) eof s) := by
  refine insideLoop_spells fun s' hs' => ?_
  refine (expect_spells _ _ eof s').bind fun left t => ?_
  refine (expression_spells h eof t).bind fun condition u => ?_
  refine (expect_spells _ _ eof u).bind fun right v => ?_
  refine (h.statement eof v).bind fun body w => ?_
  refine pure_spells fun bs hw' hb rs hv hr cs hu hc ls ht hl => ?_
  obtain ⟨rfl, hr⟩ := hr
  obtain ⟨rfl, hl⟩ := hl
  obtain ⟨dangling, hb, hrest⟩ := hb
  rw [hv, hu, ht, hs'] at hb
  refine ⟨dangling, ?_, hrest⟩
  simpa using Reads.whileStmt hw hl hc hr hb

theorem forStatement_spells (h : SoundRules r) {word : Token} (hw : word.kind = .forWord)
    (eof : Token) (s : State) :
    Spells (fun ts => SpellsStatement s.loopDepth (word :: ts)) s
      (insideLoop (forStatement r) eof s) := by
  refine insideLoop_spells fun s' hs' => ?_
  refine (expect_spells _ _ eof s').bind fun left t => ?_
  refine (forInitial_spells h eof t).bind fun initial u => ?_
  refine (expressionUnless_spells h _ eof u).bind fun condition v => ?_
  refine (expect_spells _ _ eof v).bind fun semi w => ?_
  refine (expressionUnless_spells h _ eof w).bind fun increment x => ?_
  refine (expect_spells _ _ eof x).bind fun right y => ?_
  refine (h.statement eof y).bind fun body z => ?_
  refine pure_spells fun bs hz hb rs hy hr ns hx hn ss hw' hs cs hv hc is hu hi ls ht hl => ?_
  obtain ⟨rfl, hr⟩ := hr
  obtain ⟨rfl, hs⟩ := hs
  obtain ⟨rfl, hl⟩ := hl
  obtain ⟨dangling, hb, hrest⟩ := hb
  rw [hy, hx, hw', hv, hu, ht, hs'] at hb
  refine ⟨dangling, ?_, hrest⟩
  simpa using Reads.forStmt hw hl hi hc hs hn hr hb

theorem breakStatement_spells {word : Token} (hw : word.kind = .breakWord) (eof : Token)
    (s : State) :
    Spells (fun ts => SpellsStatement s.loopDepth (word :: ts)) s (breakStatement word eof s) := by
  refine loopDepth_bind_spells ?_
  split
  · trivial
  · next hd =>
    refine (expect_spells _ _ eof s).bind fun semi t => ?_
    refine pure_spells fun ts _ hs => ?_
    obtain ⟨rfl, hs⟩ := hs
    refine ⟨false, ?_, fun hf => Bool.noConfusion hf⟩
    rw [decide_eq_true (Nat.pos_of_ne_zero hd)]
    exact .breakStmt hw hs

theorem returnStatement_spells (h : SoundRules r) {word : Token} (hw : word.kind = .returnWord)
    (eof : Token) (s : State) :
    Spells (fun ts => SpellsStatement s.loopDepth (word :: ts)) s
      (returnStatement r word eof s) := by
  refine (expressionUnless_spells h _ eof s).bind fun value t => ?_
  refine (expect_spells _ _ eof t).bind fun semi u => ?_
  refine pure_spells fun us _ hs ts _ hv => ?_
  obtain ⟨rfl, hs⟩ := hs
  refine ⟨false, ?_, fun hf => Bool.noConfusion hf⟩
  simpa using Reads.returnStmt hw hv hs

theorem printStatement_spells (h : SoundRules r) {word : Token} (hw : word.kind = .printWord)
    (eof : Token) (s : State) :
    Spells (fun ts => SpellsStatement s.loopDepth (word :: ts)) s (printStatement r eof s) := by
  refine (beforeSemicolon_spells h _ .printStmt eof s).mono fun ts st rest hst => ?_
  obtain ⟨e, us, semi, rfl, rfl, he, hs⟩ := hst
  exact ⟨false, .printStmt hw he hs, fun hf => Bool.noConfusion hf⟩

theorem statement_spells (h : SoundRules r) (eof : Token) (s : State) :
    Spells (SpellsStatement s.loopDepth) s (statement r eof s) := by
  have hplain := expressionStatement_spells h eof s
  refine peek_bind_spells (peekKind_bind_spells (fun _ => hplain) fun t ts k hr hk => ?_)
  rw [hr]
  cases k with
  | forWord =>
    refine next_bind_spells hr fun u hu => ?_
    have hf := forStatement_spells h hk eof u
    rwa [hu] at hf
  | ifWord =>
    refine next_bind_spells hr fun u hu => ?_
    have hf := ifStatement_spells h hk eof u
    rwa [hu] at hf
  | whileWord =>
    refine next_bind_spells hr fun u hu => ?_
    have hf := whileStatement_spells h hk eof u
    rwa [hu] at hf
  | breakWord =>
    refine next_bind_spells hr fun u hu => ?_
    have hf := breakStatement_spells hk eof u
    rwa [hu] at hf
  | returnWord =>
    refine next_bind_spells hr fun u hu => ?_
    have hf := returnStatement_spells h hk eof u
    rwa [hu] at hf
  | leftBrace =>
    refine next_bind_spells hr fun u hu => ?_
    refine (block_spells h eof u).bind fun body v => ?_
    refine pure_spells fun us _ hb => ?_
    obtain ⟨vs, close, rfl, hc, hb⟩ := hb
    rw [hu] at hb
    refine ⟨false, ?_, fun hf => Bool.noConfusion hf⟩
    simpa using Reads.block hk hb hc
  | printWord =>
    refine next_bind_spells hr fun u hu => ?_
    have hf := printStatement_spells h hk eof u
    rwa [hu] at hf
  | _ => exact hplain

theorem acceptFunctionName_bind_spells {β : Type} {Q : List Token → β → List Token → Prop}
    {f : Option Token → Reader β} {eof : Token} {s : State} (hn : Spells Q s (f none eof s))
    (hs : ∀ word name u, word.kind = .funWord → name.kind = .identifier →
      u.loopDepth = s.loopDepth →
      Spells (fun us b rest => Q (word :: name :: us) b rest) u (f (some name) eof u)) :
    Spells Q s ((acceptFunctionName >>= f) eof s) := by
  rw [bind_apply]
  unfold acceptFunctionName
  split
  · next a t ho =>
    split at ho
    · next word name ts hr =>
      split at ho
      · next hk =>
        cases ho
        exact taken_spells [word, name] hr (hs word name _ hk.1 hk.2 rfl)
      · cases ho
        exact hn
    · cases ho
      exact hn
  · trivial
  · trivial

theorem declarationOrFail_spells (h : SoundRules r) (eof : Token) (s : State) :
    Spells (fun ts st _ => Reads (.declaration (decide (0 < s.loopDepth)) st) ts) s
      (declarationOrFail r eof s) := by
  refine acceptFunctionName_bind_spells ?_ fun word name u hw hn hu => ?_
  · refine accept_bind_spells (fun _ => ?_) fun word t hw ht => ?_
    · refine (statement_spells h eof s).mono fun ts st rest hst => ?_
      obtain ⟨dangling, hst, _⟩ := hst
      exact .statement hst
    · exact (variableDeclaration_spells h eof t).mono fun ts st _ hv => .varDecl hw hv
  · refine (function_spells h eof u).bind fun f v => ?_
    refine pure_spells fun ts _ hf => ?_
    simpa using Reads.funDecl hw hn hf

theorem declaration_spells (h : SoundRules r) (eof : Token) (s : State)
    (ht : TameRules r) : Spells (fun ts o _ => ∃ st, o = some st ∧
      Reads (.declaration (decide (0 < s.loopDepth)) st) ts) s (declaration r eof s) := by
  have hd := declarationOrFail_spells h eof s
  have hl := declarationOrFail_tame ht eof s
  simp only [declaration, Host.recovering, recovering]
  cases ho : declarationOrFail r eof s with
  | done st t =>
    rw [ho] at hd
    refine ⟨hd.1, fun he => ?_⟩
    obtain ⟨ts, hr, hst⟩ := hd.2 he
    exact ⟨ts, hr, st, rfl, hst⟩
  | exhausted => trivial
  | failed e t =>
    rw [ho] at hl
    have hle := hl.errors.length_le
    refine ⟨⟨(recover_suffix t.rest).trans hl.rest, hl.loopDepth,
      hl.errors.trans (List.prefix_append _ _)⟩, fun he => ?_⟩
    have hlen := congrArg List.length he
    simp only [List.length_append, List.length_singleton] at hlen
    omega

theorem rules_sound (depth : Nat) : SoundRules (Syntax.rules depth) := by
  induction depth with
  | zero => exact ⟨fun _ _ => trivial, fun _ _ => trivial, fun _ _ => trivial, fun _ _ => trivial⟩
  | succ depth ih =>
    refine ⟨expression_spells ih, unary_spells ih, statement_spells ih, fun eof s => ?_⟩
    exact declaration_spells ih eof s (rules_tame depth)

theorem program_spells {p : Reader (Option (Stmt Unit))}
    (h : ∀ eof s, Spells (fun ts o _ => ∃ st, o = some st ∧
      Reads (.declaration (decide (0 < s.loopDepth)) st) ts) s (p eof s))
    (bound : Nat) (eof : Token) (s : State) :
    Spells (fun ts ss rest => rest = [] ∧ Reads (.declarations (decide (0 < s.loopDepth)) ss) ts) s
      (program p bound eof s) := by
  induction bound generalizing s with
  | zero => trivial
  | succ bound ih =>
    change Spells _ s ((if s.rest.isEmpty = true then
      pure [] else _ : Reader (List (Stmt Unit))) eof s)
    split
    · next he => exact pure_spells ⟨List.isEmpty_iff.mp he, .declarationsEnd⟩
    · refine (h eof s).bind fun first t => ?_
      refine (ih t).bind fun others u => ?_
      refine pure_spells fun us _ hs ts ht hd => ?_
      obtain ⟨hrest, hs⟩ := hs
      obtain ⟨st, rfl, hd⟩ := hd
      rw [ht] at hs
      exact ⟨hrest, by simpa using Reads.declarationsStep hd hs⟩

end ScriptLang.Parsing
