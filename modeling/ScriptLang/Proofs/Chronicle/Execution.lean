import ScriptLang.Proofs.Chronicle.Evaluating

namespace ScriptLang.Chronicle

open Scope Evaluation

variable {P : List (Stmt Binding) → Prop} {D : Nat → String → Prop} {r : Record} {place : Place}
  {S : Stack} {ev : Observer} {ex : Performer}

section Call

theorem inBody_keeps (hex : Executes P ex) (hr : Valid P r) {c : Closure}
    (hc : Known P r.memory (.closure c)) {arguments : List Value}
    (harity : arguments.length = c.params.length) (ha : ∀ v ∈ arguments, Known P r.memory v)
    (line : Nat) (place : Place) :
    Keeps P Nothing r (Host.inBody line c ((c.params.map Token.lexeme).zip arguments)
      (executeAll ex c.body) place) fun flow m => KnownFlow P m flow := by
  dsimp only [Host.inBody]
  apply Keeps.get
  by_cases hdepth : Machine.maxDepth ≤ r.machine.depth
  · rw [if_pos hdepth]
    exact raise_keeps hr line (by simp)
  · rw [if_neg hdepth]
    apply Keeps.get
    -- the body runs where its function was made, which its origin on record tells
    obtain ⟨-, node, site, S, horigin, hmade⟩ := hc
    have ho : origin r.events c = (node, site) := by
      change (origin? r.memory.events c.id).getD _ = _
      rw [horigin]
      rfl
    have hlen : (c.params.map Token.lexeme).length = arguments.length := by simpa using harity.symm
    have hnames : ((c.params.map Token.lexeme).zip arguments).map Prod.fst =
        c.params.map Token.lexeme := List.map_fst_zip (Nat.le_of_eq hlen)
    have hvalues : ((c.params.map Token.lexeme).zip arguments).map Prod.snd = arguments :=
      List.map_snd_zip (Nat.le_of_eq hlen.symm)
    obtain ⟨names, -, -, -, hnodup, -⟩ := declareParams_scope settled_nil hmade.resolved.1
    simp only [ho]
    apply Keeps.opening hr
    · rw [hnames]
      exact hnodup
    · intro x hx
      rw [hnames] at hx
      rw [declares_of_scope? hmade.scope]
      exact List.mem_append_left _ hx
    · intro v hv
      rw [hvalues] at hv
      exact ha v hv
    · intro n hvalid hm
      apply Keeps.inCall hvalid
      intro n' hvalid' hm'
      apply Keeps.inFrame hvalid'
      intro k hk hmk hcurrent
      apply body_keeps hex hk hmade.nested hmade.scope hmade.resolved
      exact enter_inside hmade.program hmade.stands hmade.outer hmade.scope hmade.resolved
        hmade.frame hnames (hmk.trans (hm'.trans hm)) hcurrent

theorem inBlock_keeps (hex : Executes P ex) (hr : Valid P r) (h : Inside P r place S)
    {body : List (Stmt Binding)} (hn : Nested place.program place.around (.stmt (.block body)))
    (hs : (Stmt.block body).Scoped S) :
    Keeps P Nothing r (Host.inBlock (executeAll ex body) (place.within (.stmt (.block body))))
      fun flow m => KnownFlow P m flow := by
  dsimp only [Host.inBlock]
  apply Keeps.get
  apply Keeps.opening hr
  · exact List.nodup_nil
  · simp
  · simp
  · intro n hvalid hm
    apply Keeps.inFrame hvalid
    intro k hk hmk hcurrent
    apply body_keeps hex hk hn rfl ⟨rfl, hs⟩
    exact enter_inside h.here.program h.here.stands (.inl h.settled) rfl ⟨rfl, hs⟩
      h.here.current rfl (hmk.trans hm) hcurrent

theorem callClosure_keeps (hex : Executes P ex) (hr : Valid P r) {c : Closure}
    (hc : Known P r.memory (.closure c)) {arguments : List Value}
    (ha : ∀ v ∈ arguments, Known P r.memory v) (line : Nat) :
    Keeps P Nothing r (callClosure ex line c arguments place) fun v m => Known P m v := by
  unfold callClosure
  by_cases harity : arguments.length ≠ c.params.length
  · rw [if_pos harity]
    exact raise_keeps hr line (by simp)
  · rw [if_neg harity]
    apply (inBody_keeps hex hr hc (not_not.mp harity) ha line place).bind
    intro flow n hvalid _ hflow
    apply Keeps.pure hvalid
    cases flow with
    | returned v => exact hflow
    | _ => exact trivial

theorem invoke_keeps (hex : Executes P ex) (hr : Valid P r) {callee : Value}
    (hc : Known P r.memory callee) {arguments : List Value}
    (ha : ∀ v ∈ arguments, Known P r.memory v) (line : Nat) :
    Keeps P Nothing r (invoke ex line callee arguments place) fun v m => Known P m v := by
  cases callee with
  | closure c => exact callClosure_keeps hex hr hc ha line
  | native id n => exact callNative_keeps hr line n ha
  | _ => exact raise_keeps hr line (by simp)

end Call

section Step

theorem evaluateStep_keeps (hev : Evaluates P ev) (hex : Executes P ex) :
    Evaluates P fun e => Host.evaluating e (evaluateStep ev ex e) := by
  intro place e r S hr h hn hs
  have hpart : ∀ {e' : Expr Binding}, Node.expr e' ∈ (Node.expr e).children →
      Nested place.program (place.within (.expr e)).around (.expr e') :=
    fun hmem => ⟨hmem, hn⟩
  cases e with
  | literal value => exact .unnoted rfl (.pure hr (plain_ofLiteral value).known)
  | group inner =>
    apply Keeps.unnoted rfl
    exact hev hr (h.within rfl) (hpart (by simp [Node.children])) hs
  | unary operator right =>
    apply Keeps.unnoted rfl
    apply (hev (e := right) hr (h.within rfl) (hpart (by simp [Node.children])) hs).bind
    intro v n hvalid _ _
    exact report_keeps hvalid _ (unary_harmless _ v)
  | binary left operator right =>
    apply Keeps.unnoted rfl
    apply (hev hr (h.within rfl) (hpart (by simp [Node.children])) hs.1).bind
    intro v n hvalid hf _
    apply (hev hvalid ((h.within rfl).follows hf) (hpart (by simp [Node.children])) hs.2).bind
    intro w k hvalid' _ _
    exact report_keeps hvalid' _ (binary_harmless _ v w)
  | logical left operator right =>
    apply Keeps.unnoted rfl
    apply (hev hr (h.within rfl) (hpart (by simp [Node.children])) hs.1).bind
    intro v n hvalid hf hv
    by_cases hd : Operator.decides operator.kind v
    · simp only [hd, if_true]
      exact .pure hvalid hv
    · simp only [hd]
      exact hev hvalid ((h.within rfl).follows hf) (hpart (by simp [Node.children])) hs.2
  | ident binding name =>
    exact read_keeps hr ⟨hr.consistent, hn, binding, name, S, rfl, hs, h⟩ rfl
  | assign binding name value =>
    have hbegin := follows_use (D := Nothing) (r := r) place (.expr (.assign binding name value))
    have hmoment : Moment P r place (.expr (.assign binding name value)) :=
      ⟨hr.consistent, hn, binding, name, S, rfl, hs.2, h⟩
    apply Keeps.noted hbegin
    have hat := h.follows hbegin
    apply (hev (hmoment.valid hr) (hat.within rfl) (hpart (by simp [Node.children])) hs.1).bind
    intro v n hvalid hf hv
    have hwrite : Moment P n place (.expr (.assign binding name value)) :=
      ⟨hvalid.consistent, hn, binding, name, S, rfl, hs.2, hat.follows hf⟩
    apply (write_keeps hvalid hwrite rfl hv).bind
    intro _ k hvalid' _ hv'
    exact .pure hvalid' hv'
  | call callee paren arguments =>
    apply Keeps.unnoted rfl
    apply (hev hr (h.within rfl) (hpart (by simp [Node.children])) hs.1).bind
    intro f n hvalid hf hcallee
    have hwithin : At P r (place.within (.expr (.call callee paren arguments))) S := h.within rfl
    have hat := hwithin.follows hf
    apply (evaluateAll_keeps hev hvalid hat _ hs.2).bind
    · intro vs k hvalid' hf' hvs
      exact invoke_keeps hex hvalid' (hcallee.later hf'.later) hvs _
    · intro e' he'
      exact hpart (by simp [Node.children, he'])
  | lambda params body => exact .unnoted rfl (make_keeps hr h hn rfl hs (.inr rfl) _)

theorem Keeps.undeclared {s : Stmt Binding} {f : Nat} {q : Recording Flow}
    (hq : Keeps P Nothing r q fun flow m => KnownFlow P m flow) (hd : s.declared? = none) :
    Keeps P (DeclaredBy s f) r q (Declared P s f) := by
  apply hq.weaken
  · exact fun _ _ _ _ h => h.elim
  · intro flow m hflow
    refine ⟨hflow, ?_⟩
    intro t ht
    cases hd.symm.trans ht

theorem evaluateOptional_keeps (hev : Evaluates P ev) {initial : Option (Expr Binding)}
    (hr : Valid P r)
    (h : ∀ e ∈ initial, At P r place S ∧ Nested place.program place.around (.expr e) ∧ e.Scoped S) :
    Keeps P Nothing r (evaluateOptional ev initial place) fun v m => Known P m v := by
  cases initial with
  | none => exact .pure hr trivial
  | some e =>
    obtain ⟨hat, hn, hs⟩ := h e rfl
    exact hev hr hat hn hs

theorem Inside.within (h : Inside P r place S) {node : Node} (hn : node.opensScope = false) :
    Inside P r (place.within node) S :=
  ⟨h.here.within hn, h.settled, h.exactly⟩

theorem executeStep_keeps (hev : Evaluates P ev) (hex : Executes P ex) (bound : Nat) :
    Executes P fun s => Host.executing s (executeStep bound ev ex s) := by
  intro place s r S hr h hs
  have hn := hs.nested
  have hresolved := hs.resolved
  have hpart : ∀ {node : Node}, node ∈ (Node.stmt s).children →
      Nested place.program (place.within (.stmt s)).around node :=
    fun hmem => ⟨hmem, hn⟩
  cases s with
  | exprStmt e =>
    apply Keeps.undeclared _ rfl
    apply (hev (e := e) hr (h.here.within rfl) (hpart (by simp [Node.children])) hresolved).bind
    intro v n hvalid _ _
    exact .pure hvalid trivial
  | printStmt e =>
    apply Keeps.undeclared _ rfl
    apply (hev (e := e) hr (h.here.within rfl) (hpart (by simp [Node.children])) hresolved).bind
    intro v n hvalid _ _
    apply (printValue_keeps hvalid v).bind
    intro _ k hvalid' _ _
    exact .pure hvalid' trivial
  | varDecl name initial =>
    have hinitial : Keeps P Nothing r
        (evaluateOptional ev initial (place.within (.stmt (.varDecl name initial))))
        fun v m => Known P m v := by
      apply evaluateOptional_keeps (S := (declare name S).1) hev hr
      intro e he
      cases he
      refine ⟨⟨h.here.program, h.here.current, ?_⟩, hpart (by simp [Node.children]), hresolved.2⟩
      exact .initializer (hs.placed name rfl) h.here.stands
    apply hinitial.bind
    intro v n hvalid hf hv
    have hdefine := define_keeps (h.follows hr hf) hvalid hs rfl hv
    rw [hf.current] at hdefine
    exact hdefine
  | block body =>
    exact .undeclared (inBlock_keeps hex hr h hn hresolved) rfl
  | ifStmt condition yes no =>
    apply Keeps.undeclared _ rfl
    have hc : condition.Scoped S := by cases no <;> exact hresolved.1
    apply (hev hr (h.here.within rfl) (hpart (by simp [Node.children])) hc).bind
    intro v n hvalid hf _
    have hin : Inside P n (place.within (.stmt (.ifStmt condition yes no))) S :=
      (h.follows hr hf).within rfl
    cases no with
    | none =>
      by_cases hv : v.holds
      · simp only [hv, if_true]
        exact hex.plain hvalid hin (hpart (by simp [Node.children])) hresolved.2.1 hresolved.2.2
      · simp only [hv]
        exact .pure hvalid trivial
    | some no =>
      obtain ⟨-, ⟨hyes, hyesScoped⟩, hno, hnoScoped⟩ := hresolved
      by_cases hv : v.holds
      · simp only [hv, if_true]
        exact hex.plain hvalid hin (hpart (by simp [Node.children])) hyes hyesScoped
      · simp only [hv]
        exact hex.plain hvalid hin (hpart (by simp [Node.children])) hno hnoScoped
  | whileStmt condition body =>
    apply Keeps.undeclared _ rfl
    exact repeatWhile_keeps hev hex hr (h.within rfl) (hpart (by simp [Node.children]))
      (hpart (by simp [Node.children])) hresolved.1 hresolved.2.1 hresolved.2.2 bound
  | breakStmt keyword => exact .pure hr ⟨trivial, fun t ht => by cases ht⟩
  | returnStmt keyword value =>
    apply Keeps.undeclared _ rfl
    have hvalue : Keeps P Nothing r
        (evaluateOptional ev value (place.within (.stmt (.returnStmt keyword value))))
        fun v m => Known P m v := by
      apply evaluateOptional_keeps hev hr
      intro e he
      cases he
      exact ⟨h.here.within rfl, hpart (by simp [Node.children]), hresolved⟩
    apply hvalue.bind
    intro v n hvalid _ hv
    exact .pure hvalid hv
  | funDecl name params body => exact function_keeps h hr hs

end Step

theorem evaluate_execute_keeps (fuel : Nat) :
    Evaluates P (evaluate fuel) ∧ Executes P (execute fuel) := by
  -- both at once: a call executes its body and a statement evaluates its parts
  induction fuel with
  | zero => exact ⟨fun hr _ _ _ => .exhausted hr, fun hr _ _ => .exhausted hr⟩
  | succ fuel ih =>
    obtain ⟨hev, hex⟩ := ih
    exact ⟨evaluateStep_keeps hev hex, executeStep_keeps hev hex fuel⟩

theorem executeProgram_keeps (fuel : Nat) {ss : List (Stmt Binding)} (hr : Valid P r)
    (h : Inside P r place S) (hs : FitsAll place S ss) :
    Keeps P (Within r.machine.current) r (executeProgramIn Observed fuel ss place)
      fun _ _ => True := by
  -- the scopes of the next statement are those after this one
  induction ss generalizing r S with
  | nil => exact .pure hr trivial
  | cons s ss ih =>
    apply ((evaluate_execute_keeps fuel).2 hr h hs.head).seq
    · intro f x hd
      exact hd.1
    · intro flow n hvalid hf hflow
      have hrest := ih hvalid (h.next hr hs.head hf hflow.2) hs.tail
      rw [hf.current] at hrest
      exact hrest

end ScriptLang.Chronicle
