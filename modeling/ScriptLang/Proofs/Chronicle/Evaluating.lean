import ScriptLang.Proofs.Chronicle.Declaring

namespace ScriptLang.Chronicle

open Scope Evaluation

variable {P : List (Stmt Binding) → Prop} {D : Nat → String → Prop} {r : Record} {place : Place}
  {S : Stack} {ev : Observer} {ex : Performer}

def Within (f : Nat) : Nat → String → Prop :=
  fun g _ => g = f

def Evaluates (P : List (Stmt Binding) → Prop) (ev : Observer) : Prop :=
  ∀ {place e r S}, Valid P r → At P r place S → Nested place.program place.around (.expr e) →
    e.Scoped S → Keeps P Nothing r (ev e place) fun v m => Known P m v

def Executes (P : List (Stmt Binding) → Prop) (ex : Performer) : Prop :=
  ∀ {place s r S}, Valid P r → Inside P r place S → Fits place S s →
    Keeps P (DeclaredBy s r.machine.current) r (ex s place) (Declared P s r.machine.current)

section Sequence

theorem evaluateAll_keeps (hev : Evaluates P ev) {es : List (Expr Binding)} (hr : Valid P r)
    (h : At P r place S) (hn : ∀ e ∈ es, Nested place.program place.around (.expr e))
    (hs : Expr.AllScoped S es) :
    Keeps P Nothing r (evaluateAll ev es place) fun vs m => ∀ v ∈ vs, Known P m v := by
  induction es generalizing r with
  | nil => exact .pure hr (by simp)
  | cons e es ih =>
    apply (hev hr h (hn e List.mem_cons_self) hs.1).bind
    intro v n hvalid hf hv
    apply (ih hvalid (h.follows hf) (fun e' he' => hn e' (List.mem_cons_of_mem _ he')) hs.2).bind
    intro vs k hvalid' hf' hvs
    apply Keeps.pure hvalid'
    intro w hw
    rcases List.mem_cons.mp hw with rfl | hw
    · exact hv.later hf'.later
    · exact hvs w hw

theorem executeAll_keeps (hex : Executes P ex) {ss : List (Stmt Binding)} (hr : Valid P r)
    (h : Inside P r place S) (hs : FitsAll place S ss) :
    Keeps P (Within r.machine.current) r (executeAll ex ss place)
      fun flow m => KnownFlow P m flow := by
  induction ss generalizing r S with
  | nil => exact .pure hr trivial
  | cons s ss ih =>
    apply (hex hr h hs.head).seq
    · intro f x hd
      exact hd.1
    · intro flow n hvalid hf hflow
      cases flow with
      | normal =>
        have hrest := ih hvalid (h.next hr hs.head hf hflow.2) hs.tail
        rw [hf.current] at hrest
        exact hrest
      | broken => exact .pure hvalid trivial
      | returned v => exact .pure hvalid hflow.1

theorem Executes.plain (hex : Executes P ex) {s : Stmt Binding} (hr : Valid P r)
    (h : Inside P r place S) (hn : Nested place.program place.around (.stmt s))
    (hd : s.declared? = none) (hs : s.Scoped S) :
    Keeps P Nothing r (ex s place) fun flow m => KnownFlow P m flow := by
  have hfits : Fits place S s := by
    refine ⟨hn, ?_, hs⟩
    intro t ht
    cases hd.symm.trans ht
  apply (hex hr h hfits).weaken
  · rintro f x - - ⟨-, t, ht, -⟩
    cases hd.symm.trans ht
  · exact fun flow m hflow => hflow.1

theorem repeatWhile_keeps (hev : Evaluates P ev) (hex : Executes P ex) {condition : Expr Binding}
    {body : Stmt Binding} (hr : Valid P r) (h : Inside P r place S)
    (hc : Nested place.program place.around (.expr condition))
    (hb : Nested place.program place.around (.stmt body)) (hsc : condition.Scoped S)
    (hd : body.declared? = none) (hsb : body.Scoped S) (bound : Nat) :
    Keeps P Nothing r (repeatWhile ev ex condition body bound place)
      fun flow m => KnownFlow P m flow := by
  induction bound generalizing r with
  | zero => exact .exhausted hr
  | succ bound ih =>
    apply (hev hr h.here hc hsc).bind
    intro v n hvalid hf hv
    by_cases holds : v.holds
    · simp only [holds, if_true]
      apply (hex.plain hvalid (h.follows hr hf) hb hd hsb).bind
      intro flow k hvalid' hf' hflow
      cases flow with
      | normal => exact ih hvalid' ((h.follows hr hf).follows hvalid hf')
      | broken => exact .pure hvalid' trivial
      | returned w => exact .pure hvalid' hflow
    · simp only [holds]
      exact .pure hvalid trivial

end Sequence

section Scope

variable {node : Node} {params : List Token} {body : List (Stmt Binding)} {parent : Nat}
  {bindings : List (String × Value)}

theorem children_of_scope? (hs : node.scope? = some (params, body)) :
    node.children = body.map Node.stmt := by
  cases node with
  | expr e =>
    cases e with
    | lambda ps ss =>
      cases hs
      rfl
    | _ => cases hs
  | stmt s =>
    cases s with
    | block ss =>
      cases hs
      rfl
    | funDecl name ps ss =>
      cases hs
      rfl
    | _ => cases hs

theorem opensScope_of_scope? (hs : node.scope? = some (params, body)) : node.opensScope := by
  simp [Node.opensScope, hs]

theorem declares_of_scope? (hs : node.scope? = some (params, body)) :
    node.declares =
      params.map Token.lexeme ++ (body.filterMap Stmt.declared?).map Token.lexeme := by
  simp [Node.declares, hs]

/-- The start of a scope: its frame binds the parameters and nothing else. -/
theorem enter_inside {n : Record} (hP : P place.program)
    (hst : Stands r.memory place.program place.around place.frames S)
    (ho : HeadSettled S ∨ node.isLambda) (hs : node.scope? = some (params, body))
    (hf : FunctionScoped S params body) (hparent : parent = place.frames.headD r.machine.globals)
    (hnames : bindings.map Prod.fst = params.map Token.lexeme)
    (hn : n.memory = r.memory.enter node place parent bindings)
    (hcurrent : n.machine.current = r.machine.store.size) :
    Inside P n (place.inScope node r.machine.store.size) (declareParams params ([] :: S)).1 := by
  obtain ⟨names, hparams, hsettled, hhas, -, -⟩ := declareParams_scope settled_nil hf.1
  have hl : Later Nothing r.memory n.memory := by
    rw [hn]
    exact later_enter node place parent bindings
  have hmem : ∀ x, hasName x names ↔ x ∈ params.map Token.lexeme := by
    intro x
    rw [hhas]
    simp [hasName]
  have hbinds : ∀ x, n.memory.store.Binds r.machine.store.size x ↔ x ∈ params.map Token.lexeme := by
    intro x
    rw [hn, binds_enter, hnames, or_iff_right]
    · simp [Record.memory]
    · intro hb
      exact Nat.lt_irrefl _ (r.machine.store.lt_size_of_binds _ x hb)
  have hi : Instance n.memory place.program node place.around r.machine.store.size place.frames
      names := by
    refine ⟨?_, ?_, ?_, ?_, hsettled⟩
    · rw [hn]
      exact (mem_events_enter node place parent bindings rfl).mpr (.inl rfl)
    · rw [hn, hparent]
      simp [Memory.enter, Record.memory, Store.parent?_push]
    · intro x hx
      exact (hbinds x).mpr ((hmem x).mp (hasName_of_isReady hx))
    · intro x hx
      rw [declares_of_scope? hs]
      exact List.mem_append_left _ ((hmem x).mp hx)
  rw [hparams]
  refine ⟨⟨hP, hcurrent, .scope (opensScope_of_scope? hs) ho hi (hst.later hl)⟩, ?_, ?_⟩
  · intro names' h'
    cases h'
    exact hsettled
  · intro f hhead names' h' x hx
    cases hhead
    cases h'
    exact (hmem x).mpr ((hbinds x).mp hx)

/-- What runs in a new frame binds nothing in the frames before it. -/
theorem Keeps.opening {β : Type} {k : Nat → Recording β} {R : β → Memory → Prop} (hr : Valid P r)
    (hnodup : (bindings.map Prod.fst).Nodup)
    (hdecl : ∀ x ∈ bindings.map Prod.fst, x ∈ node.declares)
    (hv : ∀ v ∈ bindings.map Prod.snd, Known P r.memory v)
    (hk : ∀ n, Valid P n → n.memory = r.memory.enter node place parent bindings →
      Keeps P (Within r.machine.store.size) n (k r.machine.store.size) R) :
    Keeps P Nothing r (openFrame node place parent bindings >>= k) R := by
  have hwithin : Keeps P (Within r.machine.store.size) r
      (openFrame node place parent bindings >>= k) R := by
    apply (openFrame_keeps hr hnodup hdecl hv).bind
    rintro f n hvalid - ⟨rfl, hm⟩
    exact hk n hvalid hm
  apply hwithin.weaken
  · rintro f x hlt - rfl
    exact absurd hlt (Nat.lt_irrefl _)
  · exact fun _ _ h => h

theorem body_keeps (hex : Executes P ex) {n : Record} (hr : Valid P n)
    (hn : Nested place.program place.around node) (hs : node.scope? = some (params, body))
    (hf : FunctionScoped S params body) {frame : Nat}
    (h : Inside P n (place.inScope node frame) (declareParams params ([] :: S)).1) :
    Keeps P (Within frame) n (executeAll ex body (place.inScope node frame))
      fun flow m => KnownFlow P m flow := by
  have hcurrent : n.machine.current = frame := h.here.current
  rw [← hcurrent] at h ⊢
  apply executeAll_keeps hex hr h
  refine ⟨?_, ?_, hf.2⟩
  · intro s hmem
    refine ⟨?_, hn⟩
    rw [children_of_scope? hs]
    exact List.mem_map_of_mem hmem
  · intro s hmem t ht outer houter
    cases houter
    refine ⟨opensScope_of_scope? hs, ?_⟩
    rw [declares_of_scope? hs]
    exact List.mem_append_right _ (List.mem_map_of_mem (List.mem_filterMap.mpr ⟨s, hmem, ht⟩))

end Scope

end ScriptLang.Chronicle
