import ScriptLang.Proofs.Chronicle.Readiness

namespace ScriptLang.Chronicle

open Scope Evaluation
open Recording (lift note)

variable {P : List (Stmt Binding) → Prop} {D : Nat → String → Prop} {r : Record} {place : Place}
  {S : Stack}

def KnownFlow (P : List (Stmt Binding) → Prop) (m : Memory) : Flow → Prop
  | .returned v => Known P m v
  | _ => True

section Function

variable {m : Memory} {node : Node} {params : List Token} {body : List (Stmt Binding)}

/-- A function object is known in memories that come after its making. -/
theorem known_made (hP : P place.program) (hn : Nested place.program place.around node)
    (hs : node.scope? = some (params, body)) (hf : FunctionScoped S params body)
    (ho : HeadSettled S ∨ node.isLambda) (hst : Stands m place.program place.around place.frames S)
    {id : Nat} (hid : id < m.nextId) (horigin : origin? m.events id = some (node, place))
    {frame : Nat} (hframe : frame = place.frames.headD m.globals) (name : String) :
    Known P m (.closure ⟨id, name, params, body, frame⟩) :=
  ⟨hid, node, place, S, horigin, hs, hframe, hP, hn, hst, hf, ho⟩

theorem origin?_made (events : List Event) (id : Nat) :
    origin? (.made id node place :: events) id = some (node, place) := by
  simp [origin?, Event.origin?]

theorem make_keeps (hr : Valid P r) (h : At P r place S)
    (hn : Nested place.program place.around node) (hs : node.scope? = some (params, body))
    (hf : FunctionScoped S params body) (ho : HeadSettled S ∨ node.isLambda) (name : String) :
    Keeps P D r ((Host.makeClosure name params body : Observed Value) (place.within node))
      fun v m => Known P m v := by
  have hl : Later Nothing r.memory (r.memory.make node place) := later_make node place
  refine ⟨⟨hr.consistent.make node place, hr.sound⟩, ⟨hl.lax, rfl⟩, ?_⟩
  exact known_made h.program hn hs hf ho (h.stands.later hl) (Nat.lt_succ_self _)
    (origin?_made _ _) h.current name

end Function

section Declaration

variable {s : Stmt Binding} {t : Token}

theorem binds_declare (m : Memory) {f : Nat} (hf : f < m.store.size) (x : String)
    (s : Stmt Binding) (v : Value) : (m.declare f x s v).store.Binds f x :=
  (m.store.binds_define f f x x v).mpr (.inr ⟨rfl, rfl, hf⟩)

theorem later_declaredBy {m n : Memory} {f : Nat} (ht : s.declared? = some t)
    (h : Later (Just f t.lexeme) m n) : Later (DeclaredBy s f) m n :=
  h.weaken fun _ _ _ _ hj => ⟨hj.1, t, ht, hj.2.symm⟩

def Declared (P : List (Stmt Binding) → Prop) (s : Stmt Binding) (f : Nat) (flow : Flow)
    (m : Memory) : Prop :=
  KnownFlow P m flow ∧ ∀ t, s.declared? = some t → m.store.Binds f t.lexeme

theorem define_keeps (h : Inside P r place S) (hr : Valid P r) (hs : Fits place S s)
    (ht : s.declared? = some t) {v : Value} (hv : Known P r.memory v) :
    Keeps P (DeclaredBy s r.machine.current) r
      ((do Host.defineVariable t v; pure .normal : Observed Flow) (place.within (.stmt s)))
      (Declared P s r.machine.current) := by
  have hd := h.declarable hr hs ht
  have hl : Later (Just r.machine.current t.lexeme) r.memory
      (r.memory.declare r.machine.current t.lexeme s v) := later_declare _ _ _ _
  refine ⟨⟨hr.consistent.declare ht hd (hv.later hl), hr.sound⟩, ⟨later_declaredBy ht hl, rfl⟩,
    trivial, ?_⟩
  intro t' ht'
  cases ht.symm.trans ht'
  exact binds_declare r.memory hd.lt t.lexeme s v

/-- A function can refer to itself: its name is bound in the frame it is made in before its body
can run. -/
theorem function_keeps {name : Token} {params : List Token} {body : List (Stmt Binding)}
    (h : Inside P r place S) (hr : Valid P r) (hs : Fits place S (.funDecl name params body)) :
    Keeps P (DeclaredBy (.funDecl name params body) r.machine.current) r
      ((do
        let f ← Host.makeClosure name.lexeme params body
        Host.defineVariable name f
        pure .normal : Observed Flow) (place.within (.stmt (.funDecl name params body))))
      (Declared P (.funDecl name params body) r.machine.current) := by
  have hd := (h.declarable hr hs rfl).make (.stmt (.funDecl name params body)) place
  let made := r.memory.make (.stmt (.funDecl name params body)) place
  let value := Value.closure ⟨r.machine.nextId, name.lexeme, params, body, r.machine.current⟩
  let bound := made.declare r.machine.current name.lexeme (.funDecl name params body) value
  have hmake : Later Nothing r.memory made := later_make _ place
  have hdeclare : Later (Just r.machine.current name.lexeme) made bound := later_declare _ _ _ _
  have hl : Later (DeclaredBy (.funDecl name params body) r.machine.current) r.memory bound :=
    hmake.lax.trans (later_declaredBy rfl hdeclare)
  have hbinds : bound.store.Binds r.machine.current name.lexeme := binds_declare made hd.lt _ _ _
  have hafter := h.next (n := ⟨{ r.machine with
      store := bound.store, nextId := bound.nextId }, bound.events⟩) hr hs ⟨hl, rfl⟩ (by
    intro t ht
    cases ht
    exact hbinds)
  have hknown : Known P bound value :=
    known_made h.here.program hs.nested rfl ⟨hs.resolved.2.1, hs.resolved.2.2⟩
      (.inl hafter.settled) hafter.here.stands (Nat.lt_succ_self _)
      (origin?_made r.events r.machine.nextId) h.here.current _
  refine ⟨⟨(hr.consistent.make _ place).declare rfl hd hknown, hr.sound⟩, ⟨hl, rfl⟩, trivial, ?_⟩
  intro t ht
  cases ht
  exact hbinds

end Declaration

section Native

theorem defineNative_follows (hr : Valid P r) (n : Native) :
    Valid P ⟨r.machine.defineNative n, r.events⟩ ∧
      Follows D r ⟨r.machine.defineNative n, r.events⟩ := by
  have hl : Later Nothing r.memory (r.memory.write r.machine.globals n.name
      (.native r.machine.nextId n) (r.machine.nextId + 1)) := later_write (.inl rfl) (Nat.le_succ _)
  exact ⟨⟨hr.consistent.write (.inl rfl) (Nat.le_succ _) trivial, hr.sound⟩, hl.lax, rfl⟩

theorem defineNatives_follows (hr : Valid P r) (ns : List Native) :
    Valid P ⟨ns.foldl Machine.defineNative r.machine, r.events⟩ ∧
      Follows D r ⟨ns.foldl Machine.defineNative r.machine, r.events⟩ := by
  induction ns generalizing r with
  | nil => exact ⟨hr, .refl D r⟩
  | cons n ns ih =>
    obtain ⟨hv, hf⟩ := defineNative_follows (D := D) hr n
    obtain ⟨hv', hf'⟩ := ih hv
    exact ⟨hv', hf.trans hf'⟩

theorem heed_follows (hr : Valid P r) (ns : List Native) :
    Valid P ⟨r.machine.heed ns, r.events⟩ ∧ Follows D r ⟨r.machine.heed ns, r.events⟩ := by
  have hnumbered : Valid P ⟨r.machine.numbered, r.events⟩ := ⟨hr.consistent.numbered, hr.sound⟩
  have hfirst : Follows D r ⟨r.machine.numbered, r.events⟩ :=
    ⟨(later_numbered : Later Nothing r.memory _).lax, rfl⟩
  obtain ⟨hv, hf⟩ := defineNatives_follows (D := D) hnumbered ns
  exact ⟨hv, hfirst.trans hf⟩

theorem callNative_keeps (hr : Valid P r) (line : Nat) (n : Native) {arguments : List Value}
    (ha : ∀ v ∈ arguments, Known P r.memory v) :
    Keeps P D r (lift (callNative line n arguments)) fun v m => Known P m v := by
  by_cases harity : arguments.length = n.arity
  · obtain ⟨hv, hf⟩ := heed_follows (D := D) hr
      (n.run r.machine.nextId (arguments.map Value.toArgument)).defines
    unfold Keeps lift
    rw [callNative_apply r.machine harity]
    cases (n.run r.machine.nextId (arguments.map Value.toArgument)).result with
    | ok answer =>
      refine ⟨hv, hf, ?_⟩
      rcases Value.ofAnswer_cases r.machine.nextId arguments answer with hmem | hplain
      · exact (ha _ hmem).later hf.later
      · exact Plain.known hplain
    | error message =>
      refine ⟨hv, hf, ?_⟩
      intro x line' h
      cases h
  · have hraise : callNative line n arguments =
        raise line (.wrongArity n.arity arguments.length) := if_pos harity
    rw [hraise]
    exact raise_keeps hr line (by simp)

end Native

section Opening

variable {node : Node} {parent : Nat} {bindings : List (String × Value)}

theorem sound_append {es events : List Event} (he : ∀ e ∈ es, ∀ place n m, e ≠ .used place n m)
    (h : Sound P events) : Sound P (es ++ events) := by
  induction es with
  | nil => exact h
  | cons e es ih =>
    have hrest := ih fun e' h' => he e' (List.mem_cons_of_mem _ h')
    cases e with
    | used place n m => exact absurd rfl (he _ List.mem_cons_self place n m)
    | _ => exact hrest

theorem openFrame_keeps (hr : Valid P r) (hnodup : (bindings.map Prod.fst).Nodup)
    (hdecl : ∀ x ∈ bindings.map Prod.fst, x ∈ node.declares)
    (hv : ∀ v ∈ bindings.map Prod.snd, Known P r.memory v) :
    Keeps P Nothing r (openFrame node place parent bindings) fun f m =>
      f = r.machine.store.size ∧ m = r.memory.enter node place parent bindings := by
  refine ⟨⟨hr.consistent.enter node place parent hnodup hdecl hv, ?_⟩,
    ⟨later_enter node place parent bindings, rfl⟩, rfl, rfl⟩
  apply sound_append _ hr.sound
  intro e he place' n' m' heq
  rcases mem_openingEvents he with ⟨x, -, rfl⟩ | rfl <;> cases heq

end Opening

end ScriptLang.Chronicle
