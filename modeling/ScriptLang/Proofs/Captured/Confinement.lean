import ScriptLang.Proofs.Captured.Regions
import ScriptLang.Proofs.Chronicle.Declaring
import ScriptLang.Proofs.Running.Discipline

namespace ScriptLang.Captured

open Chronicle (plain_ofLiteral Plain)
open Evaluation
open Running (ending)

variable {α β : Type} {R : Nat → Prop}

def EndsIn (R : Nat → Prop) (m : Machine) (A : α → Prop) : EStateM.Result Stop Machine α → Prop
  | .ok a n => Holds R n ∧ Grown R m.store n.store ∧ A a
  | .error _ n => Holds R n ∧ Grown R m.store n.store

def Confined (R : Nat → Prop) (p : Run α) (A : α → Prop) : Prop :=
  ∀ m, Holds R m → EndsIn R m A (p m)

def FlowLeadsInto (R : Nat → Prop) : Flow → Prop
  | .returned v => LeadsInto R v
  | _ => True

section Combination

variable {A : α → Prop} {B : β → Prop} {p : Run α}

theorem EndsIn.after {m n : Machine} {r : EStateM.Result Stop Machine α}
    (hn : Grown R m.store n.store) (h : EndsIn R n A r) : EndsIn R m A r := by
  cases r with
  | ok a k => exact ⟨h.1, hn.trans h.2.1, h.2.2⟩
  | error stop k => exact ⟨h.1, hn.trans h.2⟩

theorem pure_confined {a : α} (ha : A a) : Confined R (pure a) A :=
  fun m hm => ⟨hm, .refl R m.store, ha⟩

theorem throw_confined (stop : Stop) : Confined R (throw stop : Run α) A :=
  fun m hm => ⟨hm, .refl R m.store⟩

theorem Confined.bind {f : α → Run β} (hp : Confined R p A)
    (hf : ∀ a, A a → Confined R (f a) B) : Confined R (p >>= f) B := by
  intro m hm
  have hpm := hp m hm
  rw [bind_apply]
  cases hr : p m with
  | ok a n =>
    rw [hr] at hpm
    exact (hf a hpm.2.2 n hpm.1).after hpm.2.1
  | error stop n =>
    rw [hr] at hpm
    exact hpm

theorem Confined.get {f : Machine → Run α} (hf : ∀ m, Holds R m → Confined R (f m) A) :
    Confined R (get >>= f) A :=
  fun m hm => hf m hm m hm

theorem Confined.inFrame {frame : Nat} (hp : Confined R p A) (hframe : R frame) :
    Confined R (Evaluation.inFrame frame p) A := by
  intro m hm
  have hr := hp { m with current := frame } ⟨hm.toClosed, hframe, hm.globals⟩
  unfold Evaluation.inFrame
  cases hpr : p { m with current := frame } with
  | ok a n =>
    rw [hpr] at hr
    exact ⟨⟨hr.1.toClosed, hm.current, hr.1.globals⟩, hr.2⟩
  | error stop n =>
    rw [hpr] at hr
    exact ⟨⟨hr.1.toClosed, hm.current, hr.1.globals⟩, hr.2⟩

theorem Confined.inCall (hp : Confined R p A) : Confined R (Evaluation.inCall p) A := by
  intro m hm
  have hr := hp { m with depth := m.depth + 1 } ⟨hm.toClosed, hm.current, hm.globals⟩
  unfold Evaluation.inCall
  cases hpr : p { m with depth := m.depth + 1 } with
  | ok a n =>
    rw [hpr] at hr
    exact ⟨⟨hr.1.toClosed, hr.1.current, hr.1.globals⟩, hr.2⟩
  | error stop n =>
    rw [hpr] at hr
    exact ⟨⟨hr.1.toClosed, hr.1.current, hr.1.globals⟩, hr.2⟩

/-- The region of all frames holds every machine. No frame is ever taken away. -/
theorem Confined.size_le (h : Confined (fun _ => True) p A) (m : Machine) :
    m.store.size ≤ (ending (p m)).store.size := by
  have hm := h m (holds_everything m)
  cases hr : p m with
  | ok a n =>
    rw [hr] at hm
    exact hm.2.1.size
  | error stop n =>
    rw [hr] at hm
    exact hm.2.size

end Combination

section Primitive

variable {A : α → Prop}

theorem raise_confined (line : Nat) (fault : RuntimeFault) :
    Confined R (raise line fault : Run α) A :=
  throw_confined _

theorem leadsInto_of_plain {v : Value} (h : Plain v) : LeadsInto R v :=
  fun c hc => absurd hc (h c)

theorem report_confined (line : Nat) {result : Except RuntimeFault Value}
    (h : Chronicle.Harmless result) : Confined R (report line result) (LeadsInto R) := by
  cases result with
  | ok v => exact pure_confined (leadsInto_of_plain h)
  | error fault => exact raise_confined line fault

theorem readVariable_confined (binding : Binding) (name : Token) :
    Confined R (readVariable binding name) (LeadsInto R) := by
  intro m hm
  unfold readVariable
  cases hfind : (m.frameOf? binding).bind (m.store.get? · name.lexeme) with
  | none => exact ⟨hm, .refl R m.store⟩
  | some v =>
    obtain ⟨f, hf, hv⟩ := Option.bind_eq_some_iff.mp hfind
    exact ⟨hm, .refl R m.store, hm.values f name.lexeme v (hm.frameOf? hf) hv⟩

theorem writeVariable_confined (binding : Binding) (name : Token) {v : Value}
    (hv : LeadsInto R v) : Confined R (writeVariable binding name v) fun _ => True := by
  intro m hm
  rcases writeVariable_cases binding name v m with ⟨-, hw⟩ | ⟨f, hframe, -, hw⟩
  · rw [hw]
    exact ⟨hm, .refl R m.store⟩
  · rw [hw]
    exact ⟨⟨hm.toClosed.define f name.lexeme hv, hm.current, hm.globals⟩,
      grown_define name.lexeme v (hm.frameOf? hframe), trivial⟩

theorem defineVariable_confined (name : Token) {v : Value} (hv : LeadsInto R v) :
    Confined R (defineVariable name v) fun _ => True :=
  fun m hm => ⟨⟨hm.toClosed.define m.current name.lexeme hv, hm.current, hm.globals⟩,
    grown_define name.lexeme v hm.current, trivial⟩

theorem makeClosure_confined (name : String) (params : List Token) (body : List (Stmt Binding)) :
    Confined R (makeClosure name params body) (LeadsInto R) := by
  refine fun m hm => ⟨⟨hm.toClosed, hm.current, hm.globals⟩, .refl R m.store, fun c hc => ?_⟩
  cases hc
  exact hm.current

theorem printValue_confined (v : Value) : Confined R (printValue v) fun _ => True := by
  intro m hm
  unfold printValue
  by_cases hf : m.sink.fits (v.text ++ "\n").toUTF8
  · simp only [hf, if_true]
    exact ⟨⟨hm.toClosed, hm.current, hm.globals⟩, .refl R m.store, trivial⟩
  · simp only [hf]
    exact ⟨⟨hm.toClosed, hm.current, hm.globals⟩, .refl R m.store⟩

theorem pushFrame_confined {parent : Nat} {bindings : List (String × Value)} (hp : R parent)
    (hv : ∀ v ∈ bindings.map Prod.snd, LeadsInto R v) :
    Confined R (pushFrame parent bindings) R := by
  intro m hm
  have hframe : R m.store.size := hm.coming _ (Nat.le_refl _)
  obtain ⟨hgrown, hclosed⟩ := defineAll_region (hm.toClosed.push hp) hframe hv
  exact ⟨⟨hclosed, hm.current, hm.globals⟩, (grown_push hm.toClosed (some parent)).trans hgrown,
    hframe⟩

theorem Confined.inBlock {p : Run Flow} {A : Flow → Prop} (hp : Confined R p A) :
    Confined R (inBlock p) A :=
  .get fun _ hm => (pushFrame_confined hm.current (by simp)).bind fun _ hframe => hp.inFrame hframe

theorem Confined.inBody {p : Run Flow} {A : Flow → Prop} (hp : Confined R p A) (line : Nat)
    {c : Closure} (hc : R c.frame) {bindings : List (String × Value)}
    (hv : ∀ v ∈ bindings.map Prod.snd, LeadsInto R v) :
    Confined R (inBody line c bindings p) A := by
  refine Confined.get fun m _ => ?_
  by_cases hdepth : Machine.maxDepth ≤ m.depth
  · rw [if_pos hdepth]
    exact raise_confined line _
  · rw [if_neg hdepth]
    exact (pushFrame_confined hc hv).bind fun frame hframe => (hp.inFrame hframe).inCall

theorem defineNatives_region (ns : List Native) {m : Machine} (hm : Holds R m) :
    Holds R (ns.foldl Machine.defineNative m) ∧
      Grown R m.store (ns.foldl Machine.defineNative m).store := by
  induction ns generalizing m with
  | nil => exact ⟨hm, .refl R m.store⟩
  | cons n ns ih =>
    have hplain : LeadsInto R (.native m.nextId n) := fun c hc => by cases hc
    have hfirst : Holds R (m.defineNative n) :=
      ⟨hm.toClosed.define m.globals n.name hplain, hm.current, hm.globals⟩
    obtain ⟨hholds, hgrown⟩ := ih hfirst
    exact ⟨hholds, (grown_define n.name (.native m.nextId n) hm.globals).trans hgrown⟩

theorem heed_region (ns : List Native) {m : Machine} (hm : Holds R m) :
    Holds R (m.heed ns) ∧ Grown R m.store (m.heed ns).store :=
  defineNatives_region ns (m := m.numbered) ⟨hm.toClosed, hm.current, hm.globals⟩

theorem callNative_confined (line : Nat) (n : Native) {arguments : List Value}
    (ha : ∀ v ∈ arguments, LeadsInto R v) :
    Confined R (callNative line n arguments) (LeadsInto R) := by
  by_cases harity : arguments.length = n.arity
  · intro m hm
    obtain ⟨hholds, hgrown⟩ :=
      heed_region (n.run m.nextId (arguments.map Value.toArgument)).defines hm
    rw [callNative_apply m harity]
    cases (n.run m.nextId (arguments.map Value.toArgument)).result with
    | ok answer =>
      refine ⟨hholds, hgrown, ?_⟩
      rcases Value.ofAnswer_cases m.nextId arguments answer with hmem | hplain
      · exact ha _ hmem
      · exact leadsInto_of_plain hplain
    | error message => exact ⟨hholds, hgrown⟩
  · have hraise : callNative line n arguments =
        raise line (.wrongArity n.arity arguments.length) := if_pos harity
    rw [hraise]
    exact raise_confined line _

end Primitive

section Sequence

variable {ev : Evaluator} {ex : Executor} (hev : ∀ e, Confined R (ev e) (LeadsInto R))
  (hex : ∀ s, Confined R (ex s) (FlowLeadsInto R))

include hev in
theorem evaluateAll_confined (es : List (Expr Binding)) :
    Confined R (evaluateAll ev es) fun vs => ∀ v ∈ vs, LeadsInto R v := by
  induction es with
  | nil => exact pure_confined (by simp)
  | cons e es ih =>
    exact (hev e).bind fun v hv => ih.bind fun vs hvs =>
      pure_confined (List.forall_mem_cons.mpr ⟨hv, hvs⟩)

include hev in
theorem evaluateOptional_confined (o : Option (Expr Binding)) :
    Confined R (evaluateOptional ev o) (LeadsInto R) := by
  cases o with
  | none => exact pure_confined fun c hc => by cases hc
  | some e => exact hev e

include hex in
theorem executeAll_confined (ss : List (Stmt Binding)) :
    Confined R (executeAll ex ss) (FlowLeadsInto R) := by
  induction ss with
  | nil => exact pure_confined trivial
  | cons s ss ih =>
    refine (hex s).bind fun flow hflow => ?_
    cases flow with
    | normal => exact ih
    | broken => exact pure_confined hflow
    | returned v => exact pure_confined hflow

include hev hex in
theorem repeatWhile_confined (condition : Expr Binding) (body : Stmt Binding) (bound : Nat) :
    Confined R (repeatWhile ev ex condition body bound) (FlowLeadsInto R) := by
  induction bound with
  | zero => exact throw_confined _
  | succ bound ih =>
    refine (hev condition).bind fun v _ => ?_
    cases v.holds with
    | false => exact pure_confined trivial
    | true =>
      refine (hex body).bind fun flow hflow => ?_
      cases flow with
      | normal => exact ih
      | broken => exact pure_confined trivial
      | returned w => exact pure_confined hflow

end Sequence

section Step

variable {ev : Evaluator} {ex : Executor} (hev : ∀ e, Confined R (ev e) (LeadsInto R))
  (hex : ∀ s, Confined R (ex s) (FlowLeadsInto R))

include hex in
/-- The frame of a call is in the frame its function was made in, and holds its arguments. -/
theorem callClosure_confined (line : Nat) {c : Closure} (hc : R c.frame) {arguments : List Value}
    (ha : ∀ v ∈ arguments, LeadsInto R v) :
    Confined R (callClosure ex line c arguments) (LeadsInto R) := by
  unfold callClosure
  by_cases harity : arguments.length ≠ c.params.length
  · rw [if_pos harity]
    exact raise_confined line _
  · rw [if_neg harity]
    have hvalues : ∀ v ∈ ((c.params.map Token.lexeme).zip arguments).map Prod.snd,
        LeadsInto R v := by
      intro v hv
      obtain ⟨b, hb, rfl⟩ := List.mem_map.mp hv
      exact ha b.2 (List.of_mem_zip hb).2
    refine ((executeAll_confined hex c.body).inBody line hc hvalues).bind fun flow hflow => ?_
    cases flow with
    | returned v => exact pure_confined hflow
    | normal => exact pure_confined fun c hc => by cases hc
    | broken => exact pure_confined fun c hc => by cases hc

include hex in
theorem invoke_confined (line : Nat) {callee : Value} (hc : LeadsInto R callee)
    {arguments : List Value} (ha : ∀ v ∈ arguments, LeadsInto R v) :
    Confined R (invoke ex line callee arguments) (LeadsInto R) := by
  cases callee with
  | closure c => exact callClosure_confined hex line (hc c rfl) ha
  | native id n => exact callNative_confined line n ha
  | _ => exact raise_confined line _

include hev hex

theorem evaluateStep_confined (e : Expr Binding) :
    Confined R (evaluateStep ev ex e) (LeadsInto R) := by
  cases e with
  | literal value => exact pure_confined (leadsInto_of_plain (plain_ofLiteral value))
  | group inner => exact hev inner
  | unary operator right =>
    exact (hev right).bind fun v _ => report_confined _ (Chronicle.unary_harmless _ v)
  | binary left operator right =>
    exact (hev left).bind fun v _ => (hev right).bind fun w _ =>
      report_confined _ (Chronicle.binary_harmless _ v w)
  | logical left operator right =>
    refine (hev left).bind fun v hv => ?_
    cases Operator.decides operator.kind v with
    | true => exact pure_confined hv
    | false => exact hev right
  | ident binding name => exact readVariable_confined binding name
  | assign binding name value =>
    exact (hev value).bind fun v hv => (writeVariable_confined binding name hv).bind fun _ _ =>
      pure_confined hv
  | call callee paren arguments =>
    exact (hev callee).bind fun f hf => (evaluateAll_confined hev arguments).bind fun vs hvs =>
      invoke_confined hex paren.line hf hvs
  | lambda params body => exact makeClosure_confined _ params body

theorem executeStep_confined (bound : Nat) (s : Stmt Binding) :
    Confined R (executeStep bound ev ex s) (FlowLeadsInto R) := by
  have hnormal : Confined R (pure .normal) (FlowLeadsInto R) := pure_confined trivial
  cases s with
  | exprStmt e => exact (hev e).bind fun _ _ => hnormal
  | printStmt e => exact (hev e).bind fun v _ => (printValue_confined v).bind fun _ _ => hnormal
  | varDecl name initial =>
    exact (evaluateOptional_confined hev initial).bind fun v hv =>
      (defineVariable_confined name hv).bind fun _ _ => hnormal
  | block body => exact (executeAll_confined hex body).inBlock
  | ifStmt condition yes no =>
    refine (hev condition).bind fun v _ => ?_
    cases v.holds with
    | true => exact hex yes
    | false =>
      cases no with
      | none => exact hnormal
      | some s => exact hex s
  | whileStmt condition body => exact repeatWhile_confined hev hex condition body bound
  | breakStmt keyword => exact pure_confined trivial
  | returnStmt keyword value =>
    exact (evaluateOptional_confined hev value).bind fun v hv =>
      pure_confined (A := FlowLeadsInto R) hv
  | funDecl name params body =>
    exact (makeClosure_confined name.lexeme params body).bind fun f hf =>
      (defineVariable_confined name hf).bind fun _ _ => hnormal

end Step

/-- Evaluation and execution are confined to every region that holds the machine. -/
theorem evaluate_execute_confined (R : Nat → Prop) (fuel : Nat) :
    (∀ e, Confined R (evaluate fuel e) (LeadsInto R)) ∧
      ∀ s, Confined R (execute fuel s) (FlowLeadsInto R) := by
  -- the region is the same at every depth: frames made on the way belong to it from the start
  induction fuel with
  | zero => exact ⟨fun _ => throw_confined _, fun _ => throw_confined _⟩
  | succ fuel ih =>
    obtain ⟨hev, hex⟩ := ih
    exact ⟨evaluateStep_confined hev hex, executeStep_confined hev hex fuel⟩

end ScriptLang.Captured
