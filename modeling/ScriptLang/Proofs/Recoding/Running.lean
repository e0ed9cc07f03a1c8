import ScriptLang.Proofs.Running.Hosts
import ScriptLang.Proofs.Recoding.Linking

namespace ScriptLang

namespace Recoding

open Evaluation (bind_apply)
open Evaluation

variable {α β : Type} {c : Recoding}

def ended (c : Recoding) (g : α → α) :
    EStateM.Result Stop Machine α → EStateM.Result Stop Machine α
  | .ok a n => .ok (g a) (n.recoded c)
  | .error stop n => .error (stop.recoded c) (n.recoded c)

/-- The run `q` does on the recoded machine what `p` does on the machine itself: it answers with
what `g` makes of the answer, and what it leaves is recoded. -/
def Carries (c : Recoding) (g : α → α) (p q : Run α) : Prop :=
  ∀ m, q (m.recoded c) = ended c g (p m)

section Combination

variable {g : α → α} {g' : β → β}

theorem pure_carries (a : α) : Carries c g (pure a) (pure (g a)) :=
  fun _ => rfl

theorem throw_carries (stop : Stop) : Carries c g (throw stop) (throw (stop.recoded c)) :=
  fun _ => rfl

theorem raise_carries (line : Nat) (fault : RuntimeFault) :
    Carries c g (raise line fault) (raise (c.line line) (fault.recoded c)) :=
  throw_carries (.error ⟨fault, line⟩)

theorem Carries.bind {p q : Run α} {k k' : α → Run β} (hp : Carries c g p q)
    (hk : ∀ a, Carries c g' (k a) (k' (g a))) : Carries c g' (p >>= k) (q >>= k') := by
  intro m
  rw [bind_apply, bind_apply, hp m]
  cases p m with
  | ok a n => exact hk a n
  | error stop n => rfl

theorem Carries.get {k k' : Machine → Run α} (hk : ∀ m, Carries c g (k m) (k' (m.recoded c))) :
    Carries c g (get >>= k) (get >>= k') :=
  fun m => hk m m

theorem Carries.inFrame {p q : Run α} (hp : Carries c g p q) (frame : Nat) :
    Carries c g (inFrame frame p) (inFrame frame q) := by
  intro m
  have hm : q { m.recoded c with current := frame } = ended c g (p { m with current := frame }) :=
    hp { m with current := frame }
  simp only [Evaluation.inFrame, hm]
  cases p { m with current := frame } <;> rfl

theorem Carries.inCall {p q : Run α} (hp : Carries c g p q) :
    Carries c g (inCall p) (inCall q) := by
  intro m
  have hm : q { m.recoded c with depth := m.depth + 1 } =
      ended c g (p { m with depth := m.depth + 1 }) :=
    hp { m with depth := m.depth + 1 }
  have hdepth : (m.recoded c).depth = m.depth := rfl
  simp only [Evaluation.inCall, hdepth, hm]
  cases p { m with depth := m.depth + 1 } <;> rfl

end Combination

section Values

variable (v w : Value)

theorem toArgument_recoded : (v.recoded c).toArgument = v.toArgument := by
  cases v with
  | closure c => simp [Value.recoded, Closure.recoded, Value.toArgument]
  | _ => rfl

theorem holds_recoded : (v.recoded c).holds = v.holds := by
  rw [Value.holds, toArgument_recoded, Value.holds]

theorem same_recoded : (v.recoded c).same (w.recoded c) = v.same w := by
  rw [Value.same, toArgument_recoded, toArgument_recoded, Value.same]

theorem described_recoded : (v.recoded c).described = v.described := by
  have hargument := toArgument_recoded (c := c) v
  cases v with
  | closure k =>
    simp only [Value.recoded] at hargument
    simp only [Value.recoded, Value.described, Value.typeName, Value.text, hargument]
  | _ => rfl

theorem message_recoded (fault : RuntimeFault) : (fault.recoded c).message = fault.message := by
  unfold RuntimeFault.recoded
  cases fault with
  | operandNotNumber v | operandsNotNumbers v | expectedString v | expectedNumber v
  | notAddable v | notCallable v =>
    unfold RuntimeFault.message
    dsimp only
    rw [described_recoded]
  | _ => rfl

theorem ofLiteral_recoded (l : Literal) : (Value.ofLiteral l).recoded c = .ofLiteral l := by
  cases l <;> rfl

theorem ofAnswer_recoded (number : Nat) (arguments : List Value) (answer : Answer Native) :
    Value.ofAnswer number (arguments.map (Value.recoded c)) answer =
      (Value.ofAnswer number arguments answer).recoded c := by
  cases answer with
  | plain l => exact (ofLiteral_recoded l).symm
  | argument index =>
    simp only [Value.ofAnswer, List.getElem?_map]
    cases arguments[index]? <;> rfl
  | native n => rfl

def recodedResult (c : Recoding) : Except RuntimeFault Value → Except RuntimeFault Value
  | .ok v => .ok (v.recoded c)
  | .error fault => .error (fault.recoded c)

theorem unary_recoded (operator : Kind) :
    Operator.unary operator (v.recoded c) = recodedResult c (Operator.unary operator v) := by
  cases operator with
  | minus => cases v <;> rfl
  | bang => exact congrArg (fun b => Except.ok (Value.boolean (!b))) (holds_recoded v)
  | _ => rfl

theorem add_recoded :
    Operator.add (v.recoded c) (w.recoded c) = recodedResult c (Operator.add v w) := by
  cases v with
  | number x => cases w <;> rfl
  | string s => cases w <;> rfl
  | _ => rfl

theorem onNumbers_recoded {op : Float → Float → Value} (hop : ∀ x y, (op x y).recoded c = op x y) :
    Operator.onNumbers op (v.recoded c) (w.recoded c) =
      recodedResult c (Operator.onNumbers op v w) := by
  cases v with
  | number x =>
    cases w with
    | number y => exact congrArg Except.ok (hop x y).symm
    | _ => rfl
  | _ => rfl

theorem binary_recoded (operator : Kind) :
    Operator.binary operator (v.recoded c) (w.recoded c) =
      recodedResult c (Operator.binary operator v w) := by
  cases operator with
  | plus => exact add_recoded v w
  | minus | star | slash | less | lessEqual | greater | greaterEqual =>
    exact onNumbers_recoded v w fun _ _ => rfl
  | equalEqual => exact congrArg (fun b => Except.ok (Value.boolean b)) (same_recoded v w)
  | bangEqual => exact congrArg (fun b => Except.ok (Value.boolean (!b))) (same_recoded v w)
  | _ => rfl

theorem decides_recoded (operator : Kind) :
    Operator.decides operator (v.recoded c) = Operator.decides operator v := by
  simp only [Operator.decides, holds_recoded]

theorem report_carries (line : Nat) (r : Except RuntimeFault Value) :
    Carries c (Value.recoded c) (report line r) (report (c.line line) (recodedResult c r)) := by
  cases r with
  | ok v => exact pure_carries v
  | error fault => exact raise_carries line fault

end Values

section Primitives

theorem frameOf?_recoded (m : Machine) (binding : Binding) :
    (m.recoded c).frameOf? binding = m.frameOf? binding := by
  cases binding with
  | global => rfl
  | hops distance => exact m.store.ancestor?_map m.current distance

theorem readVariable_carries {binding binding' : Binding} (hb : binding' = binding)
    (name : Token) :
    Carries c (Value.recoded c) (readVariable binding name)
      (readVariable binding' (name.moved c.line)) := by
  rw [hb]
  intro m
  have hget : ∀ frame, (m.recoded c).store.get? frame name.lexeme =
      (m.store.get? frame name.lexeme).map (Value.recoded c) :=
    fun frame => m.store.get?_map frame name.lexeme
  have hlexeme : (name.moved c.line).lexeme = name.lexeme := rfl
  simp only [readVariable, frameOf?_recoded, hlexeme]
  cases m.frameOf? binding with
  | none => rfl
  | some frame =>
    simp only [Option.bind_some, hget]
    cases m.store.get? frame name.lexeme <;> rfl

theorem writeVariable_carries {binding binding' : Binding} (hb : binding' = binding)
    (name : Token) (v : Value) :
    Carries c id (writeVariable binding name v)
      (writeVariable binding' (name.moved c.line) (v.recoded c)) := by
  rw [hb]
  intro m
  simp only [writeVariable, frameOf?_recoded]
  cases m.frameOf? binding with
  | none => rfl
  | some frame =>
    have hassign : (m.recoded c).store.assign frame name.lexeme (v.recoded c) =
        ((m.store.assign frame name.lexeme v).1,
          (m.store.assign frame name.lexeme v).2.map (Value.recoded c)) :=
      m.store.assign_map frame name.lexeme v
    have hlexeme : (name.moved c.line).lexeme = name.lexeme := rfl
    simp only [Machine.onStore, hlexeme, hassign]
    cases hr : m.store.assign frame name.lexeme v with
    | mk found store => cases found <;> rfl

theorem defineVariable_carries (name : Token) (v : Value) :
    Carries c id (defineVariable name v) (defineVariable (name.moved c.line) (v.recoded c)) := by
  intro m
  have hdefine := m.store.define_map (h := Value.recoded c) m.current name.lexeme v
  exact congrArg (fun store => EStateM.Result.ok () { m with store := store }) hdefine

theorem makeClosure_carries (name : String) (params : List Token) (body : List (Stmt Binding)) :
    Carries c (Value.recoded c) (makeClosure name params body)
      (makeClosure name (params.map (Token.moved c.line)) (Stmt.allRecoded c body)) :=
  fun _ => rfl

theorem printValue_carries (v : Value) :
    Carries c id (printValue v) (printValue (v.recoded c)) := by
  intro m
  have hsink : (m.recoded c).sink = m.sink := rfl
  simp only [printValue, Value.text, toArgument_recoded, hsink]
  by_cases hfits : m.sink.fits (v.toArgument.text ++ "\n").toUTF8
  · simp only [hfits, if_true]
    rfl
  · simp only [hfits]
    rfl

theorem pushFrame_carries (parent : Nat) (bindings : List (String × Value)) :
    Carries c id (pushFrame parent bindings)
      (pushFrame parent (bindings.map fun b => (b.1, b.2.recoded c))) := by
  intro m
  have hfold : ∀ (s : Store Value) (frame : Nat),
      (bindings.map fun b => (b.1, b.2.recoded c)).foldl (fun s b => s.define frame b.1 b.2)
          (s.map (Value.recoded c)) =
        (bindings.foldl (fun s b => s.define frame b.1 b.2) s).map (Value.recoded c) := by
    intro s frame
    induction bindings generalizing s with
    | nil => rfl
    | cons b bs ih => rw [List.map_cons, List.foldl_cons, Store.define_map, ih, List.foldl_cons]
  have hsize : (m.recoded c).store.size = m.store.size := m.store.size_map
  have hpush : (m.recoded c).store.push (some parent) =
      (m.store.push (some parent)).map (Value.recoded c) := m.store.push_map _
  simp only [pushFrame, hsize, hpush, hfold]
  rfl

theorem Carries.inBlock {p q : Run Flow} {g : Flow → Flow} (hp : Carries c g p q) :
    Carries c g (inBlock p) (inBlock q) := by
  unfold Evaluation.inBlock
  apply Carries.get
  intro m
  apply (pushFrame_carries m.current []).bind
  intro frame
  exact hp.inFrame frame

theorem Carries.inBody {p q : Run Flow} {g : Flow → Flow} (hp : Carries c g p q) (line : Nat)
    (k : Closure) (bindings : List (String × Value)) :
    Carries c g (inBody line k bindings p)
      (inBody (c.line line) (k.recoded c) (bindings.map fun b => (b.1, b.2.recoded c)) q) := by
  unfold Evaluation.inBody
  apply Carries.get
  intro m
  have hdepth : (m.recoded c).depth = m.depth := rfl
  rw [hdepth]
  by_cases hfull : Machine.maxDepth ≤ m.depth
  · rw [if_pos hfull, if_pos hfull]
    exact raise_carries line .stackOverflow
  · rw [if_neg hfull, if_neg hfull]
    apply (pushFrame_carries k.frame bindings).bind
    intro frame
    exact (hp.inFrame frame).inCall

theorem defineNatives_recoded (ns : List Native) (m : Machine) :
    ns.foldl Machine.defineNative (m.recoded c) = (ns.foldl Machine.defineNative m).recoded c := by
  induction ns generalizing m with
  | nil => rfl
  | cons n ns ih =>
    have hdefine := m.store.define_map (h := Value.recoded c) m.globals n.name (.native m.nextId n)
    have hnative : (m.recoded c).defineNative n = (m.defineNative n).recoded c :=
      congrArg (fun store => { m with store := store, nextId := m.nextId + 1 }) hdefine
    rw [List.foldl_cons, hnative, ih, List.foldl_cons]

theorem callNative_carries (line : Nat) (n : Native) (arguments : List Value) :
    Carries c (Value.recoded c) (callNative line n arguments)
      (callNative (c.line line) n (arguments.map (Value.recoded c))) := by
  have harguments : (arguments.map (Value.recoded c)).map Value.toArgument =
      arguments.map Value.toArgument := by
    simp [toArgument_recoded]
  by_cases harity : arguments.length = n.arity
  · intro m
    have hheed : ∀ ns, (m.recoded c).heed ns = (m.heed ns).recoded c :=
      fun ns => defineNatives_recoded ns m.numbered
    have hnumber : (m.recoded c).nextId = m.nextId := rfl
    rw [callNative_apply m harity, callNative_apply _ ((List.length_map _).trans harity),
      harguments, hnumber, hheed]
    cases (n.run m.nextId (arguments.map Value.toArgument)).result with
    | ok answer => simp only [ofAnswer_recoded, ended]
    | error message => rfl
  · unfold callNative
    rw [List.length_map, if_pos harity, if_pos harity]
    exact raise_carries line (.wrongArity n.arity arguments.length)

end Primitives

section Sequence

variable {ev ev' : Expr Binding → Linked Value} {ex ex' : Stmt Binding → Linked Flow}
  {link link' : Linker}

theorem evaluateAll_carries
    (hev : ∀ e, Carries c (Value.recoded c) (ev e link) (ev' (e.recoded c) link'))
    (es : List (Expr Binding)) :
    Carries c (List.map (Value.recoded c)) (evaluateAll ev es link)
      (evaluateAll ev' (Expr.allRecoded c es) link') := by
  induction es with
  | nil => exact pure_carries []
  | cons e es ih =>
    apply (hev e).bind
    intro v
    apply ih.bind
    intro vs
    exact pure_carries (v :: vs)

theorem executeAll_carries
    (hex : ∀ s, Carries c (Flow.recoded c) (ex s link) (ex' (s.recoded c) link'))
    (ss : List (Stmt Binding)) :
    Carries c (Flow.recoded c) (executeAll ex ss link)
      (executeAll ex' (Stmt.allRecoded c ss) link') := by
  induction ss with
  | nil => exact pure_carries Flow.normal
  | cons s ss ih =>
    apply (hex s).bind
    intro flow
    cases flow with
    | normal => exact ih
    | broken => exact pure_carries Flow.broken
    | returned v => exact pure_carries (Flow.returned v)

theorem repeatWhile_carries
    (hev : ∀ e, Carries c (Value.recoded c) (ev e link) (ev' (e.recoded c) link'))
    (hex : ∀ s, Carries c (Flow.recoded c) (ex s link) (ex' (s.recoded c) link'))
    (condition : Expr Binding) (body : Stmt Binding) (bound : Nat) :
    Carries c (Flow.recoded c) (repeatWhile ev ex condition body bound link)
      (repeatWhile ev' ex' (condition.recoded c) (body.recoded c) bound link') := by
  induction bound with
  | zero => exact throw_carries .exhausted
  | succ bound ih =>
    apply (hev condition).bind
    intro v
    simp only [holds_recoded]
    by_cases hv : v.holds
    · simp only [hv, if_true]
      apply (hex body).bind
      intro flow
      cases flow with
      | normal => exact ih
      | broken => exact pure_carries Flow.normal
      | returned w => exact pure_carries (Flow.returned w)
    · simp only [hv]
      exact pure_carries Flow.normal

end Sequence

section Step

variable {ev ev' : Expr Binding → Linked Value} {ex ex' : Stmt Binding → Linked Flow}
  {link link' : Linker}

theorem result_recoded (flow : Flow) :
    Flow.result (flow.recoded c) = (Flow.result flow).recoded c := by
  cases flow <;> rfl

theorem callClosure_carries
    (hex : ∀ s, Carries c (Flow.recoded c) (ex s link) (ex' (s.recoded c) link'))
    (line : Nat) (k : Closure) (arguments : List Value) :
    Carries c (Value.recoded c) (callClosure ex line k arguments link)
      (callClosure ex' (c.line line) (k.recoded c) (arguments.map (Value.recoded c)) link') := by
  have hparams : (k.recoded c).params.length = k.params.length := List.length_map _
  have hbindings : ((k.recoded c).params.map Token.lexeme).zip (arguments.map (Value.recoded c)) =
      ((k.params.map Token.lexeme).zip arguments).map fun b => (b.1, b.2.recoded c) := by
    simp [Closure.recoded, Token.moved, List.zip_map_right, Function.comp_def, Prod.map]
  unfold callClosure
  rw [List.length_map, hparams, hbindings]
  by_cases harity : arguments.length ≠ k.params.length
  · rw [if_pos harity, if_pos harity]
    exact raise_carries line (.wrongArity k.params.length arguments.length)
  · rw [if_neg harity, if_neg harity]
    apply ((executeAll_carries hex k.body).inBody line k _).bind
    intro flow
    simp only [result_recoded]
    exact pure_carries (Flow.result flow)

theorem invoke_carries (hex : ∀ s, Carries c (Flow.recoded c) (ex s link) (ex' (s.recoded c) link'))
    (line : Nat) (callee : Value) (arguments : List Value) :
    Carries c (Value.recoded c) (invoke ex line callee arguments link)
      (invoke ex' (c.line line) (callee.recoded c) (arguments.map (Value.recoded c)) link') := by
  cases callee with
  | closure k => exact callClosure_carries hex line k arguments
  | native id n => exact callNative_carries line n arguments
  | _ => exact raise_carries line (.notCallable _)

theorem evaluateStep_carries
    (hev : ∀ e, Carries c (Value.recoded c) (ev e link) (ev' (e.recoded c) link'))
    (hex : ∀ s, Carries c (Flow.recoded c) (ex s link) (ex' (s.recoded c) link'))
    (hlink : ∀ b, link' (c.note b) = link b) (e : Expr Binding) :
    Carries c (Value.recoded c) (evaluateStep ev ex e link)
      (evaluateStep ev' ex' (e.recoded c) link') := by
  cases e with
  | literal value =>
    have hv : (Value.ofLiteral value).recoded c = .ofLiteral value := ofLiteral_recoded value
    exact fun m => congrArg (EStateM.Result.ok · (m.recoded c)) hv.symm
  | group inner => exact hev inner
  | unary operator right =>
    apply (hev right).bind
    intro v
    simp only [Linked.report_apply, Token.moved, unary_recoded]
    exact report_carries operator.line _
  | binary left operator right =>
    apply (hev left).bind
    intro v
    apply (hev right).bind
    intro w
    simp only [Linked.report_apply, Token.moved, binary_recoded]
    exact report_carries operator.line _
  | logical left operator right =>
    apply (hev left).bind
    intro v
    simp only [Token.moved, decides_recoded]
    by_cases hv : Operator.decides operator.kind v
    · simp only [hv, if_true]
      exact pure_carries v
    · simp only [hv]
      exact hev right
  | ident note name => exact readVariable_carries (hlink note) name
  | assign note name value =>
    apply (hev value).bind
    intro v
    apply (writeVariable_carries (hlink note) name v).bind
    intro _
    exact pure_carries v
  | call callee paren arguments =>
    apply (hev callee).bind
    intro v
    apply (evaluateAll_carries hev arguments).bind
    intro vs
    exact invoke_carries hex paren.line v vs
  | lambda params body => exact makeClosure_carries "anonymous" params body

theorem executeStep_carries
    (hev : ∀ e, Carries c (Value.recoded c) (ev e link) (ev' (e.recoded c) link'))
    (hex : ∀ s, Carries c (Flow.recoded c) (ex s link) (ex' (s.recoded c) link')) (bound : Nat)
    (s : Stmt Binding) :
    Carries c (Flow.recoded c) (executeStep bound ev ex s link)
      (executeStep bound ev' ex' (s.recoded c) link') := by
  cases s with
  | exprStmt e =>
    apply (hev e).bind
    intro _
    exact pure_carries Flow.normal
  | printStmt e =>
    apply (hev e).bind
    intro v
    apply (printValue_carries v).bind
    intro _
    exact pure_carries Flow.normal
  | varDecl name initial =>
    have hdefine : ∀ v, Carries c (Flow.recoded c)
        (do defineVariable name v; pure .normal)
        (do defineVariable (name.moved c.line) (v.recoded c); pure .normal) := by
      intro v
      apply (defineVariable_carries name v).bind
      intro _
      exact pure_carries Flow.normal
    cases initial with
    | none => exact hdefine .nil
    | some e => exact (hev e).bind hdefine
  | block body => exact (executeAll_carries hex body).inBlock
  | ifStmt condition yes no =>
    cases no with
    | none =>
      apply (hev condition).bind
      intro v
      simp only [holds_recoded]
      by_cases hv : v.holds
      · simp only [hv, if_true]
        exact hex yes
      · simp only [hv]
        exact pure_carries Flow.normal
    | some no =>
      apply (hev condition).bind
      intro v
      simp only [holds_recoded]
      by_cases hv : v.holds
      · simp only [hv, if_true]
        exact hex yes
      · simp only [hv]
        exact hex no
  | whileStmt condition body => exact repeatWhile_carries hev hex condition body bound
  | breakStmt keyword => exact pure_carries Flow.broken
  | returnStmt keyword value =>
    cases value with
    | none => exact pure_carries (Flow.returned .nil)
    | some e =>
      apply (hev e).bind
      intro v
      exact pure_carries (Flow.returned v)
  | funDecl name params body =>
    change Carries c _
      (makeClosure name.lexeme params body >>= fun f => defineVariable name f >>= fun _ =>
        pure Flow.normal)
      (makeClosure name.lexeme (params.map (Token.moved c.line)) (Stmt.allRecoded c body) >>=
        fun f => defineVariable (name.moved c.line) f >>= fun _ => pure Flow.normal)
    apply (makeClosure_carries name.lexeme params body).bind
    intro v
    apply (defineVariable_carries name v).bind
    intro _
    exact pure_carries Flow.normal

end Step

section Run

variable {link link' : Linker}

theorem evaluate_execute_carry (hlink : ∀ b, link' (c.note b) = link b) (fuel : Nat) :
    (∀ e, Carries c (Value.recoded c) (evaluateIn Linked fuel e link)
        (evaluateIn Linked fuel (e.recoded c) link')) ∧
      ∀ s, Carries c (Flow.recoded c) (executeIn Linked fuel s link)
        (executeIn Linked fuel (s.recoded c) link') := by
  -- the linkers need to agree on notes only, whatever the depth
  induction fuel with
  | zero => exact ⟨fun _ => throw_carries .exhausted, fun _ => throw_carries .exhausted⟩
  | succ fuel ih =>
    obtain ⟨hev, hex⟩ := ih
    exact ⟨evaluateStep_carries hev hex hlink, executeStep_carries hev hex fuel⟩

theorem executeProgram_carries (hlink : ∀ b, link' (c.note b) = link b) (fuel : Nat)
    (ss : List (Stmt Binding)) :
    Carries c id (executeProgramIn Linked fuel ss link)
      (executeProgramIn Linked fuel (Stmt.allRecoded c ss) link') := by
  induction ss with
  | nil => exact pure_carries ()
  | cons s ss ih =>
    apply ((evaluate_execute_carry hlink fuel).2 s).bind
    intro _
    exact ih

/-- A recoded program runs on a recoded machine as it runs before. -/
theorem interpret_carries (c : Recoding) (link link' : Linker)
    (hlink : ∀ b, link' (c.note b) = link b) (fuel : Nat) (program : List (Stmt Binding)) :
    Carries c id (Linked.interpret link fuel program)
      (Linked.interpret link' fuel (Stmt.allRecoded c program)) := by
  intro m
  have hm := executeProgram_carries hlink fuel program m
  simp only [Linked.interpret, finish, hm]
  cases executeProgramIn Linked fuel program link m with
  | ok a n =>
    have hsink : (n.recoded c).sink = n.sink := rfl
    by_cases hflush : n.sink.flushFails
    · simp [ended, hsink, hflush, Stop.recoded]
    · simp [ended, hsink, hflush]
  | error stop n => rfl

end Run

end Recoding

end ScriptLang
