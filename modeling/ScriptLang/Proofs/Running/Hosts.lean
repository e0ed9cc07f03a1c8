import ScriptLang.Machine.Evaluation

namespace ScriptLang.Evaluation

theorem bind_apply {σ α β : Type} (q : EStateM Stop σ α) (f : α → EStateM Stop σ β) (r : σ) :
    (q >>= f) r = match q r with
      | .ok a n => f a n
      | .error stop n => .error stop n := by
  change EStateM.bind q f r = _
  unfold EStateM.bind
  cases q r <;> rfl

variable {M N : Type → Type} [Monad M] [MonadExceptOf Stop M] [Host M] [Monad N]
  [MonadExceptOf Stop N] [Host N]

structure Congruence (R : (α : Type) → M α → N α → Prop) : Prop where
  pure : ∀ {α : Type} (a : α), R α (pure a) (pure a)
  throw : ∀ {α : Type} (stop : Stop), R α (throw stop) (throw stop)
  bind : ∀ {α β : Type} {p : M α} {q : N α} {f : α → M β} {g : α → N β},
    R _ p q → (∀ a, R _ (f a) (g a)) → R _ (p >>= f) (q >>= g)
  evaluating : ∀ {p q} (e : Expr Binding), R _ p q → R _ (Host.evaluating e p) (Host.evaluating e q)
  executing : ∀ {p q} (s : Stmt Binding), R _ p q → R _ (Host.executing s p) (Host.executing s q)
  readVariable : ∀ binding name,
    R _ (Host.readVariable binding name) (Host.readVariable binding name)
  writeVariable : ∀ binding name v,
    R _ (Host.writeVariable binding name v) (Host.writeVariable binding name v)
  defineVariable : ∀ name v, R _ (Host.defineVariable name v) (Host.defineVariable name v)
  makeClosure : ∀ name params body,
    R _ (Host.makeClosure name params body) (Host.makeClosure name params body)
  printValue : ∀ v, R _ (Host.printValue v) (Host.printValue v)
  callNative : ∀ line n vs, R _ (Host.callNative line n vs) (Host.callNative line n vs)
  inBlock : ∀ {p q}, R _ p q → R _ (Host.inBlock p) (Host.inBlock q)
  inBody : ∀ {p q} line c bindings, R _ p q →
    R _ (Host.inBody line c bindings p) (Host.inBody line c bindings q)

namespace Congruence

variable {R : (α : Type) → M α → N α → Prop} (h : Congruence R)
  {ev : Expr Binding → M Value} {ev' : Expr Binding → N Value}
  {ex : Stmt Binding → M Flow} {ex' : Stmt Binding → N Flow}

include h

theorem raise {α : Type} (line : Nat) (fault : RuntimeFault) :
    R _ (Evaluation.raise line fault : M α) (Evaluation.raise line fault) :=
  h.throw (.error ⟨fault, line⟩)

theorem report (line : Nat) (result : Except RuntimeFault Value) :
    R _ (Evaluation.report line result) (Evaluation.report line result) := by
  cases result with
  | ok v => exact h.pure v
  | error fault => exact h.raise line fault

theorem evaluateAll (hev : ∀ e, R _ (ev e) (ev' e)) (es : List (Expr Binding)) :
    R _ (Evaluation.evaluateAll ev es) (Evaluation.evaluateAll ev' es) := by
  induction es with
  | nil => exact h.pure []
  | cons e es ih =>
    apply h.bind (hev e)
    intro v
    apply h.bind ih
    intro vs
    exact h.pure (v :: vs)

theorem evaluateOptional (hev : ∀ e, R _ (ev e) (ev' e)) (o : Option (Expr Binding)) :
    R _ (Evaluation.evaluateOptional ev o) (Evaluation.evaluateOptional ev' o) := by
  cases o with
  | none => exact h.pure Value.nil
  | some e => exact hev e

theorem executeAll (hex : ∀ s, R _ (ex s) (ex' s)) (ss : List (Stmt Binding)) :
    R _ (Evaluation.executeAll ex ss) (Evaluation.executeAll ex' ss) := by
  induction ss with
  | nil => exact h.pure Flow.normal
  | cons s ss ih =>
    apply h.bind (hex s)
    intro flow
    cases flow with
    | normal => exact ih
    | broken => exact h.pure Flow.broken
    | returned v => exact h.pure (Flow.returned v)

theorem repeatWhile (hev : ∀ e, R _ (ev e) (ev' e)) (hex : ∀ s, R _ (ex s) (ex' s))
    (condition : Expr Binding) (body : Stmt Binding) (bound : Nat) :
    R _ (Evaluation.repeatWhile ev ex condition body bound)
      (Evaluation.repeatWhile ev' ex' condition body bound) := by
  induction bound with
  | zero => exact h.throw .exhausted
  | succ bound ih =>
    apply h.bind (hev condition)
    intro v
    cases v.holds with
    | false => exact h.pure Flow.normal
    | true =>
      apply h.bind (hex body)
      intro flow
      cases flow with
      | normal => exact ih
      | broken => exact h.pure Flow.normal
      | returned w => exact h.pure (Flow.returned w)

theorem callClosure (hex : ∀ s, R _ (ex s) (ex' s)) (line : Nat) (c : Closure)
    (vs : List Value) :
    R _ (Evaluation.callClosure ex line c vs) (Evaluation.callClosure ex' line c vs) := by
  unfold Evaluation.callClosure
  by_cases harity : vs.length ≠ c.params.length
  · rw [if_pos harity, if_pos harity]
    exact h.raise line _
  · rw [if_neg harity, if_neg harity]
    apply h.bind (h.inBody line c _ (h.executeAll hex c.body))
    intro flow
    exact h.pure (Flow.result flow)

theorem invoke (hex : ∀ s, R _ (ex s) (ex' s)) (line : Nat) (callee : Value) (vs : List Value) :
    R _ (Evaluation.invoke ex line callee vs) (Evaluation.invoke ex' line callee vs) := by
  cases callee with
  | closure c => exact h.callClosure hex line c vs
  | native id n => exact h.callNative line n vs
  | _ => exact h.raise line _

theorem evaluateStep (hev : ∀ e, R _ (ev e) (ev' e)) (hex : ∀ s, R _ (ex s) (ex' s))
    (hcalling : ∀ paren f vs, R _ (Evaluation.invoke ex paren.line f vs)
        (Evaluation.invoke ex' paren.line f vs) →
      R _ (Host.calling paren f vs (Evaluation.invoke ex paren.line f vs))
        (Host.calling paren f vs (Evaluation.invoke ex' paren.line f vs)))
    (e : Expr Binding) :
    R _ (Evaluation.evaluateStep ev ex e) (Evaluation.evaluateStep ev' ex' e) := by
  cases e with
  | literal value => exact h.pure (Value.ofLiteral value)
  | group inner => exact hev inner
  | unary operator right =>
    apply h.bind (hev right)
    intro v
    exact h.report operator.line _
  | binary left operator right =>
    apply h.bind (hev left)
    intro v
    apply h.bind (hev right)
    intro w
    exact h.report operator.line _
  | logical left operator right =>
    apply h.bind (hev left)
    intro v
    cases Operator.decides operator.kind v with
    | true => exact h.pure v
    | false => exact hev right
  | ident binding name => exact h.readVariable binding name
  | assign binding name value =>
    apply h.bind (hev value)
    intro v
    apply h.bind (h.writeVariable binding name v)
    intro _
    exact h.pure v
  | call callee paren arguments =>
    apply h.bind (hev callee)
    intro f
    apply h.bind (h.evaluateAll hev arguments)
    intro vs
    exact hcalling paren f vs (h.invoke hex paren.line f vs)
  | lambda params body => exact h.makeClosure "anonymous" params body

theorem executeStep {bound bound' : Nat} (hev : ∀ e, R _ (ev e) (ev' e))
    (hex : ∀ s, R _ (ex s) (ex' s))
    (hloop : ∀ condition body, R _ (Evaluation.repeatWhile ev ex condition body bound)
      (Evaluation.repeatWhile ev' ex' condition body bound')) (s : Stmt Binding) :
    R _ (Evaluation.executeStep bound ev ex s) (Evaluation.executeStep bound' ev' ex' s) := by
  cases s with
  | exprStmt e =>
    apply h.bind (hev e)
    intro _
    exact h.pure Flow.normal
  | printStmt e =>
    apply h.bind (hev e)
    intro v
    apply h.bind (h.printValue v)
    intro _
    exact h.pure Flow.normal
  | varDecl name initial =>
    apply h.bind (h.evaluateOptional hev initial)
    intro v
    apply h.bind (h.defineVariable name v)
    intro _
    exact h.pure Flow.normal
  | block body => exact h.inBlock (h.executeAll hex body)
  | ifStmt condition yes no =>
    apply h.bind (hev condition)
    intro v
    cases v.holds with
    | true => exact hex yes
    | false =>
      cases no with
      | none => exact h.pure Flow.normal
      | some s => exact hex s
  | whileStmt condition body => exact hloop condition body
  | breakStmt keyword => exact h.pure Flow.broken
  | returnStmt keyword value =>
    apply h.bind (h.evaluateOptional hev value)
    intro v
    exact h.pure (Flow.returned v)
  | funDecl name params body =>
    apply h.bind (h.makeClosure name.lexeme params body)
    intro f
    apply h.bind (h.defineVariable name f)
    intro _
    exact h.pure Flow.normal

variable (hcalling : ∀ fuel paren f vs,
  R _ (Evaluation.invoke (executeIn M fuel) paren.line f vs)
    (Evaluation.invoke (executeIn N fuel) paren.line f vs) →
  R _ (Host.calling paren f vs (Evaluation.invoke (executeIn M fuel) paren.line f vs))
    (Host.calling paren f vs (Evaluation.invoke (executeIn N fuel) paren.line f vs)))

include hcalling

theorem evaluateIn_executeIn (fuel : Nat) :
    (∀ e, R _ (evaluateIn M fuel e) (evaluateIn N fuel e)) ∧
      ∀ s, R _ (executeIn M fuel s) (executeIn N fuel s) := by
  -- the steps ask nothing of what they are given but to be related
  induction fuel with
  | zero => exact ⟨fun _ => h.throw .exhausted, fun _ => h.throw .exhausted⟩
  | succ fuel ih =>
    obtain ⟨hev, hex⟩ := ih
    constructor
    · intro e
      exact h.evaluating e (h.evaluateStep hev hex (hcalling fuel) e)
    · intro s
      apply h.executing s
      exact h.executeStep hev hex (fun c b => h.repeatWhile hev hex c b fuel) s

theorem executeProgramIn (fuel : Nat) (program : List (Stmt Binding)) :
    R _ (Evaluation.executeProgramIn M fuel program)
      (Evaluation.executeProgramIn N fuel program) := by
  induction program with
  | nil => exact h.pure ()
  | cons s ss ih =>
    apply h.bind ((h.evaluateIn_executeIn hcalling fuel).2 s)
    intro _
    exact ih

end Congruence

end ScriptLang.Evaluation
