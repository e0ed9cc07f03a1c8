import ScriptLang.Proofs.Chronicle.Declaring

namespace ScriptLang

namespace Chronicle.Node

/-- The parameters and the body of a node that makes a function object. -/
def function? : Node → Option (List Token × List (Stmt Binding))
  | .expr (.lambda params body) => some (params, body)
  | .stmt (.funDecl _ params body) => some (params, body)
  | _ => none

end Chronicle.Node

namespace Running

open Chronicle (Node)
open Evaluation hiding inFrame inCall

variable {α β : Type} {P : Node → Prop}

def Hereditary (P : Node → Prop) : Prop :=
  ∀ n, P n → ∀ part ∈ n.children, P part

def MadeOf (P : Node → Prop) : Value → Prop
  | .closure c => ∃ n, P n ∧ n.function? = some (c.params, c.body)
  | _ => True

def Stocked (P : Node → Prop) (m : Machine) : Prop :=
  ∀ f x v, m.store.get? f x = some v → MadeOf P v

/-- What a run leaves as it was. -/
structure Unmoved (m n : Machine) : Prop where
  current : n.current = m.current
  depth : n.depth = m.depth
  globals : n.globals = m.globals
  flush : n.sink.flushFails = m.sink.flushFails

def prefixOperators : List Kind := [.bang, .minus]

def infixOperators : List Kind :=
  [.plus, .minus, .star, .slash, .less, .lessEqual, .greater, .greaterEqual, .equalEqual,
    .bangEqual]

def Blamed (P : Node → Prop) : RuntimeFault → Prop
  | .invalidUnaryOperator =>
    ∃ operator right, P (.expr (.unary operator right)) ∧ operator.kind ∉ prefixOperators
  | .invalidBinaryOperator =>
    ∃ left operator right, P (.expr (.binary left operator right)) ∧
      operator.kind ∉ infixOperators
  | _ => True

def BlamedStop (P : Node → Prop) (stop : Stop) : Prop :=
  ∀ e, stop = .error e → Blamed P e.fault

def Ends (P : Node → Prop) (m : Machine) (A : α → Prop) : EStateM.Result Stop Machine α → Prop
  | .ok a n => Unmoved m n ∧ Stocked P n ∧ A a
  | .error stop n => Unmoved m n ∧ Stocked P n ∧ BlamedStop P stop

/-- The run leaves the machine standing where it stood, makes functions only of texts that satisfy
`P`, blames an operator that is none on such a text, and answers as `A` says. -/
def Conducts (P : Node → Prop) (p : Run α) (A : α → Prop) : Prop :=
  ∀ m, Stocked P m → Ends P m A (p m)

def FlowMadeOf (P : Node → Prop) : Flow → Prop
  | .returned v => MadeOf P v
  | _ => True

theorem Unmoved.refl (m : Machine) : Unmoved m m :=
  ⟨rfl, rfl, rfl, rfl⟩

theorem Unmoved.trans {m n k : Machine} (h : Unmoved m n) (h' : Unmoved n k) : Unmoved m k :=
  ⟨h'.current.trans h.current, h'.depth.trans h.depth, h'.globals.trans h.globals,
    h'.flush.trans h.flush⟩

section Combination

variable {A : α → Prop} {B : β → Prop}

theorem Ends.after {m n : Machine} {r : EStateM.Result Stop Machine α} (hn : Unmoved m n)
    (h : Ends P n A r) : Ends P m A r := by
  cases r with
  | ok a k => exact ⟨hn.trans h.1, h.2⟩
  | error stop k => exact ⟨hn.trans h.1, h.2⟩

theorem pure_conducts {a : α} (ha : A a) : Conducts P (pure a) A :=
  fun m hm => ⟨.refl m, hm, ha⟩

theorem throw_conducts {stop : Stop} (h : BlamedStop P stop) :
    Conducts P (throw stop : Run α) A :=
  fun m hm => ⟨.refl m, hm, h⟩

theorem Conducts.bind {p : Run α} {f : α → Run β} (hp : Conducts P p A)
    (hf : ∀ a, A a → Conducts P (f a) B) : Conducts P (p >>= f) B := by
  intro m hm
  have hpm := hp m hm
  rw [bind_apply]
  cases hr : p m with
  | ok a n =>
    rw [hr] at hpm
    exact (hf a hpm.2.2 n hpm.2.1).after hpm.1
  | error stop n =>
    rw [hr] at hpm
    exact hpm

theorem Conducts.get {f : Machine → Run α} (hf : ∀ m, Conducts P (f m) A) :
    Conducts P (get >>= f) A :=
  fun m hm => hf m m hm

theorem inFrame_conducts {p : Run α} (frame : Nat) (hp : Conducts P p A) :
    Conducts P (Evaluation.inFrame frame p) A := by
  intro m hm
  have hr := hp { m with current := frame } hm
  unfold Evaluation.inFrame
  cases hpr : p { m with current := frame } with
  | ok a n =>
    rw [hpr] at hr
    exact ⟨⟨rfl, hr.1.depth, hr.1.globals, hr.1.flush⟩, hr.2⟩
  | error stop n =>
    rw [hpr] at hr
    exact ⟨⟨rfl, hr.1.depth, hr.1.globals, hr.1.flush⟩, hr.2⟩

theorem inCall_conducts {p : Run α} (hp : Conducts P p A) :
    Conducts P (Evaluation.inCall p) A := by
  intro m hm
  have hr := hp { m with depth := m.depth + 1 } hm
  unfold Evaluation.inCall
  cases hpr : p { m with depth := m.depth + 1 } with
  | ok a n =>
    rw [hpr] at hr
    exact ⟨⟨hr.1.current, by simp [hr.1.depth], hr.1.globals, hr.1.flush⟩, hr.2⟩
  | error stop n =>
    rw [hpr] at hr
    exact ⟨⟨hr.1.current, by simp [hr.1.depth], hr.1.globals, hr.1.flush⟩, hr.2⟩

end Combination

section Fault

variable {A : α → Prop}

theorem exhausted_blamed : BlamedStop P .exhausted := by
  intro e he
  cases he

theorem output_blamed (f : OutputFault) : BlamedStop P (.output f) := by
  intro e he
  cases he

theorem raise_conducts (line : Nat) {fault : RuntimeFault} (h : Blamed P fault) :
    Conducts P (raise line fault : Run α) A := by
  apply throw_conducts
  intro e he
  cases he
  exact h

theorem undefined_conducts (name : Token) : Conducts P (undefined name : Run α) A := by
  have hblamed : Blamed P (.undefinedVariable name.lexeme) := trivial
  exact raise_conducts name.line hblamed

theorem madeOf_of_plain {v : Value} (h : Chronicle.Plain v) : MadeOf P v := by
  cases v with
  | closure c => exact absurd rfl (h c)
  | _ => exact trivial

theorem ofLiteral_madeOf (value : Literal) : MadeOf P (.ofLiteral value) :=
  madeOf_of_plain (Chronicle.plain_ofLiteral value)

def Answers (P : Node → Prop) : Except RuntimeFault Value → Prop
  | .ok v => MadeOf P v
  | .error fault => Blamed P fault

theorem report_conducts (line : Nat) {result : Except RuntimeFault Value}
    (h : Answers P result) : Conducts P (report line result) (MadeOf P) := by
  cases result with
  | ok v => exact pure_conducts h
  | error fault => exact raise_conducts line h

theorem unary_answers {operator : Token} {right : Expr Binding}
    (h : P (.expr (.unary operator right))) (v : Value) :
    Answers P (Operator.unary operator.kind v) := by
  by_cases hk : operator.kind ∈ prefixOperators
  · generalize operator.kind = kind at hk
    simp only [prefixOperators, List.mem_cons, List.not_mem_nil, or_false] at hk
    rcases hk with rfl | rfl
    · exact trivial
    · cases v <;> exact trivial
  · -- the fault must name the token, so it is blamed before the kind is split
    have hfault : Blamed P .invalidUnaryOperator := ⟨operator, right, h, hk⟩
    generalize operator.kind = kind at hk
    cases kind <;> first | exact hfault | simp [prefixOperators] at hk

theorem add_answers (v w : Value) : Answers P (Operator.add v w) := by
  cases v <;> cases w <;> exact trivial

theorem onNumbers_answers {f : Float → Float → Value} (hf : ∀ x y, MadeOf P (f x y))
    (v w : Value) : Answers P (Operator.onNumbers f v w) := by
  cases v with
  | number x =>
    cases w with
    | number y => exact hf x y
    | _ => exact trivial
  | _ => exact trivial

theorem binary_answers {left right : Expr Binding} {operator : Token}
    (h : P (.expr (.binary left operator right))) (v w : Value) :
    Answers P (Operator.binary operator.kind v w) := by
  have hfault : operator.kind ∉ infixOperators → Blamed P .invalidBinaryOperator :=
    fun hk => ⟨left, operator, right, h, hk⟩
  generalize operator.kind = kind at hfault
  cases kind with
  | plus => exact add_answers v w
  | equalEqual | bangEqual => exact trivial
  | minus | star | slash | less | lessEqual | greater | greaterEqual =>
    apply onNumbers_answers
    intro x y
    exact trivial
  | _ => exact hfault (by simp [infixOperators])

end Fault

section Primitive

theorem Stocked.define {m : Machine} (h : Stocked P m) (f : Nat) (x : String) {v : Value}
    (hv : MadeOf P v) : ∀ g y w, (m.store.define f x v).get? g y = some w → MadeOf P w := by
  intro g y w hw
  rw [Store.get?_define] at hw
  split at hw
  · cases hw
    exact hv
  · exact h g y w hw

theorem pushFrame_conducts (parent : Nat) {bindings : List (String × Value)}
    (hb : ∀ v ∈ bindings.map Prod.snd, MadeOf P v) :
    Conducts P (pushFrame parent bindings) fun _ => True := by
  intro m hm
  refine ⟨⟨rfl, rfl, rfl, rfl⟩, ?_, trivial⟩
  intro f x v hv
  rcases Store.get?_defineAll _ _ _ _ bindings hv with hold | hnew
  · rw [Store.get?_push] at hold
    exact hm f x v hold
  · exact hb v hnew

theorem inBlock_conducts {p : Run Flow} {A : Flow → Prop} (hp : Conducts P p A) :
    Conducts P (inBlock p) A := by
  apply Conducts.get
  intro m
  apply (pushFrame_conducts m.current (by simp)).bind
  intro frame _
  exact inFrame_conducts frame hp

theorem inBody_conducts (line : Nat) (c : Closure) {bindings : List (String × Value)}
    (hb : ∀ v ∈ bindings.map Prod.snd, MadeOf P v) {p : Run Flow} {A : Flow → Prop}
    (hp : Conducts P p A) : Conducts P (inBody line c bindings p) A := by
  apply Conducts.get
  intro m
  by_cases hdepth : Machine.maxDepth ≤ m.depth
  · rw [if_pos hdepth]
    exact raise_conducts line trivial
  · rw [if_neg hdepth]
    apply (pushFrame_conducts c.frame hb).bind
    intro frame _
    exact inCall_conducts (inFrame_conducts frame hp)

theorem readVariable_conducts (binding : Binding) (name : Token) :
    Conducts P (readVariable binding name) (MadeOf P) := by
  intro m hm
  unfold readVariable
  cases hfind : (m.frameOf? binding).bind (m.store.get? · name.lexeme) with
  | none => exact undefined_conducts name m hm
  | some v =>
    obtain ⟨f, -, hv⟩ := Option.bind_eq_some_iff.mp hfind
    exact ⟨.refl m, hm, hm f name.lexeme v hv⟩

theorem writeVariable_conducts (binding : Binding) (name : Token) {v : Value}
    (hv : MadeOf P v) : Conducts P (writeVariable binding name v) fun _ => True := by
  intro m hm
  rcases writeVariable_cases binding name v m with ⟨-, hw⟩ | ⟨f, -, -, hw⟩
  · rw [hw]
    exact undefined_conducts name m hm
  · rw [hw]
    exact ⟨⟨rfl, rfl, rfl, rfl⟩, hm.define f name.lexeme hv, trivial⟩

theorem defineVariable_conducts (name : Token) {v : Value} (hv : MadeOf P v) :
    Conducts P (defineVariable name v) fun _ => True :=
  fun m hm => ⟨⟨rfl, rfl, rfl, rfl⟩, hm.define m.current name.lexeme hv, trivial⟩

theorem makeClosure_conducts (name : String) {params : List Token} {body : List (Stmt Binding)}
    {n : Node} (hn : P n) (hf : n.function? = some (params, body)) :
    Conducts P (makeClosure name params body) (MadeOf P) :=
  fun _ hm => ⟨⟨rfl, rfl, rfl, rfl⟩, hm, n, hn, hf⟩

theorem printValue_conducts (v : Value) : Conducts P (printValue v) fun _ => True := by
  intro m hm
  unfold printValue
  by_cases hf : m.sink.fits (v.text ++ "\n").toUTF8
  · simp only [hf, if_true]
    exact ⟨⟨rfl, rfl, rfl, rfl⟩, hm, trivial⟩
  · simp only [hf]
    exact ⟨⟨rfl, rfl, rfl, rfl⟩, hm, output_blamed _⟩

theorem defineNatives_unmoved (ns : List Native) {m : Machine} (hm : Stocked P m) :
    Unmoved m (ns.foldl Machine.defineNative m) ∧
      Stocked P (ns.foldl Machine.defineNative m) := by
  induction ns generalizing m with
  | nil => exact ⟨.refl m, hm⟩
  | cons n ns ih =>
    have hfirst : Stocked P (m.defineNative n) := hm.define m.globals n.name trivial
    have hmoved : Unmoved m (m.defineNative n) := ⟨rfl, rfl, rfl, rfl⟩
    obtain ⟨hrest, hstocked⟩ := ih hfirst
    exact ⟨hmoved.trans hrest, hstocked⟩

theorem heed_unmoved (ns : List Native) {m : Machine} (hm : Stocked P m) :
    Unmoved m (m.heed ns) ∧ Stocked P (m.heed ns) := by
  have hnumbered : Stocked P m.numbered := hm
  have hfirst : Unmoved m m.numbered := ⟨rfl, rfl, rfl, rfl⟩
  obtain ⟨hmoved, hstocked⟩ := defineNatives_unmoved ns hnumbered
  exact ⟨hfirst.trans hmoved, hstocked⟩

theorem callNative_conducts (line : Nat) (n : Native) {arguments : List Value}
    (ha : ∀ v ∈ arguments, MadeOf P v) : Conducts P (callNative line n arguments) (MadeOf P) := by
  by_cases harity : arguments.length = n.arity
  · intro m hm
    obtain ⟨hmoved, hstocked⟩ :=
      heed_unmoved (n.run m.nextId (arguments.map Value.toArgument)).defines hm
    rw [callNative_apply m harity]
    cases (n.run m.nextId (arguments.map Value.toArgument)).result with
    | ok answer =>
      refine ⟨hmoved, hstocked, ?_⟩
      rcases Value.ofAnswer_cases m.nextId arguments answer with hmem | hplain
      · exact ha _ hmem
      · exact madeOf_of_plain hplain
    | error message =>
      refine ⟨hmoved, hstocked, ?_⟩
      intro e he
      cases he
      exact trivial
  · have hraise : callNative line n arguments =
        raise line (.wrongArity n.arity arguments.length) := if_pos harity
    rw [hraise]
    exact raise_conducts line trivial

end Primitive

end Running
end ScriptLang
