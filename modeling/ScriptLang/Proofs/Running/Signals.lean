import ScriptLang.Proofs.Parsing.Compiling
import ScriptLang.Proofs.Running.Discipline

namespace ScriptLang

open Running (prefixOperators infixOperators)

mutual

def Expr.Proper : Expr Binding → Prop
  | .literal _ => True
  | .group inner => inner.Proper
  | .unary operator right => operator.kind ∈ prefixOperators ∧ right.Proper
  | .binary left operator right =>
    operator.kind ∈ infixOperators ∧ left.Proper ∧ right.Proper
  | .logical left _ right => left.Proper ∧ right.Proper
  | .ident _ _ => True
  | .assign _ _ value => value.Proper
  | .call callee _ arguments => callee.Proper ∧ Expr.AllProper arguments
  | .lambda _ body => Stmt.AllProper false true body

def Expr.AllProper : List (Expr Binding) → Prop
  | [] => True
  | e :: es => e.Proper ∧ Expr.AllProper es

/-- The flags tell whether a loop is open around the statement in its function, and whether there is
a function at all. -/
def Stmt.Proper (inLoop inFunction : Bool) : Stmt Binding → Prop
  | .exprStmt e => e.Proper
  | .printStmt e => e.Proper
  | .varDecl _ none => True
  | .varDecl _ (some initial) => initial.Proper
  | .block body => Stmt.AllProper inLoop inFunction body
  | .ifStmt condition yes none => condition.Proper ∧ yes.Proper inLoop inFunction
  | .ifStmt condition yes (some no) =>
    condition.Proper ∧ yes.Proper inLoop inFunction ∧ no.Proper inLoop inFunction
  | .whileStmt condition body => condition.Proper ∧ body.Proper true inFunction
  | .breakStmt _ => inLoop = true
  | .returnStmt _ none => inFunction = true
  | .returnStmt _ (some value) => inFunction = true ∧ value.Proper
  | .funDecl _ _ body => Stmt.AllProper false true body

def Stmt.AllProper (inLoop inFunction : Bool) : List (Stmt Binding) → Prop
  | [] => True
  | s :: ss => s.Proper inLoop inFunction ∧ Stmt.AllProper inLoop inFunction ss

end

section Resolution

theorem infixOperators_of_level {kind : Kind}
    (h : operatorLevel kind ∈ [Grammar.Level.equality, .comparison, .term, .factor]) :
    kind ∈ infixOperators := by
  cases kind <;> simp_all [operatorLevel, infixOperators]

theorem returnErrors_eq_nil {inFunction : Bool} {keyword : Token}
    (h : Scope.returnErrors inFunction keyword = []) : inFunction = true := by
  cases inFunction with
  | true => rfl
  | false => cases h

mutual

theorem Expr.resolve_proper (S : Scope.Stack) (e : Expr Unit) (hs : e.Shaped)
    (h : (e.resolve S).2 = []) : (e.resolve S).1.Proper := by
  cases e with
  | literal value => exact trivial
  | group inner => exact inner.resolve_proper S hs h
  | unary operator right => exact ⟨hs.1, right.resolve_proper S hs.2.2 h⟩
  | binary left operator right =>
    obtain ⟨hl, hr⟩ := List.append_eq_nil_iff.mp h
    exact ⟨infixOperators_of_level hs.1, left.resolve_proper S hs.2.2.1 hl,
      right.resolve_proper S hs.2.2.2.2 hr⟩
  | logical left operator right =>
    obtain ⟨hl, hr⟩ := List.append_eq_nil_iff.mp h
    exact ⟨left.resolve_proper S hs.2.2.1 hl, right.resolve_proper S hs.2.2.2.2 hr⟩
  | ident u name => exact trivial
  | assign u name value =>
    obtain ⟨hv, -⟩ := List.append_eq_nil_iff.mp h
    exact value.resolve_proper S hs.2 hv
  | call callee paren arguments =>
    obtain ⟨hc, ha⟩ := List.append_eq_nil_iff.mp h
    exact ⟨callee.resolve_proper S hs.2.1 hc, Expr.resolveAll_proper S arguments hs.2.2.2.2 ha⟩
  | lambda params body =>
    obtain ⟨-, hb⟩ := List.append_eq_nil_iff.mp h
    exact Stmt.resolveAll_proper true _ body hs.2 hb

theorem Expr.resolveAll_proper (S : Scope.Stack) (es : List (Expr Unit)) (hs : Expr.AllShaped es)
    (h : (Expr.resolveAll S es).2 = []) : Expr.AllProper (Expr.resolveAll S es).1 := by
  cases es with
  | nil => exact trivial
  | cons e es =>
    obtain ⟨he, hes⟩ := List.append_eq_nil_iff.mp h
    exact ⟨e.resolve_proper S hs.1 he, Expr.resolveAll_proper S es hs.2 hes⟩

theorem Stmt.resolve_proper {inLoop : Bool} (inFunction : Bool) (S : Scope.Stack) (s : Stmt Unit)
    (hs : s.Shaped inLoop) (h : (s.resolve inFunction S).2.2 = []) :
    (s.resolve inFunction S).1.Proper inLoop inFunction := by
  cases s with
  | exprStmt e => exact e.resolve_proper S hs h
  | printStmt e => exact e.resolve_proper S hs h
  | varDecl name initial =>
    cases initial with
    | none => exact trivial
    | some initial =>
      obtain ⟨-, hi⟩ := List.append_eq_nil_iff.mp h
      exact initial.resolve_proper _ hs.2 hi
  | block body => exact Stmt.resolveAll_proper inFunction _ body hs h
  | ifStmt condition yes no =>
    cases no with
    | none =>
      obtain ⟨hc, hy⟩ := List.append_eq_nil_iff.mp h
      exact ⟨condition.resolve_proper S hs.1 hc, yes.resolve_proper inFunction S hs.2.2 hy⟩
    | some no =>
      obtain ⟨hcy, hn⟩ := List.append_eq_nil_iff.mp h
      obtain ⟨hc, hy⟩ := List.append_eq_nil_iff.mp hcy
      exact ⟨condition.resolve_proper S hs.1 hc, yes.resolve_proper inFunction S hs.2.2.1 hy,
        no.resolve_proper inFunction _ hs.2.2.2.2.2 hn⟩
  | whileStmt condition body =>
    obtain ⟨hc, hb⟩ := List.append_eq_nil_iff.mp h
    exact ⟨condition.resolve_proper S hs.1 hc, body.resolve_proper inFunction S hs.2.2 hb⟩
  | breakStmt keyword => exact hs.2
  | returnStmt keyword value =>
    cases value with
    | none => exact returnErrors_eq_nil h
    | some value =>
      obtain ⟨hf, hv⟩ := List.append_eq_nil_iff.mp h
      exact ⟨returnErrors_eq_nil hf, value.resolve_proper S hs.2 hv⟩
  | funDecl name params body =>
    obtain ⟨-, hb⟩ := List.append_eq_nil_iff.mp h
    exact Stmt.resolveAll_proper true _ body hs.2.2 hb

theorem Stmt.resolveAll_proper {inLoop : Bool} (inFunction : Bool) (S : Scope.Stack)
    (ss : List (Stmt Unit)) (hs : Stmt.AllShaped inLoop ss)
    (h : (Stmt.resolveAll inFunction S ss).2.2 = []) :
    Stmt.AllProper inLoop inFunction (Stmt.resolveAll inFunction S ss).1 := by
  cases ss with
  | nil => exact trivial
  | cons s ss =>
    obtain ⟨hfirst, hothers⟩ := List.append_eq_nil_iff.mp h
    exact ⟨s.resolve_proper inFunction S hs.1 hfirst,
      Stmt.resolveAll_proper inFunction _ ss hs.2 hothers⟩

end

theorem compile_proper {source : String} {program : List (Stmt Binding)}
    (h : Session.compile source = .ok program) : Stmt.AllProper false false program := by
  obtain ⟨-, statements, hreads, hr⟩ := Session.compile_eq_ok.mp h
  obtain ⟨hempty, rfl⟩ := resolveProgram_eq_ok.mp hr
  exact Stmt.resolveAll_proper false [] statements hreads.shaped hempty

theorem Stmt.AllProper.mem {inLoop inFunction : Bool} {ss : List (Stmt Binding)}
    (h : Stmt.AllProper inLoop inFunction ss) {s : Stmt Binding} (hs : s ∈ ss) :
    s.Proper inLoop inFunction := by
  induction ss with
  | nil => cases hs
  | cons t ss ih =>
    rcases List.mem_cons.mp hs with rfl | hs
    · exact h.1
    · exact ih h.2 hs

theorem Expr.AllProper.mem {es : List (Expr Binding)} (h : Expr.AllProper es) {e : Expr Binding}
    (he : e ∈ es) : e.Proper := by
  induction es with
  | nil => cases he
  | cons d es ih =>
    rcases List.mem_cons.mp he with rfl | he
    · exact h.1
    · exact ih h.2 he

end Resolution

namespace Running

open Chronicle (Node Nested)
open Evaluation hiding inFrame inCall

section Part

/-- A part of a program in which all that is evaluated is proper. -/
def Sound : Node → Prop
  | .expr e => e.Proper
  | .stmt s => ∃ inLoop inFunction, s.Proper inLoop inFunction

theorem sound_hereditary : Hereditary Sound := by
  intro n hn part hpart
  have hbody : ∀ {l f : Bool} {body : List (Stmt Binding)}, Stmt.AllProper l f body →
      part ∈ body.map Node.stmt → Sound part := by
    intro l f body hproper hmem
    obtain ⟨s, hs, rfl⟩ := List.mem_map.mp hmem
    exact ⟨l, f, hproper.mem hs⟩
  -- what is proper has proper parts, each under the flags that its place gives it
  cases n with
  | expr e =>
    cases e with
    | literal value => cases hpart
    | ident binding name => cases hpart
    | group inner | unary operator inner | assign binding name inner =>
      obtain rfl := List.mem_singleton.mp hpart
      first | exact hn | exact hn.2
    | binary left operator right =>
      simp only [Node.children, List.mem_cons, List.not_mem_nil, or_false] at hpart
      rcases hpart with rfl | rfl
      · exact hn.2.1
      · exact hn.2.2
    | logical left operator right =>
      simp only [Node.children, List.mem_cons, List.not_mem_nil, or_false] at hpart
      rcases hpart with rfl | rfl
      · exact hn.1
      · exact hn.2
    | call callee paren arguments =>
      simp only [Node.children, List.mem_cons, List.mem_map] at hpart
      rcases hpart with rfl | ⟨e, he, rfl⟩
      · exact hn.1
      · exact hn.2.mem he
    | lambda params body => exact hbody hn hpart
  | stmt s =>
    obtain ⟨l, f, hs⟩ := hn
    cases s with
    | exprStmt e | printStmt e =>
      obtain rfl := List.mem_singleton.mp hpart
      exact hs
    | varDecl name initial =>
      cases initial with
      | none => cases hpart
      | some e =>
        obtain rfl := List.mem_singleton.mp hpart
        exact hs
    | block body => exact hbody hs hpart
    | ifStmt condition yes no =>
      cases no with
      | none =>
        simp only [Node.children, Option.toList_none, List.map_nil, List.mem_cons,
          List.not_mem_nil, or_false] at hpart
        rcases hpart with rfl | rfl
        · exact hs.1
        · exact ⟨l, f, hs.2⟩
      | some no =>
        simp only [Node.children, Option.toList_some, List.map_cons, List.map_nil, List.mem_cons,
          List.not_mem_nil, or_false] at hpart
        rcases hpart with rfl | rfl | rfl
        · exact hs.1
        · exact ⟨l, f, hs.2.1⟩
        · exact ⟨l, f, hs.2.2⟩
    | whileStmt condition body =>
      simp only [Node.children, List.mem_cons, List.not_mem_nil, or_false] at hpart
      rcases hpart with rfl | rfl
      · exact hs.1
      · exact ⟨true, f, hs.2⟩
    | breakStmt keyword => cases hpart
    | returnStmt keyword value =>
      cases value with
      | none => cases hpart
      | some e =>
        obtain rfl := List.mem_singleton.mp hpart
        exact hs.2
    | funDecl name params body => exact hbody hs hpart

theorem Hereditary.nested {P : Node → Prop} (hP : Hereditary P) {program : List (Stmt Binding)}
    (hs : ∀ s ∈ program, P (.stmt s)) {around : List Node} {n : Node}
    (hn : Nested program around n) : P n := by
  induction around generalizing n with
  | nil =>
    obtain ⟨s, hmem, rfl⟩ := List.mem_map.mp hn
    exact hs s hmem
  | cons outer around ih => exact hP outer (ih hn.2) n hn.1

theorem Sound.body {n : Node} (hn : Sound n) {params : List Token} {body : List (Stmt Binding)}
    (hf : n.function? = some (params, body)) : Stmt.AllProper false true body := by
  cases n with
  | expr e =>
    cases e with
    | lambda ps ss =>
      cases hf
      exact hn
    | _ => cases hf
  | stmt s =>
    cases s with
    | funDecl name ps ss =>
      cases hf
      obtain ⟨_, _, hs⟩ := hn
      exact hs
    | _ => cases hf

theorem compile_covers (source : String) : Covers Sound source := by
  intro program hc s hs
  exact ⟨false, false, (compile_proper hc).mem hs⟩

theorem Blamed.valid {fault : RuntimeFault} (h : Blamed Sound fault) :
    fault ≠ .invalidUnaryOperator ∧ fault ≠ .invalidBinaryOperator := by
  constructor
  · rintro rfl
    obtain ⟨operator, right, hproper, hkind⟩ := h
    exact hkind hproper.1
  · rintro rfl
    obtain ⟨left, operator, right, hproper, hkind⟩ := h
    exact hkind hproper.1

end Part

section Finish

def Allowed (inLoop inFunction : Bool) : Flow → Prop
  | .normal => True
  | .broken => inLoop = true
  | .returned _ => inFunction = true

/-- Whatever machine it starts on, a run that is not stopped answers as `A` says. -/
structure Finishes {α : Type} (p : Run α) (A : α → Prop) : Prop where
  answer : ∀ {m a n}, p m = .ok a n → A a

variable {α β : Type} {A : α → Prop} {B : β → Prop} {ev : Evaluator} {ex : Executor} {l f : Bool}

theorem pure_finishes {a : α} (ha : A a) : Finishes (pure a) A := by
  constructor
  intro m b n h
  cases h
  exact ha

theorem throw_finishes (stop : Stop) : Finishes (throw stop) A := by
  constructor
  intro m a n h
  cases h

theorem Finishes.bind {p : Run α} {g : α → Run β} (hp : Finishes p A)
    (hg : ∀ a, A a → Finishes (g a) B) : Finishes (p >>= g) B := by
  constructor
  intro m b n h
  rw [bind_apply] at h
  cases hpm : p m with
  | error stop k => simp [hpm] at h
  | ok a k =>
    rw [hpm] at h
    exact (hg a (hp.answer hpm)).answer h

theorem Finishes.after {p : Run α} {g : α → Run β} (hg : ∀ a, Finishes (g a) B) :
    Finishes (p >>= g) B := by
  have hp : Finishes p fun _ => True := ⟨fun _ => trivial⟩
  exact hp.bind fun a _ => hg a

theorem inFrame_finishes {p : Run α} (frame : Nat) (hp : Finishes p A) :
    Finishes (Evaluation.inFrame frame p) A := by
  constructor
  intro m a n h
  unfold Evaluation.inFrame at h
  cases hpm : p { m with current := frame } with
  | error stop k => simp [hpm] at h
  | ok b k =>
    simp only [hpm] at h
    cases h
    exact hp.answer hpm

theorem inBlock_finishes {p : Run Flow} {A : Flow → Prop} (hp : Finishes p A) :
    Finishes (inBlock p) A := by
  unfold inBlock
  apply Finishes.after
  intro m
  apply Finishes.after
  intro frame
  exact inFrame_finishes frame hp

theorem executeAll_finishes {ss : List (Stmt Binding)}
    (hex : ∀ s ∈ ss, Finishes (ex s) (Allowed l f)) :
    Finishes (executeAll ex ss) (Allowed l f) := by
  induction ss with
  | nil => exact pure_finishes (a := Flow.normal) trivial
  | cons s ss ih =>
    apply (hex s List.mem_cons_self).bind
    intro flow hflow
    cases flow with
    | normal => exact ih fun s' hs' => hex s' (List.mem_cons_of_mem _ hs')
    | broken => exact pure_finishes hflow
    | returned v => exact pure_finishes hflow

theorem repeatWhile_finishes {condition : Expr Binding} {body : Stmt Binding}
    (hex : Finishes (ex body) (Allowed true f)) (bound : Nat) :
    Finishes (repeatWhile ev ex condition body bound) (Allowed false f) := by
  induction bound with
  | zero => exact throw_finishes _
  | succ bound ih =>
    apply Finishes.after
    intro v
    by_cases hv : v.holds
    · simp only [hv, if_true]
      apply hex.bind
      intro flow hflow
      cases flow with
      | normal => exact ih
      | broken => exact pure_finishes (a := Flow.normal) trivial
      | returned w => exact pure_finishes (a := Flow.returned w) hflow
    · simp only [hv]
      exact pure_finishes (a := Flow.normal) trivial

theorem Allowed.inLoop {flow : Flow} (h : Allowed false f flow) : Allowed l f flow := by
  cases flow with
  | broken => cases h
  | _ => exact h

theorem executeStep_finishes
    (hex : ∀ {l f : Bool} {s : Stmt Binding}, s.Proper l f → Finishes (ex s) (Allowed l f))
    (bound : Nat) {s : Stmt Binding} (hs : s.Proper l f) :
    Finishes (executeStep bound ev ex s) (Allowed l f) := by
  have hnormal : Finishes (pure .normal) (Allowed l f) := pure_finishes trivial
  cases s with
  | exprStmt e => exact .after fun _ => hnormal
  | printStmt e => exact .after fun _ => .after fun _ => hnormal
  | varDecl name initial => exact .after fun _ => .after fun _ => hnormal
  | funDecl name params body => exact .after fun _ => .after fun _ => hnormal
  | block body =>
    exact inBlock_finishes (executeAll_finishes fun s' hs' => hex (hs.mem hs'))
  | ifStmt condition yes no =>
    apply Finishes.after
    intro v
    by_cases hv : v.holds
    · simp only [hv, if_true]
      cases no with
      | none => exact hex hs.2
      | some no => exact hex hs.2.1
    · simp only [hv]
      cases no with
      | none => exact hnormal
      | some no => exact hex hs.2.2
  | whileStmt condition body =>
    -- the body is inside a loop whatever is around the statement, and no `break` of it gets out
    have hloop : Finishes (repeatWhile ev ex condition body bound) (Allowed false f) :=
      repeatWhile_finishes (hex hs.2) bound
    exact ⟨fun h => (hloop.answer h).inLoop⟩
  | breakStmt keyword => exact pure_finishes (a := Flow.broken) hs
  | returnStmt keyword value =>
    apply Finishes.after
    intro v
    apply pure_finishes (a := Flow.returned v)
    cases value with
    | none => exact hs
    | some e => exact hs.1

theorem execute_finishes (fuel : Nat) {l f : Bool} {s : Stmt Binding} (hs : s.Proper l f) :
    Finishes (execute fuel s) (Allowed l f) := by
  -- the flags are those around the part, and a loop sets one for its body
  induction fuel generalizing l f s with
  | zero => exact throw_finishes _
  | succ fuel ih => exact executeStep_finishes ih fuel hs

end Finish

/-- A function body that finishes, finishes without a `break`, whatever machine runs it. -/
def Confined (body : List (Stmt Binding)) : Prop :=
  ∀ fuel, Finishes (executeAll (execute fuel) body) (· ≠ .broken)

theorem confined_of_proper {body : List (Stmt Binding)} (h : Stmt.AllProper false true body) :
    Confined body := by
  intro fuel
  constructor
  intro m flow n hrun
  have hfinishes : Finishes (executeAll (execute fuel) body) (Allowed false true) :=
    executeAll_finishes fun s hs => execute_finishes fuel (h.mem hs)
  have hallowed := hfinishes.answer hrun
  rintro rfl
  cases hallowed

/-- In what compiles, on any machine: statements at the top level finish normally, bodies of
functions without a `break`, and loops normally or with a `return`. In every session all functions
that are bound are confined, and no unit stops at an invalid operator. -/
theorem signals_never_escape (natives : List Native) (sink : Sink) (units : List (Nat × String)) :
    (∀ source program, Session.compile source = .ok program →
      (∀ s ∈ program, ∀ fuel, Finishes (execute fuel s) (· = .normal)) ∧
      (∀ around n params body, Nested program around n → n.function? = some (params, body) →
        Confined body) ∧
      ∀ around condition body, Nested program around (.stmt (.whileStmt condition body)) →
        ∀ fuel, Finishes (execute fuel (.whileStmt condition body)) (· ≠ .broken)) ∧
      (∀ f x c, (Session.runAll units (Machine.start natives sink)).2.store.get? f x =
        some (.closure c) → Confined c.body) ∧
      ∀ fuel source e,
        (Session.run fuel source (Session.runAll units (Machine.start natives sink)).2).1 =
          .stopped (.runtime e) →
        e.fault ≠ .invalidUnaryOperator ∧ e.fault ≠ .invalidBinaryOperator := by
  obtain ⟨hstart, -, hstocked⟩ := start_rests (P := Sound) natives sink
  -- the functions that any unit leaves behind were made of texts that compile
  obtain ⟨hrests, -, hstocked'⟩ :=
    runAll_rests sound_hereditary (fun u _ => compile_covers u.2) hstocked hstart
  refine ⟨?_, ?_, ?_⟩
  · intro source program hc
    have hnested : ∀ {around n}, Nested program around n → Sound n :=
      fun hn => sound_hereditary.nested (compile_covers source program hc) hn
    refine ⟨?_, ?_, ?_⟩
    · intro s hs fuel
      constructor
      intro m flow n hrun
      have hallowed := (execute_finishes fuel ((compile_proper hc).mem hs)).answer hrun
      cases flow with
      | normal => rfl
      | broken => cases hallowed
      | returned v => cases hallowed
    · intro around n params body hn hf
      exact confined_of_proper ((hnested hn).body hf)
    · intro around condition body hn fuel
      constructor
      intro m flow n hrun
      obtain ⟨_, f, hproper⟩ := hnested hn
      have hwhile : Stmt.Proper false f (.whileStmt condition body) := hproper
      have hallowed := (execute_finishes fuel hwhile).answer hrun
      rintro rfl
      cases hallowed
  · intro f x c hc
    obtain ⟨n, hn, hf⟩ := hstocked' f x (.closure c) hc
    exact confined_of_proper (hn.body hf)
  · intro fuel source e he
    exact ((run_rests sound_hereditary (compile_covers source) fuel hstocked' hrests).2.2.2 e
      he).valid

end Running
end ScriptLang
