import Mathlib.Logic.Relation
import ScriptLang.Proofs.Chronicle.History
import ScriptLang.Proofs.Running.Conduct

namespace ScriptLang.Running

open Chronicle (Node)
open Evaluation hiding inFrame inCall

variable {P : Node → Prop} {ev : Evaluator} {ex : Executor}

section Sequence

theorem evaluateAll_conducts {es : List (Expr Binding)}
    (hev : ∀ e ∈ es, Conducts P (ev e) (MadeOf P)) :
    Conducts P (evaluateAll ev es) fun vs => ∀ v ∈ vs, MadeOf P v := by
  induction es with
  | nil => exact pure_conducts (by simp)
  | cons e es ih =>
    apply (hev e List.mem_cons_self).bind
    intro v hv
    apply (ih fun e' he' => hev e' (List.mem_cons_of_mem _ he')).bind
    intro vs hvs
    apply pure_conducts
    intro w hw
    rcases List.mem_cons.mp hw with rfl | hw
    · exact hv
    · exact hvs w hw

theorem evaluateOptional_conducts {o : Option (Expr Binding)}
    (hev : ∀ e ∈ o, Conducts P (ev e) (MadeOf P)) :
    Conducts P (evaluateOptional ev o) (MadeOf P) := by
  cases o with
  | none => exact pure_conducts (a := Value.nil) trivial
  | some e => exact hev e rfl

theorem executeAll_conducts {ss : List (Stmt Binding)}
    (hex : ∀ s ∈ ss, Conducts P (ex s) (FlowMadeOf P)) :
    Conducts P (executeAll ex ss) (FlowMadeOf P) := by
  induction ss with
  | nil => exact pure_conducts (a := Flow.normal) trivial
  | cons s ss ih =>
    apply (hex s List.mem_cons_self).bind
    intro flow hflow
    cases flow with
    | normal => exact ih fun s' hs' => hex s' (List.mem_cons_of_mem _ hs')
    | broken => exact pure_conducts hflow
    | returned v => exact pure_conducts hflow

theorem repeatWhile_conducts {condition : Expr Binding} {body : Stmt Binding}
    (hev : Conducts P (ev condition) (MadeOf P)) (hex : Conducts P (ex body) (FlowMadeOf P))
    (bound : Nat) : Conducts P (repeatWhile ev ex condition body bound) (FlowMadeOf P) := by
  induction bound with
  | zero => exact throw_conducts exhausted_blamed
  | succ bound ih =>
    apply hev.bind
    intro v _
    by_cases hv : v.holds
    · simp only [hv, if_true]
      apply hex.bind
      intro flow hflow
      cases flow with
      | normal => exact ih
      | broken => exact pure_conducts (a := Flow.normal) trivial
      | returned w => exact pure_conducts hflow
    · simp only [hv]
      exact pure_conducts (a := Flow.normal) trivial

end Sequence

section Step

theorem body_of_function? {n : Node} {params : List Token} {body : List (Stmt Binding)}
    (h : n.function? = some (params, body)) : n.children = body.map Node.stmt := by
  cases n with
  | expr e =>
    cases e with
    | lambda ps ss =>
      cases h
      rfl
    | _ => cases h
  | stmt s =>
    cases s with
    | funDecl name ps ss =>
      cases h
      rfl
    | _ => cases h

theorem callClosure_conducts (hP : Hereditary P)
    (hex : ∀ s, P (.stmt s) → Conducts P (ex s) (FlowMadeOf P)) (line : Nat) {c : Closure}
    (hc : MadeOf P (.closure c)) {arguments : List Value} (ha : ∀ v ∈ arguments, MadeOf P v) :
    Conducts P (callClosure ex line c arguments) (MadeOf P) := by
  unfold callClosure
  by_cases harity : arguments.length ≠ c.params.length
  · rw [if_pos harity]
    exact raise_conducts line trivial
  · rw [if_neg harity]
    obtain ⟨n, hn, hf⟩ := hc
    have hbody : ∀ s ∈ c.body, Conducts P (ex s) (FlowMadeOf P) := by
      intro s hs
      apply hex s
      apply hP n hn
      rw [body_of_function? hf]
      exact List.mem_map_of_mem hs
    have hvalues : ∀ v ∈ ((c.params.map Token.lexeme).zip arguments).map Prod.snd,
        MadeOf P v := by
      intro v hv
      obtain ⟨b, hb, rfl⟩ := List.mem_map.mp hv
      exact ha b.2 (List.of_mem_zip hb).2
    apply (inBody_conducts line c hvalues (executeAll_conducts hbody)).bind
    intro flow hflow
    apply pure_conducts
    cases flow with
    | returned v => exact hflow
    | normal => exact trivial
    | broken => exact trivial

theorem invoke_conducts (hP : Hereditary P)
    (hex : ∀ s, P (.stmt s) → Conducts P (ex s) (FlowMadeOf P)) (line : Nat) {callee : Value}
    (hc : MadeOf P callee) {arguments : List Value} (ha : ∀ v ∈ arguments, MadeOf P v) :
    Conducts P (invoke ex line callee arguments) (MadeOf P) := by
  cases callee with
  | closure c => exact callClosure_conducts hP hex line hc ha
  | native id n => exact callNative_conducts line n ha
  | _ => exact raise_conducts line trivial

variable (hP : Hereditary P) (hev : ∀ e, P (.expr e) → Conducts P (ev e) (MadeOf P))
  (hex : ∀ s, P (.stmt s) → Conducts P (ex s) (FlowMadeOf P))

include hP hev hex

theorem evaluateStep_conducts {e : Expr Binding} (he : P (.expr e)) :
    Conducts P (evaluateStep ev ex e) (MadeOf P) := by
  have hpart : ∀ e', Node.expr e' ∈ (Node.expr e).children → Conducts P (ev e') (MadeOf P) :=
    fun e' hmem => hev e' (hP _ he _ hmem)
  cases e with
  | literal value => exact pure_conducts (ofLiteral_madeOf value)
  | group inner => exact hpart inner (by simp [Node.children])
  | unary operator right =>
    apply (hpart right (by simp [Node.children])).bind
    intro v _
    exact report_conducts _ (unary_answers he v)
  | binary left operator right =>
    apply (hpart left (by simp [Node.children])).bind
    intro v _
    apply (hpart right (by simp [Node.children])).bind
    intro w _
    exact report_conducts _ (binary_answers he v w)
  | logical left operator right =>
    apply (hpart left (by simp [Node.children])).bind
    intro v hv
    by_cases hd : Operator.decides operator.kind v
    · simp only [hd, if_true]
      exact pure_conducts hv
    · simp only [hd]
      exact hpart right (by simp [Node.children])
  | ident binding name => exact readVariable_conducts binding name
  | assign binding name value =>
    apply (hpart value (by simp [Node.children])).bind
    intro v hv
    apply (writeVariable_conducts binding name hv).bind
    intro _ _
    exact pure_conducts hv
  | call callee paren arguments =>
    apply (hpart callee (by simp [Node.children])).bind
    intro f hf
    apply (evaluateAll_conducts fun e' he' => hpart e' (by simp [Node.children, he'])).bind
    intro vs hvs
    exact invoke_conducts hP hex paren.line hf hvs
  | lambda params body => exact makeClosure_conducts _ he rfl

theorem executeStep_conducts (bound : Nat) {s : Stmt Binding} (hs : P (.stmt s)) :
    Conducts P (executeStep bound ev ex s) (FlowMadeOf P) := by
  have hpart : ∀ e', Node.expr e' ∈ (Node.stmt s).children → Conducts P (ev e') (MadeOf P) :=
    fun e' hmem => hev e' (hP _ hs _ hmem)
  have hbranch : ∀ s', Node.stmt s' ∈ (Node.stmt s).children →
      Conducts P (ex s') (FlowMadeOf P) := fun s' hmem => hex s' (hP _ hs _ hmem)
  have hnormal : Conducts P (pure .normal) (FlowMadeOf P) := pure_conducts trivial
  cases s with
  | exprStmt e =>
    apply (hpart e (by simp [Node.children])).bind
    intro _ _
    exact hnormal
  | printStmt e =>
    apply (hpart e (by simp [Node.children])).bind
    intro v _
    apply (printValue_conducts v).bind
    intro _ _
    exact hnormal
  | varDecl name initial =>
    apply (evaluateOptional_conducts (o := initial) _).bind
    · intro v hv
      apply (defineVariable_conducts name hv).bind
      intro _ _
      exact hnormal
    · intro e he
      exact hpart e (by simp [Node.children, Option.mem_def.mp he])
  | block body =>
    apply inBlock_conducts
    exact executeAll_conducts fun s' hs' => hbranch s' (by simp [Node.children, hs'])
  | ifStmt condition yes no =>
    apply (hpart condition (by simp [Node.children])).bind
    intro v _
    by_cases hv : v.holds
    · simp only [hv, if_true]
      exact hbranch yes (by simp [Node.children])
    · simp only [hv]
      cases no with
      | none => exact hnormal
      | some no => exact hbranch no (by simp [Node.children])
  | whileStmt condition body =>
    exact repeatWhile_conducts (hpart condition (by simp [Node.children]))
      (hbranch body (by simp [Node.children])) bound
  | breakStmt keyword => exact pure_conducts (a := Flow.broken) trivial
  | returnStmt keyword value =>
    apply (evaluateOptional_conducts (o := value) _).bind
    · intro v hv
      exact pure_conducts (a := Flow.returned v) hv
    · intro e he
      exact hpart e (by simp [Node.children, Option.mem_def.mp he])
  | funDecl name params body =>
    apply (makeClosure_conducts name.lexeme hs rfl).bind
    intro f hf
    apply (defineVariable_conducts name hf).bind
    intro _ _
    exact hnormal

end Step

section Run

theorem evaluate_execute_conduct (hP : Hereditary P) (fuel : Nat) :
    (∀ e, P (.expr e) → Conducts P (evaluate fuel e) (MadeOf P)) ∧
      ∀ s, P (.stmt s) → Conducts P (execute fuel s) (FlowMadeOf P) := by
  -- a call may execute the body of any function at hand, so all texts go in step
  induction fuel with
  | zero => exact ⟨fun _ _ => throw_conducts exhausted_blamed,
      fun _ _ => throw_conducts exhausted_blamed⟩
  | succ fuel ih =>
    obtain ⟨hev, hex⟩ := ih
    exact ⟨fun _ he => evaluateStep_conducts hP hev hex he,
      fun _ hs => executeStep_conducts hP hev hex fuel hs⟩

theorem executeProgram_conducts (hP : Hereditary P) (fuel : Nat) {ss : List (Stmt Binding)}
    (hs : ∀ s ∈ ss, P (.stmt s)) : Conducts P (executeProgram fuel ss) fun _ => True := by
  induction ss with
  | nil => exact pure_conducts trivial
  | cons s ss ih =>
    apply ((evaluate_execute_conduct hP fuel).2 s (hs s List.mem_cons_self)).bind
    intro _ _
    exact ih fun s' hs' => hs s' (List.mem_cons_of_mem _ hs')

/-- A machine between two units. -/
structure Rests (m : Machine) : Prop where
  current : m.current = m.globals
  depth : m.depth = 0

/-- After a program a machine rests, if it did so before or if the program stopped early. -/
theorem interpret_rests (hP : Hereditary P) (fuel : Nat) {program : List (Stmt Binding)}
    (hs : ∀ s ∈ program, P (.stmt s)) {m : Machine} (hm : Stocked P m) (hr : Rests m) :
    match interpret fuel program m with
    | .ok _ n => Rests n ∧ n.globals = m.globals ∧ Stocked P n
    | .error stop n => Rests n ∧ n.globals = m.globals ∧ Stocked P n ∧ BlamedStop P stop := by
  have h := executeProgram_conducts hP fuel hs m hm
  unfold interpret finish
  cases hrun : executeProgram fuel program m with
  | ok u n =>
    rw [hrun] at h
    obtain ⟨hmoved, hstocked, -⟩ := h
    have hrests : Rests n :=
      ⟨by rw [hmoved.current, hmoved.globals, hr.current], hmoved.depth.trans hr.depth⟩
    by_cases hflush : n.sink.flushFails
    · simp only [hflush, if_true]
      exact ⟨hrests, hmoved.globals, hstocked, output_blamed _⟩
    · simp only [hflush]
      exact ⟨hrests, hmoved.globals, hstocked⟩
  | error stop n =>
    rw [hrun] at h
    obtain ⟨hmoved, hstocked, hblamed⟩ := h
    -- a unit that stops sets the machine at rest itself
    exact ⟨⟨rfl, rfl⟩, hmoved.globals, hstocked, hblamed⟩

end Run

section Session

def Covers (P : Node → Prop) (source : String) : Prop :=
  ∀ program, Session.compile source = .ok program → ∀ s ∈ program, P (.stmt s)

theorem run_rests (hP : Hereditary P) {source : String} (hs : Covers P source) (fuel : Nat)
    {m : Machine} (hm : Stocked P m) (hr : Rests m) :
    Rests (Session.run fuel source m).2 ∧ (Session.run fuel source m).2.globals = m.globals ∧
      Stocked P (Session.run fuel source m).2 ∧
      ∀ e, (Session.run fuel source m).1 = .stopped (.runtime e) → Blamed P e.fault := by
  unfold Session.run
  cases hc : Session.compile source with
  | error diagnostics =>
    refine ⟨hr, rfl, hm, ?_⟩
    intro e he
    cases he
  | ok program =>
    have h := interpret_rests hP fuel (hs program hc) hm hr
    simp only
    cases hi : interpret fuel program m with
    | ok u n =>
      rw [hi] at h
      refine ⟨h.1, h.2.1, h.2.2, ?_⟩
      intro e he
      cases he
    | error stop n =>
      rw [hi] at h
      refine ⟨h.1, h.2.1, h.2.2.1, ?_⟩
      intro e he
      cases stop with
      | error e' =>
        cases he
        exact h.2.2.2 e rfl
      | output f => cases he
      | exhausted => cases he

theorem runAll_rests (hP : Hereditary P) {units : List (Nat × String)}
    (hs : ∀ u ∈ units, Covers P u.2) {m : Machine} (hm : Stocked P m) (hr : Rests m) :
    Rests (Session.runAll units m).2 ∧ (Session.runAll units m).2.globals = m.globals ∧
      Stocked P (Session.runAll units m).2 := by
  induction units generalizing m with
  | nil => exact ⟨hr, rfl, hm⟩
  | cons u units ih =>
    obtain ⟨hrests, hglobals, hstocked, -⟩ := run_rests hP (hs u List.mem_cons_self) u.1 hm hr
    obtain ⟨hrests', hglobals', hstocked'⟩ :=
      ih (fun u' hu' => hs u' (List.mem_cons_of_mem _ hu')) hstocked hrests
    exact ⟨hrests', hglobals'.trans hglobals, hstocked'⟩

theorem start_rests (natives : List Native) (sink : Sink) :
    Rests (Machine.start natives sink) ∧ (Machine.start natives sink).globals = 0 ∧
      Stocked P (Machine.start natives sink) := by
  have hempty : Stocked P ⟨Store.empty.push none, 0, 0, 0, 0, sink⟩ := by
    intro f x v hv
    rw [Store.get?_push] at hv
    simp [Store.empty, Store.get?] at hv
  obtain ⟨hmoved, hstocked⟩ := defineNatives_unmoved natives hempty
  exact ⟨⟨hmoved.current.trans hmoved.globals.symm, hmoved.depth⟩, hmoved.globals, hstocked⟩

end Session

section Restoration

/-- The state a run leaves. -/
def ending {σ α : Type} : EStateM.Result Stop σ α → σ
  | .ok _ n => n
  | .error _ n => n

def Within : Node → Node → Prop :=
  Relation.ReflTransGen fun n part => part ∈ n.children

/-- A text that is at hand: a part of these, or of a function that is bound. -/
def AtHand (roots : List Node) (m : Machine) (n : Node) : Prop :=
  (∃ root ∈ roots, Within root n) ∨
    ∃ f x c, m.store.get? f x = some (.closure c) ∧ Within (.expr (.lambda c.params c.body)) n

/-- What every run restores. The distances that resolution noted are part of a text, so that none of
them changes where the functions bound afterwards are made of texts at hand before. -/
structure Restored (roots : List Node) (m n : Machine) : Prop extends Unmoved m n where
  texts : Stocked (AtHand roots m) n

variable {roots : List Node} {m : Machine}

theorem atHand_hereditary : Hereditary (AtHand roots m) := by
  rintro n (⟨root, hroot, hn⟩ | ⟨f, x, c, hc, hn⟩) part hpart
  · exact .inl ⟨root, hroot, hn.tail hpart⟩
  · exact .inr ⟨f, x, c, hc, hn.tail hpart⟩

theorem atHand_root {n : Node} (h : n ∈ roots) : AtHand roots m n :=
  .inl ⟨n, h, .refl⟩

theorem atHand_stocked : Stocked (AtHand roots m) m := by
  intro f x v hv
  cases v with
  | closure c => exact ⟨.expr (.lambda c.params c.body), .inr ⟨f, x, c, hv, .refl⟩, rfl⟩
  | _ => exact trivial

theorem Conducts.restored {α : Type} {p : Run α} {A : α → Prop}
    (h : Conducts (AtHand roots m) p A) : Restored roots m (ending (p m)) := by
  have hm := h m atHand_stocked
  cases hp : p m with
  | ok a n =>
    rw [hp] at hm
    exact ⟨hm.1, hm.2.1⟩
  | error stop n =>
    rw [hp] at hm
    exact ⟨hm.1, hm.2.1⟩

/-- Statements one after the other, each executed whatever became of those before it. -/
def attemptAll (fuel : Nat) : List (Stmt Binding) → Machine → Machine
  | [], m => m
  | s :: ss, m => attemptAll fuel ss (ending (execute fuel s m))

theorem execute_restores (fuel : Nat) (s : Stmt Binding) (m : Machine) :
    Restored [.stmt s] m (ending (execute fuel s m)) :=
  ((evaluate_execute_conduct atHand_hereditary fuel).2 s (atHand_root (by simp))).restored

theorem attemptAll_unmoved (fuel : Nat) (ss : List (Stmt Binding)) (m : Machine) :
    Unmoved m (attemptAll fuel ss m) := by
  induction ss generalizing m with
  | nil => exact .refl m
  | cons s ss ih => exact (execute_restores fuel s m).toUnmoved.trans (ih _)

theorem executeProgram_unmoved (fuel : Nat) (ss : List (Stmt Binding)) (m : Machine) :
    Unmoved m (ending (executeProgram fuel ss m)) := by
  have hroots : ∀ s ∈ ss, AtHand (ss.map .stmt) m (.stmt s) :=
    fun s hs => atHand_root (List.mem_map_of_mem hs)
  exact (executeProgram_conducts atHand_hereditary fuel hroots).restored.toUnmoved

end Restoration

/-- However an evaluation, a statement or a block ends, on any machine, it leaves the frame, the
number of active calls and the frame of global names as they were. So every attempt at a statement
starts where the first one did, and between the units of a session the machine rests. -/
theorem exits_restore_standing (natives : List Native) (sink : Sink)
    (units : List (Nat × String)) :
    (∀ fuel e m, Restored [.expr e] m (ending (evaluate fuel e m))) ∧
      (∀ fuel s m, Restored [.stmt s] m (ending (execute fuel s m))) ∧
      (∀ fuel frame ss m, Restored (ss.map .stmt) m
        (ending (Evaluation.inFrame frame (executeAll (execute fuel) ss) m))) ∧
      (∀ fuel ss m, Unmoved m (attemptAll fuel ss m)) ∧
      Rests (Session.runAll units (Machine.start natives sink)).2 ∧
      (Session.runAll units (Machine.start natives sink)).2.globals =
        (Machine.start natives sink).globals := by
  refine ⟨?_, execute_restores, ?_, attemptAll_unmoved, ?_⟩
  · intro fuel e m
    exact ((evaluate_execute_conduct atHand_hereditary fuel).1 e
      (atHand_root (by simp))).restored
  · intro fuel frame ss m
    apply Conducts.restored (A := FlowMadeOf _)
    apply inFrame_conducts frame
    apply executeAll_conducts
    intro s hs
    exact (evaluate_execute_conduct atHand_hereditary fuel).2 s
      (atHand_root (List.mem_map_of_mem hs))
  · have hall : Hereditary fun _ => True := fun _ _ _ _ => trivial
    obtain ⟨hrests, -, hstocked⟩ := start_rests (P := fun _ => True) natives sink
    have hcovers : ∀ u ∈ units, Covers (fun _ => True) u.2 := fun _ _ _ _ _ _ => trivial
    obtain ⟨hrests', hglobals, -⟩ := runAll_rests hall hcovers hstocked hrests
    exact ⟨hrests', hglobals⟩

end ScriptLang.Running
