import ScriptLang.Proofs.Calls.Counting

namespace ScriptLang.Calls

open Evaluation (pushFrame evaluateAll executeAll Flow.result bind_apply inBody_overflows
  inBody_enters)
open Recording (unrecorded)
open Running (ending Stocked Rests)
open Captured (Confined)

variable {m n : Machine} {r : Record} {standing : List Closure}

section Call

variable {fuel : Nat} {c : Closure} {arguments : List Value}

theorem callClosure_eq (harity : arguments.length = c.params.length) (ex : Evaluation.Executor)
    (line : Nat) : Evaluation.callClosure ex line c arguments = (do
      let flow ← Evaluation.inBody line c ((c.params.map Token.lexeme).zip arguments)
        (executeAll ex c.body)
      pure (Flow.result flow)) := by
  unfold Evaluation.callClosure
  rw [if_neg (not_not_intro harity)]
  rfl

theorem callClosure_refuses (harity : arguments.length = c.params.length)
    (hm : m.depth = Machine.maxDepth) (ex : Evaluation.Executor) (line : Nat) :
    Evaluation.callClosure ex line c arguments m = .error (.error ⟨.stackOverflow, line⟩) m := by
  rw [callClosure_eq harity, bind_apply, inBody_overflows hm.ge]

theorem callClosure_enters (harity : arguments.length = c.params.length)
    (hm : m.depth < Machine.maxDepth) (line : Nat) :
    Evaluation.callClosure (Evaluation.execute fuel) line c arguments m =
      bodyRun fuel c arguments m := by
  have hbody : bodyRun fuel c arguments = (do
      let frame ← pushFrame c.frame ((c.params.map Token.lexeme).zip arguments)
      Evaluation.inCall (Evaluation.inFrame frame
        (executeAll (Evaluation.execute fuel) c.body))) >>= fun flow =>
          pure (Flow.result flow) := (bind_assoc _ _ _).symm
  rw [callClosure_eq harity, hbody, bind_apply, bind_apply, inBody_enters hm]

theorem bodyRun_makes_frame (fuel : Nat) (c : Closure) (arguments : List Value) (m : Machine) :
    m.store.size < (ending (bodyRun fuel c arguments m)).store.size := by
  let bindings := (c.params.map Token.lexeme).zip arguments
  let n : Machine :=
    { m with store := (m.store.push (some c.frame)).defineAll m.store.size bindings }
  have hsize : n.store.size = m.store.size + 1 := by simp [n]
  have hexecute := (Captured.evaluate_execute_confined (fun _ => True) fuel).2
  have hbody : Confined (fun _ => True) (Evaluation.inCall (Evaluation.inFrame m.store.size
      (executeAll (Evaluation.execute fuel) c.body)) >>= fun flow => pure (Flow.result flow))
      fun _ => True :=
    ((Captured.executeAll_confined hexecute c.body).inFrame trivial).inCall.bind fun _ _ =>
      Captured.pure_confined trivial
  exact Nat.lt_of_lt_of_le (Nat.lt_of_succ_le hsize.ge) (hbody.size_le n)

/-- A call overflows without having changed anything if and only if the limit is reached. -/
theorem callClosure_overflows_iff (harity : arguments.length = c.params.length)
    (hm : m.depth ≤ Machine.maxDepth) (line : Nat) :
    Evaluation.callClosure (Evaluation.execute fuel) line c arguments m =
        .error (.error ⟨.stackOverflow, line⟩) m ↔
      m.depth = Machine.maxDepth := by
  refine ⟨fun hfails => ?_, fun hlimit => callClosure_refuses harity hlimit _ line⟩
  by_contra hne
  have hframe := bodyRun_makes_frame fuel c arguments m
  rw [← callClosure_enters harity (Nat.lt_of_le_of_ne hm hne) line, hfails] at hframe
  exact Nat.lt_irrefl _ hframe

theorem closure_outcome (hstanding : Tallies standing m) (paren : Token) :
    CallOutcome paren (.closure c) arguments
      (Evaluation.invoke (Evaluation.execute fuel) paren.line (.closure c) arguments m) standing
      m := by
  intro harity
  rw [← hstanding.depth]
  have hoverflows : Evaluation.callClosure (Evaluation.execute fuel) paren.line c arguments m =
      .error (.error ⟨.stackOverflow, paren.line⟩) m ↔ m.depth = Machine.maxDepth :=
    callClosure_overflows_iff harity hstanding.limit paren.line
  refine ⟨⟨fun hrefused => hoverflows.mp hrefused.fails, fun hlimit => ?_⟩, fun hne => ?_⟩
  · have hrefuses := callClosure_refuses harity hlimit
    exact ⟨hrefuses _ paren.line, fun ex => (hrefuses ex paren.line).trans
      (hrefuses _ paren.line).symm⟩
  · exact ⟨fuel, callClosure_enters harity (Nat.lt_of_le_of_ne hstanding.limit hne) paren.line⟩

theorem native_outcome (paren : Token) (id : Nat) (n : Native) (ex : Evaluation.Executor) :
    CallOutcome paren (.native id n) arguments
      (Evaluation.invoke ex paren.line (.native id n) arguments m) standing m := by
  intro harity
  have hstocked : Stocked (fun _ => True) m := stocked_everything m
  have hdepth := (Running.heed_unmoved
    (n.run m.nextId (arguments.map Value.toArgument)).defines hstocked).1.depth
  exact ⟨_, hdepth, Evaluation.callNative_apply m harity⟩

end Call

theorem call_watches (fuel : Nat) (paren : Token) (callee : Value) (arguments : List Value)
    (h : Watches (Evaluation.invoke (execute fuel) paren.line callee arguments)
      (Evaluation.invoke (Evaluation.execute fuel) paren.line callee arguments)) :
    Watches (Evaluation.Host.calling paren callee arguments
        (Evaluation.invoke (execute fuel) paren.line callee arguments))
      (Evaluation.invoke (Evaluation.execute fuel) paren.line callee arguments) := by
  apply h.calling
  intro active m hactive
  -- by what is called: a closure counts, a native does not, and nothing else is a call
  cases callee with
  | closure c => exact closure_outcome hactive paren
  | native id n => exact native_outcome paren id n _
  | _ => trivial

theorem execute_watches (fuel : Nat) (s : Stmt Binding) :
    Watches (execute fuel s) (Evaluation.execute fuel s) :=
  (watches_congruence.evaluateIn_executeIn call_watches fuel).2 s

theorem executeProgram_watches (fuel : Nat) (program : List (Stmt Binding)) :
    Watches (executeProgram fuel program) (Evaluation.executeProgram fuel program) :=
  watches_congruence.executeProgramIn call_watches fuel program

section Session

theorem tallies_of_rests (h : Rests m) : Tallies [] m :=
  ⟨h.depth, by rw [h.depth]; exact Nat.zero_le _⟩

theorem run_rests_always (fuel : Nat) (source : String) (hm : Rests m) :
    Rests (Session.run fuel source m).2 :=
  (Running.run_rests (P := fun _ => True) (fun _ _ _ _ => trivial) (fun _ _ _ _ => trivial) fuel
    (stocked_everything m) hm).1

/-- The end of a program changes neither the record nor the frames. -/
theorem finish_ending (q : Recording Unit) (r : Record) :
    ending (Recording.finish q r) = ending (q r) ∨
      ending (Recording.finish q r) =
        ⟨(ending (q r)).machine.reset, (ending (q r)).events⟩ := by
  unfold Recording.finish
  cases q r with
  | ok a n =>
    left
    by_cases hflush : n.machine.sink.flushFails
    · simp only [hflush, if_true]
      rfl
    · simp only [hflush]
      rfl
  | error stop n => exact .inr rfl

theorem run_ending (fuel : Nat) (source : String) (r : Record) :
    (Recording.run (executeProgram fuel) source r).2 = r ∨
      ∃ program, (Recording.run (executeProgram fuel) source r).2 =
        ending (Recording.finish (executeProgram fuel program) r) := by
  unfold Recording.run
  cases Session.compile source with
  | error diagnostics => exact .inl rfl
  | ok program =>
    refine .inr ⟨program, ?_⟩
    simp only
    cases Recording.finish (executeProgram fuel program) r <;> rfl

theorem run_lengthens (fuel : Nat) (source : String) (r : Record) :
    Lengthens r (Recording.run (executeProgram fuel) source r).2 := by
  rcases run_ending fuel source r with hrun | ⟨program, hrun⟩
  · rw [hrun]
    exact .refl r
  · have hpasses := (executeProgram_watches fuel program).passes r
    rw [hrun]
    rcases finish_ending (executeProgram fuel program) r with hfinish | hfinish
    · rw [hfinish]
      exact hpasses.toLengthens
    · rw [hfinish]
      exact ⟨hpasses.grown, hpasses.since⟩

/-- A unit that is run on a resting machine ends with as many active calls as it began with. -/
theorem run_passes (fuel : Nat) (source : String) (hr : Rests r.machine) :
    Passes r (Recording.run (executeProgram fuel) source r).2 := by
  rcases run_ending fuel source r with hrun | ⟨program, hrun⟩
  · rw [hrun]
    exact .refl r
  · have hpasses := (executeProgram_watches fuel program).passes r
    rw [hrun]
    rcases finish_ending (executeProgram fuel program) r with hfinish | hfinish
    · rw [hfinish]
      exact hpasses
    · rw [hfinish]
      exact ⟨⟨hpasses.grown, hpasses.since⟩, hr.depth.symm, hpasses.stands, hpasses.counted⟩

theorem runAll_lengthens (units : List (Nat × String)) (r : Record) :
    Lengthens r (runAll units r).2 := by
  induction units generalizing r with
  | nil => exact .refl r
  | cons u units ih => exact (run_lengthens u.1 u.2 r).trans (ih _)

theorem runAll_passes (units : List (Nat × String)) (hr : Rests r.machine) :
    Passes r (runAll units r).2 := by
  -- each unit starts at rest, since the one before left the machine so
  induction units generalizing r with
  | nil => exact .refl r
  | cons u units ih =>
    have hrun := Recording.run_erases (fun f p => (executeProgram_watches f p).erases) u.1 u.2 r
    have hrests : Rests (Recording.run (executeProgram u.1) u.2 r).2.machine := by
      have hmachine := congrArg Prod.snd hrun
      rw [show (Recording.run (executeProgram u.1) u.2 r).2.machine = _ from hmachine]
      exact run_rests_always u.1 u.2 hr
    exact (run_passes u.1 u.2 hr).trans (ih hrests)

theorem runAll_erases (units : List (Nat × String)) (r : Record) :
    ((runAll units r).1, (runAll units r).2.machine) = Session.runAll units r.machine :=
  Recording.runAll_erases (fun f p => (executeProgram_watches f p).erases) units r

end Session

/-- A call expression overflows on the line of its closing parenthesis, on the machine that its
callee and its arguments left, if and only if as many calls are active there as may be. -/
theorem call_refused_iff {fuel : Nat} {callee : Expr Binding} {paren : Token}
    {arguments : List (Expr Binding)} {c : Closure} {vs : List Value} {k : Machine}
    (hcallee : Evaluation.evaluate fuel callee m = .ok (.closure c) n)
    (harguments : evaluateAll (Evaluation.evaluate fuel) arguments n = .ok vs k)
    (harity : vs.length = c.params.length) (hk : k.depth ≤ Machine.maxDepth) :
    Evaluation.evaluate (fuel + 1) (.call callee paren arguments) m =
        .error (.error ⟨.stackOverflow, paren.line⟩) k ↔
      k.depth = Machine.maxDepth := by
  have hcall : Evaluation.evaluate (fuel + 1) (.call callee paren arguments) m =
      Evaluation.callClosure (Evaluation.execute fuel) paren.line c vs k := by
    change (Evaluation.evaluate fuel callee >>= fun f =>
      evaluateAll (Evaluation.evaluate fuel) arguments >>= fun vs =>
        Evaluation.invoke (Evaluation.execute fuel) paren.line f vs) m = _
    rw [bind_apply, hcallee]
    change (evaluateAll (Evaluation.evaluate fuel) arguments >>= fun vs =>
      Evaluation.invoke (Evaluation.execute fuel) paren.line (.closure c) vs) n = _
    rw [bind_apply, harguments]
    rfl
  rw [hcall]
  exact callClosure_overflows_iff harity hk paren.line

/-- The depth of calls is exact. A recorded session ends as the session itself does. At each of its
moments the machine counts the bodies that are being executed, a call is refused if and only if
there are as many of them as there may be, and natives reply at any depth. After each unit, and so
after each error that ended one, no call is active. A call expression is refused once its callee and
its arguments have been evaluated, on the line of its closing parenthesis. -/
theorem call_depth_is_exact (natives : List Native) (sink : Sink) (units : List (Nat × String)) :
    ((runAll units (start natives sink)).1, (runAll units (start natives sink)).2.machine) =
        Session.runAll units (Machine.start natives sink) ∧
    AllCounted (runAll units (start natives sink)).2.events ∧
    active (runAll units (start natives sink)).2.events = [] ∧
    (runAll units (start natives sink)).2.machine.depth = 0 ∧
    ∀ fuel callee paren arguments c vs m n k,
      Evaluation.evaluate fuel callee m = .ok (.closure c) n →
      evaluateAll (Evaluation.evaluate fuel) arguments n = .ok vs k →
      vs.length = c.params.length → k.depth ≤ Machine.maxDepth →
      (Evaluation.evaluate (fuel + 1) (.call callee paren arguments) m =
          .error (.error ⟨.stackOverflow, paren.line⟩) k ↔
        k.depth = Machine.maxDepth) := by
  have hstart : Rests (start natives sink).machine :=
    (Running.start_rests (P := fun _ => True) natives sink).1
  have hpasses := runAll_passes units hstart
  refine ⟨runAll_erases units _, hpasses.counted (tallies_of_rests hstart) trivial,
    hpasses.stands, hpasses.depth.trans hstart.depth, ?_⟩
  intro fuel callee paren arguments c vs m n k hcallee harguments harity hk
  exact call_refused_iff hcallee harguments harity hk

end ScriptLang.Calls
