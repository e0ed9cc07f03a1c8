import ScriptLang.Proofs.Calls.Moments
import ScriptLang.Proofs.Captured.Confinement

namespace ScriptLang.Calls

open Evaluation (Host Congruence pushFrame executeAll Flow.result bind_apply)
open Recording (lift unrecorded Erases)
open Running (ending Conducts Stocked MadeOf)
open Captured (Confined)

variable {α β : Type}

section Statement

def bodyRun (fuel : Nat) (c : Closure) (arguments : List Value) : Run Value := do
  let frame ← pushFrame c.frame ((c.params.map Token.lexeme).zip arguments)
  let flow ← Evaluation.inCall (Evaluation.inFrame frame
    (executeAll (Evaluation.execute fuel) c.body))
  pure (Flow.result flow)

/-- A call fails with an overflow of its own. No frame is made, and nothing of the body is executed
whatever executing it would come to. -/
structure Refused (paren : Token) (c : Closure) (arguments : List Value) (m : Machine)
    (result : EStateM.Result Stop Machine Value) : Prop where
  fails : result = .error (.error ⟨.stackOverflow, paren.line⟩) m
  unexecuted : ∀ ex : Evaluation.Executor,
    Evaluation.invoke ex paren.line (.closure c) arguments m = result

def Replied (paren : Token) (n : Native) (arguments : List Value) (m : Machine)
    (result : EStateM.Result Stop Machine Value) : Prop :=
  ∃ k : Machine, k.depth = m.depth ∧
    result = match (n.run m.nextId (arguments.map Value.toArgument)).result with
      | .ok answer => .ok (.ofAnswer m.nextId arguments answer) k
      | .error message => .error (.error ⟨.refused message, paren.line⟩) k

def CallOutcome (paren : Token) (callee : Value) (arguments : List Value)
    (result : EStateM.Result Stop Machine Value) (active : List Closure) (m : Machine) : Prop :=
  match callee with
  | .closure c => arguments.length = c.params.length →
    (Refused paren c arguments m result ↔ active.length = Machine.maxDepth) ∧
      (active.length ≠ Machine.maxDepth → ∃ fuel, result = bodyRun fuel c arguments m)
  | .native _ n => arguments.length = n.arity → Replied paren n arguments m result
  | _ => True

/-- The machine counts the functions whose bodies are being executed, and they are not too many. -/
structure Tallies (active : List Closure) (m : Machine) : Prop where
  depth : m.depth = active.length
  limit : m.depth ≤ Machine.maxDepth

structure Counted (t : Moment) (earlier : List Moment) : Prop extends
    Tallies (active (t :: earlier)) t.machine where
  call : ∀ paren callee arguments standing before result,
    t.act = .answers paren callee arguments standing before result →
      Tallies standing before ∧ CallOutcome paren callee arguments result standing before

/-- Each of some moments, latest first, after those before it. -/
def AllCounted : List Moment → Prop
  | [] => True
  | t :: earlier => Counted t earlier ∧ AllCounted earlier

def Moment.frame? (t : Moment) : Option Nat :=
  match t.act with
  | .enters _ => some t.machine.current
  | _ => none

/-- The frames of the calls among some moments, the body that is entered last first. -/
def frames (ts : List Moment) : List Nat := ts.filterMap Moment.frame?

/-- The calls among some moments have frames that are made one after the other. -/
structure Framed (low high : Nat) (ts : List Moment) : Prop where
  ordered : (frames ts).Pairwise (· > ·)
  bounded : ∀ f ∈ frames ts, low ≤ f ∧ f < high

end Statement

/-- A record goes on, and the calls in between have frames made in between. -/
structure Lengthens (r n : Record) : Prop where
  grown : r.machine.store.size ≤ n.machine.store.size
  since : ∃ later, n.events = later ++ r.events ∧
    Framed r.machine.store.size n.machine.store.size later

structure Passes (r n : Record) : Prop extends Lengthens r n where
  depth : n.machine.depth = r.machine.depth
  stands : active n.events = active r.events
  counted : Tallies (active r.events) r.machine → AllCounted r.events → AllCounted n.events

/-- A recorded run that ends as the run does, and on whose record the machine counts right. -/
structure Watches (q : Recording α) (p : Run α) : Prop where
  erases : Erases q p
  passes : ∀ r, Passes r (ending (q r))

variable {r n k : Record} {q : Recording α} {p : Run α}

section Record

theorem Framed.nil (low high : Nat) : Framed low high [] :=
  ⟨List.Pairwise.nil, fun _ hf => by cases hf⟩

theorem Framed.append {low middle high : Nat} {ts us : List Moment} (h : Framed low middle ts)
    (h' : Framed middle high us) (hlow : low ≤ middle) (hhigh : middle ≤ high) :
    Framed low high (us ++ ts) := by
  have hframes : frames (us ++ ts) = frames us ++ frames ts := List.filterMap_append
  constructor
  · rw [hframes]
    exact List.pairwise_append.mpr ⟨h'.ordered, h.ordered, fun f hf g hg =>
      Nat.lt_of_lt_of_le (h.bounded g hg).2 (h'.bounded f hf).1⟩
  · intro f hf
    rw [hframes] at hf
    rcases List.mem_append.mp hf with hf | hf
    · exact ⟨Nat.le_trans hlow (h'.bounded f hf).1, (h'.bounded f hf).2⟩
    · exact ⟨(h.bounded f hf).1, Nat.lt_of_lt_of_le (h.bounded f hf).2 hhigh⟩

theorem Framed.moment {low high : Nat} {ts : List Moment} {t : Moment} (h : Framed low high ts)
    (ht : t.frame? = none) : Framed low high (t :: ts) := by
  have hframes : frames (t :: ts) = frames ts := List.filterMap_cons_none ht
  exact ⟨hframes ▸ h.ordered, hframes ▸ h.bounded⟩

theorem Tallies.counted {t : Moment} {earlier : List Moment}
    (h : Tallies (active (t :: earlier)) t.machine)
    (hact : ∀ paren callee arguments standing before result,
      t.act ≠ .answers paren callee arguments standing before result) : Counted t earlier :=
  ⟨h, fun paren callee arguments standing before result heq =>
    absurd heq (hact paren callee arguments standing before result)⟩

theorem Lengthens.refl (r : Record) : Lengthens r r :=
  ⟨Nat.le_refl _, [], rfl, .nil _ _⟩

theorem Lengthens.trans (h : Lengthens r n) (h' : Lengthens n k) : Lengthens r k := by
  obtain ⟨later, hlater, hframed⟩ := h.since
  obtain ⟨later', hlater', hframed'⟩ := h'.since
  refine ⟨Nat.le_trans h.grown h'.grown, later' ++ later, ?_, ?_⟩
  · rw [hlater', hlater, List.append_assoc]
  · exact hframed.append hframed' h.grown h'.grown

theorem Lengthens.moment {t : Moment} (h : Lengthens r n) (ht : t.frame? = none) :
    Lengthens r ⟨n.machine, t :: n.events⟩ := by
  obtain ⟨later, hlater, hframed⟩ := h.since
  exact ⟨h.grown, t :: later, by rw [hlater]; rfl, hframed.moment ht⟩

theorem Passes.tallies (h : Passes r n) (hr : Tallies (active r.events) r.machine) :
    Tallies (active n.events) n.machine := by
  constructor
  · rw [h.depth, h.stands, hr.depth]
  · rw [h.depth]
    exact hr.limit

theorem Passes.quiet {n : Machine} (hdepth : n.depth = r.machine.depth)
    (hgrown : r.machine.store.size ≤ n.store.size) : Passes r ⟨n, r.events⟩ :=
  ⟨⟨hgrown, [], rfl, .nil _ _⟩, hdepth, rfl, fun _ h => h⟩

theorem Passes.refl (r : Record) : Passes r r :=
  .quiet rfl (Nat.le_refl _)

theorem Passes.trans (h : Passes r n) (h' : Passes n k) : Passes r k where
  toLengthens := h.toLengthens.trans h'.toLengthens
  depth := h'.depth.trans h.depth
  stands := h'.stands.trans h.stands
  counted hr hcounted := h'.counted (h.tallies hr) (h.counted hr hcounted)

theorem Passes.moment (h : Passes r n) {act : Act}
    (hactive : act.onto (active n.events) = active n.events)
    (hframe : Moment.frame? ⟨act, n.machine⟩ = none)
    (hcall : Tallies (active r.events) r.machine →
      ∀ paren callee arguments standing before result,
        act = .answers paren callee arguments standing before result →
          Tallies standing before ∧ CallOutcome paren callee arguments result standing before) :
    Passes r ⟨n.machine, ⟨act, n.machine⟩ :: n.events⟩ := by
  refine ⟨h.toLengthens.moment hframe, h.depth, hactive.trans h.stands, ?_⟩
  intro hr hcounted
  have hn := h.tallies hr
  rw [← hactive] at hn
  exact ⟨⟨hn, hcall hr⟩, h.counted hr hcounted⟩

end Record

section Combination

theorem closing_ending (act : EStateM.Result Stop Machine α → Act) (q : Recording α) (r : Record) :
    ending (closing act q r) = ⟨(ending (q r)).machine,
      ⟨act (unrecorded (q r)), (ending (q r)).machine⟩ :: (ending (q r)).events⟩ := by
  unfold closing
  cases q r <;> rfl

theorem inFrame_ending (frame : Nat) (q : Recording α) (r : Record) :
    ending (Recording.inFrame frame q r) =
      let n := ending (q ⟨{ r.machine with current := frame }, r.events⟩)
      ⟨{ n.machine with current := r.machine.current }, n.events⟩ := by
  rw [Recording.inFrame_apply]
  cases q ⟨{ r.machine with current := frame }, r.events⟩ <;> rfl

theorem inCall_ending (q : Recording α) (r : Record) :
    ending (Recording.inCall q r) =
      let n := ending (q ⟨{ r.machine with depth := r.machine.depth + 1 }, r.events⟩)
      ⟨{ n.machine with depth := n.machine.depth - 1 }, n.events⟩ := by
  rw [Recording.inCall_apply]
  cases q ⟨{ r.machine with depth := r.machine.depth + 1 }, r.events⟩ <;> rfl

theorem closing_erases (act : EStateM.Result Stop Machine α → Act) (h : Erases q p) :
    Erases (closing act q) p := by
  intro r
  rw [← h r]
  unfold closing
  cases q r <;> rfl

theorem pure_watches (a : α) : Watches (pure a) (pure a : Run α) :=
  ⟨Recording.pure_erases a, Passes.refl⟩

theorem throw_watches (stop : Stop) : Watches (throw stop) (throw stop : Run α) :=
  ⟨Recording.throw_erases stop, Passes.refl⟩

theorem Watches.bind {f : α → Recording β} {g : α → Run β} (h : Watches q p)
    (hf : ∀ a, Watches (f a) (g a)) : Watches (q >>= f) (p >>= g) := by
  refine ⟨h.erases.bind fun a => (hf a).erases, fun r => ?_⟩
  have hr := h.passes r
  rw [bind_apply]
  cases hq : q r with
  | ok a n =>
    rw [hq] at hr
    exact hr.trans ((hf a).passes n)
  | error stop n =>
    rw [hq] at hr
    exact hr

theorem Watches.get {f : Record → Recording α} {g : Machine → Run α}
    (hf : ∀ r, Watches (f r) (g r.machine)) : Watches (get >>= f) (get >>= g) :=
  ⟨.get fun r => (hf r).erases, fun r => (hf r).passes r⟩

theorem Watches.inFrame (h : Watches q p) (frame : Nat) :
    Watches (Recording.inFrame frame q) (Evaluation.inFrame frame p) := by
  refine ⟨h.erases.inFrame frame, fun r => ?_⟩
  obtain ⟨⟨hgrown, hsince⟩, hdepth, hstands, hcounted⟩ :=
    h.passes ⟨{ r.machine with current := frame }, r.events⟩
  rw [inFrame_ending]
  exact ⟨⟨hgrown, hsince⟩, hdepth, hstands, fun hr => hcounted ⟨hr.depth, hr.limit⟩⟩

/-- What is evaluated or executed, at its beginning and at its end. -/
theorem Watches.noted (h : Watches q p) {act : Act}
    (hactive : ∀ active, act.onto active = active)
    (hframe : ∀ m, Moment.frame? ⟨act, m⟩ = none)
    (hcall : ∀ paren callee arguments standing before result,
      act ≠ .answers paren callee arguments standing before result) :
    Watches (noted act (closing (fun _ => .ends) q)) p := by
  refine ⟨.noted _ (closing_erases _ h.erases), fun r => ?_⟩
  let begun : Record := ⟨r.machine, ⟨act, r.machine⟩ :: r.events⟩
  have hbegun : Passes r begun := (Passes.refl r).moment (hactive _) (hframe _)
    fun _ paren callee arguments standing before result heq =>
      absurd heq (hcall paren callee arguments standing before result)
  change Passes r (ending (closing (fun _ => .ends) q begun))
  rw [closing_ending]
  exact (hbegun.trans (h.passes begun)).moment rfl rfl fun _ _ _ _ _ _ _ heq => by cases heq

theorem Watches.calling {q : Recording Value} {p : Run Value} (h : Watches q p) {paren : Token}
    {callee : Value} {arguments : List Value}
    (hcall : ∀ {active m}, Tallies active m → CallOutcome paren callee arguments (p m) active m) :
    Watches (Host.calling paren callee arguments q) p := by
  refine ⟨.recall fun r => .noted _ (closing_erases _ h.erases), fun r => ?_⟩
  let act (result : EStateM.Result Stop Machine Value) : Act :=
    .answers paren callee arguments (active r.events) r.machine result
  let begun : Record := ⟨r.machine, ⟨.calls paren callee arguments, r.machine⟩ :: r.events⟩
  have hbegun : Passes r begun :=
    (Passes.refl r).moment rfl rfl fun _ _ _ _ _ _ _ heq => by cases heq
  change Passes r (ending (closing act q begun))
  rw [closing_ending, h.erases begun]
  apply (hbegun.trans (h.passes begun)).moment rfl rfl
  rintro hr _ _ _ _ _ _ ⟨⟩
  exact ⟨hr, hcall hr⟩

end Combination

section Primitive

theorem madeOf_everything (v : Value) : MadeOf (fun _ => True) v := by
  cases v with
  | closure c => exact ⟨.expr (.lambda c.params c.body), trivial, rfl⟩
  | _ => exact trivial

theorem stocked_everything (m : Machine) : Stocked (fun _ => True) m :=
  fun _ _ v _ => madeOf_everything v

theorem leadsInto_everything (v : Value) : Captured.LeadsInto (fun _ => True) v :=
  fun _ _ => trivial

/-- A run that neither counts nor takes away frames, whatever is in them. -/
theorem lift_watches {A B : α → Prop} (hp : Conducts (fun _ => True) p A)
    (hp' : Confined (fun _ => True) p B) : Watches (lift p) p := by
  refine ⟨Recording.lift_erases p, fun r => ?_⟩
  have hend : ending (lift p r : EStateM.Result Stop Record α) =
      ⟨ending (p r.machine), r.events⟩ := by
    unfold lift
    cases p r.machine <;> rfl
  rw [hend]
  refine .quiet ?_ (hp'.size_le r.machine)
  have hm := hp r.machine (stocked_everything r.machine)
  cases hpm : p r.machine with
  | ok a n =>
    rw [hpm] at hm
    exact hm.1.depth
  | error stop n =>
    rw [hpm] at hm
    exact hm.1.depth

theorem pushFrame_watches (parent : Nat) (bindings : List (String × Value)) :
    Watches (lift (pushFrame parent bindings)) (pushFrame parent bindings) :=
  lift_watches (Running.pushFrame_conducts parent fun v _ => madeOf_everything v)
    (Captured.pushFrame_confined trivial fun v _ => leadsInto_everything v)

theorem inBlock_watches {q : Recording Flow} {p : Run Flow} (h : Watches q p) :
    Watches (Host.inBlock q) (Evaluation.inBlock p) :=
  .get fun _ => (pushFrame_watches _ []).bind fun frame => h.inFrame frame

end Primitive

section Body

variable {c : Closure} {bindings : List (String × Value)} {q : Recording Flow} {p : Run Flow}

def entry (c : Closure) (bindings : List (String × Value)) (r : Record) : Record :=
  let store := (r.machine.store.push (some c.frame)).defineAll r.machine.store.size bindings
  let m : Machine := { r.machine with
    store := store, current := r.machine.store.size, depth := r.machine.depth + 1 }
  ⟨m, ⟨.enters c, m⟩ :: r.events⟩

/-- A body is entered one call deeper, in the frame that is made next, and left where it was
entered. -/
theorem enterBody_passes (h : Watches q p) (hr : r.machine.depth < Machine.maxDepth) :
    Passes r (ending (enterBody c bindings q r)) := by
  let k := entry c bindings r
  let n := ending (q k)
  let m : Machine :=
    { n.machine with current := r.machine.current, depth := n.machine.depth - 1 }
  have hend : ending (enterBody c bindings q r) = ⟨m, ⟨.leaves, m⟩ :: n.events⟩ := by
    change ending (closing (fun _ => .leaves) (Recording.inCall
      (Recording.inFrame r.machine.store.size (noted (.enters c) q)))
        ⟨{ r.machine with store := k.machine.store }, r.events⟩) = _
    rw [closing_ending, inCall_ending, inFrame_ending]
    rfl
  have hsize : k.machine.store.size = r.machine.store.size + 1 := by simp [k, entry]
  obtain ⟨⟨hgrown, later, hlater, hframed⟩, hdepth, hstands, hcounted⟩ := h.passes k
  have hdepth' : m.depth = r.machine.depth := congrArg (· - 1) hdepth
  have hstands' : active (⟨.leaves, m⟩ :: n.events) = active r.events := congrArg List.tail hstands
  rw [hend]
  have hgrown' : r.machine.store.size < n.machine.store.size :=
    Nat.lt_of_lt_of_le (hsize ▸ Nat.lt_succ_self _) hgrown
  refine ⟨⟨Nat.le_of_lt hgrown', ?_⟩, hdepth', hstands', fun htallies hall => ?_⟩
  · have hentered : Framed r.machine.store.size k.machine.store.size [⟨.enters c, k.machine⟩] := by
      refine ⟨List.pairwise_singleton _ _, fun f hf => ?_⟩
      rcases List.mem_singleton.mp hf with rfl
      exact ⟨Nat.le_refl _, hsize ▸ Nat.lt_succ_self _⟩
    refine ⟨⟨.leaves, m⟩ :: (later ++ [⟨.enters c, k.machine⟩]), ?_, ?_⟩
    · have hn : n.events = later ++ ⟨.enters c, k.machine⟩ :: r.events := hlater
      rw [hn, List.cons_append, List.append_assoc]
      rfl
    · exact (hentered.append hframed (hsize ▸ Nat.le_succ _) hgrown).moment rfl
  · have hentry : Counted ⟨.enters c, k.machine⟩ r.events :=
      Tallies.counted ⟨congrArg (· + 1) htallies.depth, hr⟩ (by simp)
    have hleft : Tallies (active (⟨.leaves, m⟩ :: n.events)) m := by
      rw [hstands']
      exact ⟨hdepth'.trans htallies.depth, hdepth'.le.trans htallies.limit⟩
    exact ⟨hleft.counted (by simp), hcounted hentry.toTallies ⟨hentry, hall⟩⟩

theorem inBody_watches (h : Watches q p) (line : Nat) (c : Closure)
    (bindings : List (String × Value)) :
    Watches (Host.inBody line c bindings q) (Evaluation.inBody line c bindings p) := by
  constructor
  · apply Erases.get
    intro r
    by_cases hdepth : Machine.maxDepth ≤ r.machine.depth
    · rw [if_pos hdepth, if_pos hdepth]
      exact Recording.throw_erases _
    · rw [if_neg hdepth, if_neg hdepth]
      apply (Recording.lift_erases _).bind
      intro frame
      exact closing_erases _ (Erases.inFrame frame (.noted _ h.erases)).inCall
  · intro r
    change Passes r (ending ((if Machine.maxDepth ≤ r.machine.depth then
      Evaluation.raise line .stackOverflow else enterBody c bindings q : Recording Flow) r))
    by_cases hdepth : Machine.maxDepth ≤ r.machine.depth
    · rw [if_pos hdepth]
      exact .refl r
    · rw [if_neg hdepth]
      exact enterBody_passes h (Nat.lt_of_not_le hdepth)

end Body

theorem watches_congruence :
    Congruence (M := Recording) (N := Run) fun _ q p => Watches q p where
  pure := pure_watches
  throw := throw_watches
  bind := Watches.bind
  evaluating _ h := h.noted (fun _ => rfl) (fun _ => rfl) (by simp)
  executing _ h := h.noted (fun _ => rfl) (fun _ => rfl) (by simp)
  readVariable binding name :=
    lift_watches (Running.readVariable_conducts binding name)
      (Captured.readVariable_confined binding name)
  writeVariable binding name v :=
    lift_watches (Running.writeVariable_conducts binding name (madeOf_everything v))
      (Captured.writeVariable_confined binding name (leadsInto_everything v))
  defineVariable name v :=
    lift_watches (Running.defineVariable_conducts name (madeOf_everything v))
      (Captured.defineVariable_confined name (leadsInto_everything v))
  makeClosure name params body :=
    lift_watches (Running.makeClosure_conducts name (n := .expr (.lambda params body)) trivial rfl)
      (Captured.makeClosure_confined name params body)
  printValue v := lift_watches (Running.printValue_conducts v) (Captured.printValue_confined v)
  callNative line n vs :=
    lift_watches (Running.callNative_conducts line n fun v _ => madeOf_everything v)
      (Captured.callNative_confined line n fun v _ => leadsInto_everything v)
  inBlock := inBlock_watches
  inBody line c bindings h := inBody_watches h line c bindings

end ScriptLang.Calls
