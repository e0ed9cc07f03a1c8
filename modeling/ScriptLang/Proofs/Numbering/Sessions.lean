import ScriptLang.Proofs.Layout.Sessions
import ScriptLang.Proofs.Numbering.Table
import ScriptLang.Proofs.Recoding.Running

namespace ScriptLang

/-- What is told of the end of a unit. -/
inductive Session.Verdict where
  | completed
  | refused (told : List (String × Option Nat))
  | stopped (text : String) (line : Option Nat)
  | exhausted
deriving DecidableEq

def Session.Verdict.isRefused : Verdict → Bool
  | .refused _ => true
  | _ => false

def Session.Ending.verdict : Ending → Verdict
  | .completed => .completed
  | .refused diagnostics => .refused (diagnostics.map fun d => (d.text, d.line?))
  | .stopped diagnostic => .stopped diagnostic.text diagnostic.line?
  | .exhausted => .exhausted

namespace Numbered

open Session (Ending Verdict)

/-- A unit with its numbers and its table, or what is wrong with it, and the counter after it. -/
def compile (counter : Nat) (source : String) :
    Except (List Diagnostic) (List (Stmt Nat) × Table) × Nat :=
  let lexical := (Source.errors source).map Diagnostic.lexical
  match parseProgram counter (.ofSource source) with
  | (.error errors, k) => (.error (lexical ++ errors.map Diagnostic.syntactic), k)
  | (.ok numbered, k) =>
    if lexical.isEmpty then
      match resolveProgram (Stmt.allUnnumbered numbered) with
      | .ok resolved => (.ok (numbered, .ofProgram numbered resolved), k)
      | .error errors => (.error (errors.map Diagnostic.scoping), k)
    else (.error lexical, k)

structure Session where
  counter : Nat
  table : Table
  machine : Machine

namespace Session

/-- A session over a machine at rest. Numbers may have been drawn before. -/
def start (counter : Nat) (natives : List Native) (sink : Sink) : Session :=
  ⟨counter, [], Machine.start natives sink.drained⟩

def run (s : Session) (fuel : Nat) (source : String) : Ending × Session :=
  match compile s.counter source with
  | (.error diagnostics, k) => (.refused diagnostics, { s with counter := k })
  | (.ok (numbered, new), k) =>
    let table := s.table.merge new
    match Linked.interpret table.linker fuel (load numbered) s.machine with
    | .ok () m => (.completed, ⟨k, table, m⟩)
    | .error stop m => (.ofStop stop, ⟨k, table, m⟩)

end Session

/-- Notes of numbers that were drawn; the numbers from `counter` on were not. -/
def drawn (counter : Nat) : Binding → Binding
  | .global => .global
  | .hops number => if number < counter then .hops number else .global

/-- Nothing in the table or the machine has a number that was not drawn. -/
structure Session.Sound (s : Session) : Prop where
  table : ∀ number, s.counter ≤ number → s.table.lookup number = none
  machine : s.machine.recoded (.linking (drawn s.counter)) = s.machine

def Session.linked (s : Session) : Machine :=
  s.machine.recoded (.linking s.table.linker)

section Compiling

theorem compile_resolved (counter : Nat) (source : String) :
    counter ≤ (compile counter source).2 ∧
      match (compile counter source).1 with
      | .error diagnostics => Session.compile source = .error diagnostics
      | .ok (numbered, table) =>
        Fresh counter (compile counter source).2 (Stmt.allNotes numbered) ∧
          ∃ resolved, Session.compile source = .ok resolved ∧
            table = .ofProgram numbered resolved ∧
            Stmt.allUnnumbered numbered = Stmt.allBare resolved := by
  have hplain := parseProgram_plain counter (.ofSource source)
  have hfresh := parseProgram_fresh counter (.ofSource source)
  unfold compile Session.compile Session.parse
  generalize parseProgram counter (.ofSource source) = r at hplain hfresh
  obtain ⟨parsed, k⟩ := r
  obtain ⟨hk, hfresh⟩ := hfresh
  cases parsed with
  | error errors =>
    simp only at hplain
    simp only [hplain]
    exact ⟨hk, trivial⟩
  | ok numbered =>
    simp only at hplain
    simp only [hplain]
    by_cases hclean : ((Source.errors source).map Diagnostic.lexical).isEmpty
    · simp only [hclean, if_true]
      cases hr : resolveProgram (Stmt.allUnnumbered numbered) with
      | error errors => exact ⟨hk, rfl⟩
      | ok resolved =>
        refine ⟨hk, hfresh numbered rfl, resolved, rfl, rfl, ?_⟩
        obtain ⟨-, hresolved⟩ := resolveProgram_eq_ok.mp hr
        rw [← hresolved, Stmt.allBare_resolveAll]
    · simp only [hclean]
      exact ⟨hk, rfl⟩

end Compiling

section Linking

variable {counter k : Nat} {table : Table} {numbered : List (Stmt Nat)}
  {resolved : List (Stmt Binding)}

/-- Entries under numbers that were drawn before stay as they are. -/
theorem lookup_merge_of_lt (hfresh : Fresh counter k (Stmt.allNotes numbered)) {number : Nat}
    (h : number < counter) :
    (table.merge (.ofProgram numbered resolved)).lookup number = table.lookup number := by
  have hold : number ∉ Stmt.allNotes numbered := by
    intro hmem
    have hge := (hfresh.bounds number hmem).1
    omega
  rw [Table.lookup_merge, Table.lookup_ofProgram_of_notMem hold, Option.none_or]

theorem lookup_merge_of_le (hfresh : Fresh counter k (Stmt.allNotes numbered))
    (htable : ∀ number, counter ≤ number → table.lookup number = none) (hk : counter ≤ k)
    {number : Nat} (h : k ≤ number) :
    (table.merge (.ofProgram numbered resolved)).lookup number = none := by
  have hnew : number ∉ Stmt.allNotes numbered := by
    intro hmem
    have hlt := (hfresh.bounds number hmem).2
    omega
  rw [Table.lookup_merge, Table.lookup_ofProgram_of_notMem hnew, Option.none_or,
    htable number (Nat.le_trans hk h)]

theorem linker_drawn {table table' : Table}
    (hsame : ∀ number, number < counter → table'.lookup number = table.lookup number)
    (htable : ∀ number, counter ≤ number → table.lookup number = none) :
    table'.linker ∘ drawn counter = table.linker := by
  funext binding
  cases binding with
  | global => rfl
  | hops number =>
    by_cases h : number < counter
    · simp [drawn, h, Table.linker, hsame number h]
    · simp [drawn, h, Table.linker, htable number (Nat.le_of_not_lt h)]

theorem drawn_drawn (hk : counter ≤ k) : drawn k ∘ drawn counter = drawn counter := by
  funext binding
  cases binding with
  | global => rfl
  | hops number =>
    by_cases h : number < counter
    · simp [drawn, h, Nat.lt_of_lt_of_le h hk]
    · simp [drawn, h]

theorem drawn_load (hfresh : Fresh counter k (Stmt.allNotes numbered)) :
    Stmt.mapAll (drawn k) (load numbered) = load numbered := by
  have hnotes : (Stmt.allNotes numbered).map (drawn k ∘ Binding.hops) =
      (Stmt.allNotes numbered).map Binding.hops := by
    apply List.map_congr_left
    intro number hmem
    simp [drawn, (hfresh.bounds number hmem).2]
  rw [load, Stmt.mapAll_mapAll, Stmt.mapAll_eq_mapAll rfl hnotes]

end Linking

section Running

variable {s : Session}

def relinked (k : Binding → Binding) : Ending → Ending
  | .stopped (.runtime e) => .stopped (.runtime (e.recoded (.linking k)))
  | ending => ending

theorem verdict_relinked (k : Binding → Binding) (ending : Ending) :
    (relinked k ending).verdict = ending.verdict := by
  cases ending with
  | stopped diagnostic =>
    cases diagnostic with
    | runtime e =>
      have hmessage := Recoding.message_recoded (c := .linking k) e.fault
      simp only [relinked, Ending.verdict, Diagnostic.text, Diagnostic.line?,
        RuntimeError.recoded, hmessage]
      rfl
    | _ => rfl
  | _ => rfl

/-- What running loaded code in a sound session leaves is sound, and it ends as the resolved code
does on the machine with its numbers looked up. -/
theorem interpret_linked {counter k : Nat} {table : Table} {numbered : List (Stmt Nat)}
    {resolved : List (Stmt Binding)} {m : Machine} (fuel : Nat)
    (hsound : (⟨counter, table, m⟩ : Session).Sound) (hk : counter ≤ k)
    (hfresh : Fresh counter k (Stmt.allNotes numbered))
    (hshape : Stmt.allUnnumbered numbered = Stmt.allBare resolved) :
    let table' := table.merge (.ofProgram numbered resolved)
    Evaluation.interpret fuel resolved (m.recoded (.linking table.linker)) =
        Recoding.ended (.linking table'.linker) id
          (Linked.interpret table'.linker fuel (load numbered) m) ∧
      Recoding.ended (.linking (drawn k)) id
          (Linked.interpret table'.linker fuel (load numbered) m) =
        Linked.interpret table'.linker fuel (load numbered) m := by
  intro table'
  have htable : ∀ number, counter ≤ number → table.lookup number = none := hsound.table
  have hmachine : m.recoded (.linking (drawn counter)) = m := hsound.machine
  have hnew : ∀ number ∈ Stmt.allNotes numbered, table.lookup number = none :=
    fun number hmem => htable number (hfresh.bounds number hmem).1
  constructor
  · have hlinker : table'.linker ∘ drawn counter = table.linker :=
      linker_drawn (fun number => lookup_merge_of_lt hfresh) htable
    have hstart := m.recoded_linking_linking (drawn counter) table'.linker
    rw [hmachine, hlinker] at hstart
    have hrun := Recoding.interpret_carries (.linking table'.linker) table'.linker id
      (fun _ => rfl) fuel (load numbered) m
    rwa [Linked.interpret_id, Stmt.allRecoded_linking, hstart,
      Table.linked_load hshape hfresh.nodup hnew] at hrun
  · have hlinker : ∀ binding, table'.linker (drawn k binding) = table'.linker binding :=
      congrFun (linker_drawn (fun _ _ => rfl) fun number => lookup_merge_of_le hfresh htable hk)
    have hstart := m.recoded_linking_linking (drawn counter) (drawn k)
    rw [drawn_drawn hk, hmachine] at hstart
    have hrun := Recoding.interpret_carries (.linking (drawn k)) table'.linker table'.linker
      hlinker fuel (load numbered) m
    rw [Stmt.allRecoded_linking, hstart, drawn_load hfresh] at hrun
    exact hrun.symm

/-- A unit ends in a sound session as it does on the machine with its numbers looked up. What it
leaves is sound again, and entries of numbers that were drawn are as before. -/
theorem run_linked (h : s.Sound) (fuel : Nat) (source : String) :
    ScriptLang.Session.run fuel source s.linked =
        (relinked (s.run fuel source).2.table.linker (s.run fuel source).1,
          (s.run fuel source).2.linked) ∧
      (s.run fuel source).2.Sound ∧ s.counter ≤ (s.run fuel source).2.counter ∧
      ∀ number, number < s.counter →
        (s.run fuel source).2.table.lookup number = s.table.lookup number := by
  have hcompiled := compile_resolved s.counter source
  unfold Session.run
  generalize compile s.counter source = r at hcompiled
  obtain ⟨unit, k⟩ := r
  obtain ⟨hk, hunit⟩ := hcompiled
  -- a refused unit has drawn numbers all the same, which no entry has
  cases unit with
  | error diagnostics =>
    refine ⟨?_, ⟨fun number hn => h.table number (Nat.le_trans hk hn), ?_⟩, hk, fun _ _ => rfl⟩
    · simp only [ScriptLang.Session.run, show ScriptLang.Session.compile source = _ from hunit]
      rfl
    · have hdrawn := s.machine.recoded_linking_linking (drawn s.counter) (drawn k)
      rwa [drawn_drawn hk, h.machine] at hdrawn
  | ok unit =>
    obtain ⟨numbered, new⟩ := unit
    obtain ⟨hfresh, resolved, hr, rfl, hshape⟩ := hunit
    obtain ⟨hends, hdrawn⟩ := interpret_linked fuel h hk hfresh hshape
    have htable : ∀ number, k ≤ number →
        (s.table.merge (.ofProgram numbered resolved)).lookup number = none :=
      fun _ => lookup_merge_of_le hfresh h.table hk
    have hold : ∀ number, number < s.counter →
        (s.table.merge (.ofProgram numbered resolved)).lookup number = s.table.lookup number :=
      fun _ => lookup_merge_of_lt hfresh
    rw [ScriptLang.Session.run_compiled hr, Session.linked, hends]
    simp only
    cases hi : Linked.interpret (s.table.merge (.ofProgram numbered resolved)).linker fuel
        (load numbered) s.machine with
    | ok u m =>
      rw [hi] at hdrawn
      exact ⟨rfl, ⟨htable, (EStateM.Result.ok.inj hdrawn).2⟩, hk, hold⟩
    | error stop m =>
      rw [hi] at hdrawn
      refine ⟨?_, ⟨htable, (EStateM.Result.error.inj hdrawn).2⟩, hk, hold⟩
      cases stop <;> rfl

end Running

section Turns

namespace Session

/-- Runs a unit, takes what it printed out of the sink, and tells how it ended. -/
def turn (s : Session) (u : Nat × String) : (Verdict × ByteArray) × Session :=
  let r := s.run u.1 u.2
  ((r.1.verdict, r.2.machine.sink.written),
    { r.2 with machine := { r.2.machine with sink := r.2.machine.sink.drained } })

/-- What is seen of each unit. -/
def reports (s : Session) : List (Nat × String) → List (Verdict × ByteArray)
  | [] => []
  | u :: units => (s.turn u).1 :: (s.turn u).2.reports units

def kept (s : Session) : List (Nat × String) → List (Nat × String)
  | [] => []
  | u :: units =>
    let others := (s.turn u).2.kept units
    if (s.turn u).1.1.isRefused then others else u :: others

def after (s : Session) (units : List (Nat × String)) : Session :=
  units.foldl (fun t u => (t.turn u).2) s

end Session

def compiles (u : Nat × String) : Bool :=
  (ScriptLang.Session.compile u.2).isOk

theorem interpret_not_refused (r : EStateM.Result Stop Machine Unit) :
    (ScriptLang.Session.outcome r).1.verdict.isRefused = false := by
  cases r with
  | ok u m => rfl
  | error stop m => cases stop <;> rfl

theorem isRefused_run (fuel : Nat) (source : String) (m : Machine) :
    (ScriptLang.Session.run fuel source m).1.verdict.isRefused = !compiles (fuel, source) := by
  unfold compiles
  cases hc : ScriptLang.Session.compile source with
  | error diagnostics =>
    simp only [ScriptLang.Session.run, hc]
    rfl
  | ok program => rw [ScriptLang.Session.run_compiled hc, interpret_not_refused]; rfl

variable {s : Session}

theorem turn_linked (h : s.Sound) (u : Nat × String) :
    (s.turn u).1 =
        ((ScriptLang.Session.run u.1 u.2 s.linked).1.verdict,
          (ScriptLang.Session.run u.1 u.2 s.linked).2.sink.written) ∧
      (s.turn u).2.linked =
        { (ScriptLang.Session.run u.1 u.2 s.linked).2 with
          sink := (ScriptLang.Session.run u.1 u.2 s.linked).2.sink.drained } ∧
      (s.turn u).2.Sound := by
  obtain ⟨hrun, hsound, -⟩ := run_linked h u.1 u.2
  rw [hrun]
  refine ⟨?_, rfl, hsound.table, ?_⟩
  · rw [verdict_relinked]
    rfl
  · exact congrArg (fun m : Machine => { m with sink := m.sink.drained }) hsound.machine

theorem isRefused_turn (h : s.Sound) (u : Nat × String) :
    (s.turn u).1.1.isRefused = !compiles u := by
  rw [(turn_linked h u).1]
  exact isRefused_run u.1 u.2 s.linked

theorem reports_linked (h : s.Sound) (units : List (Nat × String)) :
    s.reports units =
      (ScriptLang.Session.reports units s.linked).map fun r => (r.1.verdict, r.2) := by
  induction units generalizing s with
  | nil => rfl
  | cons u units ih =>
    obtain ⟨hreport, hlinked, hsound⟩ := turn_linked h u
    rw [Session.reports, hreport, ih hsound, hlinked]
    rfl

theorem kept_eq_filter (h : s.Sound) (units : List (Nat × String)) :
    s.kept units = units.filter compiles := by
  induction units generalizing s with
  | nil => rfl
  | cons u units ih =>
    rw [Session.kept, isRefused_turn h, ih (turn_linked h u).2.2]
    cases hu : compiles u with
    | true => simp [hu]
    | false => simp [hu]

theorem after_sound (h : s.Sound) (units : List (Nat × String)) : (s.after units).Sound := by
  induction units generalizing s with
  | nil => exact h
  | cons u units ih => exact ih (turn_linked h u).2.2

theorem lookup_after (h : s.Sound) (units : List (Nat × String)) {number : Nat}
    (hn : number < s.counter) : (s.after units).table.lookup number = s.table.lookup number := by
  induction units generalizing s with
  | nil => rfl
  | cons u units ih =>
    obtain ⟨-, -, hcounter, htable⟩ := run_linked h u.1 u.2
    have hrest := ih (turn_linked h u).2.2 (Nat.lt_of_lt_of_le hn hcounter)
    exact hrest.trans (htable number hn)

theorem drained_machine {m : Machine} (hsink : m.sink.drained = m.sink) :
    { m with sink := m.sink.drained } = m := by
  rw [hsink]

/-- A refused unit prints nothing and leaves all as it was but for the counter. -/
theorem turn_refused (hsink : s.machine.sink.drained = s.machine.sink) {u : Nat × String}
    (hu : (s.turn u).1.1.isRefused = true) :
    (s.turn u).1.2 = .empty ∧ (s.turn u).2.machine = s.machine ∧
      (s.turn u).2.table = s.table := by
  unfold Session.turn Session.run at hu ⊢
  generalize compile s.counter u.2 = r at hu ⊢
  obtain ⟨unit, k⟩ := r
  cases unit with
  | error diagnostics =>
    exact ⟨(congrArg Sink.written hsink).symm, drained_machine hsink, rfl⟩
  | ok unit =>
    simp only at hu
    cases hi : Linked.interpret (s.table.merge unit.2).linker u.1 (load unit.1) s.machine with
    | ok v m =>
      simp only [hi] at hu
      cases hu
    | error stop m =>
      simp only [hi] at hu
      cases stop <;> cases hu

theorem reports_filter (units : List (Nat × String)) {m : Machine}
    (hsink : m.sink.drained = m.sink) :
    (ScriptLang.Session.reports units m).filter (fun r => !r.1.verdict.isRefused) =
      ScriptLang.Session.reports (units.filter compiles) m := by
  induction units generalizing m with
  | nil => rfl
  | cons u units ih =>
    rw [ScriptLang.Session.reports, List.filter_cons, isRefused_run, Bool.not_not]
    cases hu : compiles u with
    | true =>
      have hrest := ih (m := { (ScriptLang.Session.run u.1 u.2 m).2 with
        sink := (ScriptLang.Session.run u.1 u.2 m).2.sink.drained }) rfl
      simp [hu, ScriptLang.Session.reports, hrest]
    | false =>
      have hrun : (ScriptLang.Session.run u.1 u.2 m).2 = m := by
        unfold compiles at hu
        cases hc : ScriptLang.Session.compile u.2 with
        | error diagnostics => simp only [ScriptLang.Session.run, hc]
        | ok program =>
          rw [hc] at hu
          cases hu
      simp [hu, hrun, drained_machine hsink, ih hsink]

theorem after_drained (units : List (Nat × String))
    (hsink : s.machine.sink.drained = s.machine.sink) :
    (s.after units).machine.sink.drained = (s.after units).machine.sink := by
  induction units generalizing s with
  | nil => exact hsink
  | cons u units ih => exact ih rfl

end Turns

section Start

variable (natives : List Native) (sink : Sink)

theorem start_recoded (c : Recoding) :
    (Machine.start natives sink).recoded c = Machine.start natives sink := by
  have hempty : (⟨Store.empty.push none, 0, 0, 0, 0, sink⟩ : Machine).recoded c =
      ⟨Store.empty.push none, 0, 0, 0, 0, sink⟩ := by
    simp [Machine.recoded, Store.map, Store.push, Store.empty]
  rw [Machine.start, ← Recoding.defineNatives_recoded, hempty]

theorem start_sink : (Machine.start natives sink).sink = sink := by
  have hkept : ∀ m : Machine, (natives.foldl Machine.defineNative m).sink = m.sink := by
    intro m
    induction natives generalizing m with
    | nil => rfl
    | cons n ns ih => exact ih _
  exact hkept _

theorem start_sound (counter : Nat) : (Session.start counter natives sink).Sound :=
  ⟨fun _ _ => rfl, start_recoded natives _ _⟩

theorem start_linked (counter : Nat) :
    (Session.start counter natives sink).linked = Machine.start natives sink.drained :=
  start_recoded natives _ _

end Start

/-- Refused units leave no trace. A session with a table reports what a session of resolved code
does. Without the refused units those that are left end the same way and print the same, from
whatever number the counter starts. A refused unit itself prints nothing, and the machine
and the table stay as they were. What a session keeps has only numbers that were drawn, and an entry
under such a number is never changed by later units. -/
theorem refused_units_leave_no_trace (counter counter' : Nat) (natives : List Native) (sink : Sink)
    (units later : List (Nat × String)) :
    let s := Session.start counter natives sink
    let t := s.after units
    s.reports units =
        (ScriptLang.Session.reports units (Machine.start natives sink.drained)).map
          (fun r => (r.1.verdict, r.2)) ∧
      (s.reports units).filter (fun r => !r.1.isRefused) =
        (Session.start counter' natives sink).reports (s.kept units) ∧
      (∀ u, (t.turn u).1.1.isRefused = true →
        (t.turn u).1.2 = .empty ∧ (t.turn u).2.machine = t.machine ∧
          (t.turn u).2.table = t.table) ∧
      t.Sound ∧
      ∀ number, number < t.counter →
        (t.after later).table.lookup number = t.table.lookup number := by
  intro s t
  have hstart : s.Sound := start_sound natives sink counter
  have hsink : s.machine.sink.drained = s.machine.sink := by
    have hdrained := start_sink natives sink.drained
    rw [show s.machine.sink = _ from hdrained]
    rfl
  have hsound : t.Sound := after_sound hstart units
  have hreports := reports_linked hstart units
  rw [start_linked] at hreports
  refine ⟨hreports, ?_, fun u => turn_refused (after_drained units hsink), hsound,
    fun number => lookup_after hsound later⟩
  rw [hreports, reports_linked (start_sound natives sink counter'),
    kept_eq_filter hstart, start_linked, List.filter_map]
  have hdrained : (Machine.start natives sink.drained).sink.drained =
      (Machine.start natives sink.drained).sink := by
    rw [start_sink]
    rfl
  rw [← reports_filter units hdrained]
  rfl

theorem function_runs_after_refused_unit :
    let f := (9, "fun f(a) { print a; }")
    let refused := (9, "a + ;")
    let call := (9, "f(nil);")
    let s := Session.start 0 [] .unlimited
    let t := s.after [f]
    ((t.turn refused).1.1.isRefused = true ∧ t.counter < (t.turn refused).2.counter) ∧
      (t.turn refused).2.table = t.table ∧ s.kept [f, refused, call] = [f, call] ∧
      (s.reports [f, refused, call]).filter (fun r => !r.1.isRefused) =
        (Session.start 7 [] .unlimited).reports [f, call] := by
  intro f refused call s t
  have hrefused : (t.turn refused).1.1.isRefused = true ∧
      t.counter < (t.turn refused).2.counter := by decide +kernel
  have hkept : s.kept [f, refused, call] = [f, call] := by decide +kernel
  have hall := refused_units_leave_no_trace 0 7 [] .unlimited [f, refused, call] []
  have hfirst := refused_units_leave_no_trace 0 7 [] .unlimited [f] [refused, call]
  exact ⟨hrefused, (hfirst.2.2.1 refused hrefused.1).2.2, hkept, hkept ▸ hall.2.1⟩

end Numbered

end ScriptLang
