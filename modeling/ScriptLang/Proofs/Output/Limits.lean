import ScriptLang.Proofs.Lines.Joining
import ScriptLang.Proofs.Output.Cutting

namespace ScriptLang.Output

def interpret (fuel : Nat) (program : List (Stmt Binding)) : Traced Unit :=
  let p := executeProgram fuel program
  ⟨Evaluation.finish p.run, p.moments⟩

/-- Runs one unit of a session, and tells what it did. -/
def runUnit (fuel : Nat) (source : String) (m : Machine) :
    (Session.Ending × Machine) × List Moment :=
  match Session.compile source with
  | .error diagnostics => ((.refused diagnostics, m), [])
  | .ok program =>
    (Session.outcome ((interpret fuel program).run m), (interpret fuel program).moments m)

variable {fuel : Nat} {source : String} {program : List (Stmt Binding)} {m : Machine} {s : Sink}

theorem interpret_run (fuel : Nat) (program : List (Stmt Binding)) :
    (interpret fuel program).run = Evaluation.interpret fuel program := by
  funext m
  rw [Evaluation.interpret, ← (executeProgram_cuts fuel program).run]
  rfl

theorem runUnit_eq (fuel : Nat) (source : String) (m : Machine) :
    (runUnit fuel source m).1 = Session.run fuel source m := by
  unfold runUnit
  cases h : Session.compile source with
  | error diagnostics => simp only [Session.run, h]
  | ok program => rw [Session.run_compiled h, ← interpret_run]

theorem executeProgram_sink (fuel : Nat) (program : List (Stmt Binding))
    (hm : m.sink.room = none) :
    (executeProgram fuel program).run m =
      withSink (m.sink.write (printed ((executeProgram fuel program).moments m)))
        ((executeProgram fuel program).run m) := by
  have hfits : m.sink.fits (printed ((executeProgram fuel program).moments m)) = true := by
    simp [Sink.fits, hm]
  exact ((executeProgram_cuts fuel program).whole hm hfits).1

theorem interpret_whole (hm : m.sink.room = none) (hflush : m.sink.flushFails = false)
    (hs : s.flushFails = false)
    (hfits : s.fits (printed ((interpret fuel program).moments m)) = true) :
    Whole (interpret fuel program) m s := by
  obtain ⟨hrun, hsame⟩ := (executeProgram_cuts fuel program).whole hm hfits
  refine ⟨?_, hsame⟩
  have hwide := executeProgram_sink fuel program hm
  simp only [interpret, Evaluation.finish, hrun]
  cases hend : (executeProgram fuel program).run m with
  | ok u n =>
    rw [hend] at hwide
    injection hwide with _ hn
    have hflush' : n.sink.flushFails = false := by rw [hn]; exact hflush
    simp only [withSink, Machine.into, Sink.write, hflush', hs]
    rfl
  | error stop n => rfl

theorem interpret_cut (hm : m.sink.room = none)
    (hfull : s.fits (printed ((interpret fuel program).moments m)) = false) :
    ∃ earlier v n later,
      (interpret fuel program).moments m = earlier ++ ⟨.prints v, n⟩ :: later ∧
      s.fits (printed earlier) = true ∧
      s.fits (printed (earlier ++ [⟨.prints v, n⟩])) = false ∧
      (interpret fuel program).run (m.into s) = .error (.output .sinkFull)
        (n.into (s.write (printed ((interpret fuel program).moments m)))).reset ∧
      SameButSinks ((interpret fuel program).moments (m.into s)) (earlier ++ [⟨.prints v, n⟩]) := by
  obtain ⟨earlier, v, n, later, hmoments, hfits, hcrossed, hcut⟩ :=
    (executeProgram_cuts fuel program).cut hm hfull
  obtain ⟨hrun, hsame⟩ := hcut s rfl
  refine ⟨earlier, v, n, later, hmoments, hfits, hcrossed, ?_, hsame⟩
  simp only [interpret, Evaluation.finish, hrun]
  rfl

/-- What was written before does not matter to a run, only how much room there is. -/
theorem executeProgram_appends (fuel : Nat) (program : List (Stmt Binding)) (m : Machine)
    (room : Option Nat) :
    ∃ r out, ∀ t : Sink, t.room = room →
      Evaluation.executeProgram fuel program (m.into t) = withSink (t.write out) r := by
  have hcuts := executeProgram_cuts fuel program
  have hwide : (m.into .unlimited).sink.room = none := rfl
  cases hfits : (⟨.empty, room, false⟩ : Sink).fits
      (printed ((executeProgram fuel program).moments (m.into .unlimited))) with
  | true =>
    refine ⟨(executeProgram fuel program).run (m.into .unlimited),
      printed ((executeProgram fuel program).moments (m.into .unlimited)), fun t ht => ?_⟩
    rw [← hcuts.run]
    exact (hcuts.whole hwide ((Sink.fits_congr ht).trans hfits)).1
  | false =>
    obtain ⟨earlier, v, n, later, -, -, -, hcut⟩ := hcuts.cut hwide hfits
    refine ⟨.error (.output .sinkFull) { n with current := m.current, depth := m.depth },
      printed ((executeProgram fuel program).moments (m.into .unlimited)), fun t ht => ?_⟩
    rw [← hcuts.run]
    exact (hcut t ht).1

/-- A unit adds the same to what was written before, whatever that was. -/
theorem run_appends (fuel : Nat) (source : String) (m : Machine) (s : Sink) :
    ∃ (ending : Session.Ending) (n : Machine) (out : ByteArray),
      ∀ t : Sink, t.room = s.room → t.flushFails = s.flushFails →
        Session.run fuel source (m.into t) = (ending, n.into (t.write out)) := by
  cases h : Session.compile source with
  | error diagnostics =>
    refine ⟨.refused diagnostics, m, .empty, fun t _ _ => ?_⟩
    rw [Session.run, h, Sink.write_empty]
  | ok program =>
    obtain ⟨r, out, hrun⟩ := executeProgram_appends fuel program m s.room
    cases r with
    | error stop n =>
      refine ⟨.ofStop stop, n.reset, out, fun t ht _ => ?_⟩
      rw [Session.run_compiled h, Evaluation.interpret, Evaluation.finish, hrun t ht]
      rfl
    | ok u n =>
      refine ⟨if s.flushFails then .stopped (.output .flushFailed) else .completed, n, out,
        fun t ht hflush => ?_⟩
      rw [Session.run_compiled h, Evaluation.interpret, Evaluation.finish, hrun t ht]
      simp only [withSink, Machine.into, Sink.write, hflush]
      cases s.flushFails <;> rfl

theorem runUnit_whole (hm : m.sink.room = none) (hflush : m.sink.flushFails = false)
    (hs : s.flushFails = false) (hfits : s.fits (printed (runUnit fuel source m).2) = true) :
    (runUnit fuel source (m.into s)).1 = ((runUnit fuel source m).1.1,
        (runUnit fuel source m).1.2.into (s.write (printed (runUnit fuel source m).2))) ∧
      SameButSinks (runUnit fuel source (m.into s)).2 (runUnit fuel source m).2 := by
  unfold runUnit at hfits ⊢
  cases h : Session.compile source with
  | error diagnostics =>
    exact ⟨by rw [printed, Sink.write_empty], rfl⟩
  | ok program =>
    simp only [h] at hfits ⊢
    obtain ⟨hrun, hsame⟩ := interpret_whole hm hflush hs hfits
    rw [hrun]
    refine ⟨?_, hsame⟩
    cases (interpret fuel program).run m <;> rfl

theorem runUnit_cut (hm : m.sink.room = none)
    (hfull : s.fits (printed (runUnit fuel source m).2) = false) :
    ∃ earlier v n later,
      (runUnit fuel source m).2 = earlier ++ ⟨.prints v, n⟩ :: later ∧
      s.fits (printed earlier) = true ∧
      s.fits (printed (earlier ++ [⟨.prints v, n⟩])) = false ∧
      (runUnit fuel source (m.into s)).1 = (.stopped (.output .sinkFull),
        (n.into (s.write (printed (runUnit fuel source m).2))).reset) ∧
      SameButSinks (runUnit fuel source (m.into s)).2 (earlier ++ [⟨.prints v, n⟩]) := by
  unfold runUnit at hfull ⊢
  cases h : Session.compile source with
  | error diagnostics =>
    simp only [h, printed, Sink.fits_empty] at hfull
    cases hfull
  | ok program =>
    simp only [h] at hfull ⊢
    obtain ⟨earlier, v, n, later, hmoments, hfits, hcrossed, hrun, hsame⟩ := interpret_cut hm hfull
    exact ⟨earlier, v, n, later, hmoments, hfits, hcrossed, by rw [hrun]; rfl, hsame⟩

/-- A unit run with room for `k` bytes prints the first `k` bytes of what it prints with room for
everything. Where that is all, it ends the same way. Where it is not, it ends at the print that goes
beyond the limit: it does what it does with room for everything, up to that print and no further,
and leaves the machine of that print, back at global scope. -/
theorem full_sink_only_cuts (fuel : Nat) (source : String) (m : Machine) (k : Nat) :
    let free := m.into .unlimited
    let narrow := m.into (.limited k)
    let whole := Session.run fuel source free
    let cut := Session.run fuel source narrow
    let output := whole.2.sink.written
    (runUnit fuel source free).1 = whole ∧ (runUnit fuel source narrow).1 = cut ∧
      printed (runUnit fuel source free).2 = output ∧
      cut.2.sink.written = output.extract 0 k ∧
      (output.size ≤ k → cut.1 = whole.1 ∧ cut.2.into whole.2.sink = whole.2) ∧
      (k < output.size →
        ∃ earlier v n later,
          (runUnit fuel source free).2 = earlier ++ ⟨.prints v, n⟩ :: later ∧
          (printed earlier).size ≤ k ∧
          k < (printed earlier).size + (v.text ++ "\n").toUTF8.size ∧
          SameButSinks (runUnit fuel source narrow).2 (earlier ++ [⟨.prints v, n⟩]) ∧
          cut.1 = .stopped (.output .sinkFull) ∧
          cut.2 = { n with sink := cut.2.sink, current := n.globals, depth := 0 }) := by
  intro free narrow whole cut output
  have hwide : free.sink.room = none := rfl
  have hfree : (runUnit fuel source free).1 = whole := runUnit_eq fuel source free
  have hnarrow : (runUnit fuel source narrow).1 = cut := runUnit_eq fuel source narrow
  have houtput : printed (runUnit fuel source free).2 = output := by
    have hself := (runUnit_whole (s := .unlimited) hwide rfl rfl
      (rfl : Sink.fits .unlimited (printed (runUnit fuel source free).2) = true)).1
    have hmachine := congrArg (fun r => r.2.sink.written) hself
    change (runUnit fuel source free).1.2.sink.written =
      (Sink.unlimited.write _).written at hmachine
    rw [Sink.written_unlimited, hfree] at hmachine
    exact hmachine.symm
  refine ⟨hfree, hnarrow, houtput, ?_⟩
  have hfits : (Sink.limited k).fits (printed (runUnit fuel source free).2) =
      decide (output.size ≤ k) := by rw [houtput, Sink.fits_limited]
  -- either the whole output fits, or there is a first print that does not
  by_cases hk : output.size ≤ k
  · rw [decide_eq_true hk] at hfits
    obtain ⟨hrun, -⟩ := runUnit_whole hwide rfl rfl hfits
    have hcut : cut = (whole.1, whole.2.into ((Sink.limited k).write output)) := by
      rw [← hnarrow, ← hfree, ← houtput]
      exact hrun
    rw [hcut]
    exact ⟨Sink.written_limited k, fun _ => ⟨rfl, rfl⟩, fun h => absurd hk (Nat.not_le.mpr h)⟩
  · rw [decide_eq_false hk] at hfits
    obtain ⟨earlier, v, n, later, hmoments, hearlier, hcrossed, hrun, hsame⟩ :=
      runUnit_cut hwide hfits
    have hcut : cut = (.stopped (.output .sinkFull),
        (n.into ((Sink.limited k).write output)).reset) := by
      rw [← hnarrow, ← houtput]
      exact hrun
    have hmore : printed (earlier ++ [⟨.prints v, n⟩]) =
        printed earlier ++ (v.text ++ "\n").toUTF8 := by
      rw [printed_append]
      exact congrArg _ ByteArray.append_empty
    rw [Sink.fits_limited, decide_eq_true_eq] at hearlier
    rw [hmore, Sink.fits_limited, decide_eq_false_iff_not, ByteArray.size_append,
      Nat.not_le] at hcrossed
    rw [hcut]
    exact ⟨Sink.written_limited k, fun h => absurd h hk,
      fun _ => ⟨earlier, v, n, later, hmoments, hearlier, hcrossed, hsame, rfl, rfl⟩⟩

end ScriptLang.Output
