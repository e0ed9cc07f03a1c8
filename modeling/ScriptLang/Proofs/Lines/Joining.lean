import ScriptLang.Proofs.Grammar.Writing
import ScriptLang.Proofs.Lines.Reading
import ScriptLang.Proofs.Lines.Resolving
import ScriptLang.Proofs.Lines.Running
import ScriptLang.Proofs.Lines.Scanning
import ScriptLang.Proofs.Parsing.Compiling
import ScriptLang.Proofs.Running.Discipline

namespace ScriptLang

open Evaluation

namespace Session

theorem compile_joined {A B : String} {a b : List (Stmt Binding)} (hA : compile A = .ok a)
    (hB : compile B = .ok b) :
    compile (A ++ "\n" ++ B) =
      .ok (a ++ Stmt.allMoved (· + (Source.newlines A.toList + 1)) b) := by
  obtain ⟨herrorsA, ss, hreadsA, hresolveA⟩ := compile_eq_ok.mp hA
  obtain ⟨herrorsB, ss', hreadsB, hresolveB⟩ := compile_eq_ok.mp hB
  refine compile_eq_ok.mpr ⟨Source.errors_joined herrorsA herrorsB, ss ++ Stmt.allMoved _ ss', ?_,
    resolveProgram_append hresolveA (resolveProgram_moved _ hresolveB)⟩
  rw [Source.tokens_joined herrorsA]
  exact hreadsA.declarations_append (hreadsB.moved _)

def outcome : EStateM.Result Stop Machine Unit → Ending × Machine
  | .ok () n => (.completed, n)
  | .error stop n => (.ofStop stop, n)

theorem run_compiled {source : String} {program : List (Stmt Binding)}
    (h : compile source = .ok program) (fuel : Nat) (m : Machine) :
    run fuel source m = outcome (interpret fuel program m) := by
  unfold run
  simp only [h]
  cases interpret fuel program m <;> rfl

def Ending.moved (f : Nat → Nat) : Ending → Ending
  | .stopped (.runtime e) => .stopped (.runtime (e.moved f))
  | ending => ending

end Session

namespace Lines

open Session (Ending outcome)
open Evaluation (bind_apply)
open Grammar

def former (line : Nat) : Nat := 2 * line

def latter (line : Nat) : Nat := 2 * line + 1

/-- Lines of both sorts together, those of the second unit `k` further down. -/
def place (k line : Nat) : Nat :=
  if line % 2 = 0 then line / 2 else line / 2 + k

theorem place_former (k : Nat) : place k ∘ former = id := by
  funext line
  simp [place, former]

theorem place_latter (k : Nat) : place k ∘ latter = (· + k) := by
  funext line
  have hodd : (2 * line + 1) % 2 ≠ 0 := by omega
  have hhalf : (2 * line + 1) / 2 = line := by omega
  simp only [Function.comp_apply, place, latter, if_neg hodd, hhalf]

/-- What running a program leaves, with its lines told apart from those from before. -/
def toldApart (fuel : Nat) (program : List (Stmt Binding)) (n : Machine) : Ending × Machine :=
  outcome (interpret fuel (Stmt.allMoved latter program) (n.moved former))

def placed (k : Nat) (r : Ending × Machine) : Ending × Machine :=
  (r.1.moved (place k), r.2.moved (place k))

/-- A program `k` lines further down runs as it does with its lines told apart. -/
theorem outcome_placed (k fuel : Nat) (program : List (Stmt Binding)) (n : Machine) :
    outcome (interpret fuel (Stmt.allMoved (· + k) program) n) =
      placed k (toldApart fuel program n) := by
  have hrun := interpret_carries (place k) fuel (Stmt.allMoved latter program) (n.moved former)
  rw [Stmt.allMoved_allMoved, Machine.moved_moved, place_latter, place_former,
    Machine.moved_id] at hrun
  unfold toldApart
  rw [hrun]
  cases interpret fuel (Stmt.allMoved latter program) (n.moved former) with
  | ok u k => rfl
  | error stop k => cases stop <;> rfl

section Appending

variable {fuel : Nat} {ss ss' : List (Stmt Binding)} {m n : Machine}

theorem executeProgram_append :
    executeProgram fuel (ss ++ ss') m =
      match executeProgram fuel ss m with
      | .ok () n => executeProgram fuel ss' n
      | .error stop n => .error stop n := by
  induction ss generalizing m with
  | nil => rfl
  | cons s ss ih =>
    change (execute fuel s >>= fun _ => executeProgram fuel (ss ++ ss')) m =
      match (execute fuel s >>= fun _ => executeProgram fuel ss) m with
      | .ok () n => executeProgram fuel ss' n
      | .error stop n => .error stop n
    rw [bind_apply, bind_apply]
    cases execute fuel s m with
    | ok flow n => exact ih
    | error stop n => rfl

theorem interpret_append_of_ok (h : interpret fuel ss m = .ok () n) :
    interpret fuel (ss ++ ss') m = interpret fuel ss' n := by
  unfold interpret finish at h ⊢
  rw [executeProgram_append]
  cases hrun : executeProgram fuel ss m with
  | ok u n' =>
    by_cases hflush : n'.sink.flushFails
    · simp [hrun, hflush] at h
    · simp only [hrun, hflush] at h
      cases h
      rfl
  | error stop n' => simp [hrun] at h

theorem interpret_append_of_error {stop : Stop} (hm : m.sink.flushFails = false)
    (h : interpret fuel ss m = .error stop n) :
    interpret fuel (ss ++ ss') m = .error stop n := by
  have hflush := (Running.executeProgram_unmoved fuel ss m).flush.trans hm
  unfold interpret finish at h ⊢
  rw [executeProgram_append]
  cases hrun : executeProgram fuel ss m with
  | ok u n' =>
    -- only passing the output on could fail then, but the sink does not
    rw [hrun, Running.ending] at hflush
    simp [hrun, hflush] at h
  | error stop' n' =>
    simp only [hrun] at h ⊢
    exact h

end Appending

theorem outcome_alone (fuel : Nat) (program : List (Stmt Binding)) (n : Machine) :
    outcome (interpret fuel program n) = placed 0 (toldApart fuel program n) := by
  have hzero : (fun line : Nat => line + 0) = id := rfl
  rw [← outcome_placed, hzero, Stmt.allMoved_id]

theorem placed_sink (k : Nat) (r : Ending × Machine) : (placed k r).2.sink = r.2.sink :=
  rfl

/-- Two units as one run as the one and then the other, and where the first stops nothing of the
second is run. What the second leaves is the same but for the lines of its own text. (What compiles
does not begin with an `else`, so that no `if` of the first goes on in the second.) -/
theorem joined_units_run_in_turn {A B : String} {a b : List (Stmt Binding)}
    (hA : Session.compile A = .ok a) (hB : Session.compile B = .ok b) {m : Machine}
    (hm : m.sink.flushFails = false) (fuel : Nat) :
    Session.compile (A ++ "\n" ++ B) =
        .ok (a ++ Stmt.allMoved (· + (Source.newlines A.toList + 1)) b) ∧
      (∀ n, Session.run fuel A m = (.completed, n) →
        Session.run fuel B n = placed 0 (toldApart fuel b n) ∧
          Session.run fuel (A ++ "\n" ++ B) m =
            placed (Source.newlines A.toList + 1) (toldApart fuel b n) ∧
          (Session.run fuel (A ++ "\n" ++ B) m).2.sink = (Session.run fuel B n).2.sink) ∧
      ∀ ending n, Session.run fuel A m = (ending, n) → ending ≠ .completed →
        Session.run fuel (A ++ "\n" ++ B) m = (ending, n) := by
  have hjoined := Session.compile_joined hA hB
  refine ⟨hjoined, ?_, ?_⟩
  · intro n hrun
    have hfirst : interpret fuel a m = .ok () n := by
      rw [Session.run_compiled hA] at hrun
      cases hi : interpret fuel a m with
      | ok u n' =>
        rw [hi] at hrun
        cases hrun
        rfl
      | error stop n' =>
        rw [hi] at hrun
        cases stop <;> cases hrun
    -- alone and behind the first, what the second leaves differs only in where its lines are put
    have halone : Session.run fuel B n = placed 0 (toldApart fuel b n) := by
      rw [Session.run_compiled hB, outcome_alone]
    have hsecond : Session.run fuel (A ++ "\n" ++ B) m =
        placed (Source.newlines A.toList + 1) (toldApart fuel b n) := by
      rw [Session.run_compiled hjoined, interpret_append_of_ok hfirst, outcome_placed]
    refine ⟨halone, hsecond, ?_⟩
    rw [halone, hsecond, placed_sink, placed_sink]
  · intro ending n hrun hstopped
    rw [Session.run_compiled hA] at hrun
    rw [Session.run_compiled hjoined]
    cases hi : interpret fuel a m with
    | ok u n' =>
      rw [hi] at hrun
      cases hrun
      exact absurd rfl hstopped
    | error stop n' =>
      rw [hi] at hrun
      rw [interpret_append_of_error hm hi]
      exact hrun

theorem failing_call_moves :
    ∃ n, Session.run 3 "nil;" (Machine.start [] .unlimited) = (.completed, n) ∧
      (Session.run 3 "nil();" n).1 = .stopped (.runtime ⟨.notCallable .nil, 1⟩) ∧
      (Session.run 3 ("nil;" ++ "\n" ++ "nil();") (Machine.start [] .unlimited)).1 =
        .stopped (.runtime ⟨.notCallable .nil, 2⟩) := by
  let word : Token := ⟨.nilWord, "nil", 1⟩
  let semicolon : Token := ⟨.semicolon, ";", 1⟩
  let opening : Token := ⟨.leftParen, "(", 1⟩
  let closing : Token := ⟨.rightParen, ")", 1⟩
  have hnil : Reads (.primary (.literal .nil)) [word] := .literal rfl
  have hA : Session.compile "nil;" = .ok [.exprStmt (.literal .nil)] := by
    have htokens : Source.tokens "nil;" = [word] ++ [semicolon] ++ [] := by decide +kernel
    refine Session.compile_eq_ok.mpr ⟨by decide +kernel, [.exprStmt (.literal .nil)], ?_, rfl⟩
    rw [htokens]
    have hexpression := readsAt_of_call (readsCall_of_primary hnil)
    exact .declarationsStep (.statement (.exprStmt hexpression.expression rfl)) .declarationsEnd
  have hB : Session.compile "nil();" = .ok [.exprStmt (.call (.literal .nil) closing [])] := by
    have htokens : Source.tokens "nil();" =
        ([word] ++ opening :: ([] ++ [closing])) ++ [semicolon] ++ [] := by decide +kernel
    refine Session.compile_eq_ok.mpr
      ⟨by decide +kernel, [.exprStmt (.call (.literal .nil) closing [])], ?_, rfl⟩
    rw [htokens]
    have hcall : ReadsCall (.call (.literal .nil) closing [])
        ([word] ++ opening :: ([] ++ [closing])) :=
      (readsCall_of_primary hnil).call rfl (.inl ⟨rfl, rfl⟩) rfl
    have hexpression := readsAt_of_call hcall
    exact .declarationsStep (.statement (.exprStmt hexpression.expression rfl)) .declarationsEnd
  have hrun : Session.run 3 "nil;" (Machine.start [] .unlimited) =
      (.completed, Machine.start [] .unlimited) := by
    rw [Session.run_compiled hA]
    rfl
  have hjoined := joined_units_run_in_turn hA hB (m := Machine.start [] .unlimited) rfl 3
  obtain ⟨halone, hsecond, -⟩ := hjoined.2.1 _ hrun
  have hended : ∀ k, (placed k (toldApart 3 [.exprStmt (.call (.literal .nil) closing [])]
      (Machine.start [] .unlimited))).1 =
        .stopped (.runtime ⟨.notCallable .nil, place k (latter 1)⟩) := fun _ => rfl
  have halone' : place 0 (latter 1) = 1 := by decide
  have hsecond' : place (Source.newlines "nil;".toList + 1) (latter 1) = 2 := by decide
  refine ⟨_, hrun, ?_⟩
  rw [halone, hsecond, hended, hended, halone', hsecond']
  exact ⟨rfl, rfl⟩

end Lines

end ScriptLang
