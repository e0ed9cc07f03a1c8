import ScriptLang.Proofs.Chronicle.Execution
import ScriptLang.Proofs.Parsing.Compiling

namespace ScriptLang

namespace Chronicle

open Scope

/-- The record of a machine at rest. -/
def start (natives : List Native) (sink : Sink) : Record :=
  ⟨Machine.start natives sink, []⟩

theorem compile_scoped {source : String} {program : List (Stmt Binding)}
    (h : Session.compile source = .ok program) : Stmt.AllScoped [] program := by
  obtain ⟨-, statements, hreads, hr⟩ := Session.compile_eq_ok.mp h
  exact resolveProgram_scoped hreads.shaped hr

section Validity

variable {P : List (Stmt Binding) → Prop} {r : Record}

structure Resting (P : List (Stmt Binding) → Prop) (r : Record) : Prop where
  valid : Valid P r
  current : r.machine.current = r.machine.globals

theorem start_resting (natives : List Native) (sink : Sink) : Resting P (start natives sink) := by
  have hglobals : (Store.empty.push none : Store Value).parent? 0 = none := rfl
  have hempty : ∀ f x, ¬ (Store.empty.push none : Store Value).Binds f x := by
    intro f x hb
    rw [Store.Binds, Store.get?_push] at hb
    simp [Store.empty, Store.get?] at hb
  have hfirst : Valid P ⟨⟨Store.empty.push none, 0, 0, 0, 0, sink⟩, []⟩ := by
    refine ⟨⟨Nat.zero_lt_one, hglobals, ?_, ?_, List.nodup_nil, ?_, List.nodup_nil, ?_, ?_⟩,
      trivial⟩
    · intro f n place he
      cases he
    · intro f hf hne
      exact absurd (Nat.lt_one_iff.mp hf) hne
    · intro f x _
      exact ⟨fun hb => absurd hb (hempty f x), fun hd => by cases hd⟩
    · intro f s name he
      cases he
    · intro f x v hv
      exact absurd (Option.isSome_of_eq_some hv) (hempty f x)
  obtain ⟨hvalid, hf⟩ := defineNatives_follows (D := Nothing) hfirst natives
  have hg : (start natives sink).machine.globals = 0 := hf.later.globals
  exact ⟨hvalid, hf.current.trans hg.symm⟩

theorem finish_resting (h : Resting P r) {program : List (Stmt Binding)} (hP : P program)
    (hs : Stmt.AllScoped [] program) (fuel : Nat) :
    match Recording.finish (executeProgram fuel program) r with
    | .ok _ n => Resting P n
    | .error stop n => Resting P n ∧ Explained stop n.events := by
  -- between units no scope is open, so the program starts at its top
  have hin : Inside P r ⟨program, [], []⟩ [] := by
    refine ⟨⟨hP, h.current, .top⟩, ?_, ?_⟩
    · intro names hnames
      cases hnames
    · intro f hf
      cases hf
  have hfits : FitsAll ⟨program, [], []⟩ [] program := by
    refine ⟨?_, ?_, hs⟩
    · intro s hmem
      exact List.mem_map_of_mem hmem
    · intro s _ t _ outer houter
      cases houter
  have hkeeps :
      Keeps P (Within r.machine.current) r (executeProgram fuel program) fun _ _ => True :=
    executeProgram_keeps fuel h.valid hin hfits
  unfold Keeps at hkeeps
  unfold Recording.finish
  cases hrun : executeProgram fuel program r with
  | ok u n =>
    rw [hrun] at hkeeps
    obtain ⟨hvalid, hf, -⟩ := hkeeps
    have hg : n.machine.globals = r.machine.globals := hf.later.globals
    have hrest : Resting P n := ⟨hvalid, by rw [hf.current, hg, h.current]⟩
    by_cases hflush : n.machine.sink.flushFails
    · simp only [hflush, if_true]
      refine ⟨hrest, ?_⟩
      intro x line heq
      cases heq
    · simp only [hflush]
      exact hrest
  | error stop n =>
    rw [hrun] at hkeeps
    obtain ⟨hvalid, -, hexplained⟩ := hkeeps
    exact ⟨⟨⟨hvalid.consistent, hvalid.sound⟩, rfl⟩, hexplained⟩

theorem run_resting (h : Resting P r) {source : String}
    (hP : ∀ program, Session.compile source = .ok program → P program) (fuel : Nat) :
    Resting P (run fuel source r).2 ∧
      ∀ x line, (run fuel source r).1 = .stopped (.runtime ⟨.undefinedVariable x, line⟩) →
        Explained (.error ⟨.undefinedVariable x, line⟩) (run fuel source r).2.events := by
  unfold run Recording.run
  cases hc : Session.compile source with
  | error diagnostics => exact ⟨h, fun x line heq => by cases heq⟩
  | ok program =>
    have hend := finish_resting h (hP program hc) (compile_scoped hc) fuel
    simp only
    cases hi : Recording.finish (executeProgram fuel program) r with
    | ok u n =>
      rw [hi] at hend
      exact ⟨hend, fun x line heq => by cases heq⟩
    | error stop n =>
      rw [hi] at hend
      refine ⟨hend.1, ?_⟩
      intro x line heq
      cases stop with
      | error e =>
        cases heq
        exact hend.2
      | output f => cases heq
      | exhausted => cases heq

theorem runAll_resting {units : List (Nat × String)} (h : Resting P r)
    (hP : ∀ u ∈ units, ∀ program, Session.compile u.2 = .ok program → P program) :
    Resting P (runAll units r).2 := by
  induction units generalizing r with
  | nil => exact h
  | cons u units ih =>
    have hfirst := (run_resting h (hP u List.mem_cons_self) u.1).1
    exact ih hfirst fun u' hu' => hP u' (List.mem_cons_of_mem _ hu')

end Validity

/-- A program of a session. -/
def CompiledFrom (units : List (Nat × String)) (program : List (Stmt Binding)) : Prop :=
  ∃ u ∈ units, Session.compile u.2 = .ok program

theorem session_resting (natives : List Native) (sink : Sink) (units : List (Nat × String)) :
    Resting (CompiledFrom units) (runAll units (start natives sink)).2 :=
  runAll_resting (start_resting natives sink) fun u hu _ hc => ⟨u, hu, hc⟩

end Chronicle
end ScriptLang
