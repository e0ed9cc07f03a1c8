import ScriptLang.Proofs.Grammar.Rewriting
import ScriptLang.Proofs.Parsing.Acceptance
import ScriptLang.Session

namespace ScriptLang

open Grammar

theorem Session.parse_eq_ok {source : String} {statements : List (Stmt Unit)} :
    Session.parse source = .ok statements ↔
      Source.errors source = [] ∧
        Reads (.declarations false statements) (Source.tokens source) := by
  have hreads := Parsing.parseProgram_ok_iff_reads (.ofSource source) statements
  rw [show Source.tokens source = (Syntax.Input.ofSource source).tokens from rfl, ← hreads]
  unfold Session.parse
  cases hp : Syntax.parseProgram (.ofSource source) with
  | error errors => simp
  | ok ss =>
    cases he : Source.errors source with
    | nil => simp
    | cons e es => simp

/-- A source compiles if it has no lexical error, its tokens spell statements, and these have no
scope error. -/
theorem Session.compile_eq_ok {source : String} {program : List (Stmt Binding)} :
    Session.compile source = .ok program ↔
      Source.errors source = [] ∧ ∃ statements,
        Reads (.declarations false statements) (Source.tokens source) ∧
          resolveProgram statements = .ok program := by
  have hparse := fun ss => @Session.parse_eq_ok source ss
  unfold Session.compile
  constructor
  · intro h
    cases hp : Session.parse source with
    | error diagnostics => simp [hp] at h
    | ok statements =>
      obtain ⟨herrors, hreads⟩ := (hparse statements).mp hp
      refine ⟨herrors, statements, hreads, ?_⟩
      cases hr : resolveProgram statements with
      | error errors => simp [hp, hr] at h
      | ok resolved =>
        simp only [hp, hr, Except.ok.injEq] at h
        rw [h]
  · rintro ⟨herrors, statements, hreads, hr⟩
    simp [(hparse statements).mpr ⟨herrors, hreads⟩, hr]

end ScriptLang
