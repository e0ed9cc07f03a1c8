import ScriptLang.Proofs.Parsing.Compiling
import ScriptLang.Proofs.Reporting.Reading
import ScriptLang.Proofs.Reporting.Resolving
import ScriptLang.Proofs.Scanning.LineNumbers

namespace ScriptLang.Reporting

open Grammar

/-- What a source is refused for, and nothing if it compiles. -/
def refusals (source : String) : List Diagnostic :=
  match Session.compile source with
  | .ok _ => []
  | .error diagnostics => diagnostics

variable {source : String}

theorem lines_errors (source : String) :
    (Source.errors source).Pairwise fun e f => e.line ≤ f.line := by
  have hitems : (Source.items source).Pairwise fun i j => i.line ≤ j.line :=
    (List.pairwise_append.mp (Source.lines_items source)).1
  refine hitems.filterMap _ fun i j hij e he f hf => ?_
  cases i with
  | token t => cases he
  | error e' =>
    cases j with
    | token t => cases hf
    | error f' =>
      cases he
      cases hf
      exact hij

/-- The good tokens of a source and its end stand line after line. -/
theorem ordered_ofSource (source : String) : Ordered (.ofSource source) := by
  have hlines := Source.lines_listing source
  rw [Source.listing, List.filterMap_append] at hlines
  exact hlines

theorem refusals_of_parse_error {diagnostics : List Diagnostic}
    (h : Session.parse source = .error diagnostics) :
    ∃ syntactic : List Syntax.Error, diagnostics =
        (Source.errors source).map .lexical ++ syntactic.map .syntactic ∧
      syntactic.Pairwise (Follows (.ofSource source)) := by
  unfold Session.parse at h
  cases hp : Syntax.parseProgram (.ofSource source) with
  | ok statements =>
    simp only [hp] at h
    split at h
    · cases h
    · cases h
      exact ⟨[], (List.append_nil _).symm, .nil⟩
  | error errors =>
    simp only [hp] at h
    cases h
    exact ⟨errors, rfl, parseProgram_errors_follow (ordered_ofSource source) hp⟩

theorem refusals_of_resolve_error {statements : List (Stmt Unit)} {scoping : List Scope.Error}
    (hparse : Session.parse source = .ok statements)
    (h : resolveProgram statements = .error scoping) :
    scoping.Pairwise (Succeeds (Source.tokens source)) := by
  have hsorted := (List.pairwise_append.mp (ordered_ofSource source)).1
  obtain ⟨-, hreads⟩ := Session.parse_eq_ok.mp hparse
  have hreported := reads_reported hsorted hreads (List.infix_refl _) false []
  simp only [resolveProgram] at h
  split at h
  · cases h
  · cases h
    exact hreported.succeed

/-- What a source is refused for is its lexical errors, line after line, then its syntax errors,
then scope errors if there are none of the others. An error that is on an earlier line than one
before it had to wait for it: an assignment is refused when its value has been read, its name is
looked up when its value is resolved, and the increment of a `for` is resolved behind its body. -/
theorem diagnostics_in_order (source : String) :
    ∃ (syntactic : List Syntax.Error) (scoping : List Scope.Error),
      refusals source = (Source.errors source).map .lexical ++ syntactic.map .syntactic ++
        scoping.map .scoping ∧
      (scoping ≠ [] → Source.errors source = [] ∧ syntactic = []) ∧
      (Source.errors source).Pairwise (fun e f => e.line ≤ f.line) ∧
      syntactic.Pairwise (fun e f => e.token.line ≤ f.token.line ∨
        InAssignedValue (.ofSource source) e f) ∧
      scoping.Pairwise (fun e f => e.token.line ≤ f.token.line ∨
        Postponed (Source.tokens source) e f) := by
  have hlexical := lines_errors source
  cases hp : Session.parse source with
  | error diagnostics =>
    obtain ⟨syntactic, rfl, hsyntactic⟩ := refusals_of_parse_error hp
    refine ⟨syntactic, [], ?_, fun h => absurd rfl h, hlexical, hsyntactic, .nil⟩
    simp [refusals, Session.compile, hp]
  | ok statements =>
    obtain ⟨herrors, -⟩ := Session.parse_eq_ok.mp hp
    cases hr : resolveProgram statements with
    | ok program =>
      refine ⟨[], [], ?_, fun h => absurd rfl h, hlexical, .nil, .nil⟩
      simp [refusals, Session.compile, hp, hr, herrors]
    | error scoping =>
      refine ⟨[], scoping, ?_, fun _ => ⟨herrors, rfl⟩, hlexical, .nil,
        refusals_of_resolve_error hp hr⟩
      simp [refusals, Session.compile, hp, hr, herrors]

theorem diagnostics_out_of_order :
    (refusals "nil =\nnil = nil;").map Diagnostic.text =
        ["[line 2] Error at '=': Invalid assignment target.",
          "[line 1] Error at '=': Invalid assignment target."] ∧
      (refusals "\x7b var a = a =\nfun () \x7b var b; var b; \x7d; \x7d").map Diagnostic.text =
        ["[line 2] Error at 'b': Already a variable with this name in this scope.",
          "[line 1] Error at 'a': Can't assign to local variable in its own initializer."] ∧
      (refusals "for (;; fun () \x7b var a; var a; \x7d)\n\x7b var b; var b; \x7d").map
          Diagnostic.text =
        ["[line 2] Error at 'b': Already a variable with this name in this scope.",
          "[line 1] Error at 'a': Already a variable with this name in this scope."] := by
  decide +kernel

end ScriptLang.Reporting
