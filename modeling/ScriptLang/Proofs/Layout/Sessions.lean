import ScriptLang.Proofs.Layout.Reading
import ScriptLang.Proofs.Layout.Resolving
import ScriptLang.Proofs.Lines.Joining

namespace ScriptLang

/-- Any line becomes the same line. -/
def flat (_ : Nat) : Nat := 0

def Token.spelling (t : Token) : Kind × String :=
  (t.kind, t.lexeme)

/-- Two sources without lexical errors whose tokens differ in their lines alone. -/
structure Source.SameTokens (a b : String) : Prop where
  clean_left : Source.errors a = []
  clean_right : Source.errors b = []
  spelled : (Source.tokens a).map Token.spelling = (Source.tokens b).map Token.spelling

namespace Diagnostic

inductive Stage where
  | lexical
  | syntactic
  | scoping
  | runtime
  | output
deriving DecidableEq

def stage : Diagnostic → Stage
  | .lexical _ => .lexical
  | .syntactic _ => .syntactic
  | .scoping _ => .scoping
  | .runtime _ => .runtime
  | .output _ => .output

structure SameButLine (d d' : Diagnostic) : Prop where
  stage : d.stage = d'.stage
  message : d.message = d'.message
  location : d.location? = d'.location?

variable (f : Nat → Nat)

def moved : Diagnostic → Diagnostic
  | .lexical e => .lexical { e with line := f e.line }
  | .syntactic e => .syntactic (e.moved f)
  | .scoping e => .scoping (e.moved f)
  | .runtime e => .runtime (e.moved f)
  | .output fault => .output fault

theorem fault_message_moved (fault : RuntimeFault) : (fault.moved f).message = fault.message := by
  rw [← RuntimeFault.recoded_moving, Recoding.message_recoded]

theorem moved_sameButLine (d : Diagnostic) : (d.moved f).SameButLine d := by
  cases d with
  | runtime e => exact ⟨rfl, fault_message_moved f e.fault, rfl⟩
  | _ => exact ⟨rfl, rfl, rfl⟩

theorem SameButLine.symm {d d' : Diagnostic} (h : d.SameButLine d') : d'.SameButLine d :=
  ⟨h.stage.symm, h.message.symm, h.location.symm⟩

theorem SameButLine.trans {d d' d'' : Diagnostic} (h : d.SameButLine d')
    (h' : d'.SameButLine d'') : d.SameButLine d'' :=
  ⟨h.stage.trans h'.stage, h.message.trans h'.message, h.location.trans h'.location⟩

theorem sameButLine_of_moved {d d' : Diagnostic} (h : d.moved f = d'.moved f) :
    d.SameButLine d' :=
  (h ▸ (moved_sameButLine f d).symm).trans (moved_sameButLine f d')

theorem all_sameButLine_of_moved {ds ds' : List Diagnostic}
    (h : ds.map (moved f) = ds'.map (moved f)) : List.Forall₂ SameButLine ds ds' := by
  induction ds generalizing ds' with
  | nil =>
    cases List.map_eq_nil_iff.mp h.symm
    exact .nil
  | cons d ds ih =>
    obtain ⟨d', ds', rfl, hd, hds⟩ := List.map_eq_cons_iff.mp h.symm
    exact .cons (sameButLine_of_moved f hd.symm) (ih hds.symm)

end Diagnostic

namespace Session

/-- Units that end the same way, with the same diagnostics but for their lines. -/
inductive Ending.SameButLines : Ending → Ending → Prop where
  | completed : SameButLines .completed .completed
  | refused {ds ds' : List Diagnostic} (h : List.Forall₂ Diagnostic.SameButLine ds ds') :
    SameButLines (.refused ds) (.refused ds')
  | stopped {d d' : Diagnostic} (h : d.SameButLine d') : SameButLines (.stopped d) (.stopped d')
  | exhausted : SameButLines .exhausted .exhausted

/-- What is seen of each unit of a session: how it ends and what it prints. -/
def reports : List (Nat × String) → Machine → List (Ending × ByteArray)
  | [], _ => []
  | u :: units, m =>
    let r := run u.1 u.2 m
    (r.1, r.2.sink.written) :: reports units { r.2 with sink := r.2.sink.drained }

section Compiling

variable (f : Nat → Nat)

def compiledMoved : Except (List Diagnostic) (List (Stmt Binding)) →
    Except (List Diagnostic) (List (Stmt Binding))
  | .ok program => .ok (Stmt.allMoved f program)
  | .error diagnostics => .error (diagnostics.map (Diagnostic.moved f))

def compileTokens (input : Syntax.Input) : Except (List Diagnostic) (List (Stmt Binding)) :=
  match Syntax.parseProgram input with
  | .error errors => .error (errors.map Diagnostic.syntactic)
  | .ok statements =>
    match resolveProgram statements with
    | .ok program => .ok program
    | .error errors => .error (errors.map Diagnostic.scoping)

theorem compile_of_clean {source : String} (h : Source.errors source = []) :
    compile source = compileTokens (.ofSource source) := by
  unfold compile parse compileTokens
  rw [h]
  cases Syntax.parseProgram (.ofSource source) <;> rfl

theorem compileTokens_moved (input : Syntax.Input) :
    compileTokens (input.moved f) = compiledMoved f (compileTokens input) := by
  unfold compileTokens
  rw [Syntax.parseProgram_moved]
  cases Syntax.parseProgram input with
  | error errors => simp [compiledMoved, Diagnostic.moved, Function.comp_def]
  | ok statements =>
    simp only [resolveProgram_eq_moved]
    cases resolveProgram statements with
    | ok program => rfl
    | error errors => simp [compiledMoved, Diagnostic.moved, Function.comp_def]

end Compiling

section Flattening

variable {a b : String}

theorem tokens_flat {ts us : List Token} (h : ts.map Token.spelling = us.map Token.spelling) :
    ts.map (Token.moved flat) = us.map (Token.moved flat) := by
  have hspelled : Token.moved flat = (fun s => ⟨s.1, s.2, 0⟩) ∘ Token.spelling := rfl
  rw [hspelled, ← List.map_map, h, List.map_map]

/-- Where the tokens are the same but for lines, so is what is made of them. -/
theorem compile_flat (h : Source.SameTokens a b) :
    compiledMoved flat (compile a) = compiledMoved flat (compile b) := by
  have hinput : (Syntax.Input.ofSource a).moved flat = (Syntax.Input.ofSource b).moved flat :=
    congrArg₂ Syntax.Input.mk (tokens_flat h.spelled) rfl
  rw [compile_of_clean h.clean_left, compile_of_clean h.clean_right, ← compileTokens_moved, hinput,
    compileTokens_moved]

def Ending.flattened : Ending → Ending
  | .refused diagnostics => .refused (diagnostics.map (Diagnostic.moved flat))
  | .stopped diagnostic => .stopped (diagnostic.moved flat)
  | ending => ending

theorem Ending.sameButLines_of_flattened {e e' : Ending} (h : e.flattened = e'.flattened) :
    e.SameButLines e' := by
  cases e with
  | completed => cases e' <;> first | exact .completed | cases h
  | exhausted => cases e' <;> first | exact .exhausted | cases h
  | refused ds =>
    cases e' with
    | refused ds' =>
      exact .refused (Diagnostic.all_sameButLine_of_moved flat (Ending.refused.inj h))
    | _ => cases h
  | stopped d =>
    cases e' with
    | stopped d' => exact .stopped (Diagnostic.sameButLine_of_moved flat (Ending.stopped.inj h))
    | _ => cases h

/-- A program that is flattened runs on a flattened machine as it does before. -/
theorem outcome_flat (fuel : Nat) (program : List (Stmt Binding)) (m : Machine) :
    outcome (Evaluation.interpret fuel (Stmt.allMoved flat program) (m.moved flat)) =
      ((outcome (Evaluation.interpret fuel program m)).1.flattened,
        (outcome (Evaluation.interpret fuel program m)).2.moved flat) := by
  rw [Lines.interpret_carries flat fuel program m]
  cases Evaluation.interpret fuel program m with
  | ok u n => rfl
  | error stop n => cases stop <;> rfl

theorem run_flat (h : Source.SameTokens a b) (fuel : Nat) {m n : Machine}
    (hm : m.moved flat = n.moved flat) :
    (run fuel a m).1.flattened = (run fuel b n).1.flattened ∧
      (run fuel a m).2.moved flat = (run fuel b n).2.moved flat := by
  have hcompiled := compile_flat h
  cases ha : compile a with
  | error ds =>
    cases hb : compile b with
    | error ds' =>
      rw [ha, hb] at hcompiled
      simp only [run, ha, hb]
      exact ⟨congrArg Ending.refused (Except.error.inj hcompiled), hm⟩
    | ok q =>
      rw [ha, hb] at hcompiled
      cases hcompiled
  | ok p =>
    cases hb : compile b with
    | error ds' =>
      rw [ha, hb] at hcompiled
      cases hcompiled
    | ok q =>
      rw [ha, hb] at hcompiled
      have hrun := outcome_flat fuel p m
      rw [Except.ok.inj hcompiled, hm, outcome_flat fuel q n] at hrun
      rw [run_compiled ha, run_compiled hb]
      exact ⟨(congrArg Prod.fst hrun).symm, (congrArg Prod.snd hrun).symm⟩

end Flattening

/-- A node of a tree is resolved as the corresponding node of another. -/
def SameBindings (a b : String) : Prop :=
  ∀ program, compile a = .ok program → ∃ program', compile b = .ok program' ∧
    Stmt.allMoved flat program = Stmt.allMoved flat program'

theorem sameBindings {a b : String} (h : Source.SameTokens a b) : SameBindings a b := by
  intro program ha
  have hcompiled := compile_flat h
  rw [ha] at hcompiled
  cases hb : compile b with
  | error ds =>
    rw [hb] at hcompiled
    cases hcompiled
  | ok program' =>
    rw [hb] at hcompiled
    exact ⟨program', rfl, Except.ok.inj hcompiled⟩

/-- Units of the same fuel over sources with the same tokens. -/
def SameUnits : List (Nat × String) → List (Nat × String) → Prop :=
  List.Forall₂ fun u u' => u.1 = u'.1 ∧ Source.SameTokens u.2 u'.2

theorem reports_flat {units units' : List (Nat × String)} (h : SameUnits units units')
    {m n : Machine} (hm : m.moved flat = n.moved flat) :
    List.Forall₂ (fun r r' => r.1.SameButLines r'.1 ∧ r.2 = r'.2) (reports units m)
      (reports units' n) := by
  induction h generalizing m n with
  | nil => exact .nil
  | cons hu _ ih =>
    obtain ⟨hfuel, hsame⟩ := hu
    obtain ⟨hending, hleft⟩ := run_flat hsame _ hm
    rw [reports, reports, ← hfuel]
    have hsink := congrArg Machine.sink hleft
    refine .cons ⟨Ending.sameButLines_of_flattened hending, congrArg Sink.written hsink⟩ (ih ?_)
    exact congrArg (fun k : Machine => { k with sink := k.sink.drained }) hleft

/-- Two sessions over sources that differ in layout alone print the same, unit by unit, end the same
way and report the same but for lines; and corresponding variables have the same bindings. -/
theorem layout_unobservable {units units' : List (Nat × String)} (h : SameUnits units units')
    (natives : List Native) (sink : Sink) :
    List.Forall₂ (fun r r' => r.1.SameButLines r'.1 ∧ r.2 = r'.2)
        (reports units (Machine.start natives sink))
        (reports units' (Machine.start natives sink)) ∧
      List.Forall₂ (fun u u' => SameBindings u.2 u'.2 ∧ SameBindings u'.2 u.2) units units' := by
  refine ⟨reports_flat h rfl, ?_⟩
  refine List.Forall₂.imp ?_ h
  intro u u' hu
  exact ⟨sameBindings hu.2, sameBindings ⟨hu.2.clean_right, hu.2.clean_left, hu.2.spelled.symm⟩⟩

theorem spread_units_report_the_same :
    SameUnits [(3, "{ var a = a; }"), (3, "nil();")]
        [(3, "\n{ var a = a; }"), (3, "nil // callee\n();")] ∧
      List.Forall₂ (fun r r' => r.1.SameButLines r'.1 ∧ r.2 = r'.2)
        (reports [(3, "{ var a = a; }"), (3, "nil();")] (Machine.start [] .unlimited))
        (reports [(3, "\n{ var a = a; }"), (3, "nil // callee\n();")]
          (Machine.start [] .unlimited)) := by
  have hsame : SameUnits [(3, "{ var a = a; }"), (3, "nil();")]
      [(3, "\n{ var a = a; }"), (3, "nil // callee\n();")] :=
    .cons ⟨rfl, by decide +kernel, by decide +kernel, by decide +kernel⟩
      (.cons ⟨rfl, by decide +kernel, by decide +kernel, by decide +kernel⟩ .nil)
  exact ⟨hsame, (layout_unobservable hsame [] .unlimited).1⟩

end Session
end ScriptLang
