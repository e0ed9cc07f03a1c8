import ScriptLang.Diagnostic
import ScriptLang.Machine.Evaluation
import ScriptLang.Resolution
import ScriptLang.Syntax.Program

namespace ScriptLang

def Syntax.Input.ofSource (source : String) : Syntax.Input :=
  ⟨Source.tokens source, Source.eof source⟩

namespace Session

def parse (source : String) : Except (List Diagnostic) (List (Stmt Unit)) :=
  let lexical := (Source.errors source).map Diagnostic.lexical
  match Syntax.parseProgram (.ofSource source) with
  | .ok statements => if lexical.isEmpty then .ok statements else .error lexical
  | .error errors => .error (lexical ++ errors.map Diagnostic.syntactic)

/-- A unit ready to run. Names are resolved only where everything could be parsed. -/
def compile (source : String) : Except (List Diagnostic) (List (Stmt Binding)) :=
  match parse source with
  | .error diagnostics => .error diagnostics
  | .ok statements =>
    match resolveProgram statements with
    | .ok program => .ok program
    | .error errors => .error (errors.map Diagnostic.scoping)

inductive Ending where
  | completed
  | refused (diagnostics : List Diagnostic)
  | stopped (diagnostic : Diagnostic)
  | exhausted

def Ending.ofStop : Stop → Ending
  | .error e => .stopped (.runtime e)
  | .output f => .stopped (.output f)
  | .exhausted => .exhausted

def Ending.diagnostics : Ending → List Diagnostic
  | .completed => []
  | .refused diagnostics => diagnostics
  | .stopped diagnostic => [diagnostic]
  | .exhausted => []

def Ending.summary? : Ending → Option String
  | .completed => none
  | .refused diagnostics => some (toString diagnostics.length ++ " error(s) before execution")
  | .stopped diagnostic => some diagnostic.text
  | .exhausted => none

def run (fuel : Nat) (source : String) (m : Machine) : Ending × Machine :=
  match compile source with
  | .error diagnostics => (.refused diagnostics, m)
  | .ok program =>
    match Evaluation.interpret fuel program m with
    | .ok () n => (.completed, n)
    | .error stop n => (.ofStop stop, n)

end Session
end ScriptLang
