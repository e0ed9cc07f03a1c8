import ScriptLang.Machine
import ScriptLang.Source.Item
import ScriptLang.Syntax.Fault

namespace ScriptLang

inductive Diagnostic where
  | lexical (e : Source.Error)
  | syntactic (e : Syntax.Error)
  | scoping (e : Scope.Error)
  | runtime (e : RuntimeError)
  | output (f : OutputFault)

def Token.location (t : Token) : String :=
  if t.kind = .endOfFile then " at end" else " at '" ++ t.lexeme ++ "'"

namespace Diagnostic

def message : Diagnostic → String
  | .lexical e => e.fault.message
  | .syntactic e => e.fault.message
  | .scoping e => e.fault.message
  | .runtime e => e.fault.message
  | .output f => f.message

def line? : Diagnostic → Option Nat
  | .lexical e => some e.line
  | .syntactic e => some e.token.line
  | .scoping e => some e.token.line
  | .runtime e => some e.line
  | .output _ => none

def location? : Diagnostic → Option String
  | .syntactic e => some e.token.location
  | .scoping e => some e.token.location
  | _ => none

/-- Static errors start with their line; a runtime error ends with it. -/
def text : Diagnostic → String
  | .lexical e => "[line " ++ toString e.line ++ "] Error: " ++ e.fault.message
  | .syntactic e =>
    "[line " ++ toString e.token.line ++ "] Error" ++ e.token.location ++ ": " ++ e.fault.message
  | .scoping e =>
    "[line " ++ toString e.token.line ++ "] Error" ++ e.token.location ++ ": " ++ e.fault.message
  | .runtime e => e.fault.message ++ "\n[line " ++ toString e.line ++ "]"
  | .output f => f.message

end Diagnostic
end ScriptLang
