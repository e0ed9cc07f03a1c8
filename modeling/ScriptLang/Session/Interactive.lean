import ScriptLang.Session

namespace ScriptLang.Session

inductive Event where
  | prompt (text : String)
  | printed (bytes : ByteArray)
  | reported (diagnostic : Diagnostic)

inductive LoopEnd where
  | endOfInput
  | notText
  | exhausted
deriving DecidableEq

/-- A line without the carriage return at its end. The line is given from its last byte to its
first. -/
def withoutReturn : List UInt8 → List UInt8
  | 13 :: line => line
  | line => line

/-- Lines end at a line feed, and a carriage return before it belongs to the end. The last line may
lack its end; `line` holds its bytes so far, the last one first. -/
def linesFrom (line : List UInt8) : List UInt8 → List (List UInt8)
  | [] => if line.isEmpty then [] else [line.reverse]
  | 10 :: rest => (withoutReturn line).reverse :: linesFrom [] rest
  | b :: rest => linesFrom (b :: line) rest

def lines (input : List UInt8) : List (List UInt8) :=
  linesFrom [] input

def decode? (line : List UInt8) : Option String :=
  String.fromUTF8? ⟨line.toArray⟩

def eventsOf (ending : Ending) (m : Machine) : List Event :=
  .printed m.sink.written :: ending.diagnostics.map Event.reported

/-- Runs one line. What it printed is taken out of the machine. -/
def turn (fuel : Nat) (line : List UInt8) (m : Machine) : Except LoopEnd (List Event × Machine) :=
  match decode? line with
  | none => .error .notText
  | some source =>
    match run fuel source m with
    | (.exhausted, _) => .error .exhausted
    | (ending, n) => .ok (eventsOf ending n, { n with sink := n.sink.drained })

def interact (fuel : Nat) : List (List UInt8) → Machine → List Event × LoopEnd
  | [], _ => ([.prompt "> ", .prompt "\n"], .endOfInput)
  | line :: rest, m =>
    match turn fuel line m with
    | .error loopEnd => ([.prompt "> "], loopEnd)
    | .ok (events, n) =>
      let others := interact fuel rest n
      (.prompt "> " :: events ++ others.1, others.2)

def channel (f : Event → String) (events : List Event) : String :=
  String.join (events.map f)

def Event.promptText : Event → String
  | .prompt text => text
  | _ => ""

def Event.printedText : Event → String
  | .printed bytes => textOfBytes bytes
  | _ => ""

def Event.reportedText : Event → String
  | .reported diagnostic => diagnostic.text ++ "\n"
  | _ => ""

def notTextMessage : String := "stream did not contain valid UTF-8"

end ScriptLang.Session
