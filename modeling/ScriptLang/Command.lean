import ScriptLang.Session.Interactive
import ScriptLang.Syntax.Printer
import ScriptLang.Text.Quoted
import ScriptLang.Token.Json

namespace ScriptLang

inductive Request where
  | tokenize (file : String) (json : Bool)
  | parse (file : String)
  | run (file : String)
  | interact
  | version
  | help
deriving DecidableEq, Repr

namespace Request

inductive Verb where
  | tokenize
  | parse
  | run
  | interact
deriving DecidableEq, Repr

def Verb.ofName? : String → Option Verb
  | "tokenize" => some .tokenize
  | "parse" => some .parse
  | "run" => some .run
  | "repl" => some .interact
  | _ => none

structure Draft where
  verb : Verb
  file : Option String
  json : Bool
  log : Bool

def Draft.withFile? (d : Draft) (name : String) : Option Draft :=
  if d.verb = .interact ∨ d.file.isSome ∨ name = "" then none
  else some { d with file := some name }

def Draft.request? (d : Draft) : Option Request :=
  match d.verb, d.file with
  | .tokenize, some file => some (.tokenize file d.json)
  | .parse, some file => some (.parse file)
  | .run, some file => some (.run file)
  | .interact, none => some .interact
  | _, _ => none

def readFiles (d : Draft) : List String → Option Request
  | [] => d.request?
  | name :: rest =>
    match d.withFile? name with
    | some e => readFiles e rest
    | none => none

def optionLetter? (argument : String) : Option Char :=
  match argument.toList with
  | '-' :: '-' :: _ => none
  | '-' :: letter :: _ => some letter
  | _ => none

def isLongOption (argument : String) : Bool :=
  argument.startsWith "--"

/-- Reads the arguments of a command. An option is given at most once, and help ends the reading. -/
def readCommand (d : Draft) : List String → Option Request
  | [] => d.request?
  | "--" :: rest => readFiles d rest
  | "--help" :: _ => some .help
  | "--log" :: rest => if d.log then none else readCommand { d with log := true } rest
  | "--json" :: rest =>
    if d.verb ≠ .tokenize ∨ d.json then none else readCommand { d with json := true } rest
  | argument :: rest =>
    match optionLetter? argument with
    | some letter => if letter = 'h' then some .help else none
    | none =>
      if isLongOption argument then none
      else
        match d.withFile? argument with
        | some e => readCommand e rest
        | none => none

def hasHelp : List String → Bool
  | [] => true
  | [name] => name = "help" || (Verb.ofName? name).isSome
  | _ => false

/-- Reads a command line; `log` tells whether logging was asked for before. The first option that
asks for the version or for help ends the reading. -/
def read (log : Bool) : List String → Option Request
  | [] => none
  | "--version" :: _ => some .version
  | "--help" :: _ => some .help
  | "help" :: names => if hasHelp names then some .help else none
  | "--log" :: rest => if log then none else read true rest
  | argument :: rest =>
    match optionLetter? argument with
    | some letter =>
      if letter = 'V' then some .version
      else if letter = 'h' then some .help
      else none
    | none =>
      match Verb.ofName? argument with
      | some verb => readCommand ⟨verb, none, false, false⟩ rest
      | none => none

def ofArguments? (arguments : List String) : Option Request :=
  read false arguments

def file? : Request → Option String
  | .tokenize file _ => some file
  | .parse file => some file
  | .run file => some file
  | _ => none

end Request

inductive FileFault where
  | missing
  | denied
  | notDirectory
  | directory
  | nameTooLong
  | other (text : String)
deriving DecidableEq, Repr

def FileFault.message : FileFault → String
  | .missing => "No such file or directory (os error 2)"
  | .denied => "Permission denied (os error 13)"
  | .notDirectory => "Not a directory (os error 20)"
  | .directory => "Is a directory (os error 21)"
  | .nameTooLong => "File name too long (os error 36)"
  | .other text => text

inductive Contents where
  | bytes (all : List UInt8)
  | unopened (fault : FileFault)
  | unreadable (fault : FileFault)
deriving DecidableEq, Repr

def Contents.read : Contents → List UInt8
  | .bytes all => all
  | _ => []

structure Response where
  exitCode : Nat
  out : String
  err : String
deriving DecidableEq, Repr

namespace Response

def usageError : Nat := 64
def staticError : Nat := 65
def runtimeError : Nat := 70
def inputError : Nat := 1

end Response

namespace Command

def version : String := "aq 0.1.0\n"

def usage : String := "Usage: aq [--log] <tokenize [--json] | parse | run> FILE\n       aq repl\n"

def unlines (texts : List String) : String :=
  String.join (texts.map (· ++ "\n"))

def lexicalText (errors : List Source.Error) : String :=
  unlines (errors.map fun e => (Diagnostic.lexical e).text)

/-- The exit code where only lexical errors can have gone wrong. -/
def lexicalExit (errors : List Source.Error) : Nat :=
  if errors.isEmpty then 0 else Response.staticError

def tokenize (json : Bool) (source : String) : Response :=
  let errors := Source.errors source
  let tokens := Source.tokens source ++ [Source.eof source]
  let out :=
    if json then Token.Json.listing tokens ++ "\n" else unlines (tokens.map Token.text)
  ⟨lexicalExit errors, out, lexicalText errors⟩

def parse (source : String) : Response :=
  let errors := Source.errors source
  let input := Syntax.Input.ofSource source
  match Syntax.parseProgram input with
  | .ok statements =>
    ⟨lexicalExit errors, unlines (statements.map Stmt.text), lexicalText errors⟩
  | .error faults =>
    match Syntax.parseExpression input with
    | .ok e => ⟨lexicalExit errors, unlines [e.text], lexicalText errors⟩
    | .error _ =>
      ⟨Response.staticError, "",
        lexicalText errors ++ unlines (faults.map fun e => (Diagnostic.syntactic e).text)⟩

def exitOf : Session.Ending → Nat
  | .completed => 0
  | .refused _ => Response.staticError
  | .stopped _ => Response.runtimeError
  | .exhausted => Response.runtimeError

def run (fuel : Nat) (machine : Machine) (source : String) : Response :=
  let result := Session.run fuel source machine
  ⟨exitOf result.1, textOfBytes result.2.sink.written,
    unlines (result.1.diagnostics.map Diagnostic.text)⟩

/-- Prompts and printed text go to one channel, in the order they were written. -/
def interact (fuel : Nat) (machine : Machine) (input : List UInt8) : Response :=
  let result := Session.interact fuel (Session.lines input) machine
  let out := Session.channel (fun e => e.promptText ++ e.printedText) result.1
  let err := Session.channel Session.Event.reportedText result.1
  match result.2 with
  | .endOfInput => ⟨0, out, err⟩
  | .notText =>
    ⟨Response.inputError, out, err ++ "Error: " ++ Session.notTextMessage ++ "\n"⟩
  | .exhausted => ⟨Response.runtimeError, out, err⟩

def fileError (action file cause : String) : Response :=
  ⟨Response.inputError, "",
    "Error: Failed to " ++ action ++ " file " ++ Text.quoted file ++
      "\n\nCaused by:\n    " ++ cause ++ "\n"⟩

def onFile (file : String) (contents : Contents) (f : String → Response) : Response :=
  match contents with
  | .unopened fault => fileError "open" file fault.message
  | .unreadable fault => fileError "read" file fault.message
  | .bytes bytes =>
    match Session.decode? bytes with
    | none => fileError "read" file Session.notTextMessage
    | some source => f source

def respond (fuel : Nat) (machine : Machine) (contents : Contents) : Request → Response
  | .tokenize file json => onFile file contents (tokenize json)
  | .parse file => onFile file contents parse
  | .run file => onFile file contents (run fuel machine)
  | .interact => interact fuel machine contents.read
  | .version => ⟨0, version, ""⟩
  | .help => ⟨0, usage, ""⟩

end Command
end ScriptLang
