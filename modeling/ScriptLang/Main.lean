import ScriptLang.Command
import Std.Time.DateTime.Timestamp

namespace ScriptLang.Main

/-- More steps than any run can take. -/
def fuel : Nat := 1000000000000000000

def faultOf : IO.Error → FileFault
  | .noFileOrDirectory .. => .missing
  | .permissionDenied .. => .denied
  | .inappropriateType _ 21 _ => .directory
  | .inappropriateType .. => .notDirectory
  | e => .other (toString e)

def readAll (handle : IO.FS.Handle) : IO Contents := do
  try
    let bytes ← handle.readBinToEnd
    pure (.bytes bytes.toList)
  catch e =>
    pure (.unreadable (faultOf e))

def readFile (file : String) : IO Contents := do
  try
    let handle ← IO.FS.Handle.mk file .read
    readAll handle
  catch e =>
    pure (.unopened (faultOf e))

partial def readLine (input : IO.FS.Stream) (line : ByteArray) : IO ByteArray := do
  let bytes ← input.read 1
  if bytes.isEmpty then pure line
  else if bytes.data.contains 10 then pure (line ++ bytes)
  else readLine input (line ++ bytes)

def showEvent (out err : IO.FS.Stream) : Session.Event → IO Unit
  | .prompt text => out.putStr text
  | .printed bytes => out.write bytes
  | .reported diagnostic => err.putStr (diagnostic.text ++ "\n")

partial def interact (machine : Machine) : IO UInt32 := do
  let input ← IO.getStdin
  let out ← IO.getStdout
  let err ← IO.getStderr
  out.putStr "> "
  out.flush
  let bytes ← readLine input ByteArray.empty
  if bytes.isEmpty then
    out.putStr "\n"
    pure 0
  else
    match Session.turn fuel ((Session.lines bytes.toList).headD []) machine with
    | .error _ =>
      err.putStr ("Error: " ++ Session.notTextMessage ++ "\n")
      pure 1
    | .ok (events, rest) =>
      events.forM (showEvent out err)
      interact rest

def answer (machine : Machine) (request : Request) : IO UInt32 := do
  let contents ←
    match request.file? with
    | some file => readFile file
    | none => pure (.bytes [])
  let response := Command.respond fuel machine contents request
  (← IO.getStdout).putStr response.out
  (← IO.getStderr).putStr response.err
  pure response.exitCode.toUInt32

end ScriptLang.Main

open ScriptLang in
def main (arguments : List String) : IO UInt32 := do
  let now ← Std.Time.Timestamp.now
  let seconds := Float.ofInt now.toSecondsSinceUnixEpoch.val
  let machine := Machine.start [Native.clock seconds] Sink.unlimited
  match Request.ofArguments? arguments with
  | some .interact => Main.interact machine
  | some request => Main.answer machine request
  | none =>
    (← IO.getStderr).putStr Command.usage
    pure Response.usageError.toUInt32
