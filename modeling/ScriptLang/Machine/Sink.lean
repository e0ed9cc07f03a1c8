namespace ScriptLang

inductive OutputFault where
  | sinkFull
  | flushFailed
deriving DecidableEq, Repr

def OutputFault.message : OutputFault → String
  | .sinkFull => "sink full"
  | .flushFailed => "flush failed"

structure Sink where
  written : ByteArray
  /-- How many bytes it still takes; no number if it takes all. -/
  room : Option Nat
  flushFails : Bool

namespace Sink

def unlimited : Sink := ⟨.empty, none, false⟩

def accepted (s : Sink) (bytes : ByteArray) : ByteArray :=
  match s.room with
  | none => bytes
  | some n => bytes.extract 0 n

def write (s : Sink) (bytes : ByteArray) : Sink :=
  { s with
    written := s.written ++ s.accepted bytes
    room := s.room.map (· - bytes.size) }

def fits (s : Sink) (bytes : ByteArray) : Bool :=
  s.room.all (bytes.size ≤ ·)

/-- The sink after what was written is taken away. Room does not come back. -/
def drained (s : Sink) : Sink :=
  { s with written := .empty }

end Sink

def validLength (bytes : ByteArray) : (n : Nat) → Nat
  | 0 => 0
  | n + 1 =>
    if (String.fromUTF8? (bytes.extract 0 (n + 1))).isSome then n + 1 else validLength bytes n

/-- Bytes as text. Text that was cut inside a character ends in a replacement character. -/
def textOfBytes (bytes : ByteArray) : String :=
  match String.fromUTF8? bytes with
  | some s => s
  | none =>
    (String.fromUTF8? (bytes.extract 0 (validLength bytes bytes.size))).getD "" ++ "\ufffd"

end ScriptLang
