import ScriptLang.Machine.Sink
import ScriptLang.Store
import ScriptLang.Value

namespace ScriptLang

inductive RuntimeFault where
  | undefinedVariable (name : String)
  | operandNotNumber (v : Value)
  | operandsNotNumbers (v : Value)
  | expectedString (v : Value)
  | expectedNumber (v : Value)
  | notAddable (v : Value)
  | invalidUnaryOperator
  | invalidBinaryOperator
  | notCallable (v : Value)
  | wrongArity (expected got : Nat)
  | stackOverflow
  | refused (message : String)

def RuntimeFault.message : RuntimeFault → String
  | .undefinedVariable name => "Undefined variable '" ++ name ++ "'."
  | .operandNotNumber v => "Operand must be a number, got " ++ v.described ++ "."
  | .operandsNotNumbers v => "Operands must be numbers, got " ++ v.described ++ "."
  | .expectedString v => "Expected a string, got " ++ v.described ++ "."
  | .expectedNumber v => "Expected a number, got " ++ v.described ++ "."
  | .notAddable v =>
    "Operands must be two numbers or two strings, got " ++ v.described ++ "."
  | .invalidUnaryOperator => "Invalid unary operator."
  | .invalidBinaryOperator => "Invalid binary operator."
  | .notCallable v => "Can only call functions, got " ++ v.described ++ "."
  | .wrongArity expected got =>
    "Expected " ++ toString expected ++ " arguments but got " ++ toString got ++ "."
  | .stackOverflow => "Stack overflow."
  | .refused message => message

structure RuntimeError where
  fault : RuntimeFault
  line : Nat

/-- The ends of a run that did not finish. Running out of fuel says nothing about the program. -/
inductive Stop where
  | error (e : RuntimeError)
  | output (f : OutputFault)
  | exhausted

inductive Flow where
  | normal
  | broken
  | returned (v : Value)

structure Machine where
  store : Store Value
  globals : Nat
  /-- The frame of the innermost open scope. -/
  current : Nat
  /-- How many calls of functions of the program are active. -/
  depth : Nat
  /-- The number of the next function object, or of the next call of a native. -/
  nextId : Nat
  sink : Sink

abbrev Run := EStateM Stop Machine

namespace Machine

def maxDepth : Nat := 1024

/-- A native becomes a global. Each definition makes a new object. -/
def defineNative (m : Machine) (n : Native) : Machine :=
  { m with
    store := m.store.define m.globals n.name (.native m.nextId n)
    nextId := m.nextId + 1 }

def numbered (m : Machine) : Machine :=
  { m with nextId := m.nextId + 1 }

def heed (m : Machine) (defines : List Native) : Machine :=
  defines.foldl defineNative m.numbered

def start (natives : List Native) (sink : Sink) : Machine :=
  natives.foldl defineNative ⟨Store.empty.push none, 0, 0, 0, 0, sink⟩

def frameOf? (m : Machine) : Binding → Option Nat
  | .global => some m.globals
  | .hops distance => m.store.ancestor? m.current distance

/-- Changes the store by an operation and gives its answer. The machine is taken apart first, so
that the operation has the only reference to the store. -/
@[inline] def onStore {β : Type} (m : Machine) (f : Store Value → β × Store Value) : β × Machine :=
  match m with
  | ⟨store, globals, current, depth, nextId, sink⟩ =>
    let r := f store
    (r.1, ⟨r.2, globals, current, depth, nextId, sink⟩)

def reset (m : Machine) : Machine :=
  { m with current := m.globals, depth := 0 }

end Machine
end ScriptLang
