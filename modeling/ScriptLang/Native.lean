import ScriptLang.Syntax.Printer

namespace ScriptLang

inductive Argument where
  | plain (value : Literal)
  | function (id : Nat) (text : String)
deriving DecidableEq

inductive Answer (ν : Type) where
  | plain (value : Literal)
  | argument (index : Nat)
  | native (n : ν)

structure Reply (ν : Type) where
  result : Except String (Answer ν)
  defines : List ν

structure Native where
  name : String
  arity : Nat
  run : (number : Nat) → List Argument → Reply Native

def Literal.valueText : Literal → String
  | .nil => "nil"
  | .boolean true => "true"
  | .boolean false => "false"
  | .number x => Number.text Number.valueStyle x
  | .string s => s

def Literal.typeName : Literal → String
  | .nil => "nil"
  | .boolean _ => "boolean"
  | .number _ => "number"
  | .string _ => "string"

def Literal.holds : Literal → Bool
  | .nil => false
  | .boolean b => b
  | _ => true

/-- Equality of plain values: never across types, and of numbers as numbers. -/
def Literal.same : Literal → Literal → Bool
  | .nil, .nil => true
  | .boolean a, .boolean b => a = b
  | .number a, .number b => a == b
  | .string a, .string b => a = b
  | _, _ => false

namespace Argument

def text : Argument → String
  | .plain value => value.valueText
  | .function _ text => text

def typeName : Argument → String
  | .plain value => value.typeName
  | .function _ _ => "function"

def holds : Argument → Bool
  | .plain value => value.holds
  | .function _ _ => true

/-- Functions are the same only as the same object. -/
def same : Argument → Argument → Bool
  | .plain a, .plain b => a.same b
  | .function a _, .function b _ => a = b
  | _, _ => false

end Argument

namespace Native

def simple (name : String) (arity : Nat) (run : List Argument → Except String Literal) : Native :=
  ⟨name, arity, fun _ arguments => ⟨(run arguments).map .plain, []⟩⟩

def constant (name : String) (value : Literal) : Native :=
  simple name 0 fun _ => .ok value

def clock (seconds : Float) : Native :=
  constant "clock" (.number seconds)

def add : Native :=
  simple "add" 2 fun
    | [.plain (.number a), .plain (.number b)] => .ok (.number (a + b))
    | _ => .error "add expects numbers."

def same : Native :=
  simple "same" 2 fun
    | [a, b] => .ok (.boolean (a.same b))
    | _ => .ok (.boolean false)

def ofOne (name : String) (f : Argument → Except String Literal) : Native :=
  simple name 1 fun arguments => f (arguments.headD (.plain .nil))

def str : Native := ofOne "str" fun a => .ok (.string a.text)

def type : Native := ofOne "type" fun a => .ok (.string a.typeName)

def truthy : Native := ofOne "truthy" fun a => .ok (.boolean a.holds)

def fail : Native := ofOne "fail" fun a => .error a.text

def install : Native :=
  ⟨"install", 0, fun _ _ => ⟨.ok (.plain .nil), [constant "late" (.boolean true)]⟩⟩

def named (name : String) : Native :=
  match name with
  | "add" => add
  | "same" => same
  | "str" => str
  | "type" => type
  | "truthy" => truthy
  | "fail" => fail
  | "clock" => clock 1234.5
  | "install" => install
  | _ => constant name (.boolean true)

end Native
end ScriptLang
