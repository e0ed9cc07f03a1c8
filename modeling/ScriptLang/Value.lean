import ScriptLang.Native
import ScriptLang.Scope

namespace ScriptLang

/-- A function of the program with the frame it was made in. Each evaluation of its text makes a new
object, told from all others by its number. -/
structure Closure where
  id : Nat
  name : String
  params : List Token
  body : List (Stmt Binding)
  frame : Nat

inductive Value where
  | nil
  | boolean (b : Bool)
  | number (x : Float)
  | string (s : String)
  | closure (c : Closure)
  | native (id : Nat) (n : Native)

namespace Value

def ofLiteral : Literal → Value
  | .nil => .nil
  | .boolean b => .boolean b
  | .number x => .number x
  | .string s => .string s

def ofAnswer (number : Nat) (arguments : List Value) : Answer Native → Value
  | .plain value => .ofLiteral value
  | .argument index => arguments[index]?.getD .nil
  | .native n => .native number n

/-- A function of the program is answered with only if it was an argument. -/
theorem ofAnswer_cases (number : Nat) (arguments : List Value) (answer : Answer Native) :
    ofAnswer number arguments answer ∈ arguments ∨
      ∀ c, ofAnswer number arguments answer ≠ .closure c := by
  cases answer with
  | plain value =>
    refine .inr fun c => ?_
    cases value <;> nofun
  | native n => exact .inr fun c => nofun
  | argument index =>
    cases h : arguments[index]? with
    | none =>
      simp only [ofAnswer, h]
      exact .inr fun c => nofun
    | some v =>
      simp only [ofAnswer, h]
      exact .inl (List.mem_of_getElem? h)

def toArgument : Value → Argument
  | .nil => .plain .nil
  | .boolean b => .plain (.boolean b)
  | .number x => .plain (.number x)
  | .string s => .plain (.string s)
  | .closure c => .function c.id ("<fun " ++ c.name ++ "/" ++ toString c.params.length ++ ">")
  | .native id n => .function id ("<native fn " ++ n.name ++ ">")

def text (v : Value) : String := v.toArgument.text

def typeName (v : Value) : String := v.toArgument.typeName

def holds (v : Value) : Bool := v.toArgument.holds

/-- Equality of values: never across types, of numbers as numbers, of functions as objects. -/
def same (v w : Value) : Bool := v.toArgument.same w.toArgument

def described : Value → String
  | .nil => "nil"
  | .string s => "string \"" ++ s ++ "\""
  | v => v.typeName ++ " " ++ v.text

end Value
end ScriptLang
