import ScriptLang.Machine

namespace ScriptLang.Operator

def unary (operator : Kind) (v : Value) : Except RuntimeFault Value :=
  match operator with
  | .minus =>
    match v with
    | .number x => .ok (.number (-x))
    | v => .error (.operandNotNumber v)
  | .bang => .ok (.boolean (!v.holds))
  | _ => .error .invalidUnaryOperator

/-- Sums of numbers and of strings; the fault names the operand that does not fit the left one. -/
def add (left right : Value) : Except RuntimeFault Value :=
  match left, right with
  | .number x, .number y => .ok (.number (x + y))
  | .string s, .string t => .ok (.string (s ++ t))
  | .string _, v => .error (.expectedString v)
  | .number _, v => .error (.expectedNumber v)
  | v, _ => .error (.notAddable v)

def onNumbers (f : Float → Float → Value) (left right : Value) : Except RuntimeFault Value :=
  match left, right with
  | .number x, .number y => .ok (f x y)
  | .number _, v => .error (.operandsNotNumbers v)
  | v, _ => .error (.operandsNotNumbers v)

def binary (operator : Kind) (left right : Value) : Except RuntimeFault Value :=
  match operator with
  | .plus => add left right
  | .minus => onNumbers (fun x y => .number (x - y)) left right
  | .star => onNumbers (fun x y => .number (x * y)) left right
  | .slash => onNumbers (fun x y => .number (x / y)) left right
  | .less => onNumbers (fun x y => .boolean (x < y)) left right
  | .lessEqual => onNumbers (fun x y => .boolean (x ≤ y)) left right
  | .greater => onNumbers (fun x y => .boolean (y < x)) left right
  | .greaterEqual => onNumbers (fun x y => .boolean (y ≤ x)) left right
  | .equalEqual => .ok (.boolean (left.same right))
  | .bangEqual => .ok (.boolean (!left.same right))
  | _ => .error .invalidBinaryOperator

/-- Whether the left side alone decides a logical operator: for `or` if it holds, else if it does
not. -/
def decides (operator : Kind) (left : Value) : Bool :=
  if operator = .orWord then left.holds else !left.holds

end ScriptLang.Operator
