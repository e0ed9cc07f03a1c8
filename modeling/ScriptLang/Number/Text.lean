import ScriptLang.Number.Shortest

namespace ScriptLang.Number

open Binary

def ofDigits (cs : List Char) : Nat :=
  cs.foldl (fun n c => 10 * n + (c.toNat - '0'.toNat)) 0

def ofNumeral (whole fraction : List Char) : Float :=
  ofPattern (nearest (ofDigits (whole ++ fraction)) (tenPow fraction.length))

structure Style where
  integralEnd : List Char
  /-- Whether the zero below zero keeps its sign. -/
  signedZero : Bool

/-- Values of running programs: `4`, `0`, `-2.5`. -/
def valueStyle : Style := ⟨[], false⟩

def tokenStyle : Style := ⟨['.', '0'], false⟩

def treeStyle : Style := ⟨['.', '0'], true⟩

def Decimal.positional (d : Decimal) (integralEnd : List Char) : List Char :=
  let whole := d.digits.take d.point.toNat
  let zeros := List.replicate (d.point.toNat - d.digits.length) '0'
  let fraction := List.replicate (-d.point).toNat '0' ++ d.digits.drop d.point.toNat
  (if d.point ≤ 0 then ['0'] else whole ++ zeros) ++
    (if d.digits.length ≤ d.point then integralEnd else '.' :: fraction)

def isIntegral (pattern : Nat) : Bool :=
  (Magnitude.ofPattern pattern).units % unitsPerOne = 0

def magnitudeText (style : Style) (pattern : Nat) : List Char :=
  if isIntegral pattern then
    digits ((Magnitude.ofPattern pattern).units / unitsPerOne) ++ style.integralEnd
  else
    (shortest .up pattern).positional style.integralEnd

def signText (negative : Bool) : List Char :=
  if negative then ['-'] else []

def chars (style : Style) (x : Float) : List Char :=
  match shape x with
  | .notANumber => "NaN".toList
  | .infinite negative => signText negative ++ "inf".toList
  | .finite negative pattern =>
    signText (negative && (pattern != 0 || style.signedZero)) ++ magnitudeText style pattern

def text (style : Style) (x : Float) : String :=
  String.ofList (chars style x)

def exponentText (e : Int) : List Char :=
  (if e < 0 then '-' else '+') :: digits e.natAbs

def Decimal.scientific (d : Decimal) : List Char :=
  d.digits.take 1 ++
    (if d.digits.length ≤ 1 then [] else '.' :: d.digits.drop 1) ++
    'e' :: exponentText (d.point - 1)

/-- The form of a number in JSON: positional for decimal exponents from -5 to 15, scientific
outside. What is not finite has no form of its own and is written `null`. -/
def jsonText (x : Float) : String :=
  match shape x with
  | .notANumber => "null"
  | .infinite _ => "null"
  | .finite negative pattern =>
    let d := shortest .even pattern
    let body :=
      if -5 ≤ d.point - 1 ∧ d.point - 1 < 16 then d.positional ['.', '0'] else d.scientific
    String.ofList (signText negative ++ body)

end ScriptLang.Number
