import ScriptLang.Source.Comment
import ScriptLang.Token

namespace ScriptLang.Source

def isBlank (c : Char) : Bool :=
  c = ' ' || c = '\t' || c = '\r' || c = '\n'

def isDigit (c : Char) : Bool :=
  '0' ≤ c && c ≤ '9'

def startsName (c : Char) : Bool :=
  ('a' ≤ c && c ≤ 'z') || ('A' ≤ c && c ≤ 'Z') || c = '_'

def continuesName (c : Char) : Bool :=
  startsName c || isDigit c

inductive Form where
  | blank
  | lineComment
  | blockComment
  | lexeme (kind : Kind)
  | stray
  | openString
  /-- A comment without an end, the innermost open one starting after `opener` characters. -/
  | openComment (opener : Nat)
deriving DecidableEq

abbrev Cut := Form × Nat

def cutOperator (short long : Kind) : List Char → Cut
  | '=' :: _ => (.lexeme long, 1)
  | _ => (.lexeme short, 0)

/-- A slash is an operator or opens a comment. A line comment ends before the line does. -/
def cutSlash : List Char → Cut
  | '/' :: rest => (.lineComment, (rest.takeWhile (· ≠ '\n')).length + 1)
  | '*' :: rest =>
    match Comment.extent rest with
    | .closed length => (.blockComment, length - 1)
    | .unclosed opener => (.openComment opener, rest.length + 1)
  | _ => (.lexeme .slash, 0)

def cutString (rest : List Char) : Cut :=
  let body := rest.takeWhile (· ≠ '"')
  if body.length < rest.length then (.lexeme (.string (String.ofList body)), body.length + 1)
  else (.openString, rest.length)

/-- The digits after a decimal point; without a digit the point is no part of a number. -/
def fractionDigits : List Char → List Char
  | '.' :: rest => rest.takeWhile isDigit
  | _ => []

def cutNumber (first : Char) (rest : List Char) : Cut :=
  let whole := rest.takeWhile isDigit
  let fraction := fractionDigits (rest.drop whole.length)
  let point := if fraction.isEmpty then 0 else 1
  (.lexeme (.number (Number.ofNumeral (first :: whole) fraction)),
    whole.length + point + fraction.length)

def cutName (first : Char) (rest : List Char) : Cut :=
  let others := rest.takeWhile continuesName
  (.lexeme (Kind.ofWord (first :: others)), others.length)

def cut (first : Char) (rest : List Char) : Cut :=
  match first with
  | '(' => (.lexeme .leftParen, 0)
  | ')' => (.lexeme .rightParen, 0)
  | '{' => (.lexeme .leftBrace, 0)
  | '}' => (.lexeme .rightBrace, 0)
  | ',' => (.lexeme .comma, 0)
  | '.' => (.lexeme .dot, 0)
  | '-' => (.lexeme .minus, 0)
  | '+' => (.lexeme .plus, 0)
  | ';' => (.lexeme .semicolon, 0)
  | '*' => (.lexeme .star, 0)
  | '!' => cutOperator .bang .bangEqual rest
  | '=' => cutOperator .equal .equalEqual rest
  | '<' => cutOperator .less .lessEqual rest
  | '>' => cutOperator .greater .greaterEqual rest
  | '/' => cutSlash rest
  | '"' => cutString rest
  | _ =>
    if isBlank first then (.blank, 0)
    else if isDigit first then cutNumber first rest
    else if startsName first then cutName first rest
    else (.stray, 0)

structure Piece where
  form : Form
  text : List Char
deriving DecidableEq

def pieces : List Char → List Piece
  | [] => []
  | first :: rest =>
    let (form, count) := cut first rest
    ⟨form, first :: rest.take count⟩ :: pieces (rest.drop count)
termination_by source => source.length
decreasing_by simp only [List.length_drop, List.length_cons]; omega

theorem text_pieces (source : List Char) : (pieces source).flatMap Piece.text = source := by
  fun_induction pieces source with
  | case1 => rfl
  | case2 first rest form count _ ih => simp [ih]

end ScriptLang.Source
