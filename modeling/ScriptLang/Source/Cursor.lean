import ScriptLang.Source.Item

namespace ScriptLang.Source

def utf8 (text : List Char) : List UInt8 :=
  text.flatMap String.utf8EncodeChar

def wordKind (word : List UInt8) : Kind :=
  ((Kind.reserved.find? fun entry => utf8 entry.1.toList = word).map Prod.snd).getD .identifier

def numeralValue (text : String) : Float :=
  Number.ofNumeral (text.toList.takeWhile (· ≠ '.')) ((text.toList.dropWhile (· ≠ '.')).drop 1)

inductive Trap where
  | index
  | boundary
  | stalled
deriving DecidableEq

structure Cursor where
  start : Nat
  /-- The next byte. One past the end says that the end has been given. -/
  position : Nat
  line : Nat
deriving DecidableEq

inductive Outcome where
  | lexeme (kind : Kind)
  | skipped
  | error (e : Error)

section Slices

variable (bytes : List UInt8)

def isBoundary (offset : Nat) : Bool :=
  offset = 0 ||
    match bytes[offset]? with
    | some b => b < 128 || 192 ≤ b
    | none => offset = bytes.length

def slice (first last : Nat) : Except Trap String :=
  if first ≤ last ∧ last ≤ bytes.length then
    if isBoundary bytes first && isBoundary bytes last then
      match String.fromUTF8? ((bytes.drop first).take (last - first)).toByteArray with
      | some text => .ok text
      | none => .error .boundary
    else .error .boundary
  else .error .index

end Slices

namespace Cursor

def initial : Cursor :=
  ⟨0, 0, 1⟩

def forward (c : Cursor) (count : Nat) : Cursor :=
  { c with position := c.position + count }

variable (bytes : List UInt8) (c : Cursor)

def ahead (distance : Nat) : Char :=
  Char.ofUInt8 (bytes[c.position + distance]?.getD 0)

def advance : Except Trap (Char × Cursor) :=
  match bytes[c.position]? with
  | some b => .ok (Char.ofUInt8 b, c.forward 1)
  | none => .error .index

def eat (expected : Char) : Bool × Cursor :=
  if c.position < bytes.length ∧ c.ahead bytes 0 = expected then (true, c.forward 1)
  else (false, c)

def step : Cursor :=
  { c.forward 1 with line := if c.ahead bytes 0 = '\n' then c.line + 1 else c.line }

def operator (short long : Kind) : Except Trap (Outcome × Cursor) :=
  match c.eat bytes '=' with
  | (true, c) => .ok (.lexeme long, c)
  | (false, c) => .ok (.lexeme short, c)

/-- Takes the bytes of a class that the zeros past the end do not belong to. -/
def skip (p : Char → Bool) (hp : p (Char.ofUInt8 0) = false) (c : Cursor) : Cursor :=
  if p (c.ahead bytes 0) then skip p hp (c.forward 1) else c
termination_by bytes.length - c.position
decreasing_by
  have h : p (c.ahead bytes 0) := by assumption
  have hlt : c.position < bytes.length := Nat.lt_of_not_le fun hend => by
    simp [ahead, List.getElem?_eq_none hend, hp] at h
  change bytes.length - (c.position + 1) < _
  omega

def toLineEnd : Except Trap Cursor :=
  if c.position ≤ bytes.length then
    .ok (c.forward ((bytes.drop c.position).idxOf '\n'.toUInt8))
  else .error .index

/-- Reads a comment until no opener is left open, or to the end. Each opener has its line and its
offset. -/
def comment (openers : List (Nat × Nat)) (c : Cursor) : List (Nat × Nat) × Cursor :=
  match openers with
  | [] => ([], c)
  | inner :: outer =>
    if c.position < bytes.length then
      if c.ahead bytes 0 = '*' ∧ c.ahead bytes 1 = '/' then comment outer (c.forward 2)
      else if c.ahead bytes 0 = '/' ∧ c.ahead bytes 1 = '*' then
        comment ((c.line, c.position) :: inner :: outer) (c.forward 2)
      else comment (inner :: outer) (c.step bytes)
    else (inner :: outer, c)
termination_by bytes.length - c.position
decreasing_by all_goals simp only [step, forward]; omega

def slash : Except Trap (Outcome × Cursor) :=
  match c.eat bytes '/' with
  | (true, c) =>
    match c.toLineEnd bytes with
    | .ok c => .ok (.skipped, c)
    | .error trap => .error trap
  | (false, c) =>
    match c.eat bytes '*' with
    | (true, c) =>
      match c.comment bytes [(c.line, c.start)] with
      | ([], c) => .ok (.skipped, c)
      | ((line, offset) :: _, c) => .ok (.error ⟨.unterminatedComment offset, line⟩, c)
    | (false, c) => .ok (.lexeme .slash, c)

def toQuote (c : Cursor) : Cursor :=
  if c.position < bytes.length ∧ c.ahead bytes 0 ≠ '"' then toQuote (c.step bytes) else c
termination_by bytes.length - c.position
decreasing_by simp only [step, forward]; omega

def string : Except Trap (Outcome × Cursor) :=
  match (c.toQuote bytes).eat bytes '"' with
  | (true, c) =>
    match slice bytes (c.start + 1) (c.position - 1) with
    | .ok value => .ok (.lexeme (.string value), c)
    | .error trap => .error trap
  | (false, c) => .ok (.error ⟨.unterminatedString, c.line⟩, c)

def fraction : Cursor :=
  if c.ahead bytes 0 = '.' ∧ isDigit (c.ahead bytes 1) then
    skip bytes isDigit (by decide) (c.forward 1)
  else c

def number : Except Trap (Outcome × Cursor) :=
  let c := (skip bytes isDigit (by decide) c).fraction bytes
  match slice bytes c.start c.position with
  | .ok text => .ok (.lexeme (.number (numeralValue text)), c)
  | .error trap => .error trap

def name : Except Trap (Outcome × Cursor) :=
  let c := skip bytes continuesName (by decide) c
  if c.start ≤ c.position ∧ c.position ≤ bytes.length then
    .ok (.lexeme (wordKind ((bytes.drop c.start).take (c.position - c.start))), c)
  else .error .index

/-- A character that starts no lexeme is skipped as a whole. -/
def unexpected : Except Trap (Outcome × Cursor) :=
  match slice bytes c.start bytes.length with
  | .ok text =>
    let found := text.toList.head?.getD '\uFFFD'
    .ok (.error ⟨.unexpected found, c.line⟩, { c with position := c.start + found.utf8Size })
  | .error trap => .error trap

def dispatch (first : Char) : Except Trap (Outcome × Cursor) :=
  match first with
  | '(' => .ok (.lexeme .leftParen, c)
  | ')' => .ok (.lexeme .rightParen, c)
  | '{' => .ok (.lexeme .leftBrace, c)
  | '}' => .ok (.lexeme .rightBrace, c)
  | ',' => .ok (.lexeme .comma, c)
  | '.' => .ok (.lexeme .dot, c)
  | '-' => .ok (.lexeme .minus, c)
  | '+' => .ok (.lexeme .plus, c)
  | ';' => .ok (.lexeme .semicolon, c)
  | '*' => .ok (.lexeme .star, c)
  | '!' => c.operator bytes .bang .bangEqual
  | '=' => c.operator bytes .equal .equalEqual
  | '<' => c.operator bytes .less .lessEqual
  | '>' => c.operator bytes .greater .greaterEqual
  | ' ' => .ok (.skipped, c)
  | '\r' => .ok (.skipped, c)
  | '\t' => .ok (.skipped, c)
  | '\n' => .ok (.skipped, { c with line := c.line + 1 })
  | '/' => c.slash bytes
  | '"' => c.string bytes
  | _ =>
    if isDigit first then c.number bytes
    else if startsName first then c.name bytes
    else c.unexpected bytes

def round : Except Trap (Option Item × Cursor) :=
  match { c with start := c.position }.advance bytes with
  | .error trap => .error trap
  | .ok (first, c) =>
    match c.dispatch bytes first with
    | .error trap => .error trap
    | .ok (.skipped, c) => .ok (none, c)
    | .ok (.error e, c) => .ok (some (.error e), c)
    | .ok (.lexeme kind, c) =>
      match slice bytes c.start c.position with
      | .ok text => .ok (some (.token ⟨kind, text, c.line⟩), c)
      | .error trap => .error trap

/-- The next item: pieces without one are passed over, the end is given once, and then nothing. -/
def next (c : Cursor) : Except Trap (Option Item × Cursor) :=
  if bytes.length < c.position then .ok (none, c)
  else if c.position = bytes.length then
    .ok (some (.token ⟨.endOfFile, "", c.line⟩), c.forward 1)
  else
    match c.round bytes with
    | .error trap => .error trap
    | .ok (some item, c') => .ok (some item, c')
    | .ok (none, c') => if c.position < c'.position then next c' else .error .stalled
termination_by bytes.length - c.position

end Cursor
end ScriptLang.Source
