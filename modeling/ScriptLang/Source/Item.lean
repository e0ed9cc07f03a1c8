import ScriptLang.Source.Piece

namespace ScriptLang.Source

inductive Fault where
  | unexpected (c : Char)
  | unterminatedString
  /-- The offset of the innermost open comment counts bytes. -/
  | unterminatedComment (offset : Nat)
deriving DecidableEq

def Fault.message : Fault → String
  | .unexpected c => "Unexpected character: " ++ String.singleton c
  | .unterminatedString => "Unterminated string."
  | .unterminatedComment offset =>
    "Unterminated block comment opened at offset " ++ toString offset ++ "."

structure Error where
  fault : Fault
  line : Nat
deriving DecidableEq

inductive Item where
  | token (t : Token)
  | error (e : Error)
deriving DecidableEq

def newlines (text : List Char) : Nat :=
  text.count '\n'

def byteSize (text : List Char) : Nat :=
  text.foldr (fun c n => c.utf8Size + n) 0

/-- What a piece contributes when it starts on `line` after `offset` bytes. A lexeme is on the
line it ends on; an open comment is reported where its innermost opener stands. -/
def Piece.item? (p : Piece) (line offset : Nat) : Option Item :=
  match p.form with
  | .blank => none
  | .lineComment => none
  | .blockComment => none
  | .lexeme kind => some (.token ⟨kind, String.ofList p.text, line + newlines p.text⟩)
  | .stray => p.text.head?.map fun c => .error ⟨.unexpected c, line⟩
  | .openString => some (.error ⟨.unterminatedString, line + newlines p.text⟩)
  | .openComment opener =>
    let before := p.text.take opener
    some (.error ⟨.unterminatedComment (offset + byteSize before), line + newlines before⟩)

def itemsFrom (line offset : Nat) : List Piece → List Item
  | [] => []
  | p :: ps =>
    (p.item? line offset).toList ++
      itemsFrom (line + newlines p.text) (offset + byteSize p.text) ps

def items (source : String) : List Item :=
  itemsFrom 1 0 (pieces source.toList)

/-- The token after all others: the end of a source, on its last line. -/
def eof (source : String) : Token :=
  ⟨.endOfFile, "", 1 + newlines source.toList⟩

def Item.token? : Item → Option Token
  | .token t => some t
  | .error _ => none

def Item.error? : Item → Option Error
  | .token _ => none
  | .error e => some e

def tokens (source : String) : List Token :=
  (items source).filterMap Item.token?

def errors (source : String) : List Error :=
  (items source).filterMap Item.error?

def listing (source : String) : List Item :=
  items source ++ [.token (eof source)]

end ScriptLang.Source
