import ScriptLang.Token

namespace ScriptLang.Token.Json

def hexDigit (n : Nat) : Char :=
  ((Nat.toDigits 16 n).getLast?).getD '0'

def escaped (c : Char) : List Char :=
  if c = '"' then ['\\', '"']
  else if c = '\\' then ['\\', '\\']
  else if c.toNat = 8 then ['\\', 'b']
  else if c.toNat = 9 then ['\\', 't']
  else if c.toNat = 10 then ['\\', 'n']
  else if c.toNat = 12 then ['\\', 'f']
  else if c.toNat = 13 then ['\\', 'r']
  else if c.toNat < 32 then
    ['\\', 'u', '0', '0', hexDigit (c.toNat / 16), hexDigit (c.toNat % 16)]
  else [c]

def quoted (s : String) : String :=
  String.ofList ('"' :: (s.toList.flatMap escaped ++ ['"']))

/-- A literal is an object that names its kind and holds its value; other kinds are their names. -/
def kindText : Kind → String
  | .string s => "\x7b\n      \"STRING\": " ++ quoted s ++ "\n    \x7d"
  | .number x => "\x7b\n      \"NUMBER\": " ++ Number.jsonText x ++ "\n    \x7d"
  | k => quoted k.name

def tokenText (t : Token) : String :=
  "  \x7b\n    \"token_type\": " ++ kindText t.kind ++
    ",\n    \"lexeme\": " ++ quoted t.lexeme ++
    ",\n    \"line\": " ++ toString t.line ++ "\n  \x7d"

def listing (tokens : List Token) : String :=
  match tokens with
  | [] => "[]"
  | _ => "[\n" ++ ",\n".intercalate (tokens.map tokenText) ++ "\n]"

end ScriptLang.Token.Json
