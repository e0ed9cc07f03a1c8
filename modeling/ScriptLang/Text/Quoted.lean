import ScriptLang.Text.Extender
import ScriptLang.Text.Hidden

namespace ScriptLang.Text

def escapeLetter? (c : Char) : Option Char :=
  match c.toNat with
  | 0 => some '0'
  | 9 => some 't'
  | 10 => some 'n'
  | 13 => some 'r'
  | 34 => some c
  | 39 => some c
  | 92 => some c
  | _ => none

def escaped (c : Char) : List Char :=
  match escapeLetter? c with
  | some letter => ['\\', letter]
  | none =>
    if isExtender c || isHidden c then ['\\', 'u', '{'] ++ Nat.toDigits 16 c.toNat ++ ['}'] else [c]

def quoted (s : String) : String :=
  String.ofList ('"' :: (s.toList.flatMap escaped ++ ['"']))

end ScriptLang.Text
