namespace ScriptLang.Source.Comment

inductive Extent where
  | closed (length : Nat)
  /-- It never closes; `opener` characters stand before the innermost opener left open. -/
  | unclosed (opener : Nat)
deriving Repr, DecidableEq

/-- Reads on after `read` characters of a comment in which `openers` are open. -/
def extentFrom : (openers : List Nat) → (read : Nat) → List Char → Extent
  | [], read, _ => .closed read
  | _ :: outer, read, '*' :: '/' :: rest => extentFrom outer (read + 2) rest
  | inner :: outer, read, '/' :: '*' :: rest =>
    extentFrom (read :: inner :: outer) (read + 2) rest
  | inner :: outer, read, _ :: rest => extentFrom (inner :: outer) (read + 1) rest
  | inner :: _, _, [] => .unclosed inner

def extent (body : List Char) : Extent :=
  extentFrom [0] 2 body

end ScriptLang.Source.Comment
