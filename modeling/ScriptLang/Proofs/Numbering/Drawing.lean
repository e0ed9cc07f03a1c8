import ScriptLang.Session

namespace ScriptLang.Numbered

open Syntax (State Outcome Reader Input Host)

/-- A reader that also draws numbers; the counter goes on however it ends. -/
def Drawing (α : Type) := (counter : Nat) → (eof : Token) → State → Outcome α × Nat

namespace Drawing

variable {α β : Type}

protected def pure (a : α) : Drawing α :=
  fun n _ s => (.done a s, n)

protected def bind (p : Drawing α) (f : α → Drawing β) : Drawing β := fun n eof s =>
  match p n eof s with
  | (.done a t, k) => f a k eof t
  | (.failed e t, k) => (.failed e t, k)
  | (.exhausted, k) => (.exhausted, k)

instance : Monad Drawing where
  pure := Drawing.pure
  bind := Drawing.bind

def lift (p : Reader α) : Drawing α :=
  fun n eof s => (p eof s, n)

instance : MonadLiftT Reader Drawing := ⟨lift⟩

def fresh : Drawing Nat :=
  fun n _ s => (.done n s, n + 1)

def leaving (p : Drawing α) (f : State → State) : Drawing α := fun n eof s =>
  match p n eof s with
  | (.done a t, k) => (.done a (f t), k)
  | (.failed e t, k) => (.failed e (f t), k)
  | (.exhausted, k) => (.exhausted, k)

def insideLoop (p : Drawing α) : Drawing α := fun n eof s =>
  leaving p (fun t => { t with loopDepth := t.loopDepth - 1 }) n eof
    { s with loopDepth := s.loopDepth + 1 }

def outsideLoops (p : Drawing α) : Drawing α := fun n eof s =>
  leaving p (fun t => { t with loopDepth := s.loopDepth }) n eof { s with loopDepth := 0 }

def recovering (p : Drawing (Stmt Nat)) : Drawing (Option (Stmt Nat)) := fun n eof s =>
  match p n eof s with
  | (.done stmt t, k) => (.done (some stmt) t, k)
  | (.failed e t, k) =>
    (.done none { t with rest := Syntax.recover t.rest, errors := t.errors ++ [e] }, k)
  | (.exhausted, k) => (.exhausted, k)

instance : Host Drawing Nat where
  mark := fresh
  insideLoop := insideLoop
  outsideLoops := outsideLoops
  breakStatement keyword := lift (Syntax.breakStatement keyword)
  recovering := recovering

end Drawing

/-- The numbered statements of a program or every error in it, and the counter after it. -/
def parseProgram (counter : Nat) (input : Input) :
    Except (List Syntax.Error) (List (Stmt Nat)) × Nat :=
  let bound := input.tokens.length + 1
  let declaration := Syntax.declaration (Syntax.rulesIn Drawing bound)
  match Syntax.program declaration bound counter input.eof input.start with
  | (.done statements s, k) =>
    (if s.errors.isEmpty then .ok statements else .error s.errors, k)
  | (.failed e s, k) => (.error (s.errors ++ [e]), k)
  | (.exhausted, k) => (.error [], k)

end ScriptLang.Numbered
