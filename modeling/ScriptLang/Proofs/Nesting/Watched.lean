import ScriptLang.Syntax.Program

namespace ScriptLang.Nesting

open Syntax (State Outcome Reader Host)

/-- A part of a program that loops are counted in or that starts the count anew. -/
inductive Construct where
  | loop
  | body
deriving DecidableEq

/-- How many loops are being read inside the innermost function body. What is being read is given
innermost first. -/
def openLoops (active : List Construct) : Nat :=
  (active.takeWhile (· = .loop)).length

example : openLoops [.loop, .body, .loop, .loop] = 1 := rfl

inductive Event where
  /-- The word `break` has been read where a statement begins, with this count of open loops. -/
  | breaks (word : Token) (active : List Construct) (counted : Nat)
  /-- A loop is left. The loop itself is still counted. -/
  | leaves (counted : Nat)

structure Watched (α : Type) where
  read : Reader α
  events : List Construct → Token → State → List Event

namespace Watched

variable {α : Type}

def after (f : α → State → List Event) : Outcome α → List Event
  | .done a t => f a t
  | _ => []

def silent (p : Reader α) : Watched α := ⟨p, fun _ _ _ => []⟩

instance : Monad Watched where
  pure a := silent (pure a)
  bind p f := ⟨p.read >>= fun a => (f a).read, fun active eof s =>
    p.events active eof s ++ after (fun a t => (f a).events active eof t) (p.read eof s)⟩

instance : MonadLiftT Reader Watched := ⟨silent⟩

/-- Leaving a loop at the state a reader ended in, whether it succeeded or failed. -/
def leaving : Outcome α → List Event
  | .done _ t => [.leaves t.loopDepth]
  | .failed _ t => [.leaves t.loopDepth]
  | .exhausted => []

def insideLoop (p : Watched α) : Watched α :=
  ⟨Reader.insideLoop p.read, fun active eof s =>
    let t := { s with loopDepth := s.loopDepth + 1 }
    p.events (.loop :: active) eof t ++ leaving (p.read eof t)⟩

def outsideLoops (p : Watched α) : Watched α :=
  ⟨Reader.outsideLoops p.read, fun active eof s =>
    p.events (.body :: active) eof { s with loopDepth := 0 }⟩

def recovering (p : Watched (Stmt Unit)) : Watched (Option (Stmt Unit)) :=
  ⟨Syntax.recovering p.read, p.events⟩

def breakStatement (word : Token) : Watched (Stmt Unit) :=
  ⟨Syntax.breakStatement word, fun active _ s => [.breaks word active s.loopDepth]⟩

instance : Host Watched Unit where
  mark := silent (pure ())
  insideLoop := insideLoop
  outsideLoops := outsideLoops
  breakStatement := breakStatement
  recovering := recovering

end Watched

def watchedProgram (input : Syntax.Input) : Watched (List (Stmt Unit)) :=
  let bound := input.tokens.length + 1
  Syntax.program (Syntax.declaration (Syntax.rulesIn Watched bound)) bound

/-- What happens while a program is read. No loop and no body is being read when it begins. -/
def programEvents (input : Syntax.Input) : List Event :=
  (watchedProgram input).events [] input.eof input.start

end ScriptLang.Nesting
