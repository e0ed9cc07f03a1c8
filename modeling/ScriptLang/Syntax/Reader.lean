import ScriptLang.Syntax.Fault

namespace ScriptLang.Syntax

structure State where
  rest : List Token
  loopDepth : Nat
  errors : List Error
deriving DecidableEq

inductive Outcome (α : Type) where
  | done (value : α) (state : State)
  | failed (error : Error) (state : State)
  | exhausted

/-- A reader knows the token that ends the list. -/
def Reader (α : Type) := (eof : Token) → State → Outcome α

namespace Reader

variable {α β : Type}

@[inline] protected def pure (a : α) : Reader α :=
  fun _ s => .done a s

@[inline] protected def bind (p : Reader α) (f : α → Reader β) : Reader β := fun eof s =>
  match p eof s with
  | .done a t => f a eof t
  | .failed e t => .failed e t
  | .exhausted => .exhausted

instance : Monad Reader where
  pure := Reader.pure
  bind := Reader.bind

theorem pure_apply (a : α) (eof : Token) (s : State) :
    (pure a : Reader α) eof s = .done a s := rfl

theorem bind_apply (p : Reader α) (f : α → Reader β) (eof : Token) (s : State) :
    (p >>= f) eof s = match p eof s with
      | .done a t => f a eof t
      | .failed e t => .failed e t
      | .exhausted => .exhausted := rfl

def exhausted : Reader α := fun _ _ => .exhausted

def peek : Reader Token := fun eof s => .done (s.rest.headD eof) s

/-- The kind of the next token, none at the end of the list. -/
def peekKind : Reader (Option Kind) := fun _ s => .done (s.rest.head?.map Token.kind) s

def atEnd : Reader Bool := fun _ s => .done s.rest.isEmpty s

/-- Whether the next token is of a kind; the end of the list is of none. -/
def check (kind : Kind) : Reader Bool := fun _ s =>
  .done (s.rest.head?.any fun t => t.kind = kind) s

def acceptAny (kinds : List Kind) : Reader (Option Token) := fun _ s =>
  match s.rest with
  | [] => .done none s
  | t :: ts => if t.kind ∈ kinds then .done (some t) { s with rest := ts } else .done none s

def accept (kind : Kind) : Reader (Option Token) :=
  acceptAny [kind]

def next : Reader (Option Token) := fun _ s =>
  match s.rest with
  | [] => .done none s
  | t :: ts => .done (some t) { s with rest := ts }

def fail (fault : Fault) (token : Token) : Reader α := fun _ s =>
  .failed ⟨fault, token⟩ s

def expect (kind : Kind) (fault : Fault) : Reader Token := do
  match ← accept kind with
  | some t => pure t
  | none => fail fault (← peek)

def record (fault : Fault) (token : Token) : Reader Unit := fun _ s =>
  .done () { s with errors := s.errors ++ [⟨fault, token⟩] }

def recordIf (condition : Bool) (fault : Fault) : Reader Unit := do
  if condition then record fault (← peek) else pure ()

def loopDepth : Reader Nat := fun _ s => .done s.loopDepth s

/-- Changes the state a reader ends in, on success and on failure. -/
def leaving (p : Reader α) (f : State → State) : Reader α := fun eof s =>
  match p eof s with
  | .done a t => .done a (f t)
  | .failed e t => .failed e (f t)
  | .exhausted => .exhausted

def insideLoop (p : Reader α) : Reader α := fun eof s =>
  leaving p (fun t => { t with loopDepth := t.loopDepth - 1 }) eof
    { s with loopDepth := s.loopDepth + 1 }

def outsideLoops (p : Reader α) : Reader α := fun eof s =>
  leaving p (fun t => { t with loopDepth := s.loopDepth }) eof { s with loopDepth := 0 }

section Items

variable {M : Type → Type} [Monad M] [MonadLiftT Reader M]

/-- Items with commas between them, at least one; from the item after `count` others on. Each item
past the limit of 255 is recorded and still read. -/
@[specialize] def items (tooMany : Fault) (item : M α) : (bound count : Nat) → M (List α)
  | 0, _ => liftM (exhausted : Reader (List α))
  | bound + 1, count => do
    recordIf (255 ≤ count) tooMany
    let first ← item
    match ← accept .comma with
    | none => pure [first]
    | some _ => do
      let others ← items tooMany item bound (count + 1)
      pure (first :: others)

@[specialize] def itemsBeforeParen (tooMany : Fault) (item : M α) (bound : Nat) : M (List α) := do
  if ← check .rightParen then pure [] else items tooMany item bound 0

end Items

end Reader

def startsStatement : Kind → Bool
  | .funWord | .varWord | .forWord | .ifWord | .whileWord | .printWord | .breakWord
  | .returnWord => true
  | _ => false

/-- Drops tokens up to a boundary between statements: after a semicolon, or before a word that
starts a statement. -/
def dropToBoundary (afterSemicolon : Bool) : List Token → List Token
  | [] => []
  | t :: ts =>
    if afterSemicolon || startsStatement t.kind then t :: ts
    else dropToBoundary (t.kind = .semicolon) ts

/-- Drops the token at which a declaration failed, and what follows up to a boundary. -/
def recover : List Token → List Token
  | [] => []
  | t :: ts => dropToBoundary (t.kind = .semicolon) ts

/-- Recovery keeps an end of the tokens, and a smaller one if there are any. -/
theorem dropToBoundary_suffix (b : Bool) (ts : List Token) : dropToBoundary b ts <:+ ts := by
  induction ts generalizing b with
  | nil => exact List.nil_suffix
  | cons t ts ih =>
    unfold dropToBoundary
    split
    · exact List.suffix_refl _
    · exact (ih _).trans (List.suffix_cons t ts)

end ScriptLang.Syntax
