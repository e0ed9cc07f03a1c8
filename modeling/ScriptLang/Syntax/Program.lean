import ScriptLang.Syntax.Statement

namespace ScriptLang.Syntax

structure Input where
  tokens : List Token
  eof : Token

/-- A list of tokens can be read if its last token ends it. What follows an earlier end is never
looked at. -/
def Input.ofTokens? (tokens : List Token) : Option Input :=
  match tokens.getLast?, tokens.find? (·.kind = .endOfFile) with
  | some last, some eof =>
    if last.kind = .endOfFile then some ⟨tokens.takeWhile (·.kind ≠ .endOfFile), eof⟩ else none
  | _, _ => none

section Knot

variable (M : Type → Type) {ρ : Type} [Monad M] [MonadLiftT Reader M] [Host M ρ]

/-- The rules of a depth; each depth reads one token more than the one below. -/
@[specialize] def rulesIn : (depth : Nat) → Rules M ρ
  | 0 => ⟨0, liftM (Reader.exhausted : Reader (Expr ρ)), liftM (Reader.exhausted : Reader (Expr ρ)),
      liftM (Reader.exhausted : Reader (Stmt ρ)),
      liftM (Reader.exhausted : Reader (Option (Stmt ρ)))⟩
  | depth + 1 =>
    let r := rulesIn depth
    ⟨depth + 1, expression r, unary r, statement r, declaration r⟩

end Knot

abbrev rules : (depth : Nat) → Rules Reader Unit := rulesIn Reader

def Input.rules (input : Input) : Rules Reader Unit :=
  Syntax.rules (input.tokens.length + 1)

def Input.start (input : Input) : State :=
  ⟨input.tokens, 0, []⟩

@[specialize] def program {M : Type → Type} {ρ : Type} [Monad M] [MonadLiftT Reader M]
    (declaration : M (Option (Stmt ρ))) : (bound : Nat) → M (List (Stmt ρ))
  | 0 => liftM (Reader.exhausted : Reader (List (Stmt ρ)))
  | bound + 1 => do
    if ← Reader.atEnd then pure []
    else do
      let first ← declaration
      let others ← program declaration bound
      pure (first.toList ++ others)

def parseProgram (input : Input) : Except (List Error) (List (Stmt Unit)) :=
  match program (declaration input.rules) (input.tokens.length + 1) input.eof input.start with
  | .done statements s => if s.errors.isEmpty then .ok statements else .error s.errors
  | .failed e s => .error (s.errors ++ [e])
  | .exhausted => .error []

def parseExpression (input : Input) : Except (List Error) (Expr Unit) :=
  match expression input.rules input.eof input.start with
  | .done e s =>
    match s.rest with
    | [] => if s.errors.isEmpty then .ok e else .error s.errors
    | t :: _ => .error (s.errors ++ [⟨.noEndOfExpression, t⟩])
  | .failed e s => .error (s.errors ++ [e])
  | .exhausted => .error []

end ScriptLang.Syntax
