import ScriptLang.Proofs.Grammar.Reading

namespace ScriptLang

open Grammar

def delimiter (kind : Kind) : Token := ⟨kind, "", 0⟩

def Literal.kind : Literal → Kind
  | .nil => .nilWord
  | .boolean true => .trueWord
  | .boolean false => .falseWord
  | .number x => .number x
  | .string s => .string s

section Tokens

variable {ρ : Type}

def functionTokens (params : List Token) (body : List Token) : List Token :=
  delimiter .leftParen :: (params.intersperse (delimiter .comma) ++ delimiter .rightParen ::
    delimiter .leftBrace :: (body ++ [delimiter .rightBrace]))

mutual

def Expr.tokens : Expr ρ → List Token
  | .literal value => [delimiter value.kind]
  | .group inner => delimiter .leftParen :: (inner.tokens ++ [delimiter .rightParen])
  | .unary operator right => operator :: right.tokens
  | .binary left operator right => left.tokens ++ operator :: right.tokens
  | .logical left operator right => left.tokens ++ operator :: right.tokens
  | .ident _ name => [name]
  | .assign _ name value => name :: delimiter .equal :: value.tokens
  | .call callee paren arguments =>
    callee.tokens ++ delimiter .leftParen :: (Expr.allTokens arguments ++ [paren])
  | .lambda params body => delimiter .funWord :: functionTokens params (Stmt.allTokens body)

def Expr.allTokens : List (Expr ρ) → List Token
  | [] => []
  | [e] => e.tokens
  | e :: es => e.tokens ++ delimiter .comma :: Expr.allTokens es

def Stmt.tokens : Stmt ρ → List Token
  | .exprStmt e => e.tokens ++ [delimiter .semicolon]
  | .printStmt e => delimiter .printWord :: (e.tokens ++ [delimiter .semicolon])
  | .varDecl name none => [delimiter .varWord, name, delimiter .semicolon]
  | .varDecl name (some initial) =>
    delimiter .varWord :: name :: delimiter .equal :: (initial.tokens ++ [delimiter .semicolon])
  | .block body => delimiter .leftBrace :: (Stmt.allTokens body ++ [delimiter .rightBrace])
  | .ifStmt condition yes none =>
    delimiter .ifWord :: delimiter .leftParen :: (condition.tokens ++ delimiter .rightParen ::
      yes.tokens)
  | .ifStmt condition yes (some no) =>
    delimiter .ifWord :: delimiter .leftParen :: (condition.tokens ++ delimiter .rightParen ::
      (yes.tokens ++ delimiter .elseWord :: no.tokens))
  | .whileStmt condition body =>
    delimiter .whileWord :: delimiter .leftParen :: (condition.tokens ++ delimiter .rightParen ::
      body.tokens)
  | .breakStmt keyword => [keyword, delimiter .semicolon]
  | .returnStmt keyword none => [keyword, delimiter .semicolon]
  | .returnStmt keyword (some value) => keyword :: (value.tokens ++ [delimiter .semicolon])
  | .funDecl name params body =>
    delimiter .funWord :: name :: functionTokens params (Stmt.allTokens body)

def Stmt.allTokens : List (Stmt ρ) → List Token
  | [] => []
  | s :: ss => s.tokens ++ Stmt.allTokens ss

end

end Tokens

section Shape

/-- How tight operators of a level bind. Assignments bind less, calls more. -/
def Grammar.Level.rank : Level → Nat
  | disjunction => 1
  | conjunction => 2
  | equality => 3
  | comparison => 4
  | term => 5
  | factor => 6
  | unary => 7

def operatorLevel : Kind → Level
  | .orWord => .disjunction
  | .andWord => .conjunction
  | .bangEqual | .equalEqual => .equality
  | .greater | .greaterEqual | .less | .lessEqual => .comparison
  | .minus | .plus => .term
  | .star | .slash => .factor
  | _ => .unary

def Expr.rank : Expr Unit → Nat
  | .assign _ _ _ => 0
  | .logical _ operator _ => (operatorLevel operator.kind).rank
  | .binary _ operator _ => (operatorLevel operator.kind).rank
  | .unary _ _ => Level.unary.rank
  | _ => 8

/-- Whether a statement ends in an `if` that an `else` could still follow. -/
def Stmt.isOpen : Stmt Unit → Bool
  | .ifStmt _ _ none => true
  | .ifStmt _ _ (some no) => no.isOpen
  | .whileStmt _ body => body.isOpen
  | _ => false

/-- Whether a statement may stand alone as a branch or as the body of a loop. -/
def Stmt.isBody : Stmt Unit → Bool
  | .varDecl _ _ => false
  | .funDecl _ _ _ => false
  | _ => true

def ShapedParameters (params : List Token) : Prop :=
  params.length ≤ 255 ∧ ∀ p ∈ params, p.kind = .identifier

mutual

def Expr.Shaped : Expr Unit → Prop
  | .literal _ => True
  | .group inner => inner.Shaped
  | .unary operator right =>
    operator.kind ∈ [Kind.bang, .minus] ∧ Level.unary.rank ≤ right.rank ∧ right.Shaped
  | .binary left operator right =>
    operatorLevel operator.kind ∈ [Level.equality, .comparison, .term, .factor] ∧
      (operatorLevel operator.kind).rank ≤ left.rank ∧ left.Shaped ∧
      (operatorLevel operator.kind).rank < right.rank ∧ right.Shaped
  | .logical left operator right =>
    operatorLevel operator.kind ∈ [Level.disjunction, .conjunction] ∧
      (operatorLevel operator.kind).rank ≤ left.rank ∧ left.Shaped ∧
      (operatorLevel operator.kind).rank < right.rank ∧ right.Shaped
  | .ident _ name => name.kind = .identifier
  | .assign _ name value => name.kind = .identifier ∧ value.Shaped
  | .call callee paren arguments =>
    8 ≤ callee.rank ∧ callee.Shaped ∧ paren.kind = .rightParen ∧ arguments.length ≤ 255 ∧
      Expr.AllShaped arguments
  | .lambda params body => ShapedParameters params ∧ Stmt.AllShaped false body

def Expr.AllShaped : List (Expr Unit) → Prop
  | [] => True
  | e :: es => e.Shaped ∧ Expr.AllShaped es

def Stmt.Shaped (inLoop : Bool) : Stmt Unit → Prop
  | .exprStmt e => e.Shaped
  | .printStmt e => e.Shaped
  | .varDecl name none => name.kind = .identifier
  | .varDecl name (some initial) => name.kind = .identifier ∧ initial.Shaped
  | .block body => Stmt.AllShaped inLoop body
  | .ifStmt condition yes none => condition.Shaped ∧ yes.isBody ∧ yes.Shaped inLoop
  | .ifStmt condition yes (some no) =>
    condition.Shaped ∧ yes.isBody ∧ yes.Shaped inLoop ∧ yes.isOpen = false ∧ no.isBody ∧
      no.Shaped inLoop
  | .whileStmt condition body => condition.Shaped ∧ body.isBody ∧ body.Shaped true
  | .breakStmt keyword => keyword.kind = .breakWord ∧ inLoop = true
  | .returnStmt keyword none => keyword.kind = .returnWord
  | .returnStmt keyword (some value) => keyword.kind = .returnWord ∧ value.Shaped
  | .funDecl name params body =>
    name.kind = .identifier ∧ ShapedParameters params ∧ Stmt.AllShaped false body

def Stmt.AllShaped (inLoop : Bool) : List (Stmt Unit) → Prop
  | [] => True
  | s :: ss => s.Shaped inLoop ∧ Stmt.AllShaped inLoop ss

end

end Shape

end ScriptLang
