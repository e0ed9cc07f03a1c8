import ScriptLang.Syntax

namespace ScriptLang

variable {ρ σ : Type}

structure Reference (ρ : Type) where
  name : Token
  assigned : Bool
  binding : ρ

mutual

/-- The uses of variables in source order; an assignment comes after the uses in its value. -/
def Expr.references : Expr ρ → List (Reference ρ)
  | .literal _ => []
  | .group inner => inner.references
  | .unary _ right => right.references
  | .binary left _ right => left.references ++ right.references
  | .logical left _ right => left.references ++ right.references
  | .ident binding name => [⟨name, false, binding⟩]
  | .assign binding name value => value.references ++ [⟨name, true, binding⟩]
  | .call callee _ arguments => callee.references ++ Expr.allReferences arguments
  | .lambda _ body => Stmt.allReferences body

def Expr.allReferences : List (Expr ρ) → List (Reference ρ)
  | [] => []
  | e :: es => e.references ++ Expr.allReferences es

def Stmt.references : Stmt ρ → List (Reference ρ)
  | .exprStmt e => e.references
  | .printStmt e => e.references
  | .varDecl _ none => []
  | .varDecl _ (some initial) => initial.references
  | .block body => Stmt.allReferences body
  | .ifStmt condition yes none => condition.references ++ yes.references
  | .ifStmt condition yes (some no) =>
    condition.references ++ yes.references ++ no.references
  | .whileStmt condition body => condition.references ++ body.references
  | .breakStmt _ => []
  | .returnStmt _ none => []
  | .returnStmt _ (some value) => value.references
  | .funDecl _ _ body => Stmt.allReferences body

def Stmt.allReferences : List (Stmt ρ) → List (Reference ρ)
  | [] => []
  | s :: ss => s.references ++ Stmt.allReferences ss

end

mutual

def Expr.map (f : ρ → σ) : Expr ρ → Expr σ
  | .literal value => .literal value
  | .group inner => .group (inner.map f)
  | .unary operator right => .unary operator (right.map f)
  | .binary left operator right => .binary (left.map f) operator (right.map f)
  | .logical left operator right => .logical (left.map f) operator (right.map f)
  | .ident binding name => .ident (f binding) name
  | .assign binding name value => .assign (f binding) name (value.map f)
  | .call callee paren arguments => .call (callee.map f) paren (Expr.mapAll f arguments)
  | .lambda params body => .lambda params (Stmt.mapAll f body)

def Expr.mapAll (f : ρ → σ) : List (Expr ρ) → List (Expr σ)
  | [] => []
  | e :: es => e.map f :: Expr.mapAll f es

def Stmt.map (f : ρ → σ) : Stmt ρ → Stmt σ
  | .exprStmt e => .exprStmt (e.map f)
  | .printStmt e => .printStmt (e.map f)
  | .varDecl name none => .varDecl name none
  | .varDecl name (some initial) => .varDecl name (some (initial.map f))
  | .block body => .block (Stmt.mapAll f body)
  | .ifStmt condition yes none => .ifStmt (condition.map f) (yes.map f) none
  | .ifStmt condition yes (some no) =>
    .ifStmt (condition.map f) (yes.map f) (some (no.map f))
  | .whileStmt condition body => .whileStmt (condition.map f) (body.map f)
  | .breakStmt keyword => .breakStmt keyword
  | .returnStmt keyword none => .returnStmt keyword none
  | .returnStmt keyword (some value) => .returnStmt keyword (some (value.map f))
  | .funDecl name params body => .funDecl name params (Stmt.mapAll f body)

def Stmt.mapAll (f : ρ → σ) : List (Stmt ρ) → List (Stmt σ)
  | [] => []
  | s :: ss => s.map f :: Stmt.mapAll f ss

end

end ScriptLang
