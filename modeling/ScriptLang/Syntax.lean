import ScriptLang.Token

namespace ScriptLang

inductive Literal where
  | nil
  | boolean (b : Bool)
  | number (x : Float)
  | string (s : String)
deriving DecidableEq

mutual

inductive Expr (ρ : Type) where
  | literal (value : Literal)
  | group (inner : Expr ρ)
  | unary (operator : Token) (right : Expr ρ)
  | binary (left : Expr ρ) (operator : Token) (right : Expr ρ)
  /-- An operator that may leave its right side alone: `and`, `or`. -/
  | logical (left : Expr ρ) (operator : Token) (right : Expr ρ)
  | ident (binding : ρ) (name : Token)
  | assign (binding : ρ) (name : Token) (value : Expr ρ)
  /-- A call keeps its closing parenthesis: errors of the call are reported there. -/
  | call (callee : Expr ρ) (paren : Token) (arguments : List (Expr ρ))
  | lambda (params : List Token) (body : List (Stmt ρ))

inductive Stmt (ρ : Type) where
  | exprStmt (e : Expr ρ)
  | printStmt (e : Expr ρ)
  | varDecl (name : Token) (initial : Option (Expr ρ))
  | block (body : List (Stmt ρ))
  | ifStmt (condition : Expr ρ) (yes : Stmt ρ) (no : Option (Stmt ρ))
  | whileStmt (condition : Expr ρ) (body : Stmt ρ)
  | breakStmt (keyword : Token)
  | returnStmt (keyword : Token) (value : Option (Expr ρ))
  | funDecl (name : Token) (params : List Token) (body : List (Stmt ρ))

end

instance {ρ : Type} : Inhabited (Expr ρ) := ⟨.literal .nil⟩

instance {ρ : Type} : Inhabited (Stmt ρ) := ⟨.block []⟩

end ScriptLang
