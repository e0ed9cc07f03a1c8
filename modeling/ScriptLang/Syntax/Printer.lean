import ScriptLang.Syntax

namespace ScriptLang

variable {ρ : Type}

def Literal.text : Literal → String
  | .nil => "nil"
  | .boolean true => "true"
  | .boolean false => "false"
  | .number x => Number.text Number.treeStyle x
  | .string s => s

def parenthesized (words : List String) : String :=
  "(" ++ " ".intercalate words ++ ")"

def parameterText (params : List Token) : String :=
  parenthesized (params.map Token.lexeme)

mutual

def Expr.text : Expr ρ → String
  | .literal value => value.text
  | .group inner => parenthesized ["group", inner.text]
  | .unary operator right => parenthesized [operator.lexeme, right.text]
  | .binary left operator right => parenthesized [operator.lexeme, left.text, right.text]
  | .logical left operator right => parenthesized [operator.lexeme, left.text, right.text]
  | .ident _ name => name.lexeme
  | .assign _ name value => parenthesized ["=", name.lexeme, value.text]
  | .call callee _ arguments => parenthesized ("call" :: callee.text :: Expr.texts arguments)
  | .lambda params body =>
    parenthesized ["fun", parameterText params, parenthesized ("block" :: Stmt.texts body)]

def Expr.texts : List (Expr ρ) → List String
  | [] => []
  | e :: es => e.text :: Expr.texts es

def Stmt.text : Stmt ρ → String
  | .exprStmt e => parenthesized [";", e.text]
  | .printStmt e => parenthesized ["print", e.text]
  | .varDecl name none => parenthesized ["var", name.lexeme]
  | .varDecl name (some initial) => parenthesized ["var", name.lexeme, initial.text]
  | .block body => parenthesized ("block" :: Stmt.texts body)
  | .ifStmt condition yes none => parenthesized ["if", condition.text, yes.text]
  | .ifStmt condition yes (some no) =>
    parenthesized ["if", condition.text, yes.text, no.text]
  | .whileStmt condition body => parenthesized ["while", condition.text, body.text]
  | .breakStmt _ => parenthesized ["break"]
  | .returnStmt _ none => parenthesized ["return"]
  | .returnStmt _ (some value) => parenthesized ["return", value.text]
  | .funDecl name params body =>
    parenthesized ["fun", name.lexeme, parameterText params,
      parenthesized ("block" :: Stmt.texts body)]

def Stmt.texts : List (Stmt ρ) → List String
  | [] => []
  | s :: ss => s.text :: Stmt.texts ss

end

end ScriptLang
