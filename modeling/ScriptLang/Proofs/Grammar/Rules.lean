import ScriptLang.Proofs.Grammar.Ebnf
import ScriptLang.Token

namespace ScriptLang.Grammar

/-- The names of the rules. A flag tells whether a loop is open. -/
inductive Name where
  | program
  | declaration (inLoop : Bool)
  | funDecl
  | function
  | parameters
  | varDecl
  | statement (inLoop : Bool)
  | exprStmt
  | printStmt
  | whileStmt
  | forStmt
  | ifStmt (inLoop : Bool)
  | block (inLoop : Bool)
  | returnStmt
  | breakStmt (inLoop : Bool)
  | expression
  | assignment
  | logicOr
  | logicAnd
  | equality
  | comparison
  | term
  | factor
  | unary
  | call
  | arguments
  | primary
deriving DecidableEq

def oneOf (kinds : List Kind) : Ebnf Name Kind := .terminal (· ∈ kinds)

def symbol (kind : Kind) : Ebnf Name Kind := oneOf [kind]

def number : Ebnf Name Kind := .terminal fun k => ∃ x, k = .number x

def string : Ebnf Name Kind := .terminal fun k => ∃ s, k = .string s

def breakWord (inLoop : Bool) : Ebnf Name Kind := .terminal fun k => k = .breakWord ∧ inLoop = true

def entries (entry : Ebnf Name Kind) : Ebnf Name Kind :=
  entry ++ .upTo 254 (symbol .comma ++ entry)

/-- The rules of the grammar. -/
def rules : Name → Ebnf Name Kind
  | .program => .many (.rule (.declaration false)) ++ symbol .endOfFile
  | .declaration inLoop => .rule .funDecl ||| .rule .varDecl ||| .rule (.statement inLoop)
  | .funDecl => symbol .funWord ++ symbol .identifier ++ .rule .function
  | .function =>
    symbol .leftParen ++ .optional (.rule .parameters) ++ symbol .rightParen ++ .rule (.block false)
  | .parameters => entries (symbol .identifier)
  | .varDecl =>
    symbol .varWord ++ symbol .identifier ++ .optional (symbol .equal ++ .rule .expression) ++
      symbol .semicolon
  | .statement inLoop =>
    .rule .exprStmt ||| .rule .printStmt ||| .rule .whileStmt ||| .rule .forStmt |||
      .rule (.ifStmt inLoop) ||| .rule (.block inLoop) ||| .rule .returnStmt |||
      .rule (.breakStmt inLoop)
  | .exprStmt => .rule .expression ++ symbol .semicolon
  | .printStmt => symbol .printWord ++ .rule .expression ++ symbol .semicolon
  | .whileStmt =>
    symbol .whileWord ++ symbol .leftParen ++ .rule .expression ++ symbol .rightParen ++
      .rule (.statement true)
  | .forStmt =>
    symbol .forWord ++ symbol .leftParen ++
      (.rule .varDecl ||| .rule .exprStmt ||| symbol .semicolon) ++
      .optional (.rule .expression) ++ symbol .semicolon ++
      .optional (.rule .expression) ++ symbol .rightParen ++ .rule (.statement true)
  | .ifStmt inLoop =>
    symbol .ifWord ++ symbol .leftParen ++ .rule .expression ++ symbol .rightParen ++
      .rule (.statement inLoop) ++ .optional (symbol .elseWord ++ .rule (.statement inLoop))
  | .block inLoop =>
    symbol .leftBrace ++ .many (.rule (.declaration inLoop)) ++ symbol .rightBrace
  | .returnStmt => symbol .returnWord ++ .optional (.rule .expression) ++ symbol .semicolon
  | .breakStmt inLoop => breakWord inLoop ++ symbol .semicolon
  | .expression => .rule .assignment
  | .assignment => symbol .identifier ++ symbol .equal ++ .rule .assignment ||| .rule .logicOr
  | .logicOr => .rule .logicAnd ++ .many (oneOf [.orWord] ++ .rule .logicAnd)
  | .logicAnd => .rule .equality ++ .many (oneOf [.andWord] ++ .rule .equality)
  | .equality => .rule .comparison ++ .many (oneOf [.bangEqual, .equalEqual] ++ .rule .comparison)
  | .comparison =>
    .rule .term ++ .many (oneOf [.greater, .greaterEqual, .less, .lessEqual] ++ .rule .term)
  | .term => .rule .factor ++ .many (oneOf [.minus, .plus] ++ .rule .factor)
  | .factor => .rule .unary ++ .many (oneOf [.star, .slash] ++ .rule .unary)
  | .unary => oneOf [.bang, .minus] ++ .rule .unary ||| .rule .call
  | .call =>
    .rule .primary ++
      .many (symbol .leftParen ++ .optional (.rule .arguments) ++ symbol .rightParen)
  | .arguments => entries (.rule .expression)
  | .primary =>
    number ||| string ||| symbol .trueWord ||| symbol .falseWord ||| symbol .nilWord |||
      symbol .identifier ||| symbol .leftParen ++ .rule .expression ++ symbol .rightParen |||
      symbol .funWord ++ .rule .function

end ScriptLang.Grammar
