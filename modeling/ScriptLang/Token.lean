import ScriptLang.Number.Text

namespace ScriptLang

inductive Kind where
  | leftParen | rightParen | leftBrace | rightBrace
  | comma | dot | semicolon
  | minus | plus | slash | star
  | bang | bangEqual
  | equal | equalEqual
  | greater | greaterEqual
  | less | lessEqual
  | identifier
  | string (value : String)
  | number (value : Float)
  | andWord | breakWord | elseWord | falseWord | funWord | forWord | ifWord | nilWord
  | orWord | printWord | returnWord | trueWord | varWord | whileWord
  | endOfFile
deriving DecidableEq

def Kind.name : Kind → String
  | .leftParen => "LEFT_PAREN"
  | .rightParen => "RIGHT_PAREN"
  | .leftBrace => "LEFT_BRACE"
  | .rightBrace => "RIGHT_BRACE"
  | .comma => "COMMA"
  | .dot => "DOT"
  | .semicolon => "SEMICOLON"
  | .minus => "MINUS"
  | .plus => "PLUS"
  | .slash => "SLASH"
  | .star => "STAR"
  | .bang => "BANG"
  | .bangEqual => "BANG_EQUAL"
  | .equal => "EQUAL"
  | .equalEqual => "EQUAL_EQUAL"
  | .greater => "GREATER"
  | .greaterEqual => "GREATER_EQUAL"
  | .less => "LESS"
  | .lessEqual => "LESS_EQUAL"
  | .identifier => "IDENTIFIER"
  | .string _ => "STRING"
  | .number _ => "NUMBER"
  | .andWord => "AND"
  | .breakWord => "BREAK"
  | .elseWord => "ELSE"
  | .falseWord => "FALSE"
  | .funWord => "FUN"
  | .forWord => "FOR"
  | .ifWord => "IF"
  | .nilWord => "NIL"
  | .orWord => "OR"
  | .printWord => "PRINT"
  | .returnWord => "RETURN"
  | .trueWord => "TRUE"
  | .varWord => "VAR"
  | .whileWord => "WHILE"
  | .endOfFile => "EOF"

/-- The kind of a name: a reserved word is not an identifier. -/
def Kind.ofWord (word : List Char) : Kind :=
  match String.ofList word with
  | "and" => .andWord
  | "break" => .breakWord
  | "else" => .elseWord
  | "false" => .falseWord
  | "fun" => .funWord
  | "for" => .forWord
  | "if" => .ifWord
  | "nil" => .nilWord
  | "or" => .orWord
  | "print" => .printWord
  | "return" => .returnWord
  | "true" => .trueWord
  | "var" => .varWord
  | "while" => .whileWord
  | _ => .identifier

def Kind.reserved : List (String × Kind) :=
  [("and", .andWord), ("break", .breakWord), ("else", .elseWord), ("false", .falseWord),
    ("fun", .funWord), ("for", .forWord), ("if", .ifWord), ("nil", .nilWord), ("or", .orWord),
    ("print", .printWord), ("return", .returnWord), ("true", .trueWord), ("var", .varWord),
    ("while", .whileWord)]

structure Token where
  kind : Kind
  lexeme : String
  /-- Lines count from one; a text over several lines has the line it ends on. -/
  line : Nat
deriving DecidableEq

namespace Token

def literalText (t : Token) : String :=
  match t.kind with
  | .string s => s
  | .number x => Number.text Number.tokenStyle x
  | _ => "null"

def text (t : Token) : String :=
  t.kind.name ++ " " ++ t.lexeme ++ " " ++ t.literalText

end Token
end ScriptLang
