import ScriptLang.Token

namespace ScriptLang.Syntax

/-- A place where a rule of the grammar asks for something that is not there, or a rule that a
well-ordered list of tokens still breaks. -/
inductive Fault where
  | noExpression
  | noEndOfExpression
  | noParenAfterFunctionName
  | noParameterName
  | tooManyParameters
  | noParenAfterParameters
  | noBraceBeforeFunctionBody
  | noVariableName
  | noSemicolonAfterVariable
  | noParenAfterFor
  | noSemicolonAfterLoopCondition
  | noParenAfterForClauses
  | noParenAfterIf
  | noParenAfterIfCondition
  | noParenAfterWhile
  | noParenAfterWhileCondition
  | breakOutsideLoop
  | noSemicolonAfterBreak
  | noSemicolonAfterReturn
  | noSemicolonAfterPrinted
  | noSemicolonAfterExpression
  | noBraceAfterBlock
  | invalidAssignmentTarget
  | tooManyArguments
  | noParenAfterArguments
  | noParenAfterExpression
deriving DecidableEq

def Fault.message : Fault → String
  | .noExpression => "Expect expression."
  | .noEndOfExpression => "Expect end of expression."
  | .noParenAfterFunctionName => "Expect '(' after function name."
  | .noParameterName => "Expect parameter name."
  | .tooManyParameters => "Can't have more than 255 parameters."
  | .noParenAfterParameters => "Expect ')' after parameters."
  | .noBraceBeforeFunctionBody => "Expect '\x7b' before function body."
  | .noVariableName => "Expect variable name."
  | .noSemicolonAfterVariable => "Expect ';' after variable declaration."
  | .noParenAfterFor => "Expect '(' after 'for'."
  | .noSemicolonAfterLoopCondition => "Expect ';' after loop condition."
  | .noParenAfterForClauses => "Expect ')' after for clauses."
  | .noParenAfterIf => "Expect '(' after 'if'."
  | .noParenAfterIfCondition => "Expect ')' after if condition."
  | .noParenAfterWhile => "Expect '(' after 'while'."
  | .noParenAfterWhileCondition => "Expect ')' after condition."
  | .breakOutsideLoop => "Can't use 'break' outside of a loop."
  | .noSemicolonAfterBreak => "Expect ';' after 'break'."
  | .noSemicolonAfterReturn => "Expect ';' after return value."
  | .noSemicolonAfterPrinted => "Expect ';' after value."
  | .noSemicolonAfterExpression => "Expect ';' after expression."
  | .noBraceAfterBlock => "Expect '\x7d' after block."
  | .invalidAssignmentTarget => "Invalid assignment target."
  | .tooManyArguments => "Can't have more than 255 arguments."
  | .noParenAfterArguments => "Expect ')' after arguments."
  | .noParenAfterExpression => "Expect ')' after expression."

structure Error where
  fault : Fault
  token : Token
deriving DecidableEq

end ScriptLang.Syntax
