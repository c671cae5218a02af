import ClassScript.Token
import ClassScript.Fault

namespace ClassScript

inductive CallableKind where
  | function
  | method
deriving Repr, DecidableEq

def CallableKind.text : CallableKind → String
  | function => "function"
  | method => "method"

inductive Expectation where
  | className | superclassName | classBodyStart | classBodyEnd
  | callableName (kind : CallableKind) | paramsStart (kind : CallableKind) | parameterName
  | paramsEnd | callableBodyStart (kind : CallableKind)
  | variableName | varDeclEnd | breakEnd | continueEnd
  | forStart | loopConditionEnd | forClausesEnd
  | printEnd | expressionEnd | ifStart | ifConditionEnd | whileStart | whileConditionEnd
  | returnEnd | blockEnd
  | propertyName | argumentsEnd | superDot | superMethodName | groupEnd
deriving Repr, DecidableEq

namespace Expectation

def kind : Expectation → TokenKind
  | className | superclassName | callableName _ | parameterName | variableName | propertyName
  | superMethodName => .identifier
  | classBodyStart | callableBodyStart _ => .leftBrace
  | classBodyEnd | blockEnd => .rightBrace
  | paramsStart _ | forStart | ifStart | whileStart => .leftParen
  | paramsEnd | forClausesEnd | ifConditionEnd | whileConditionEnd | argumentsEnd | groupEnd =>
    .rightParen
  | varDeclEnd | breakEnd | continueEnd | loopConditionEnd | printEnd | expressionEnd
  | returnEnd => .semicolon
  | superDot => .dot

def text : Expectation → String
  | className => "class name"
  | superclassName => "superclass name"
  | classBodyStart => "'\x7b' before class body"
  | classBodyEnd => "'\x7d' after class body"
  | callableName kind => kind.text ++ " name"
  | paramsStart kind => "'(' after " ++ kind.text ++ " name"
  | parameterName => "parameter name"
  | paramsEnd => "')' after parameters"
  | callableBodyStart kind => "'\x7b' before " ++ kind.text ++ " body"
  | variableName => "variable name"
  | varDeclEnd => "';' after variable declaration"
  | breakEnd => "';' after 'break'"
  | continueEnd => "';' after 'continue'"
  | forStart => "'(' after 'for'"
  | loopConditionEnd => "';' after loop condition"
  | forClausesEnd => "')' after for clauses"
  | printEnd => "';' after value"
  | expressionEnd => "';' after expression"
  | ifStart => "'(' after 'if'"
  | ifConditionEnd => "')' after if condition"
  | whileStart => "'(' after 'while'"
  | whileConditionEnd => "')' after condition"
  | returnEnd => "';' after return value"
  | blockEnd => "'\x7d' after block"
  | propertyName => "property name after '.'"
  | argumentsEnd => "')' after arguments"
  | superDot => "'.' after 'super'"
  | superMethodName => "superclass method name"
  | groupEnd => "')' after expression"

end Expectation

inductive ParseFault where
  | expected (what : Expectation)
  | expectedExpression (found : String)
  | missingLiteral
  | invalidAssignmentTarget
  | trailing (found : String)
  | tooManyParameters
  | tooManyArguments
deriving Repr, DecidableEq

def ParseFault.message : ParseFault → String
  | expected what => "Expected " ++ what.text
  | expectedExpression found => "Expected expression, found '" ++ found ++ "'"
  | missingLiteral => "Literal token without a value"
  | invalidAssignmentTarget => "Invalid assignment target"
  | trailing found => "Unexpected '" ++ found ++ "' after expression"
  | tooManyParameters => "Can't have more than 255 parameters."
  | tooManyArguments => "Can't have more than 255 arguments."

abbrev ParseError := Located ParseFault

end ClassScript
