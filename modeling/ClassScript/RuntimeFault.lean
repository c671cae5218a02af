import ClassScript.Fault

namespace ClassScript

inductive LoopExit where
  | break
  | continue
deriving Repr, DecidableEq

def LoopExit.text : LoopExit → String
  | .break => "break"
  | .continue => "continue"

inductive RuntimeFault where
  | undefinedVariable (name : String)
  | undefinedProperty (name : String)
  | operandNotNumber
  | operandsNotNumbers
  | operandsNotAddable
  | invalidUnary (operator : String)
  | invalidBinary (operator : String)
  | notCallable
  | wrongArity (expected got : Nat)
  | noProperties
  | noFields
  | superclassNotClass
  | inheritsItself
  | superOutsideClass
  | invalidSuper
  | outsideLoop (exit : LoopExit)
  | topLevelReturn
  | initializerReturnsValue
  | stackOverflow
  | interrupted
deriving Repr, DecidableEq

def RuntimeFault.message : RuntimeFault → String
  | undefinedVariable name => "Undefined variable '" ++ name ++ "'."
  | undefinedProperty name => "Undefined property '" ++ name ++ "'."
  | operandNotNumber => "Operand must be a number."
  | operandsNotNumbers => "Operands must be numbers."
  | operandsNotAddable => "Operands must be two numbers or two strings."
  | invalidUnary operator => "Invalid unary operator '" ++ operator ++ "'."
  | invalidBinary operator => "Invalid binary operator '" ++ operator ++ "'."
  | notCallable => "Can only call functions and classes."
  | wrongArity expected got =>
    "Expected " ++ toString expected ++ " arguments but got " ++ toString got ++ "."
  | noProperties => "Only instances have properties."
  | noFields => "Only instances have fields."
  | superclassNotClass => "Superclass must be a class."
  | inheritsItself => "A class can't inherit from itself."
  | superOutsideClass => "Can't use 'super' outside of a class."
  | invalidSuper => "Invalid 'super' binding."
  | outsideLoop exit => "Can't use '" ++ exit.text ++ "' outside of a loop."
  | topLevelReturn => "Can't return from top-level code."
  | initializerReturnsValue => "Can't return a value from an initializer."
  | stackOverflow => "Stack overflow."
  | interrupted => "Execution interrupted."

abbrev RuntimeError := Located RuntimeFault

end ClassScript
