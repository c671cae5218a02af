import ClassScript.Number.Layout

namespace ClassScript

inductive TokenKind where
  | leftParen | rightParen | leftBrace | rightBrace
  | comma | dot | minus | plus | semicolon | slash | star
  | bang | bangEqual | equal | equalEqual
  | greater | greaterEqual | less | lessEqual
  | identifier | string | number
  | kwAnd | kwBreak | kwClass | kwContinue | kwElse | kwFalse | kwFun | kwFor | kwIf | kwNil | kwOr
  | kwPrint | kwReturn | kwSuper | kwThis | kwTrue | kwVar | kwWhile
  | eof
deriving Repr, DecidableEq

namespace TokenKind

def names : List (TokenKind × String) :=
  [(leftParen, "LEFT_PAREN"), (rightParen, "RIGHT_PAREN"), (leftBrace, "LEFT_BRACE"),
   (rightBrace, "RIGHT_BRACE"), (comma, "COMMA"), (dot, "DOT"), (minus, "MINUS"), (plus, "PLUS"),
   (semicolon, "SEMICOLON"), (slash, "SLASH"), (star, "STAR"), (bang, "BANG"),
   (bangEqual, "BANG_EQUAL"), (equal, "EQUAL"), (equalEqual, "EQUAL_EQUAL"), (greater, "GREATER"),
   (greaterEqual, "GREATER_EQUAL"), (less, "LESS"), (lessEqual, "LESS_EQUAL"),
   (identifier, "IDENTIFIER"), (string, "STRING"), (number, "NUMBER"), (kwAnd, "AND"),
   (kwBreak, "BREAK"), (kwClass, "CLASS"), (kwContinue, "CONTINUE"), (kwElse, "ELSE"),
   (kwFalse, "FALSE"), (kwFun, "FUN"), (kwFor, "FOR"), (kwIf, "IF"), (kwNil, "NIL"), (kwOr, "OR"),
   (kwPrint, "PRINT"), (kwReturn, "RETURN"), (kwSuper, "SUPER"), (kwThis, "THIS"),
   (kwTrue, "TRUE"), (kwVar, "VAR"), (kwWhile, "WHILE"), (eof, "EOF")]

def name (k : TokenKind) : String := (names.lookup k).getD ""

def ofName? (name : String) : Option TokenKind :=
  (names.find? (·.2 == name)).map (·.1)

def keywords : List (String × TokenKind) :=
  [("and", kwAnd), ("break", kwBreak), ("class", kwClass), ("continue", kwContinue),
   ("else", kwElse), ("false", kwFalse), ("fun", kwFun), ("for", kwFor), ("if", kwIf),
   ("nil", kwNil), ("or", kwOr), ("print", kwPrint), ("return", kwReturn), ("super", kwSuper),
   ("this", kwThis), ("true", kwTrue), ("var", kwVar), ("while", kwWhile)]

def ofWord (word : String) : TokenKind := (keywords.lookup word).getD identifier

end TokenKind

inductive Literal where
  | number (value : Float)
  | string (text : String)
  | bool (value : Bool)
  | nil
deriving Repr, DecidableEq

namespace Literal

/-- Constants keep a fraction on whole numbers below `10^15`, and zero has no sign. -/
def numberForm : Number.Layout where
  tie := .up
  positional := fun _ => true
  pointZero := fun e => e < 15
  signedZero := false
  nan := "NaN"
  infinity := "inf"
  negativeInfinity := "-inf"

def display : Literal → String
  | number x => numberForm.write x
  | string s => s
  | bool true => "true"
  | bool false => "false"
  | nil => "nil"

end Literal

structure Token where
  kind : TokenKind
  lexeme : String
  literal : Option Literal
  line : Nat
deriving Repr, DecidableEq

namespace Token

def endOfInput (line : Nat) : Token := ⟨.eof, "", none, line⟩

def display (t : Token) : String :=
  t.kind.name ++ " " ++ t.lexeme ++ " " ++ (t.literal.map Literal.display).getD "null"

end Token

end ClassScript
