import ClassScript.Token.Scan
import ClassScript.Parser.Fault
import ClassScript.Binding
import ClassScript.RuntimeFault

namespace ClassScript

inductive Diagnostic where
  | lex (error : LexError)
  | parse (error : ParseError)
  | binding (error : BindingError)
  | runtime (error : RuntimeError)
  | outOfFuel

namespace Diagnostic

def message : Diagnostic → String
  | lex e => e.fault.message
  | parse e => e.fault.message
  | binding e => e.fault.message
  | runtime e => e.fault.message
  | outOfFuel => "Out of fuel."

def line? : Diagnostic → Option Nat
  | lex e => some e.line
  | parse e => some e.line
  | binding e => some e.line
  | runtime e => some e.line
  | outOfFuel => none

def display (d : Diagnostic) : String :=
  match d.line? with
  | some line => reportLine line d.message
  | none => d.message

def isRuntime : Diagnostic → Bool
  | runtime _ => true
  | outOfFuel => true
  | _ => false

end Diagnostic

end ClassScript
