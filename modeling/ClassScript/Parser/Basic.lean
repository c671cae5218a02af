import ClassScript.Parser.Fault
import ClassScript.Syntax

/-!
Parsers over the tokens of a program.

A parser's state holds the tokens up to the end token, which is kept apart: it is what a parser
sees when no token is left.  A failing parser keeps the state it failed in, so that the caller can
record the fault and go on behind it.

Loops and nested parsers take a bound on the number of tokens that are left.  With bound zero there
is no token, and each of them does what it does at the end of the input.
-/

namespace ClassScript

structure Parser.State where
  tokens : List Token
  stop : Token
  nextId : Nat
  recorded : List ParseError

abbrev Parser := EStateM ParseError Parser.State

namespace Parser

/-- The state in front of a list of tokens, which may lack its end token. -/
def State.start (firstId : Nat) (tokens : List Token) : State where
  tokens := tokens.takeWhile (·.kind != .eof)
  stop := (tokens.find? (·.kind == .eof)).getD
    (Token.endOfInput ((tokens.getLast?.map Token.line).getD 1))
  nextId := firstId
  recorded := []

def State.front (s : State) : Token := s.tokens.headD s.stop

def peek : Parser Token := fun s => .ok s.front s

def sees (kind : TokenKind) : Parser Bool := fun s =>
  .ok (s.tokens.head?.any (·.kind == kind)) s

def advance : Parser Unit := fun s => .ok () { s with tokens := s.tokens.tail }

def accept? (wanted : TokenKind → Bool) : Parser (Option Token) := fun s =>
  match s.tokens with
  | t :: rest => if wanted t.kind then .ok (some t) { s with tokens := rest } else .ok none s
  | [] => .ok none s

def expect (what : Expectation) : Parser Token := do
  match ← accept? (· == what.kind) with
  | some t => return t
  | none => throw ⟨.expected what, (← peek).line⟩

def noExpression {α : Type} : Parser α := do
  let t ← peek
  throw ⟨.expectedExpression t.lexeme, t.line⟩

def freshId : Parser Nat := fun s => .ok s.nextId { s with nextId := s.nextId + 1 }

def record (fault : ParseFault) : Parser Unit := fun s =>
  .ok () { s with recorded := s.recorded ++ [⟨fault, s.front.line⟩] }

def maxListLength : Nat := 255

/-- Items with commas between them.  The item after the greatest number is reported once. -/
def commaList {α : Type} (tooMany : ParseFault) (item : Parser α) :
    (bound count : Nat) → Parser (List α)
  | bound, count => do
    if count == maxListLength then record tooMany
    let a ← item
    match bound with
    | 0 => return [a]
    | bound + 1 =>
      match ← accept? (· == .comma) with
      | some _ => return a :: (← commaList tooMany item bound (count + 1))
      | none => return [a]

def many {α : Type} (stops : TokenKind → Bool) (item : Parser α) : (bound : Nat) → Parser (List α)
  | 0 => return []
  | bound + 1 => fun s =>
    match s.tokens with
    | [] => .ok [] s
    | t :: _ =>
      if stops t.kind then .ok [] s
      else (do return (← item) :: (← many stops item bound) : Parser (List α)) s

end Parser

end ClassScript
