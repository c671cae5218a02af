import ClassScript.Token
import ClassScript.Fault

namespace ClassScript

inductive LexFault where
  | unexpected (c : Char)
  | unterminatedString
deriving Repr, DecidableEq

def LexFault.message : LexFault → String
  | unexpected c => "Unexpected character: " ++ c.toString
  | unterminatedString => "Unterminated string."

abbrev LexError := Located LexFault

namespace Scan

inductive Meaning where
  | gap
  | token (kind : TokenKind) (literal : Option Literal)
  | fault (fault : LexFault)

structure Piece where
  meaning : Meaning
  tail : List Char
  rest : List Char

def continuesWord (c : Char) : Bool := c.isAlphanum || c == '_'

def startsWord (c : Char) : Bool := c.isAlpha || c == '_'

def single (kind : TokenKind) (rest : List Char) : Piece := ⟨.token kind none, [], rest⟩

def orEqual (long short : TokenKind) : List Char → Piece
  | '=' :: rest => ⟨.token long none, ['='], rest⟩
  | rest => single short rest

def slashOrComment : List Char → Piece
  | '/' :: rest => ⟨.gap, '/' :: rest.takeWhile (· != '\n'), rest.dropWhile (· != '\n')⟩
  | rest => single .slash rest

def stringTail (text : List Char) : Piece :=
  let content := text.takeWhile (· != '\'')
  match text.dropWhile (· != '\'') with
  | [] => ⟨.fault .unterminatedString, content, []⟩
  | quote :: rest =>
    ⟨.token .string (some (.string (String.ofList content))), content ++ [quote], rest⟩

def numberMeaning (whole fraction : List Char) : Meaning :=
  .token .number (some (.number (Number.Decimal.ofDigits whole fraction).toFloat))

def numberTail (first : Char) (text : List Char) : Piece :=
  let whole := text.takeWhile Char.isDigit
  match text.dropWhile Char.isDigit with
  | '.' :: d :: rest =>
    if d.isDigit then
      let fraction := d :: rest.takeWhile Char.isDigit
      ⟨numberMeaning (first :: whole) fraction, whole ++ '.' :: fraction,
        rest.dropWhile Char.isDigit⟩
    else ⟨numberMeaning (first :: whole) [], whole, '.' :: d :: rest⟩
  | rest => ⟨numberMeaning (first :: whole) [], whole, rest⟩

def wordTail (first : Char) (text : List Char) : Piece :=
  let tail := text.takeWhile continuesWord
  ⟨.token (TokenKind.ofWord (String.ofList (first :: tail))) none, tail,
    text.dropWhile continuesWord⟩

def firstPiece (first : Char) (text : List Char) : Piece :=
  match first with
  | '(' => single .leftParen text
  | ')' => single .rightParen text
  | '{' => single .leftBrace text
  | '}' => single .rightBrace text
  | ',' => single .comma text
  | '.' => single .dot text
  | '-' => single .minus text
  | '+' => single .plus text
  | ';' => single .semicolon text
  | '*' => single .star text
  | '!' => orEqual .bangEqual .bang text
  | '=' => orEqual .equalEqual .equal text
  | '<' => orEqual .lessEqual .less text
  | '>' => orEqual .greaterEqual .greater text
  | '/' => slashOrComment text
  | ' ' | '\r' | '\t' | '\n' => ⟨.gap, [], text⟩
  | '\'' => stringTail text
  | _ =>
    if first.isDigit then numberTail first text
    else if startsWord first then wordTail first text
    else ⟨.fault (.unexpected first), [], text⟩

theorem orEqual_tail_append_rest (long short : TokenKind) (text : List Char) :
    (orEqual long short text).tail ++ (orEqual long short text).rest = text := by
  unfold orEqual
  split <;> rfl

theorem slashOrComment_tail_append_rest (text : List Char) :
    (slashOrComment text).tail ++ (slashOrComment text).rest = text := by
  unfold slashOrComment
  split
  · simp
  · rfl

theorem stringTail_tail_append_rest (text : List Char) :
    (stringTail text).tail ++ (stringTail text).rest = text := by
  have whole := List.takeWhile_append_dropWhile (p := (· != '\'')) (l := text)
  unfold stringTail
  split
  · next h => simpa [h] using whole
  · next h => simpa [h] using whole

theorem numberTail_tail_append_rest (first : Char) (text : List Char) :
    (numberTail first text).tail ++ (numberTail first text).rest = text := by
  have whole := List.takeWhile_append_dropWhile (p := Char.isDigit) (l := text)
  unfold numberTail
  split
  · next h =>
    split
    · simpa [h] using whole
    · simpa [h] using whole
  · simp

theorem tail_append_rest (first : Char) (text : List Char) :
    (firstPiece first text).tail ++ (firstPiece first text).rest = text := by
  unfold firstPiece
  split <;> try rfl
  · exact orEqual_tail_append_rest _ _ _
  · exact orEqual_tail_append_rest _ _ _
  · exact orEqual_tail_append_rest _ _ _
  · exact orEqual_tail_append_rest _ _ _
  · exact slashOrComment_tail_append_rest _
  · exact stringTail_tail_append_rest _
  · split
    · exact numberTail_tail_append_rest _ _
    · split
      · simp [wordTail]
      · rfl

theorem rest_length_le (first : Char) (text : List Char) :
    (firstPiece first text).rest.length ≤ text.length := by
  have h := congrArg List.length (tail_append_rest first text)
  rw [List.length_append] at h
  omega

end Scan

def lineBreaks (text : List Char) : Nat := text.count '\n'

/-- The tokens and faults of a text that starts on the given line; each has the line it ends on. -/
def scanFrom (line : Nat) : List Char → List (Except LexError Token)
  | [] => [.ok (Token.endOfInput line)]
  | first :: text =>
    let piece := Scan.firstPiece first text
    let line := line + lineBreaks (first :: piece.tail)
    match piece.meaning with
    | .gap => scanFrom line piece.rest
    | .token kind literal =>
      .ok ⟨kind, String.ofList (first :: piece.tail), literal, line⟩ :: scanFrom line piece.rest
    | .fault fault => .error ⟨fault, line⟩ :: scanFrom line piece.rest
termination_by text => text.length
decreasing_by all_goals exact Nat.lt_succ_of_le (Scan.rest_length_le first text)

def scan (source : String) : List (Except LexError Token) := scanFrom 1 source.toList

def lex (source : String) : Except LexError (List Token) := (scan source).mapM id

end ClassScript
