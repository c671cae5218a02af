namespace ClassScript

inductive Json where
  | null
  | string (text : String)
  | number (text : String)
  | count (n : Nat)
  | array (items : List Json)
  | object (fields : List (String × Json))

namespace Json

def hexDigit (n : Nat) : Char := (Nat.toDigits 16 n).headD '0'

def escape (c : Char) : List Char :=
  match c with
  | '"' => ['\\', '"']
  | '\\' => ['\\', '\\']
  | '\n' => ['\\', 'n']
  | '\r' => ['\\', 'r']
  | '\t' => ['\\', 't']
  | '\x08' => ['\\', 'b']
  | '\x0c' => ['\\', 'f']
  | _ =>
    if c.toNat < 0x20 then ['\\', 'u', '0', '0', hexDigit (c.toNat / 16), hexDigit (c.toNat % 16)]
    else [c]

def quote (text : String) : String := "\"" ++ String.ofList (text.toList.flatMap escape) ++ "\""

def indentation (depth : Nat) : String := String.ofList (List.replicate (2 * depth) ' ')

def lines (depth : Nat) (opening closing : String) (parts : List String) : String :=
  if parts.isEmpty then opening ++ closing
  else
    let start := "\n" ++ indentation (depth + 1)
    opening ++ start ++ String.intercalate ("," ++ start) parts ++ "\n" ++ indentation depth ++
      closing

mutual

def pretty (depth : Nat) : Json → String
  | null => "null"
  | string text => quote text
  | number text => text
  | count n => toString n
  | array items => lines depth "[" "]" (prettyItems (depth + 1) items)
  | object fields => lines depth "\x7b" "\x7d" (prettyFields (depth + 1) fields)

def prettyItems (depth : Nat) : List Json → List String
  | [] => []
  | item :: items => item.pretty depth :: prettyItems depth items

def prettyFields (depth : Nat) : List (String × Json) → List String
  | [] => []
  | (name, value) :: fields =>
    (quote name ++ ": " ++ value.pretty depth) :: prettyFields depth fields

end

def text (document : Json) : String := document.pretty 0

end Json

end ClassScript
