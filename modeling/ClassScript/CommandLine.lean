import ClassScript.Session
import ClassScript.Syntax.Document
import ClassScript.Syntax.Printer
import ClassScript.Text.Quoted
import ClassScript.Text.Utf8

namespace ClassScript.CommandLine

inductive Command where
  | tokenize (json : Bool)
  | parse (json : Bool)
  | evaluate
  | run
deriving Repr, DecidableEq

structure Invocation where
  command : Command
  file : Option String
  maxDepth : Nat
deriving Repr, DecidableEq

inductive UsageFault where
  | missingCommand
  | unknownCommand (name : String)
  | unexpectedArgument (argument : String)
  | missingValue
  | invalidValue (value : String)
deriving Repr, DecidableEq

def UsageFault.message : UsageFault → String
  | missingCommand => "a command is required: tokenize, parse, evaluate or run"
  | unknownCommand name => "unrecognized subcommand '" ++ name ++ "'"
  | unexpectedArgument argument => "unexpected argument '" ++ argument ++ "' found"
  | missingValue => "a value is required for '--max-depth <N>' but none was supplied"
  | invalidValue value => "invalid value '" ++ value ++ "' for '--max-depth <N>'"

structure Partial where
  command : Option String
  file : Option String
  json : Bool
  maxDepth : Option Nat

def natural? (text : String) : Option Nat :=
  let digits := match text.toList with
    | '+' :: rest => rest
    | all => all
  let n := Number.Decimal.naturalOfDigits digits
  if digits.isEmpty || digits.any (!·.isDigit) || UInt64.size ≤ n then none else some n

def Partial.withDepth (p : Partial) (text : String) : Except UsageFault Partial :=
  match natural? text with
  | some n => .ok { p with maxDepth := some n }
  | none => .error (.invalidValue text)

def Partial.withWord (p : Partial) (word : String) : Except UsageFault Partial :=
  match p.command, p.file with
  | none, _ => .ok { p with command := some word }
  | some _, none => .ok { p with file := some word }
  | some _, some _ => .error (.unexpectedArgument word)

def depthOption : String := "--max-depth"

def Partial.withWords (p : Partial) : List String → Except UsageFault Partial
  | [] => .ok p
  | word :: rest => p.withWord word >>= (·.withWords rest)

def readArgs : List String → Partial → Except UsageFault Partial
  | [], p => .ok p
  | arg :: rest, p =>
    if arg == "--log" then readArgs rest p
    else if arg == "--json" && p.command.isSome then readArgs rest { p with json := true }
    else if arg == "--" && p.command.isSome then p.withWords rest
    else if arg == depthOption then
      match rest with
      | [] => .error .missingValue
      | value :: rest => p.withDepth value >>= readArgs rest
    else if arg.startsWith (depthOption ++ "=") then
      p.withDepth (String.ofList (arg.toList.drop (depthOption.length + 1))) >>= readArgs rest
    else if arg.startsWith "-" && arg != "-" then .error (.unexpectedArgument arg)
    else p.withWord arg >>= readArgs rest

def Command.ofName (name : String) (json : Bool) : Except UsageFault Command :=
  match name with
  | "tokenize" => .ok (.tokenize json)
  | "parse" => .ok (.parse json)
  | "evaluate" => if json then .error (.unexpectedArgument "--json") else .ok .evaluate
  | "run" => if json then .error (.unexpectedArgument "--json") else .ok .run
  | _ => .error (.unknownCommand name)

def Invocation.ofArgs (args : List String) : Except UsageFault Invocation := do
  let p ← readArgs args ⟨none, none, false, none⟩
  let some name := p.command | .error .missingCommand
  let command ← Command.ofName name p.json
  return ⟨command, p.file, p.maxDepth.getD defaultMaxDepth⟩

inductive FileAccess where
  | open
  | read
deriving Repr, DecidableEq

def FileAccess.text : FileAccess → String
  | .open => "open"
  | .read => "read"

structure FileFault where
  access : FileAccess
  text : String
  code : Nat
deriving Repr, DecidableEq

namespace FileFault

def missing : FileFault := ⟨.open, "No such file or directory", 2⟩

def message (f : FileFault) (file : String) : String :=
  "Failed to " ++ f.access.text ++ " file " ++ Quoted.quote file ++ "\n\nCaused by:\n    " ++
    f.text ++ " (os error " ++ toString f.code ++ ")"

end FileFault

/-- A clock that shows milliseconds and goes on by one at each reading, so that waiting ends. -/
def clockFrom (milliseconds : Int) (reading : Nat) : Float :=
  Float.ofInt (milliseconds + Int.ofNat reading) / 1000

structure Report where
  stdout : String
  stderr : String
  code : Nat
deriving Repr, DecidableEq

def exitStatic : Nat := 65

def exitRuntime : Nat := 70

def exitUnreadable : Nat := 1

def exitUsage : Nat := 2

def joinLines (lines : List String) : String := String.join (lines.map (· ++ "\n"))

def success (lines : List String) : Report := ⟨joinLines lines, "", 0⟩

def failure (lines : List String) (faults : List Diagnostic) : Report where
  stdout := joinLines lines
  stderr := joinLines (faults.map Diagnostic.display)
  code := if faults.any Diagnostic.isRuntime then exitRuntime else exitStatic

def unreadable (message : String) : Report := ⟨"", "Error: " ++ message ++ "\n", exitUnreadable⟩

def reportTokens (source : String) : Report :=
  let items := scan source
  let faults := items.filterMap fun
    | .ok _ => none
    | .error e => some (Diagnostic.lex e)
  let lines := items.filterMap fun
    | .ok t => some t.display
    | .error _ => none
  if faults.isEmpty then success lines else failure lines faults

def reportDocuments (documents : Except (List Diagnostic) (List Json)) : Report :=
  match documents with
  | .ok items => success [(Json.array items).text]
  | .error faults => failure [] faults

def Command.report (command : Command) (host : Host) (source : String) : Report :=
  match command with
  | .tokenize false => reportTokens source
  | .tokenize true =>
    reportDocuments (((lex source).map (·.map Token.document)).mapError ([.lex ·]))
  | .parse true => reportDocuments ((Session.initial.parse source).1.map (·.map Stmt.document))
  | .parse false =>
    match (Session.initial.parse source).1 with
    | .ok program => success (program.map Stmt.render)
    | .error faults => failure [] faults
  | .evaluate =>
    let (result, session) := Session.initial.evaluateSource host source
    let lines := session.machine.output.toList
    match result with
    | .ok value => success (lines ++ [value.display])
    | .error fault => failure lines [fault]
  | .run =>
    let (faults, session) := Session.initial.run host source
    let lines := session.machine.output.toList
    if faults.isEmpty then success lines else failure lines faults

def Invocation.report (invocation : Invocation) (time : Nat → Float)
    (contents : String → Except FileFault (List UInt8)) : Report :=
  match invocation.file with
  | none => success ["No input filepath was provided. Exiting..."]
  | some file =>
    match contents file with
    | .error fault => unreadable (fault.message file)
    | .ok bytes =>
      match Utf8.decode bytes with
      | .error fault => unreadable fault.message
      | .ok source =>
        let host := { Host.standard time with maxDepth := some invocation.maxDepth }
        invocation.command.report host source

def report (args : List String) (time : Nat → Float)
    (contents : String → Except FileFault (List UInt8)) : Report :=
  match Invocation.ofArgs args with
  | .ok invocation => invocation.report time contents
  | .error fault => ⟨"", "error: " ++ fault.message ++ "\n", exitUsage⟩

end ClassScript.CommandLine
