import ClassScript.Diagnostic
import ClassScript.Parser.Statement
import ClassScript.Machine.Eval

namespace ClassScript

def Halt.diagnostic : Halt → Diagnostic
  | .fault e => .runtime e
  | .outOfFuel => .outOfFuel

namespace Run

/-- Executes the statements of a program.  What leaves a loop or a body has nothing to leave. -/
def program (host : Host) (fuel : Nat) : List Stmt → Run Unit
  | [] => return ()
  | s :: rest => do
    match ← exec host fuel s with
    | .normal => program host fuel rest
    | .break line => strayExit .break line
    | .continue line => strayExit .continue line
    | .return _ line => fail .topLevelReturn line

end Run

namespace Machine

def analyse (m : Machine) (program : List Stmt) : Except BindingError Unit × Machine :=
  match Binding.walkProgram program m.distances with
  | .ok _ distances => (.ok (), { m with distances })
  | .error e distances => (.error e, { m with distances })

def perform {α : Type} (m : Machine) (part : Run α) : Except Halt α × Machine :=
  match part m with
  | .ok a m => (.ok a, m)
  | .error e m => (.error e, m)

def runAnalysed (host : Host) (fuel : Nat) (m : Machine) (program : List Stmt) :
    Except Halt Unit × Machine :=
  let (result, m) := m.perform (Run.program host fuel program)
  (result, { m with store := m.store.collect m.environment })

def interpret (host : Host) (fuel : Nat) (m : Machine) (program : List Stmt) :
    Except Diagnostic Unit × Machine :=
  match m.analyse program with
  | (.error e, m) => (.error (.binding e), m)
  | (.ok _, m) =>
    match m.runAnalysed host fuel program with
    | (.ok _, m) => (.ok (), m)
    | (.error halt, m) => (.error halt.diagnostic, m)

end Machine

def ampleFuel : Nat := 4611686018427387904

structure Session where
  machine : Machine
  nextId : Nat

namespace Session

def initial : Session := ⟨Machine.initial, 0⟩

def nextStep (s : Session) : Session :=
  { s with machine := { s.machine with output := #[], started := 0 } }

def parse (s : Session) (source : String) : Except (List Diagnostic) (List Stmt) × Session :=
  match lex source with
  | .error e => (.error [.lex e], s)
  | .ok tokens =>
    let parsed := parseProgram s.nextId tokens
    (parsed.result.mapError (·.map .parse), { s with nextId := parsed.nextId })

def parseExpr (s : Session) (source : String) : Except Diagnostic Expr × Session :=
  match lex source with
  | .error e => (.error (.lex e), s)
  | .ok tokens =>
    let parsed := parseExpression s.nextId tokens
    (parsed.result.mapError .parse, { s with nextId := parsed.nextId })

def run (host : Host) (s : Session) (source : String) : List Diagnostic × Session :=
  match s.parse source with
  | (.error ds, s) => (ds, s)
  | (.ok program, s) =>
    match s.machine.interpret host ampleFuel program with
    | (.ok _, machine) => ([], { s with machine })
    | (.error d, machine) => ([d], { s with machine })

/-- The value of an expression that is not analysed: all its names are global. -/
def evaluate (host : Host) (s : Session) (e : Expr) : Except Diagnostic Value × Session :=
  let (result, machine) := s.machine.perform (Run.eval host ampleFuel e)
  (result.mapError Halt.diagnostic, { s with machine })

def evaluateSource (host : Host) (s : Session) (source : String) :
    Except Diagnostic Value × Session :=
  match s.parseExpr source with
  | (.error d, s) => (.error d, s)
  | (.ok e, s) => s.evaluate host e

def execute (host : Host) (s : Session) (statement : Stmt) : Except Diagnostic Signal × Session :=
  let (result, machine) := s.machine.perform (Run.exec host ampleFuel statement)
  (result.mapError Halt.diagnostic, { s with machine })

/-- Executes statements that are not analysed, also behind one that fails. -/
def executeAll (host : Host) (s : Session) :
    List Stmt → List (Except Diagnostic Signal) × Session
  | [] => ([], s)
  | statement :: rest =>
    let (result, s) := s.execute host statement
    let (results, s) := s.executeAll host rest
    (result :: results, s)

end Session

end ClassScript
