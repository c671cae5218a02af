import ClassScript.Proofs.Lexical.Moments

namespace ClassScript.Run

open Store Machine

variable {α : Type} {host : Host} {p q : Moment}

def behind (ended : EStateM.Result Halt Machine α) (parts : α → Machine → List Moment) :
    List Moment :=
  match ended with
  | .ok a n => parts a n
  | .error .. => []

theorem mem_behind {ended : EStateM.Result Halt Machine α} {parts : α → Machine → List Moment}
    {a : α} {n : Machine} (run : ended = .ok a n) (mem : q ∈ parts a n) :
    q ∈ behind ended parts := by
  rw [run]
  exact mem

theorem mem_then {first : Moment} {ended : EStateM.Result Halt Machine α}
    {parts : α → Machine → List Moment} {a : α} {n : Machine} (run : ended = .ok a n)
    (mem : q ∈ parts a n) : q ∈ first :: behind ended parts :=
  List.mem_cons_of_mem _ (mem_behind run mem)

def evalParts (host : Host) (fuel : Nat) (m : Machine) : Expr → List Moment
  | .literal .. => []
  | .grouping inner => [⟨fuel, .eval inner, m⟩]
  | .var name => [⟨fuel, .lookup name name.token.lexeme, m⟩]
  | .assign name e =>
    ⟨fuel, .eval e, m⟩ :: behind (eval host fuel e m) fun v n => [⟨fuel, .assign name v, n⟩]
  | .logical left operator right =>
    ⟨fuel, .eval left, m⟩ :: behind (eval host fuel left m) fun l n =>
      if Operator.shortCircuits operator l then [] else [⟨fuel, .eval right, n⟩]
  | .binary left _ right =>
    ⟨fuel, .eval left, m⟩ :: behind (eval host fuel left m) fun _ n => [⟨fuel, .eval right, n⟩]
  | .unary _ operand => [⟨fuel, .eval operand, m⟩]
  | .call callee paren arguments =>
    ⟨fuel, .eval callee, m⟩ :: behind (eval host fuel callee m) fun f n =>
      ⟨fuel, .evalAll arguments, n⟩ :: behind (evalAll host fuel arguments n) fun args o =>
        [⟨fuel, .call f args paren.line, o⟩]
  | .get object _ => [⟨fuel, .eval object, m⟩]
  | .set object _ value =>
    ⟨fuel, .eval object, m⟩ :: behind (eval host fuel object m) fun target n =>
      match target with
      | .instance .. => [⟨fuel, .eval value, n⟩]
      | _ => []
  | .this keyword => [⟨fuel, .lookup keyword receiverName, m⟩]
  | .super keyword method => [⟨fuel, .superMethod keyword method, m⟩]

def callParts (fuel : Nat) (m : Machine) (args : List Value) (line : Nat) : Value → List Moment
  | .function _ closure | .bound _ closure =>
    if args.length = closure.decl.arity then [⟨fuel, .invoke closure args line, m⟩] else []
  | .class object =>
    if args.length = object.arity then
      behind (newInstance m) fun id n =>
        match object.method? ClassObject.initializerName with
        | some init => behind (bindMethod init (.instance id object) n) fun closure o =>
          [⟨fuel, .invoke closure args line, o⟩]
        | none => []
    else []
  | _ => []

def bodyParts (host : Host) (fuel : Nat) (m : Machine) (closure : Closure) (args : List Value)
    (line : Nat) : List Moment :=
  behind (checkDepth host line m) fun _ n => behind (callScope closure args n) fun scope o =>
    [⟨fuel, .execAll closure.decl.body,
      { o with
        environment := scope
        frame := ⟨if closure.isInitializer then .initializer else .function, 0⟩
        callDepth := o.callDepth + 1 }⟩]

def execParts (host : Host) (fuel : Nat) (m : Machine) : Stmt → List Moment
  | .expression e | .print e | .varDecl _ (some e) => [⟨fuel, .eval e, m⟩]
  | .block body _ => behind (newScope m.environment m) fun scope n =>
    [⟨fuel, .execAll body, { n with environment := scope }⟩]
  | .branch condition thenBranch elseBranch =>
    ⟨fuel, .eval condition, m⟩ :: behind (eval host fuel condition m) fun v n =>
      if v.truthy then [⟨fuel, .exec thenBranch, n⟩]
      else elseBranch.toList.map fun other => ⟨fuel, .exec other, n⟩
  | .loop condition body increment =>
    [⟨fuel, .execLoop condition body increment,
      { m with frame := { m.frame with loopDepth := m.frame.loopDepth + 1 } }⟩]
  | .classDecl decl =>
    match decl.superclass with
    | some parent =>
      if parent.token.lexeme = decl.name.lexeme then []
      else [⟨fuel, .lookup parent parent.token.lexeme, m⟩]
    | none => []
  | .return keyword (some e) => behind (checkReturn keyword (some e) m) fun _ n =>
    [⟨fuel, .eval e, n⟩]
  | _ => []

def roundParts (host : Host) (fuel : Nat) (m : Machine) (condition : Expr) (body : Stmt)
    (increment : Option Expr) : Signal → List Moment
  | .normal | .continue _ =>
    match increment with
    | some e => ⟨fuel, .eval e, m⟩ :: behind (eval host fuel e m) fun _ n =>
      [⟨fuel, .execLoop condition body (some e), n⟩]
    | none => [⟨fuel, .execLoop condition body none, m⟩]
  | _ => []

def loopParts (host : Host) (fuel : Nat) (m : Machine) (condition : Expr) (body : Stmt)
    (increment : Option Expr) : List Moment :=
  ⟨fuel, .eval condition, m⟩ :: behind (eval host fuel condition m) fun v n =>
    if v.truthy then
      ⟨fuel, .exec body, n⟩ :: behind (exec host fuel body n) fun signal o =>
        roundParts host fuel o condition body increment signal
    else []

def listParts (host : Host) (fuel : Nat) (m : Machine) (task : List Stmt → Task) :
    List Stmt → List Moment
  | [] => []
  | s :: rest => ⟨fuel, .exec s, m⟩ :: behind (exec host fuel s m) fun signal n =>
    match signal with
    | .normal => [⟨fuel, task rest, n⟩]
    | _ => []

def taskParts (host : Host) (fuel : Nat) (m : Machine) : Task → List Moment
  | .eval e => evalParts host fuel m e
  | .evalAll (e :: rest) =>
    ⟨fuel, .eval e, m⟩ :: behind (eval host fuel e m) fun _ n => [⟨fuel, .evalAll rest, n⟩]
  | .call f args line => callParts fuel m args line f
  | .invoke closure args line => bodyParts host fuel m closure args line
  | .exec s => behind ((do start host s.line; collectIfDue host) m) fun _ n =>
    execParts host fuel n s
  | .execAll ss => listParts host fuel m .execAll ss
  | .execLoop condition body increment => loopParts host fuel m condition body increment
  | _ => []

/-- The tasks that a moment's task is made of, one behind the other. -/
def Moment.parts (host : Host) (p : Moment) : List Moment :=
  match p.task, p.fuel with
  | .program ss, fuel => listParts host fuel p.machine .program ss
  | task, fuel + 1 => taskParts host fuel p.machine task
  | _, 0 => []

theorem mem_roundParts {fuel : Nat} {m : Machine} {signal : Signal} {condition : Expr}
    {body : Stmt} {increment : Option Expr} (goesOn : GoesOn signal)
    (mem : q ∈ roundParts host fuel m condition body increment .normal) :
    q ∈ roundParts host fuel m condition body increment signal := by
  cases signal with
  | normal | «continue» line => exact mem
  | «break» line | «return» value line => exact goesOn.elim

theorem mem_parts (enters : Enters host p q) : q ∈ p.parts host := by
  cases enters with
  | grouping | var | assigned | logicalLeft | binaryLeft | unary | callee | get | setObject | this
  | super | firstExpr | firstStmt | loopCondition | firstOfProgram => exact List.mem_cons_self
  | assign run | binaryRight run | arguments run | setValue run | otherExprs run | otherStmts run
  | restOfProgram run => exact mem_then run List.mem_cons_self
  | logicalRight run goesOn => exact mem_then run (by simp [goesOn])
  | call callee arguments => exact mem_then callee (mem_then arguments List.mem_cons_self)
  | function same | bound same => simp [Moment.parts, taskParts, callParts, same]
  | «initializer» same created found bound =>
      simp only [Moment.parts, taskParts, callParts, if_pos same, found]
      exact mem_behind created (mem_behind bound List.mem_cons_self)
  | callBody depth created => exact mem_behind depth (mem_behind created List.mem_cons_self)
  | expression begins | print begins | varDecl begins | branchCondition begins | loop begins =>
      exact mem_behind begins List.mem_cons_self
  | block begins created =>
      apply mem_behind begins
      rw [execParts]
      exact mem_behind created List.mem_cons_self
  | thenBranch begins condition yes =>
      exact mem_behind begins (mem_then condition (by simp [yes]))
  | elseBranch begins condition no =>
      exact mem_behind begins (mem_then condition (by simp [no]))
  | superclass begins named ne =>
      apply mem_behind begins
      simp [execParts, named, ne]
  | returned begins checked => exact mem_behind begins (mem_behind checked List.mem_cons_self)
  | loopBody condition yes => exact mem_then condition (by simp [yes])
  | increment condition yes body goesOn | again condition yes body goesOn =>
      apply mem_then condition
      rw [if_pos yes]
      exact mem_then body (mem_roundParts goesOn List.mem_cons_self)
  | incremented condition yes body goesOn increment =>
      apply mem_then condition
      rw [if_pos yes]
      exact mem_then body (mem_roundParts goesOn (mem_then increment List.mem_cons_self))

end ClassScript.Run
