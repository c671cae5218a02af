import ClassScript.Machine
import ClassScript.Machine.Operator

namespace ClassScript.Run

def strayExit {α : Type} (exit : LoopExit) (line : Nat) : Run α := fail (.outsideLoop exit) line

def checkDepth (host : Host) (line : Nat) : Run Unit := do
  match host.maxDepth with
  | some limit => if limit ≤ (← get).callDepth then fail .stackOverflow line
  | none => pure ()

def callScope (closure : Closure) (args : List Value) : Run Address := do
  let scope ← newScope closure.scope
  defineAllIn scope ((closure.decl.params.map Token.lexeme).zip args)
  return scope

/-- What a call yields: initializers yield their receiver, others what they return. -/
def callResult (closure : Closure) (line : Nat) (value : Value) : Run Value := do
  if closure.isInitializer then
    ofExcept ((← get).store.getAt closure.scope 0 Store.receiverName line)
  else return value

def superclassOf (decl : ClassDecl Stmt) : Run (Option ClassObject) := do
  match decl.superclass with
  | none => return none
  | some parent =>
    let name := parent.token.lexeme
    let line := parent.token.line
    if name == decl.name.lexeme then fail .inheritsItself line
    else
      match ← lookup parent name with
      | .class object => return some object
      | _ => fail .superclassNotClass line

/-- The scope that the methods of a class are declared in: a subclass has one for `super`. -/
def methodScope (superclass : Option ClassObject) : Run Address := do
  let environment := (← get).environment
  match superclass with
  | none => return environment
  | some object =>
    let scope ← newScope environment
    defineIn scope Store.superclassName (.class object)
    return scope

def declareClass (decl : ClassDecl Stmt) : Run Unit := do
  let superclass ← superclassOf decl
  let scope ← methodScope superclass
  let name := decl.name.lexeme
  define name (← newClass name superclass (decl.methods.map (Store.methodEntry scope)))

def declareFunction (decl : FunctionDecl Stmt) : Run Unit := do
  define decl.name.lexeme (← newFunction decl (← get).environment)

def checkReturn (keyword : Token) (value : Option Expr) : Run Unit := do
  match (← get).frame.kind with
  | .script => fail .topLevelReturn keyword.line
  | .initializer => if value.isSome then fail .initializerReturnsValue keyword.line
  | .function => pure ()

def leaveLoop (exit : LoopExit) (line : Nat) (signal : Signal) : Run Signal := do
  if (← get).frame.loopDepth == 0 then strayExit exit line else return signal

mutual

def eval (host : Host) : (fuel : Nat) → Expr → Run Value
  | 0, _ => throw .outOfFuel
  | fuel + 1, e =>
    match e with
    | .literal value _ => return value.value
    | .grouping inner => eval host fuel inner
    | .var name => lookup name name.token.lexeme
    | .assign name value => do
      let v ← eval host fuel value
      assign name v
      return v
    | .logical left operator right => do
      let l ← eval host fuel left
      if Operator.shortCircuits operator l then return l else eval host fuel right
    | .binary left operator right => do
      let l ← eval host fuel left
      let r ← eval host fuel right
      ofExcept (Operator.binary operator l r)
    | .unary operator operand => do
      let v ← eval host fuel operand
      ofExcept (Operator.unary operator v)
    | .call callee paren arguments => do
      let f ← eval host fuel callee
      let args ← evalAll host fuel arguments
      call host fuel f args paren.line
    | .get object name => do
      match ← eval host fuel object with
      | .instance id cls => readProperty id cls name.lexeme name.line
      | _ => fail .noProperties name.line
    | .set object name value => do
      match ← eval host fuel object with
      | .instance id _ =>
        let v ← eval host fuel value
        setField id name.lexeme v
        return v
      | _ => fail .noFields name.line
    | .this keyword => lookup keyword Store.receiverName
    | .super keyword method => superMethod keyword method

def evalAll (host : Host) : (fuel : Nat) → List Expr → Run (List Value)
  | 0, _ => throw .outOfFuel
  | fuel + 1, es =>
    match es with
    | [] => return []
    | e :: rest => do
      let v ← eval host fuel e
      let vs ← evalAll host fuel rest
      return v :: vs

def call (host : Host) : (fuel : Nat) → Value → List Value → (line : Nat) → Run Value
  | 0, _, _, _ => throw .outOfFuel
  | fuel + 1, callee, args, line => do
    match callee.arity? with
    | none => fail .notCallable line
    | some arity =>
      if args.length ≠ arity then fail (.wrongArity arity args.length) line
      else
        match callee with
        | .function _ closure => invoke host fuel closure args line
        | .bound _ closure => invoke host fuel closure args line
        | .class object => do
          let id ← newInstance
          match object.method? ClassObject.initializerName with
          | some init => do
            let closure ← bindMethod init (.instance id object)
            discard <| invoke host fuel closure args line
            return .instance id object
          | none => return .instance id object
        | _ => readClock host

def invoke (host : Host) : (fuel : Nat) → Closure → List Value → (line : Nat) → Run Value
  | 0, _, _, _ => throw .outOfFuel
  | fuel + 1, closure, args, line => do
    checkDepth host line
    let scope ← callScope closure args
    let kind : FrameKind := if closure.isInitializer then .initializer else .function
    match ← inCall kind scope (execAll host fuel closure.decl.body) with
    | .normal => callResult closure line .nil
    | .return value _ => callResult closure line value
    | .break line => strayExit .break line
    | .continue line => strayExit .continue line

def exec (host : Host) : (fuel : Nat) → Stmt → Run Signal
  | 0, _ => throw .outOfFuel
  | fuel + 1, s => do
    start host s.line
    collectIfDue host
    match s with
    | .expression e => do
      discard <| eval host fuel e
      return .normal
    | .print e => do
      print (← eval host fuel e)
      return .normal
    | .varDecl name initializer => do
      match initializer with
      | some e => do
        define name.lexeme (← eval host fuel e)
        return .normal
      | none => do
        define name.lexeme .nil
        return .normal
    | .block body _ => do
      let scope ← newScope (← get).environment
      inScope scope (execAll host fuel body)
    | .branch condition thenBranch elseBranch => do
      if (← eval host fuel condition).truthy then exec host fuel thenBranch
      else
        match elseBranch with
        | some other => exec host fuel other
        | none => return .normal
    | .loop condition body increment =>
      inLoop (execLoop host fuel condition body increment)
    | .funDecl decl => do
      declareFunction decl
      return .normal
    | .classDecl decl => do
      declareClass decl
      return .normal
    | .return keyword value => do
      checkReturn keyword value
      match value with
      | some e => do
        let v ← eval host fuel e
        return .return v keyword.line
      | none => return .return .nil keyword.line
    | .break keyword => leaveLoop .break keyword.line (.break keyword.line)
    | .continue keyword => leaveLoop .continue keyword.line (.continue keyword.line)

def execAll (host : Host) : (fuel : Nat) → List Stmt → Run Signal
  | 0, _ => throw .outOfFuel
  | fuel + 1, ss =>
    match ss with
    | [] => return .normal
    | s :: rest => do
      match ← exec host fuel s with
      | .normal => execAll host fuel rest
      | signal => return signal

def execLoop (host : Host) :
    (fuel : Nat) → (condition : Expr) → (body : Stmt) → (increment : Option Expr) → Run Signal
  | 0, _, _, _ => throw .outOfFuel
  | fuel + 1, condition, body, increment => do
    if (← eval host fuel condition).truthy then
      match ← exec host fuel body with
      | .break _ => return .normal
      | .return value line => return .return value line
      | _ =>
        match increment with
        | some e => do
          discard <| eval host fuel e
          execLoop host fuel condition body increment
        | none => execLoop host fuel condition body increment
    else return .normal

end

end ClassScript.Run
