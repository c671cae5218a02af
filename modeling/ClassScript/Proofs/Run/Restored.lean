import ClassScript.Proofs.Run.Ends
import ClassScript.Proofs.Store.Marking

namespace ClassScript

structure Surroundings where
  environment : Address
  frame : Frame
  callDepth : Nat

def Machine.surroundings (m : Machine) : Surroundings := ⟨m.environment, m.frame, m.callDepth⟩

def Machine.insideLoop (m : Machine) : Machine :=
  { m with frame := { m.frame with loopDepth := m.frame.loopDepth + 1 } }

def Machine.insideCall (m : Machine) (kind : FrameKind) : Machine :=
  { m with frame := ⟨kind, 0⟩, callDepth := m.callDepth + 1 }

/-- In the state `n`, no cell of `m` is lost, and no less statements were started. -/
def Machine.Advances (m n : Machine) : Prop := m.store.Extends n.store ∧ m.started ≤ n.started

theorem Machine.Advances.refl (m : Machine) : m.Advances m := ⟨.refl _, Nat.le_refl _⟩

theorem Machine.Advances.trans {m n o : Machine} (hmn : m.Advances n) (hno : n.Advances o) :
    m.Advances o := ⟨hmn.1.trans hno.1, Nat.le_trans hmn.2 hno.2⟩

structure Machine.Returns (m n : Machine) : Prop where
  surroundings : n.surroundings = m.surroundings
  distances : n.distances = m.distances
  advances : m.Advances n

namespace Machine.Returns

variable {m n o : Machine}

theorem refl (m : Machine) : m.Returns m := ⟨rfl, rfl, .refl m⟩

theorem trans (hmn : m.Returns n) (hno : n.Returns o) : m.Returns o where
  surroundings := hno.surroundings.trans hmn.surroundings
  distances := hno.distances.trans hmn.distances
  advances := hmn.advances.trans hno.advances

theorem of_store {s : Store} (ext : m.store.Extends s) : m.Returns { m with store := s } :=
  ⟨rfl, rfl, ext, Nat.le_refl _⟩

theorem ext (h : m.Returns n) : m.store.Extends n.store := h.advances.1

theorem environment (h : m.Returns n) : n.environment = m.environment :=
  congrArg Surroundings.environment h.surroundings

theorem frame (h : m.Returns n) : n.frame = m.frame :=
  congrArg Surroundings.frame h.surroundings

theorem callDepth (h : m.Returns n) : n.callDepth = m.callDepth :=
  congrArg Surroundings.callDepth h.surroundings

end Machine.Returns

namespace Store

theorem extends_defineAll (s : Store) (a : Address) (entries : List (String × Value)) :
    s.Extends (s.defineAll a entries) := by
  induction entries generalizing s with
  | nil => exact .refl s
  | cons entry rest ih => exact (extends_define s a entry.1 entry.2).trans (ih _)

theorem extends_bindMethod (s : Store) (method : Closure) (receiver : Value) :
    s.Extends (s.bindMethod method receiver).2 :=
  (extends_newScope s method.scope).trans (extends_define _ _ _ _)

theorem extends_boundMethod (s : Store) (method : Closure) (receiver : Value) :
    s.Extends (s.boundMethod method receiver).2 :=
  (extends_bindMethod s method receiver).trans (extends_newIdentity _)

end Store

namespace Run

variable {α β : Type} {host : Host} {fuel line : Nat}

def Restores (part : Run α) : Prop :=
  ∀ m, Ends part m (fun _ n => m.Returns n) fun _ n => m.Returns n

theorem Restores.bind {part : Run α} {rest : α → Run β} (h : Restores part)
    (next : ∀ a, Restores (rest a)) : Restores (part >>= rest) := by
  intro m
  apply ends_bind.mpr
  apply (h m).imp
  · intro a n hn
    exact (next a n).imp (fun _ _ ho => hn.trans ho) fun _ _ ho => hn.trans ho
  · exact fun _ _ hn => hn

theorem Restores.discard {part : Run α} (h : Restores part) : Restores (discard part) :=
  fun m => ends_discard.mpr (h m)

theorem restores_pure (a : α) : Restores (pure a) := fun m => .refl m

theorem restores_get : Restores get := fun m => .refl m

theorem restores_fail (fault : RuntimeFault) (line : Nat) : Restores (fail fault line : Run α) :=
  fun m => .refl m

theorem restores_outOfFuel : Restores (throw .outOfFuel : Run α) := fun m => .refl m

theorem restores_ofExcept (r : Except RuntimeError α) : Restores (ofExcept r) :=
  fun m => ends_ofExcept.mpr ⟨fun _ _ => .refl m, fun _ _ => .refl m⟩

/-! ## Surroundings that are put back -/

theorem Restores.inScope {part : Run α} (h : Restores part) (scope : Address) :
    Restores (inScope scope part) := by
  intro m
  apply ends_inScope.mpr
  apply (h { m with environment := scope }).imp
  · intro _ n hn
    exact ⟨by simp [Machine.surroundings, hn.frame, hn.callDepth], hn.distances, hn.advances⟩
  · intro _ n hn
    exact ⟨by simp [Machine.surroundings, hn.frame, hn.callDepth], hn.distances, hn.advances⟩

theorem Restores.inLoop {part : Run α} (h : Restores part) : Restores (inLoop part) := by
  intro m
  apply ends_inLoop.mpr
  apply (h { m with frame := { m.frame with loopDepth := m.frame.loopDepth + 1 } }).imp
  · intro _ n hn
    exact ⟨by simp [Machine.surroundings, hn.environment, hn.callDepth], hn.distances, hn.advances⟩
  · intro _ n hn
    exact ⟨by simp [Machine.surroundings, hn.environment, hn.callDepth], hn.distances, hn.advances⟩

theorem Restores.inCall {part : Run α} (h : Restores part) (kind : FrameKind) (scope : Address) :
    Restores (inCall kind scope part) := by
  intro m
  apply ends_inCall.mpr
  apply (h { m with
    environment := scope, frame := ⟨kind, 0⟩, callDepth := m.callDepth + 1 }).imp
  · exact fun _ _ hn => ⟨rfl, hn.distances, hn.advances⟩
  · exact fun _ _ hn => ⟨rfl, hn.distances, hn.advances⟩

/-! ## Single steps -/

theorem restores_newScope (parent : Address) : Restores (newScope parent) :=
  fun m => .of_store (Store.extends_newScope m.store parent)

theorem restores_newInstance : Restores newInstance :=
  fun m => .of_store (Store.extends_newInstance m.store)

theorem restores_newFunction (decl : FunctionDecl Stmt) (scope : Address) :
    Restores (newFunction decl scope) :=
  fun m => .of_store (Store.extends_newIdentity m.store)

theorem restores_newClass (name : String) (superclass : Option ClassObject)
    (methods : List (String × Closure)) : Restores (newClass name superclass methods) :=
  fun m => .of_store (Store.extends_newIdentity m.store)

theorem restores_defineIn (scope : Address) (name : String) (value : Value) :
    Restores (defineIn scope name value) :=
  fun m => .of_store (Store.extends_define m.store scope name value)

theorem restores_defineAllIn (scope : Address) (entries : List (String × Value)) :
    Restores (defineAllIn scope entries) :=
  fun m => .of_store (Store.extends_defineAll m.store scope entries)

theorem restores_define (name : String) (value : Value) : Restores (define name value) :=
  fun m => .of_store (Store.extends_define m.store m.environment name value)

theorem restores_lookup (o : Occurrence) (name : String) : Restores (lookup o name) := by
  intro m
  unfold Ends lookup
  dsimp only
  split <;> rename_i run <;> split at run <;> cases run <;> exact .refl m

theorem restores_assign (o : Occurrence) (value : Value) : Restores (assign o value) := by
  intro m
  unfold Ends assign
  dsimp only
  split <;> rename_i run <;> split at run <;> cases run
  · exact .of_store (Store.extends_define _ _ _ _)
  · exact .refl m

theorem restores_bindMethod (method : Closure) (receiver : Value) :
    Restores (bindMethod method receiver) :=
  fun m => .of_store (Store.extends_bindMethod m.store method receiver)

theorem restores_boundMethod (method : Closure) (receiver : Value) :
    Restores (boundMethod method receiver) :=
  fun m => .of_store (Store.extends_boundMethod m.store method receiver)

theorem restores_readProperty (id : Address) (object : ClassObject) (name : String) (line : Nat) :
    Restores (readProperty id object name line) := by
  intro m
  unfold Ends readProperty
  cases m.store.property? id object name with
  | none => exact .refl m
  | some property =>
      cases property with
      | field value => exact .refl m
      | method closure => exact .of_store (Store.extends_boundMethod _ _ _)

theorem restores_setField (id : Address) (name : String) (value : Value) :
    Restores (setField id name value) :=
  fun m => .of_store (Store.extends_setField m.store id name value)

theorem restores_superMethod (keyword : Occurrence) (method : Token) :
    Restores (superMethod keyword method) := by
  unfold superMethod
  apply restores_get.bind
  intro m
  split
  · apply (restores_ofExcept _).bind
    intro superclass
    apply (restores_ofExcept _).bind
    intro receiver
    split
    · split
      · exact restores_boundMethod _ _
      · exact restores_fail _ _
    · exact restores_fail _ _
  · exact restores_fail _ _

theorem restores_start (host : Host) (line : Nat) : Restores (start host line) := by
  intro m
  apply ends_start.mpr
  split
  · exact ⟨rfl, rfl, .refl _, Nat.le_succ _⟩
  · exact ⟨rfl, rfl, .refl _, Nat.le_succ _⟩

theorem restores_collectIfDue (host : Host) : Restores (collectIfDue host) := by
  intro m
  apply ends_collectIfDue.mpr
  split
  · exact .of_store (Store.extends_collect _ _)
  · exact .refl m

theorem restores_readClock (host : Host) : Restores (readClock host) :=
  fun _ => ⟨rfl, rfl, .refl _, Nat.le_refl _⟩

theorem restores_print (value : Value) : Restores (print value) :=
  fun _ => ⟨rfl, rfl, .refl _, Nat.le_refl _⟩

/-! ## Compound steps -/

theorem restores_checkDepth (host : Host) (line : Nat) : Restores (checkDepth host line) := by
  unfold checkDepth
  cases host.maxDepth with
  | none => exact restores_pure ()
  | some limit =>
      apply restores_get.bind
      intro m
      split
      · exact restores_fail _ _
      · exact restores_pure ()

theorem restores_callScope (closure : Closure) (args : List Value) :
    Restores (callScope closure args) := by
  apply (restores_newScope _).bind
  intro scope
  exact (restores_defineAllIn _ _).bind fun _ => restores_pure scope

theorem restores_callResult (closure : Closure) (line : Nat) (value : Value) :
    Restores (callResult closure line value) := by
  unfold callResult
  split
  · exact restores_get.bind fun _ => restores_ofExcept _
  · exact restores_pure value

theorem restores_superclassOf (decl : ClassDecl Stmt) : Restores (superclassOf decl) := by
  unfold superclassOf
  cases decl.superclass with
  | none => exact restores_pure none
  | some parent =>
      dsimp only
      split
      · exact restores_fail _ _
      · apply (restores_lookup _ _).bind
        intro value
        split
        · exact restores_pure _
        · exact restores_fail _ _

theorem restores_methodScope (superclass : Option ClassObject) :
    Restores (methodScope superclass) := by
  apply restores_get.bind
  intro m
  cases superclass with
  | none => exact restores_pure _
  | some object =>
      apply (restores_newScope _).bind
      intro scope
      exact (restores_defineIn _ _ _).bind fun _ => restores_pure scope

theorem restores_declareClass (decl : ClassDecl Stmt) : Restores (declareClass decl) := by
  apply (restores_superclassOf decl).bind
  intro superclass
  apply (restores_methodScope superclass).bind
  intro scope
  exact (restores_newClass _ _ _).bind fun value => restores_define _ value

theorem restores_declareFunction (decl : FunctionDecl Stmt) : Restores (declareFunction decl) := by
  apply restores_get.bind
  intro m
  exact (restores_newFunction _ _).bind fun value => restores_define _ value

theorem restores_checkReturn (keyword : Token) (value : Option Expr) :
    Restores (checkReturn keyword value) := by
  apply restores_get.bind
  intro m
  split
  · exact restores_fail _ _
  · split
    · exact restores_fail _ _
    · exact restores_pure ()
  · exact restores_pure ()

theorem restores_leaveLoop (exit : LoopExit) (line : Nat) (signal : Signal) :
    Restores (leaveLoop exit line signal) := by
  apply restores_get.bind
  intro m
  split
  · exact restores_fail _ _
  · exact restores_pure signal

/-! ## Evaluation -/

structure RestoresWith (host : Host) (fuel : Nat) : Prop where
  eval : ∀ e, Restores (eval host fuel e)
  evalAll : ∀ es, Restores (evalAll host fuel es)
  call : ∀ f args line, Restores (call host fuel f args line)
  invoke : ∀ closure args line, Restores (invoke host fuel closure args line)
  exec : ∀ s, Restores (exec host fuel s)
  execAll : ∀ ss, Restores (execAll host fuel ss)
  execLoop : ∀ condition body increment, Restores (execLoop host fuel condition body increment)

theorem restores_eval (ih : RestoresWith host fuel) (e : Expr) :
    Restores (eval host (fuel + 1) e) := by
  cases e with
  | literal value line => exact restores_pure _
  | grouping inner => exact ih.eval inner
  | var name => exact restores_lookup _ _
  | assign name value =>
      apply (ih.eval value).bind
      intro v
      exact (restores_assign name v).bind fun _ => restores_pure v
  | logical left operator right =>
      apply (ih.eval left).bind
      intro l
      split
      · exact restores_pure l
      · exact ih.eval right
  | binary left operator right =>
      apply (ih.eval left).bind
      intro l
      exact (ih.eval right).bind fun r => restores_ofExcept _
  | unary operator operand => exact (ih.eval operand).bind fun v => restores_ofExcept _
  | call callee paren arguments =>
      apply (ih.eval callee).bind
      intro f
      exact (ih.evalAll arguments).bind fun args => ih.call f args _
  | get object name =>
      apply (ih.eval object).bind
      intro v
      split
      · exact restores_readProperty _ _ _ _
      · exact restores_fail _ _
  | set object name value =>
      apply (ih.eval object).bind
      intro target
      split
      · apply (ih.eval value).bind
        intro v
        exact (restores_setField _ _ v).bind fun _ => restores_pure v
      · exact restores_fail _ _
  | this keyword => exact restores_lookup _ _
  | super keyword method => exact restores_superMethod _ _

theorem restores_evalAll (ih : RestoresWith host fuel) (es : List Expr) :
    Restores (evalAll host (fuel + 1) es) := by
  cases es with
  | nil => exact restores_pure []
  | cons e rest =>
      apply (ih.eval e).bind
      intro v
      exact (ih.evalAll rest).bind fun vs => restores_pure (v :: vs)

theorem restores_call (ih : RestoresWith host fuel) (f : Value) (args : List Value) (line : Nat) :
    Restores (call host (fuel + 1) f args line) := by
  unfold call
  split
  · exact restores_fail _ _
  · split
    · exact restores_fail _ _
    · split
      · exact ih.invoke _ _ _
      · exact ih.invoke _ _ _
      · apply restores_newInstance.bind
        intro id
        split
        · apply (restores_bindMethod _ _).bind
          intro closure
          exact (ih.invoke closure args line).discard.bind fun _ => restores_pure _
        · exact restores_pure _
      · exact restores_readClock host

theorem restores_invoke (ih : RestoresWith host fuel) (closure : Closure) (args : List Value)
    (line : Nat) : Restores (invoke host (fuel + 1) closure args line) := by
  apply (restores_checkDepth host line).bind
  intro _
  apply (restores_callScope closure args).bind
  intro scope
  apply ((ih.execAll closure.decl.body).inCall _ scope).bind
  intro signal
  cases signal with
  | normal => exact restores_callResult _ _ _
  | «return» value line => exact restores_callResult _ _ _
  | «break» line => exact restores_fail _ _
  | «continue» line => exact restores_fail _ _

theorem restores_exec (ih : RestoresWith host fuel) (s : Stmt) :
    Restores (exec host (fuel + 1) s) := by
  apply (restores_start host s.line).bind
  intro _
  apply (restores_collectIfDue host).bind
  intro _
  cases s with
  | expression e => exact (ih.eval e).discard.bind fun _ => restores_pure _
  | print e =>
      apply (ih.eval e).bind
      intro v
      exact (restores_print v).bind fun _ => restores_pure _
  | varDecl name initializer =>
      cases initializer with
      | none => exact (restores_define _ _).bind fun _ => restores_pure _
      | some e =>
          apply (ih.eval e).bind
          intro v
          exact (restores_define _ v).bind fun _ => restores_pure _
  | block body line =>
      apply restores_get.bind
      intro m
      apply (restores_newScope _).bind
      intro scope
      exact (ih.execAll body).inScope scope
  | branch condition thenBranch elseBranch =>
      apply (ih.eval condition).bind
      intro v
      split
      · exact ih.exec thenBranch
      · cases elseBranch with
        | none => exact restores_pure _
        | some other => exact ih.exec other
  | loop condition body increment => exact (ih.execLoop condition body increment).inLoop
  | funDecl decl => exact (restores_declareFunction decl).bind fun _ => restores_pure _
  | classDecl decl => exact (restores_declareClass decl).bind fun _ => restores_pure _
  | «return» keyword value =>
      apply (restores_checkReturn keyword value).bind
      intro _
      cases value with
      | none => exact restores_pure _
      | some e => exact (ih.eval e).bind fun v => restores_pure _
  | «break» keyword => exact restores_leaveLoop _ _ _
  | «continue» keyword => exact restores_leaveLoop _ _ _

theorem restores_execAll (ih : RestoresWith host fuel) (ss : List Stmt) :
    Restores (execAll host (fuel + 1) ss) := by
  cases ss with
  | nil => exact restores_pure _
  | cons s rest =>
      apply (ih.exec s).bind
      intro signal
      split
      · exact ih.execAll rest
      · exact restores_pure _

theorem restores_execLoop (ih : RestoresWith host fuel) (condition : Expr) (body : Stmt)
    (increment : Option Expr) :
    Restores (execLoop host (fuel + 1) condition body increment) := by
  apply (ih.eval condition).bind
  intro v
  split
  · apply (ih.exec body).bind
    intro signal
    split
    · exact restores_pure _
    · exact restores_pure _
    · cases increment with
      | none => exact ih.execLoop condition body none
      | some e => exact (ih.eval e).discard.bind fun _ => ih.execLoop condition body (some e)
  · exact restores_pure _

theorem restoresWith (host : Host) (fuel : Nat) : RestoresWith host fuel := by
  induction fuel with
  | zero => constructor <;> intros <;> exact restores_outOfFuel
  | succ fuel ih =>
      exact {
        eval := restores_eval ih
        evalAll := restores_evalAll ih
        call := restores_call ih
        invoke := restores_invoke ih
        exec := restores_exec ih
        execAll := restores_execAll ih
        execLoop := restores_execLoop ih }

/-! ## Counting -/

def countedLoop (part : Run α) : Run α := fun m =>
  match part m.insideLoop with
  | .ok a n => .ok a { n with frame := { n.frame with loopDepth := n.frame.loopDepth - 1 } }
  | .error e n => .error e { n with frame := { n.frame with loopDepth := n.frame.loopDepth - 1 } }

def countedCall (kind : FrameKind) (scope : Address) (part : Run α) : Run α := fun m =>
  match Run.inScope scope part (m.insideCall kind) with
  | .ok a n => .ok a { n with callDepth := n.callDepth - 1, frame := m.frame }
  | .error e n => .error e { n with callDepth := n.callDepth - 1, frame := m.frame }

theorem Restores.inLoop_eq {part : Run α} (h : Restores part) :
    Run.inLoop part = countedLoop part := by
  funext m
  have ends := h m.insideLoop
  simp only [Ends, Run.inLoop, countedLoop, Machine.insideLoop] at *
  generalize part _ = result at *
  cases result with
  | ok a n => simp [ends.frame]
  | error e n => simp [ends.frame]

theorem Restores.inCall_eq {part : Run α} (h : Restores part) (kind : FrameKind) (scope : Address) :
    Run.inCall kind scope part = countedCall kind scope part := by
  funext m
  have ends := h { m.insideCall kind with environment := scope }
  simp only [Ends, Run.inCall, countedCall, Run.inScope, Machine.insideCall] at *
  generalize part _ = result at *
  cases result with
  | ok a n => simp [ends.callDepth]
  | error e n => simp [ends.callDepth]

end Run

end ClassScript
