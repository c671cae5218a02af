import ClassScript.Proofs.Run.Ends
import ClassScript.Session

/-!
# Runs in lockstep

Two runs of the same code, under two hosts, take the same steps as long as the hosts agree. What is
to be known of such a pair of runs is a relation between their parts. `Lockstep` asks of a relation
that single steps have it and that it is kept where parts are put together; then all parts of
evaluation have it (`Lockstep.next`, `Lockstep.sameFuel`).
-/

namespace ClassScript

/-- Whether a fault has its reason where it is raised, and not in what a name stands for, in the
kind of an operator, or in the depth of calls. -/
def RuntimeFault.plain : RuntimeFault → Bool
  | .undefinedVariable _ | .invalidUnary _ | .invalidBinary _ | .superOutsideClass
  | .invalidSuper | .stackOverflow => false
  | _ => true

namespace Run

/-- A step that evaluates nothing further and does not ask the host. If it is plain, it looks for no
name and has plain faults only. -/
inductive Primitive : (plain : Bool) → {α : Type} → Run α → Prop
  | pure {α} (a : α) : Primitive true (pure a)
  | fail {α} {fault : RuntimeFault} (line : Nat) : fault ≠ .stackOverflow →
      Primitive fault.plain (fail fault line : Run α)
  | get : Primitive true get
  | newScope (parent : Address) : Primitive true (newScope parent)
  | newInstance : Primitive true newInstance
  | newFunction (decl : FunctionDecl Stmt) (scope : Address) :
      Primitive true (newFunction decl scope)
  | newClass (name : String) (superclass : Option ClassObject)
      (methods : List (String × Closure)) : Primitive true (newClass name superclass methods)
  | defineIn (scope : Address) (name : String) (value : Value) :
      Primitive true (defineIn scope name value)
  | defineAllIn (scope : Address) (entries : List (String × Value)) :
      Primitive true (defineAllIn scope entries)
  | define (name : String) (value : Value) : Primitive true (define name value)
  | lookup (o : Occurrence) (name : String) : Primitive false (lookup o name)
  | assign (o : Occurrence) (value : Value) : Primitive false (assign o value)
  | bindMethod (method : Closure) (receiver : Value) : Primitive true (bindMethod method receiver)
  | boundMethod (method : Closure) (receiver : Value) :
      Primitive true (boundMethod method receiver)
  | readProperty (id : Address) (object : ClassObject) (name : String) (line : Nat) :
      Primitive true (readProperty id object name line)
  | setField (id : Address) (name : String) (value : Value) :
      Primitive true (setField id name value)
  | print (value : Value) : Primitive true (print value)

theorem Primitive.plainFail {α : Type} {fault : RuntimeFault} (line : Nat)
    (plain : fault.plain = true) : Primitive true (Run.fail fault line : Run α) := by
  have ne : fault ≠ .stackOverflow := by
    rintro rfl
    cases plain
  have step : Primitive fault.plain (Run.fail fault line : Run α) := .fail line ne
  rwa [plain] at step

structure ComposesPlain (R : (α : Type) → Run α → Run α → Prop) : Prop where
  step : ∀ {α} {p : Run α}, Primitive true p → R α p p
  bind : ∀ {α β} {p q : Run α} {f g : α → Run β}, R α p q → (∀ a, R β (f a) (g a)) →
    R β (p >>= f) (q >>= g)

structure Composes (R : (α : Type) → Run α → Run α → Prop) : Prop where
  step : ∀ {plain α} {p : Run α}, Primitive plain p → R α p p
  bind : ∀ {α β} {p q : Run α} {f g : α → Run β}, R α p q → (∀ a, R β (f a) (g a)) →
    R β (p >>= f) (q >>= g)

/-- A relation between the parts of two runs that all ways of putting parts together keep. -/
structure Lockstep (left right : Host) (R : (α : Type) → Run α → Run α → Prop) : Prop
    extends Composes R where
  inScope : ∀ {α} {p q : Run α} (scope : Address), R α p q →
    R α (inScope scope p) (inScope scope q)
  inLoop : ∀ {α} {p q : Run α}, R α p q → R α (inLoop p) (inLoop q)
  inCall : ∀ {α} {p q : Run α} (kind : FrameKind) (scope : Address), R α p q →
    R α (inCall kind scope p) (inCall kind scope q)
  start : ∀ line, R Unit (start left line) (start right line)
  collectIfDue : R Unit (collectIfDue left) (collectIfDue right)
  checkDepth : ∀ line, R Unit (checkDepth left line) (checkDepth right line)
  readClock : R Value (readClock left) (readClock right)

theorem getAt_fault {s : Store} {scope : Address} {distance line : Nat} {name : String}
    {e : RuntimeError} (h : s.getAt scope distance name line = .error e) :
    e.fault = .undefinedVariable name := by
  unfold Store.getAt at h
  split at h <;> cases h
  rfl

theorem unary_fault {operator : Token} {operand : Value} {e : RuntimeError}
    (h : Operator.unary operator operand = .error e) : e.fault ≠ .stackOverflow := by
  unfold Operator.unary at h
  split at h
  · split at h <;> cases h
    exact nofun
  · cases h
  · cases h
    exact nofun

theorem numeric_fault {operator : Token} {l r : Value} {apply : Float → Float → Value}
    {e : RuntimeError} (h : Operator.numeric operator l r apply = .error e) :
    e.fault ≠ .stackOverflow := by
  unfold Operator.numeric at h
  split at h <;> cases h
  exact nofun

theorem binary_fault {operator : Token} {l r : Value} {e : RuntimeError}
    (h : Operator.binary operator l r = .error e) : e.fault ≠ .stackOverflow := by
  unfold Operator.binary at h
  split at h
  case h_1 =>
      unfold Operator.add at h
      split at h <;> cases h
      exact nofun
  case h_9 | h_10 => cases h
  case h_11 =>
      cases h
      exact nofun
  all_goals exact numeric_fault h

section Steps

variable {R : (α : Type) → Run α → Run α → Prop}

namespace ComposesPlain

theorem all (h : ComposesPlain R)
    (step : ∀ {plain α} {p : Run α}, Primitive plain p → R α p p) : Composes R := ⟨step, h.bind⟩

theorem discard (h : ComposesPlain R) {α : Type} {p q : Run α} (parts : R α p q) :
    R PUnit (discard p) (discard q) := by
  rw [discard_eq, discard_eq]
  exact h.bind parts fun _ => h.step (.pure _)

theorem callScope (h : ComposesPlain R) (closure : Closure) (args : List Value) :
    R Address (callScope closure args) (callScope closure args) := by
  apply h.bind (h.step (.newScope _))
  intro scope
  exact h.bind (h.step (.defineAllIn _ _)) fun _ => h.step (.pure scope)

theorem methodScope (h : ComposesPlain R) (superclass : Option ClassObject) :
    R Address (methodScope superclass) (methodScope superclass) := by
  apply h.bind (h.step .get)
  intro m
  cases superclass with
  | none => exact h.step (.pure _)
  | some object =>
      apply h.bind (h.step (.newScope _))
      intro scope
      exact h.bind (h.step (.defineIn _ _ _)) fun _ => h.step (.pure scope)

theorem declareFunction (h : ComposesPlain R) (decl : FunctionDecl Stmt) :
    R Unit (declareFunction decl) (declareFunction decl) := by
  apply h.bind (h.step .get)
  intro m
  exact h.bind (h.step (.newFunction _ _)) fun value => h.step (.define _ value)

theorem checkReturn (h : ComposesPlain R) (keyword : Token) (value : Option Expr) :
    R Unit (checkReturn keyword value) (checkReturn keyword value) := by
  apply h.bind (h.step .get)
  intro m
  split
  · exact h.step (.plainFail _ rfl)
  · split
    · exact h.step (.plainFail _ rfl)
    · exact h.step (.pure ())
  · exact h.step (.pure ())

theorem leaveLoop (h : ComposesPlain R) (exit : LoopExit) (line : Nat) (signal : Signal) :
    R Signal (leaveLoop exit line signal) (leaveLoop exit line signal) := by
  apply h.bind (h.step .get)
  intro m
  split
  · exact h.step (.plainFail _ rfl)
  · exact h.step (.pure signal)

end ComposesPlain

namespace Composes

theorem plain (h : Composes R) : ComposesPlain R := ⟨h.step, h.bind⟩

theorem ofExcept (h : Composes R) {α : Type} {r : Except RuntimeError α}
    (other : ∀ e, r = .error e → e.1 ≠ .stackOverflow) : R α (ofExcept r) (ofExcept r) := by
  cases r with
  | ok a => exact h.step (.pure a)
  | error e => exact h.step (.fail e.2 (other e rfl))

theorem superMethod (h : Composes R) (keyword : Occurrence) (method : Token) :
    R Value (superMethod keyword method) (superMethod keyword method) := by
  apply h.bind (h.step .get)
  intro m
  split
  · apply h.bind (h.ofExcept fun _ failed => getAt_fault failed ▸ nofun)
    intro superclass
    apply h.bind (h.ofExcept fun _ failed => getAt_fault failed ▸ nofun)
    intro receiver
    split
    · split
      · exact h.step (.boundMethod _ _)
      · exact h.step (.fail _ nofun)
    · exact h.step (.fail _ nofun)
  · exact h.step (.fail _ nofun)

theorem callResult (h : Composes R) (closure : Closure) (line : Nat) (value : Value) :
    R Value (callResult closure line value) (callResult closure line value) := by
  unfold Run.callResult
  split
  · exact h.bind (h.step .get) fun _ => h.ofExcept fun _ failed => getAt_fault failed ▸ nofun
  · exact h.step (.pure value)

theorem superclassOf (h : Composes R) (decl : ClassDecl Stmt) :
    R _ (superclassOf decl) (superclassOf decl) := by
  unfold Run.superclassOf
  cases decl.superclass with
  | none => exact h.step (.pure none)
  | some parent =>
      dsimp only
      split
      · exact h.step (.fail _ nofun)
      · apply h.bind (h.step (.lookup _ _))
        intro value
        split
        · exact h.step (.pure _)
        · exact h.step (.fail _ nofun)

theorem declareClass (h : Composes R) (decl : ClassDecl Stmt) :
    R Unit (declareClass decl) (declareClass decl) := by
  apply h.bind (h.superclassOf decl)
  intro superclass
  apply h.bind (h.plain.methodScope superclass)
  intro scope
  exact h.bind (h.step (.newClass _ _ _)) fun value => h.step (.define _ value)

end Composes

end Steps

structure LockstepWith (left right : Host) (R : (α : Type) → Run α → Run α → Prop)
    (fuel fuel' : Nat) : Prop where
  eval : ∀ e, R _ (eval left fuel e) (eval right fuel' e)
  evalAll : ∀ es, R _ (evalAll left fuel es) (evalAll right fuel' es)
  call : ∀ f args line, R _ (call left fuel f args line) (call right fuel' f args line)
  invoke : ∀ closure args line,
    R _ (invoke left fuel closure args line) (invoke right fuel' closure args line)
  exec : ∀ s, R _ (exec left fuel s) (exec right fuel' s)
  execAll : ∀ ss, R _ (execAll left fuel ss) (execAll right fuel' ss)
  execLoop : ∀ condition body increment,
    R _ (execLoop left fuel condition body increment)
      (execLoop right fuel' condition body increment)

namespace Lockstep

variable {left right : Host} {R : (α : Type) → Run α → Run α → Prop} {fuel fuel' : Nat}

theorem eval (h : Lockstep left right R) (ih : LockstepWith left right R fuel fuel') (e : Expr) :
    R _ (eval left (fuel + 1) e) (eval right (fuel' + 1) e) := by
  cases e with
  | literal value line => exact h.step (.pure _)
  | grouping inner => exact ih.eval inner
  | var name => exact h.step (.lookup _ _)
  | assign name value =>
      apply h.bind (ih.eval value)
      intro v
      exact h.bind (h.step (.assign name v)) fun _ => h.step (.pure v)
  | logical left operator right =>
      apply h.bind (ih.eval left)
      intro l
      split
      · exact h.step (.pure l)
      · exact ih.eval right
  | binary left operator right =>
      apply h.bind (ih.eval left)
      intro l
      exact h.bind (ih.eval right) fun r => h.ofExcept fun _ => binary_fault
  | unary operator operand =>
      exact h.bind (ih.eval operand) fun v => h.ofExcept fun _ => unary_fault
  | call callee paren arguments =>
      apply h.bind (ih.eval callee)
      intro f
      exact h.bind (ih.evalAll arguments) fun args => ih.call f args _
  | get object name =>
      apply h.bind (ih.eval object)
      intro v
      split
      · exact h.step (.readProperty _ _ _ _)
      · exact h.step (.fail _ nofun)
  | set object name value =>
      apply h.bind (ih.eval object)
      intro target
      split
      · apply h.bind (ih.eval value)
        intro v
        exact h.bind (h.step (.setField _ _ v)) fun _ => h.step (.pure v)
      · exact h.step (.fail _ nofun)
  | this keyword => exact h.step (.lookup _ _)
  | super keyword method => exact h.superMethod _ _

theorem evalAll (h : Lockstep left right R) (ih : LockstepWith left right R fuel fuel')
    (es : List Expr) : R _ (evalAll left (fuel + 1) es) (evalAll right (fuel' + 1) es) := by
  cases es with
  | nil => exact h.step (.pure [])
  | cons e rest =>
      apply h.bind (ih.eval e)
      intro v
      exact h.bind (ih.evalAll rest) fun vs => h.step (.pure (v :: vs))

theorem call (h : Lockstep left right R) (ih : LockstepWith left right R fuel fuel') (f : Value)
    (args : List Value) (line : Nat) :
    R _ (call left (fuel + 1) f args line) (call right (fuel' + 1) f args line) := by
  unfold Run.call
  split
  · exact h.step (.fail _ nofun)
  · split
    · exact h.step (.fail _ nofun)
    · split
      · exact ih.invoke _ _ _
      · exact ih.invoke _ _ _
      · apply h.bind (h.step .newInstance)
        intro id
        split
        · apply h.bind (h.step (.bindMethod _ _))
          intro closure
          exact h.bind (h.plain.discard (ih.invoke closure args line)) fun _ => h.step (.pure _)
        · exact h.step (.pure _)
      · exact h.readClock

theorem invoke (h : Lockstep left right R) (ih : LockstepWith left right R fuel fuel')
    (closure : Closure) (args : List Value) (line : Nat) :
    R _ (invoke left (fuel + 1) closure args line)
      (invoke right (fuel' + 1) closure args line) := by
  apply h.bind (h.checkDepth line)
  intro _
  apply h.bind (h.plain.callScope closure args)
  intro scope
  apply h.bind (h.inCall _ scope (ih.execAll closure.decl.body))
  intro signal
  cases signal with
  | normal => exact h.callResult _ _ _
  | «return» value line => exact h.callResult _ _ _
  | «break» line => exact h.step (.fail _ nofun)
  | «continue» line => exact h.step (.fail _ nofun)

theorem exec (h : Lockstep left right R) (ih : LockstepWith left right R fuel fuel') (s : Stmt) :
    R _ (exec left (fuel + 1) s) (exec right (fuel' + 1) s) := by
  apply h.bind (h.start s.line)
  intro _
  apply h.bind h.collectIfDue
  intro _
  cases s with
  | expression e => exact h.bind (h.plain.discard (ih.eval e)) fun _ => h.step (.pure _)
  | print e =>
      apply h.bind (ih.eval e)
      intro v
      exact h.bind (h.step (.print v)) fun _ => h.step (.pure _)
  | varDecl name initializer =>
      cases initializer with
      | none => exact h.bind (h.step (.define _ _)) fun _ => h.step (.pure _)
      | some e =>
          apply h.bind (ih.eval e)
          intro v
          exact h.bind (h.step (.define _ v)) fun _ => h.step (.pure _)
  | block body line =>
      apply h.bind (h.step .get)
      intro m
      apply h.bind (h.step (.newScope _))
      intro scope
      exact h.inScope scope (ih.execAll body)
  | branch condition thenBranch elseBranch =>
      apply h.bind (ih.eval condition)
      intro v
      split
      · exact ih.exec thenBranch
      · cases elseBranch with
        | none => exact h.step (.pure _)
        | some other => exact ih.exec other
  | loop condition body increment => exact h.inLoop (ih.execLoop condition body increment)
  | funDecl decl => exact h.bind (h.plain.declareFunction decl) fun _ => h.step (.pure _)
  | classDecl decl => exact h.bind (h.declareClass decl) fun _ => h.step (.pure _)
  | «return» keyword value =>
      apply h.bind (h.plain.checkReturn keyword value)
      intro _
      cases value with
      | none => exact h.step (.pure _)
      | some e => exact h.bind (ih.eval e) fun v => h.step (.pure _)
  | «break» keyword => exact h.plain.leaveLoop _ _ _
  | «continue» keyword => exact h.plain.leaveLoop _ _ _

theorem execAll (h : Lockstep left right R) (ih : LockstepWith left right R fuel fuel')
    (ss : List Stmt) : R _ (execAll left (fuel + 1) ss) (execAll right (fuel' + 1) ss) := by
  cases ss with
  | nil => exact h.step (.pure _)
  | cons s rest =>
      apply h.bind (ih.exec s)
      intro signal
      split
      · exact ih.execAll rest
      · exact h.step (.pure _)

theorem execLoop (h : Lockstep left right R) (ih : LockstepWith left right R fuel fuel')
    (condition : Expr) (body : Stmt) (increment : Option Expr) :
    R _ (execLoop left (fuel + 1) condition body increment)
      (execLoop right (fuel' + 1) condition body increment) := by
  apply h.bind (ih.eval condition)
  intro v
  split
  · apply h.bind (ih.exec body)
    intro signal
    split
    · exact h.step (.pure _)
    · exact h.step (.pure _)
    · cases increment with
      | none => exact ih.execLoop condition body none
      | some e =>
          exact h.bind (h.plain.discard (ih.eval e)) fun _ => ih.execLoop condition body (some e)
  · exact h.step (.pure _)

theorem next (h : Lockstep left right R) (ih : LockstepWith left right R fuel fuel') :
    LockstepWith left right R (fuel + 1) (fuel' + 1) where
  eval := h.eval ih
  evalAll := h.evalAll ih
  call := h.call ih
  invoke := h.invoke ih
  exec := h.exec ih
  execAll := h.execAll ih
  execLoop := h.execLoop ih

theorem sameFuel (h : Lockstep left right R)
    (exhausted : ∀ α, R α (throw .outOfFuel) (throw .outOfFuel)) (fuel : Nat) :
    LockstepWith left right R fuel fuel := by
  induction fuel with
  | zero => constructor <;> intros <;> exact exhausted _
  | succ fuel ih => exact h.next ih

theorem program (h : Lockstep left right R) (all : LockstepWith left right R fuel fuel')
    (ss : List Stmt) : R _ (program left fuel ss) (program right fuel' ss) := by
  induction ss with
  | nil => exact h.step (.pure ())
  | cons s rest ih =>
      apply h.bind (all.exec s)
      intro signal
      cases signal with
      | normal => exact ih
      | «break» line | «continue» line | «return» value line => exact h.step (.fail _ nofun)

end Lockstep

end Run

end ClassScript
