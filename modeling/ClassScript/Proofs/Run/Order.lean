import ClassScript.Proofs.Run.Entered
import ClassScript.Proofs.Run.Parts

/-!
# The order of a run

The moments of a run form a tree: a task ends after the tasks that it is made of, and of these one
ends before the next one begins. So of two moments of a run one lies within the other or behind it
(`comparable`), and what the stores of one had is still there at the later one. The count of the
statements that were started goes up along the order.
-/

namespace ClassScript.Run

open Binding Store Machine

variable {α β : Type} {host : Host} {fuel line : Nat} {m n s : Machine} {p q : Moment}

/-! ## The end of a task -/

def leftIn : EStateM.Result Halt Machine α → Machine
  | .ok _ m => m
  | .error _ m => m

def Moment.part (host : Host) : Moment → Run Unit
  | ⟨fuel, .eval e, _⟩ => discard (eval host fuel e)
  | ⟨fuel, .evalAll es, _⟩ => discard (evalAll host fuel es)
  | ⟨fuel, .call f args line, _⟩ => discard (call host fuel f args line)
  | ⟨fuel, .invoke closure args line, _⟩ => discard (invoke host fuel closure args line)
  | ⟨fuel, .exec s, _⟩ => discard (exec host fuel s)
  | ⟨fuel, .execAll ss, _⟩ => discard (execAll host fuel ss)
  | ⟨fuel, .execLoop condition body increment, _⟩ =>
    discard (execLoop host fuel condition body increment)
  | ⟨fuel, .program ss, _⟩ => program host fuel ss
  | ⟨_, .lookup o name, _⟩ => discard (lookup o name)
  | ⟨_, .assign o value, _⟩ => assign o value
  | ⟨_, .superMethod keyword method, _⟩ => discard (superMethod keyword method)

theorem restores_program (host : Host) (fuel : Nat) (ss : List Stmt) :
    Restores (program host fuel ss) := by
  induction ss with
  | nil => exact restores_pure ()
  | cons s rest ih =>
      apply ((restoresWith host fuel).exec s).bind
      intro signal
      cases signal with
      | normal => exact ih
      | «break» line | «continue» line | «return» value line => exact restores_fail _ _

theorem restores_part (host : Host) (p : Moment) : Restores (p.part host) := by
  obtain ⟨fuel, task, m⟩ := p
  have restores := restoresWith host fuel
  cases task with
  | eval e => exact (restores.eval e).discard
  | evalAll es => exact (restores.evalAll es).discard
  | call f args line => exact (restores.call f args line).discard
  | invoke closure args line => exact (restores.invoke closure args line).discard
  | exec s => exact (restores.exec s).discard
  | execAll ss => exact (restores.execAll ss).discard
  | execLoop condition body increment => exact (restores.execLoop condition body increment).discard
  | program ss => exact restores_program host fuel ss
  | lookup o name => exact (restores_lookup o name).discard
  | assign o value => exact restores_assign o value
  | superMethod keyword method => exact (restores_superMethod keyword method).discard

def Moment.finish (host : Host) (p : Moment) : Machine := leftIn (p.part host p.machine)

def Before (s : Machine) (part : Run α) (m : Machine) : Prop :=
  Ends part m (fun _ n => s.Advances n) fun _ n => s.Advances n

theorem before_iff {part : Run α} : Before s part m ↔ s.Advances (leftIn (part m)) := by
  unfold Before Ends leftIn
  cases part m <;> rfl

theorem before_self (part : Run α) (m : Machine) : Before (leftIn (part m)) part m :=
  before_iff.mpr (.refl _)

theorem Restores.before {part : Run α} (h : Restores part) (m : Machine) : Before m part m :=
  (h m).imp (fun _ _ hn => hn.advances) fun _ _ hn => hn.advances

theorem Before.mono {part : Run α} {t : Machine} (onward : s.Advances t) (h : Before t part m) :
    Before s part m :=
  Ends.imp h (fun _ _ => onward.trans) fun _ _ => onward.trans

theorem Before.bind {part : Run α} {rest : α → Run β} (h : Before s part m)
    (next : ∀ a, Restores (rest a)) : Before s (part >>= rest) m := by
  apply ends_bind.mpr
  apply Ends.imp h
  · exact fun a n onward => ((next a).before n).mono onward
  · exact fun _ _ hn => hn

theorem Before.after {part : Run α} {rest : α → Run β} {a : α} (run : part m = .ok a n)
    (h : Before s (rest a) n) : Before s (part >>= rest) m :=
  ends_bind.mpr ((ends_ok_iff run).mpr h)

theorem Before.discard {part : Run α} (h : Before s part m) : Before s (discard part) m :=
  ends_discard.mpr h

theorem Before.inScope {part : Run α} {scope : Address}
    (h : Before s part { m with environment := scope }) : Before s (inScope scope part) m :=
  ends_inScope.mpr h

theorem Before.inLoop {part : Run α} (h : Before s part m.insideLoop) :
    Before s (inLoop part) m := ends_inLoop.mpr h

theorem Before.inCall {part : Run α} {kind : FrameKind} {scope : Address}
    (h : Before s part { m.insideCall kind with environment := scope }) :
    Before s (inCall kind scope part) m := ends_inCall.mpr h

theorem discard_ok {part : Run α} {a : α} (run : part m = .ok a n) :
    (discard part : Run PUnit) m = .ok ⟨⟩ n := by
  rw [discard_eq, bind_ok run]
  rfl

theorem discard_error {part : Run α} {e : Halt} (run : part m = .error e n) :
    (discard part : Run PUnit) m = .error e n := by
  rw [discard_eq]
  exact bind_error run

theorem ok_of_discard {part : Run α} (h : (discard part : Run PUnit) m = .ok ⟨⟩ n) :
    ∃ a, part m = .ok a n := by
  rw [discard_eq] at h
  obtain ⟨a, l, run, last⟩ := ok_of_bind h
  cases last
  exact ⟨a, run⟩

theorem ok_unique {part : Run α} {a b : α} {o : Machine} (h : part m = .ok a n)
    (h' : part m = .ok b o) : a = b ∧ n = o := by
  rw [h] at h'
  cases h'
  exact ⟨rfl, rfl⟩

theorem leftIn_discard (part : Run α) (m : Machine) :
    leftIn ((discard part : Run PUnit) m) = leftIn (part m) := by
  cases run : part m with
  | ok a n => rw [discard_ok run, leftIn, leftIn]
  | error e n => rw [discard_error run, leftIn, leftIn]

theorem advances_finish (host : Host) (p : Moment) : p.machine.Advances (p.finish host) :=
  before_iff.mp ((restores_part host p).before p.machine)

def Past (host : Host) (p q : Moment) : Prop := (p.finish host).Advances q.machine

/-! ## What a part is made of -/

/-- The tasks begin while the part runs, each of them when those in front of it have ended, and they
end no later than the part. -/
structure InOrder (host : Host) (part : Run α) (m : Machine) (parts : List Moment) : Prop where
  advances : Before m part m
  later : ∀ q ∈ parts, m.Advances q.machine
  within : ∀ q ∈ parts, Before (q.finish host) part m
  pairwise : parts.Pairwise (Past host)

variable {parts : List Moment}

theorem inOrder_nil {part : Run α} (restores : Restores part) : InOrder host part m [] :=
  ⟨restores.before m, List.forall_mem_nil _, List.forall_mem_nil _, .nil⟩

theorem inOrder_whole {part : Run α} {task : Task}
    (is : Moment.finish host ⟨fuel, task, m⟩ = leftIn (part m)) :
    InOrder host part m [⟨fuel, task, m⟩] := by
  refine ⟨before_iff.mpr (is ▸ advances_finish host ⟨fuel, task, m⟩),
    List.forall_mem_singleton.mpr (.refl m), List.forall_mem_singleton.mpr ?_,
    List.pairwise_singleton _ _⟩
  rw [is]
  exact before_self part m

theorem InOrder.bind {part : Run α} {rest : α → Run β} (h : InOrder host part m parts)
    (restores : ∀ a, Restores (rest a)) : InOrder host (part >>= rest) m parts where
  advances := h.advances.bind restores
  later := h.later
  within q mem := (h.within q mem).bind restores
  pairwise := h.pairwise

theorem inOrder_behind {first : Run α} {rest : α → Run β} {parts : α → Machine → List Moment}
    (restores : Restores first) (h : ∀ a n, InOrder host (rest a) n (parts a n)) :
    InOrder host (first >>= rest) m (behind (first m) parts) := by
  have advances : Before m first m := restores.before m
  cases run : first m with
  | ok a n =>
      have onward : m.Advances n := (ends_ok_iff run).mp advances
      exact ⟨((h a n).advances.mono onward).after run,
        fun q mem => onward.trans ((h a n).later q mem),
        fun q mem => ((h a n).within q mem).after run, (h a n).pairwise⟩
  | error e n =>
      have failed : (first >>= rest) m = .error e n := bind_error run
      have onward : m.Advances n := by
        have last := before_iff.mp advances
        rwa [run] at last
      exact ⟨before_iff.mpr (failed ▸ onward), List.forall_mem_nil _, List.forall_mem_nil _, .nil⟩

theorem inOrder_then {first : Run α} {rest : α → Run β} {task : Task}
    {parts : α → Machine → List Moment}
    (is : Moment.finish host ⟨fuel, task, m⟩ = leftIn (first m)) (restores : Restores first)
    (h : ∀ a n, InOrder host (rest a) n (parts a n)) :
    InOrder host (first >>= rest) m (⟨fuel, task, m⟩ :: behind (first m) parts) := by
  have others := inOrder_behind restores h (m := m)
  have past : ∀ q ∈ behind (first m) parts, Past host ⟨fuel, task, m⟩ q := by
    intro q mem
    unfold Past
    rw [is]
    cases run : first m with
    | ok a n =>
        rw [run] at mem
        exact (h a n).later q mem
    | error e n =>
        rw [run] at mem
        cases mem
  have ends : Before (leftIn (first m)) (first >>= rest) m := by
    cases run : first m with
    | ok a n => exact (h a n).advances.after run
    | error e n =>
        rw [before_iff, bind_error run]
        exact .refl n
  exact ⟨others.advances, List.forall_mem_cons.mpr ⟨.refl m, others.later⟩,
    List.forall_mem_cons.mpr ⟨is ▸ ends, others.within⟩, .cons past others.pairwise⟩

theorem inOrder_get {rest : Machine → Run α} (h : InOrder host (rest m) m parts) :
    InOrder host (get >>= rest) m parts :=
  ⟨h.advances, h.later, h.within, h.pairwise⟩

theorem InOrder.discard {part : Run α} (h : InOrder host part m parts) :
    InOrder host (discard part) m parts :=
  ⟨h.advances.discard, h.later, fun q mem => (h.within q mem).discard, h.pairwise⟩

theorem InOrder.inScope {part : Run α} {scope : Address}
    (h : InOrder host part { m with environment := scope } parts) :
    InOrder host (inScope scope part) m parts :=
  ⟨h.advances.inScope, h.later, fun q mem => (h.within q mem).inScope, h.pairwise⟩

theorem InOrder.inLoop {part : Run α} (h : InOrder host part m.insideLoop parts) :
    InOrder host (inLoop part) m parts :=
  ⟨h.advances.inLoop, h.later, fun q mem => (h.within q mem).inLoop, h.pairwise⟩

theorem InOrder.inCall {part : Run α} {kind : FrameKind} {scope : Address}
    (h : InOrder host part { m.insideCall kind with environment := scope } parts) :
    InOrder host (inCall kind scope part) m parts :=
  ⟨h.advances.inCall, h.later, fun q mem => (h.within q mem).inCall, h.pairwise⟩

/-! ## The parts of each task -/

theorem inOrder_exprPart (host : Host) (fuel : Nat) (e : Expr) (m : Machine) :
    InOrder host (eval host fuel e) m [⟨fuel, .eval e, m⟩] := inOrder_whole (leftIn_discard _ _)

theorem inOrder_exprThen {rest : Value → Run β} {parts : Value → Machine → List Moment} {e : Expr}
    (h : ∀ v n, InOrder host (rest v) n (parts v n)) :
    InOrder host (eval host fuel e >>= rest) m
      (⟨fuel, .eval e, m⟩ :: behind (eval host fuel e m) parts) :=
  inOrder_then (leftIn_discard _ _) ((restoresWith host fuel).eval e) h

theorem inOrder_stmtThen {rest : Signal → Run β} {parts : Signal → Machine → List Moment}
    {statement : Stmt} (h : ∀ signal n, InOrder host (rest signal) n (parts signal n)) :
    InOrder host (exec host fuel statement >>= rest) m
      (⟨fuel, .exec statement, m⟩ :: behind (exec host fuel statement m) parts) :=
  inOrder_then (leftIn_discard _ _) ((restoresWith host fuel).exec statement) h

theorem inOrder_eval (e : Expr) :
    InOrder host (eval host (fuel + 1) e) m (evalParts host fuel m e) := by
  cases e with
  | literal => exact inOrder_nil (restores_pure _)
  | grouping inner => exact inOrder_exprPart host fuel inner m
  | var | this | super => exact inOrder_whole (leftIn_discard _ _)
  | unary _ operand =>
      exact (inOrder_exprPart host fuel operand m).bind fun _ => restores_ofExcept _
  | get object _ =>
      apply (inOrder_exprPart host fuel object m).bind
      intro target
      split
      · exact restores_readProperty _ _ _ _
      · exact restores_fail _ _
  | assign name value =>
      apply inOrder_exprThen
      intro v n
      have last : InOrder host (assign name v) n [⟨fuel, .assign name v, n⟩] := inOrder_whole rfl
      exact last.bind fun _ => restores_pure v
  | binary left operator right =>
      apply inOrder_exprThen
      exact fun l n => (inOrder_exprPart host fuel right n).bind fun _ => restores_ofExcept _
  | logical left operator right =>
      apply inOrder_exprThen
      intro l n
      split
      · exact inOrder_nil (restores_pure l)
      · exact inOrder_exprPart host fuel right n
  | call callee paren arguments =>
      apply inOrder_exprThen
      intro f n
      refine inOrder_then (leftIn_discard _ _) ((restoresWith host fuel).evalAll arguments) ?_
      exact fun args o => inOrder_whole (leftIn_discard _ _)
  | set object name value =>
      apply inOrder_exprThen
      intro target n
      cases target with
      | «instance» =>
          apply (inOrder_exprPart host fuel value n).bind
          exact fun v => (restores_setField _ _ v).bind fun _ => restores_pure v
      | _ => exact inOrder_nil (restores_fail _ _)

theorem inOrder_called {part : Run α} {args : List Value} {arity : Nat}
    (h : InOrder host part m parts) :
    InOrder host (if args.length ≠ arity then fail (.wrongArity arity args.length) line else part) m
      (if args.length = arity then parts else []) := by
  by_cases same : args.length = arity
  · rw [if_neg (not_not.mpr same), if_pos same]
    exact h
  · rw [if_pos same, if_neg same]
    exact inOrder_nil (restores_fail _ _)

theorem inOrder_call (args : List Value) (f : Value) :
    InOrder host (call host (fuel + 1) f args line) m (callParts fuel m args line f) := by
  cases f with
  | function id closure | bound id closure =>
      exact inOrder_called (inOrder_whole (leftIn_discard _ _))
  | «class» object =>
      apply inOrder_called
      apply inOrder_behind restores_newInstance
      intro id n
      generalize object.method? ClassObject.initializerName = found
      cases found with
      | none => exact inOrder_nil (restores_pure _)
      | some init =>
          apply inOrder_behind (restores_bindMethod _ _)
          intro closure o
          have body : InOrder host (invoke host fuel closure args line) o
              [⟨fuel, .invoke closure args line, o⟩] := inOrder_whole (leftIn_discard _ _)
          exact body.discard.bind fun _ => restores_pure _
  | _ => exact inOrder_nil ((restoresWith host (fuel + 1)).call _ args line)

theorem inOrder_invoke (closure : Closure) (args : List Value) :
    InOrder host (invoke host (fuel + 1) closure args line) m
      (bodyParts host fuel m closure args line) := by
  apply inOrder_behind (restores_checkDepth host line)
  intro _ n
  apply inOrder_behind (restores_callScope closure args)
  intro scope o
  apply InOrder.bind
  · exact InOrder.inCall (inOrder_whole (leftIn_discard _ _))
  · intro signal
    cases signal with
    | normal | «return» => exact restores_callResult _ _ _
    | «break» | «continue» => exact restores_fail _ _

theorem inOrder_superclassOf (decl : ClassDecl Stmt) :
    InOrder host (superclassOf decl) m (execParts host fuel m (.classDecl decl)) := by
  unfold Run.superclassOf
  rw [execParts]
  cases decl.superclass with
  | none => exact inOrder_nil (restores_pure _)
  | some parent =>
      dsimp only
      by_cases own : parent.token.lexeme = decl.name.lexeme
      · rw [if_pos (beq_iff_eq.mpr own), if_pos own]
        exact inOrder_nil (restores_fail _ _)
      · rw [if_neg (by simpa using own), if_neg own]
        refine InOrder.bind (inOrder_whole (leftIn_discard _ _)) fun value => ?_
        split
        · exact restores_pure _
        · exact restores_fail _ _

theorem inOrder_exec (statement : Stmt) :
    InOrder host (exec host (fuel + 1) statement) m
      (behind ((do start host statement.line; collectIfDue host) m) fun _ n =>
        execParts host fuel n statement) := by
  have restores := restoresWith host fuel
  have begins : Restores (do start host statement.line; collectIfDue host) :=
    (restores_start host statement.line).bind fun _ => restores_collectIfDue host
  unfold Run.exec
  rw [← bind_assoc]
  apply inOrder_behind begins
  intro _ n
  cases statement with
  | expression e => exact (inOrder_exprPart host fuel e n).discard.bind fun _ => restores_pure _
  | print e =>
      apply (inOrder_exprPart host fuel e n).bind
      exact fun v => (restores_print v).bind fun _ => restores_pure _
  | varDecl name initializer =>
      cases initializer with
      | none => exact inOrder_nil ((restores_define _ _).bind fun _ => restores_pure _)
      | some e =>
          apply (inOrder_exprPart host fuel e n).bind
          exact fun v => (restores_define _ v).bind fun _ => restores_pure _
  | block body =>
      rw [execParts]
      refine inOrder_get (inOrder_behind (restores_newScope n.environment) ?_)
      exact fun scope o => InOrder.inScope (inOrder_whole (leftIn_discard _ _))
  | branch condition thenBranch elseBranch =>
      apply inOrder_exprThen
      intro v o
      split
      · exact inOrder_whole (leftIn_discard _ _)
      · cases elseBranch with
        | none => exact inOrder_nil (restores_pure _)
        | some other => exact inOrder_whole (leftIn_discard _ _)
  | loop => exact InOrder.inLoop (inOrder_whole (leftIn_discard _ _))
  | funDecl decl => exact inOrder_nil ((restores_declareFunction decl).bind fun _ => restores_pure _)
  | classDecl decl =>
      apply InOrder.bind
      · apply (inOrder_superclassOf decl).bind
        intro superclass
        apply (restores_methodScope superclass).bind
        intro scope
        exact (restores_newClass _ _ _).bind fun value => restores_define _ value
      · exact fun _ => restores_pure _
  | «return» keyword value =>
      cases value with
      | none => exact inOrder_nil ((restores_checkReturn _ _).bind fun _ => restores_pure _)
      | some e =>
          apply inOrder_behind (restores_checkReturn keyword (some e))
          exact fun _ o => (inOrder_exprPart host fuel e o).bind fun v => restores_pure _
  | «break» | «continue» => exact inOrder_nil (restores_leaveLoop _ _ _)

def goRound (host : Host) (fuel : Nat) (condition : Expr) (body : Stmt) (increment : Option Expr) :
    Signal → Run Signal
  | .break _ => return .normal
  | .return value line => return .return value line
  | _ =>
    match increment with
    | some e => do
      discard <| eval host fuel e
      execLoop host fuel condition body increment
    | none => execLoop host fuel condition body increment

theorem inOrder_goRound (condition : Expr) (body : Stmt) (increment : Option Expr)
    (signal : Signal) :
    InOrder host (goRound host fuel condition body increment signal) m
      (roundParts host fuel m condition body increment signal) := by
  cases signal with
  | normal | «continue» =>
      cases increment with
      | none => exact inOrder_whole (leftIn_discard _ _)
      | some e =>
          simp only [goRound, discard_eq, bind_assoc, pure_bind]
          exact inOrder_exprThen fun _ _ => inOrder_whole (leftIn_discard _ _)
  | «break» | «return» => exact inOrder_nil (restores_pure _)

theorem inOrder_execLoop (condition : Expr) (body : Stmt) (increment : Option Expr) :
    InOrder host (execLoop host (fuel + 1) condition body increment) m
      (loopParts host fuel m condition body increment) := by
  apply inOrder_exprThen
  intro v n
  split
  · exact inOrder_stmtThen fun signal o => inOrder_goRound condition body increment signal
  · exact inOrder_nil (restores_pure _)

theorem inOrder_evalAll (es : List Expr) :
    InOrder host (evalAll host (fuel + 1) es) m (taskParts host fuel m (.evalAll es)) := by
  cases es with
  | nil => exact inOrder_nil (restores_pure _)
  | cons e rest =>
      apply inOrder_exprThen
      exact fun v n => InOrder.bind (inOrder_whole (leftIn_discard _ _)) fun _ => restores_pure _

theorem inOrder_execAll (statements : List Stmt) :
    InOrder host (execAll host (fuel + 1) statements) m
      (listParts host fuel m .execAll statements) := by
  cases statements with
  | nil => exact inOrder_nil (restores_pure _)
  | cons statement rest =>
      apply inOrder_stmtThen
      intro signal n
      cases signal with
      | normal => exact inOrder_whole (leftIn_discard _ _)
      | «break» | «continue» | «return» => exact inOrder_nil (restores_pure _)

theorem inOrder_program (statements : List Stmt) :
    InOrder host (program host fuel statements) m (listParts host fuel m .program statements) := by
  cases statements with
  | nil => exact inOrder_nil (restores_pure _)
  | cons statement rest =>
      apply inOrder_stmtThen
      intro signal n
      cases signal with
      | normal => exact inOrder_whole rfl
      | «break» | «continue» | «return» => exact inOrder_nil (restores_fail _ _)

theorem inOrder_parts (host : Host) (p : Moment) :
    InOrder host (p.part host) p.machine (p.parts host) := by
  have none : InOrder host (p.part host) p.machine [] := inOrder_nil (restores_part host p)
  obtain ⟨fuel, task, m⟩ := p
  cases fuel with
  | zero =>
      cases task with
      | program statements => exact inOrder_program statements
      | _ => exact none
  | succ fuel =>
      cases task with
      | eval e => exact (inOrder_eval e).discard
      | evalAll es => exact (inOrder_evalAll es).discard
      | call f args => exact (inOrder_call args f).discard
      | invoke closure args => exact (inOrder_invoke closure args).discard
      | exec statement => exact (inOrder_exec statement).discard
      | execAll statements => exact (inOrder_execAll statements).discard
      | execLoop condition body increment =>
          exact (inOrder_execLoop condition body increment).discard
      | program statements => exact inOrder_program statements
      | lookup | assign | superMethod => exact none

theorem finish_of_enters (enters : Enters host p q) :
    (q.finish host).Advances (p.finish host) :=
  before_iff.mp ((inOrder_parts host p).within q (mem_parts enters))

theorem siblings {a b : Moment} (ha : Enters host p a) (hb : Enters host p b) :
    a = b ∨ Past host a b ∨ Past host b a := by
  have order := List.pairwise_iff_getElem.mp (inOrder_parts host p).pairwise
  obtain ⟨i, hi, rfl⟩ := List.mem_iff_getElem.mp (mem_parts ha)
  obtain ⟨j, hj, rfl⟩ := List.mem_iff_getElem.mp (mem_parts hb)
  rcases Nat.lt_trichotomy i j with lt | rfl | lt
  · exact .inr (.inl (order i j hi hj lt))
  · exact .inl rfl
  · exact .inr (.inr (order j i hj hi lt))

/-! ## The moments of a run -/

theorem finish_of_moments (run : Relation.ReflTransGen (Enters host) p q) :
    (q.finish host).Advances (p.finish host) := by
  induction run with
  | refl => exact .refl _
  | tail _ enters ih => exact (finish_of_enters enters).trans ih

/-- The moment `q` lies within the task of `p`, or behind it. -/
inductive Precedes (host : Host) (p q : Moment) : Prop
  | inside : Relation.TransGen (Enters host) p q → Precedes host p q
  | past : Past host p q → Precedes host p q

theorem Past.within {a b : Moment} (h : Past host a b)
    (ha : Relation.ReflTransGen (Enters host) a p) (hb : Relation.ReflTransGen (Enters host) b q) :
    Past host p q :=
  ((finish_of_moments ha).trans h).trans (advances_of_moments hb)

theorem comparable {first : Moment} (hp : Relation.ReflTransGen (Enters host) first p)
    (hq : Relation.ReflTransGen (Enters host) first q) :
    p = q ∨ Precedes host p q ∨ Precedes host q p := by
  induction hp using Relation.ReflTransGen.head_induction_on with
  | refl =>
      rcases Relation.reflTransGen_iff_eq_or_transGen.mp hq with eq | inside
      · exact .inl eq.symm
      · exact .inr (.inl (.inside inside))
  | @head first a ha behind ih =>
      rcases Relation.ReflTransGen.cases_head hq with rfl | ⟨b, hb, behind'⟩
      · exact .inr (.inr (.inside (.head' ha behind)))
      · rcases siblings ha hb with rfl | before | after
        · exact ih behind'
        · exact .inr (.inl (.past (before.within behind behind')))
        · exact .inr (.inr (.past (after.within behind' behind)))

theorem Precedes.advances (h : Precedes host p q) : p.machine.Advances q.machine := by
  cases h with
  | inside run => exact advances_of_moments run.to_reflTransGen
  | past past => exact (advances_finish host p).trans past

theorem Precedes.extends (h : Precedes host p q) : p.machine.store.Extends q.machine.store :=
  h.advances.1

theorem ordered {first : Moment} (hp : Relation.ReflTransGen (Enters host) first p)
    (hq : Relation.ReflTransGen (Enters host) first q) :
    p.machine.store.Extends q.machine.store ∨ q.machine.store.Extends p.machine.store := by
  rcases comparable hp hq with rfl | before | after
  · exact .inl (.refl _)
  · exact .inl before.extends
  · exact .inr after.extends

end ClassScript.Run
