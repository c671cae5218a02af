import ClassScript.Proofs.Run.Lockstep
import ClassScript.Proofs.Run.Order

/-!
# Where something in a run comes from

A fact about a part of a run, such as the way it fails, may be such that it holds of a sequence only
if it holds of what comes first or of what comes then, and never of a plain step. Then it holds of a
task only if it holds of a task that it is made of, unless the task is where it comes from
(`traced`). There are two places where the host can stop a run: the start of a statement, and the
check of the depth of calls. The others are steps that look for a name, and operators.
-/

namespace ClassScript.Run

open Machine

variable {α β : Type} {host : Host} {fuel : Nat} {m : Machine} {p q : Moment}
  {F : (α : Type) → Run α → Machine → Prop}

structure Traceable (host : Host) (F : (α : Type) → Run α → Machine → Prop) : Prop where
  step : ∀ {α} {part : Run α} {m}, Primitive true part → ¬ F α part m
  bind : ∀ {α β} {part : Run α} {rest : α → Run β} {m}, F β (part >>= rest) m →
    F α part m ∨ ∃ a n, part m = .ok a n ∧ F β (rest a) n
  discard : ∀ {α} {part : Run α} {m}, F α part m → F PUnit (discard part) m
  inScope : ∀ {α} {part : Run α} {scope m}, F α (inScope scope part) m →
    F α part { m with environment := scope }
  inLoop : ∀ {α} {part : Run α} {m}, F α (inLoop part) m → F α part m.insideLoop
  inCall : ∀ {α} {part : Run α} {kind scope m}, F α (inCall kind scope part) m →
    F α part { m.insideCall kind with environment := scope }
  collectIfDue : ∀ {m}, ¬ F Unit (collectIfDue host) m
  readClock : ∀ {m}, ¬ F Value (readClock host) m
  exhausted : ∀ {α m}, ¬ F α (throw .outOfFuel) m

namespace Traceable

theorem composes (ev : Traceable host F) :
    ComposesPlain fun α part _ => ∀ {m}, ¬ F α part m where
  step h := ev.step h
  bind h next := fun holds => by
    rcases ev.bind holds with holds | ⟨a, n, -, holds⟩
    · exact h holds
    · exact next a holds

theorem past (ev : Traceable host F) {part : Run α} {rest : α → Run β} (none : ¬ F α part m)
    (h : F β (part >>= rest) m) : ∃ a n, part m = .ok a n ∧ F β (rest a) n :=
  (ev.bind h).resolve_left none

theorem fault (ev : Traceable host F) {fault : RuntimeFault} {line : Nat}
    (h : F α (fail fault line) m) (plain : fault.plain = true) : False :=
  ev.step (.plainFail line plain) h

end Traceable

/-- A fact comes from the start of a statement or of a call. -/
inductive Origin (host : Host) (F : (α : Type) → Run α → Machine → Prop) (p : Moment) : Prop
  | call {fuel : Nat} {closure args line} : p = ⟨fuel + 1, .invoke closure args line, p.machine⟩ →
      F Unit (checkDepth host line) p.machine → Origin host F p
  | statement {fuel : Nat} {s} : p = ⟨fuel + 1, .exec s, p.machine⟩ →
      F Unit (start host s.line) p.machine → Origin host F p

/-- A fact comes from the host, from a name, or from an operator. -/
inductive Source (host : Host) (F : (α : Type) → Run α → Machine → Prop) (p : Moment) : Prop
  | origin : Origin host F p → Source host F p
  | lookup {fuel : Nat} {o name} : p = ⟨fuel, .lookup o name, p.machine⟩ →
      F Value (lookup o name) p.machine → Source host F p
  | assign {fuel : Nat} {o value} : p = ⟨fuel, .assign o value, p.machine⟩ →
      F Unit (assign o value) p.machine → Source host F p
  | superMethod {fuel : Nat} {keyword method} :
      p = ⟨fuel, .superMethod keyword method, p.machine⟩ →
      F Value (superMethod keyword method) p.machine → Source host F p
  | unary {fuel : Nat} {operator operand value n} :
      p = ⟨fuel + 1, .eval (.unary operator operand), p.machine⟩ →
      F Value (ofExcept (Operator.unary operator value)) n → Source host F p
  | binary {fuel : Nat} {left operator right l r n} :
      p = ⟨fuel + 1, .eval (.binary left operator right), p.machine⟩ →
      F Value (ofExcept (Operator.binary operator l r)) n → Source host F p
  | result {fuel : Nat} {closure args line n scope o signal m value} :
      p = ⟨fuel + 1, .invoke closure args line, p.machine⟩ →
      checkDepth host line p.machine = .ok () n → callScope closure args n = .ok scope o →
      inCall (if closure.isInitializer then .initializer else .function) scope
        (execAll host fuel closure.decl.body) o = .ok signal m →
      F Value (callResult closure line value) m → Source host F p

def Traced (host : Host) (F : (α : Type) → Run α → Machine → Prop) (p : Moment) : Prop :=
  (∃ q, Enters host p q ∧ F Unit (q.part host) q.machine) ∨ Source host F p

theorem Traced.part (enters : Enters host p q) (h : F Unit (q.part host) q.machine) :
    Traced host F p := .inl ⟨q, enters, h⟩

theorem traced_eval (ev : Traceable host F) {e : Expr} (h : F _ (eval host (fuel + 1) e) m) :
    Traced host F ⟨fuel + 1, .eval e, m⟩ := by
  cases e with
  | literal value line => exact (ev.step (.pure _) h).elim
  | grouping inner => exact .part .grouping (ev.discard h)
  | var name => exact .part .var (ev.discard h)
  | assign name value =>
      rcases ev.bind h with h | ⟨v, n, run, h⟩
      · exact .part .assigned (ev.discard h)
      · rcases ev.bind h with h | ⟨_, _, -, h⟩
        · exact .part (.assign run) h
        · exact (ev.step (.pure _) h).elim
  | logical left operator right =>
      rcases ev.bind h with h | ⟨l, n, run, h⟩
      · exact .part .logicalLeft (ev.discard h)
      · split at h
        · exact (ev.step (.pure _) h).elim
        · rename_i goesOn
          exact .part (.logicalRight run (Bool.eq_false_iff.mpr goesOn)) (ev.discard h)
  | binary left operator right =>
      rcases ev.bind h with h | ⟨l, n, run, h⟩
      · exact .part .binaryLeft (ev.discard h)
      · rcases ev.bind h with h | ⟨r, o, -, h⟩
        · exact .part (.binaryRight run) (ev.discard h)
        · exact .inr (.binary rfl h)
  | unary operator operand =>
      rcases ev.bind h with h | ⟨v, n, -, h⟩
      · exact .part .unary (ev.discard h)
      · exact .inr (.unary rfl h)
  | call callee paren arguments =>
      rcases ev.bind h with h | ⟨f, n, run, h⟩
      · exact .part .callee (ev.discard h)
      · rcases ev.bind h with h | ⟨args, o, run', h⟩
        · exact .part (.arguments run) (ev.discard h)
        · exact .part (.call run run') (ev.discard h)
  | get object name =>
      rcases ev.bind h with h | ⟨v, n, -, h⟩
      · exact .part .get (ev.discard h)
      · split at h
        · exact (ev.step (.readProperty _ _ _ _) h).elim
        · exact (ev.fault h rfl).elim
  | set object name value =>
      rcases ev.bind h with h | ⟨target, n, run, h⟩
      · exact .part .setObject (ev.discard h)
      · split at h
        · rcases ev.bind h with h | ⟨v, o, -, h⟩
          · exact .part (.setValue run) (ev.discard h)
          · obtain ⟨_, _, -, h⟩ := ev.past (ev.step (.setField _ _ v)) h
            exact (ev.step (.pure _) h).elim
        · exact (ev.fault h rfl).elim
  | this keyword => exact .part .this (ev.discard h)
  | super keyword method => exact .part .super (ev.discard h)

theorem traced_evalAll (ev : Traceable host F) {es : List Expr}
    (h : F _ (evalAll host (fuel + 1) es) m) :
    Traced host F ⟨fuel + 1, .evalAll es, m⟩ := by
  cases es with
  | nil => exact (ev.step (.pure _) h).elim
  | cons e rest =>
      rcases ev.bind h with h | ⟨v, n, run, h⟩
      · exact .part .firstExpr (ev.discard h)
      · rcases ev.bind h with h | ⟨vs, o, -, h⟩
        · exact .part (.otherExprs run) (ev.discard h)
        · exact (ev.step (.pure _) h).elim

theorem traced_call (ev : Traceable host F) {f : Value} {args : List Value} {line : Nat}
    (h : F _ (call host (fuel + 1) f args line) m) :
    Traced host F ⟨fuel + 1, .call f args line, m⟩ := by
  simp only [call] at h
  cases takes : f.arity? with
  | none =>
      rw [takes] at h
      dsimp only at h
      exact (ev.fault h rfl).elim
  | some arity =>
      rw [takes] at h
      dsimp only at h
      split at h
      · exact (ev.fault h rfl).elim
      rename_i same
      have same := of_not_not same
      cases f with
      | function id closure =>
          cases takes
          exact .part (.function same) (ev.discard h)
      | bound id closure =>
          cases takes
          exact .part (.bound same) (ev.discard h)
      | «class» object =>
          cases takes
          obtain ⟨id, n, created, h⟩ := ev.past (ev.step .newInstance) h
          split at h
          · rename_i init found
            obtain ⟨closure, o, bound, h⟩ := ev.past (ev.step (.bindMethod _ _)) h
            rcases ev.bind h with h | ⟨_, _, -, h⟩
            · exact .part (.initializer same created found bound) h
            · exact (ev.step (.pure _) h).elim
          · exact (ev.step (.pure _) h).elim
      | _ => exact (ev.readClock h).elim

theorem traced_invoke (ev : Traceable host F) {closure : Closure} {args : List Value} {line : Nat}
    (h : F _ (invoke host (fuel + 1) closure args line) m) :
    Traced host F ⟨fuel + 1, .invoke closure args line, m⟩ := by
  rw [invoke] at h
  rcases ev.bind h with h | ⟨_, n, depth, h⟩
  · exact .inr (.origin (.call rfl h))
  · obtain ⟨scope, o, created, h⟩ := ev.past (ev.composes.callScope closure args) h
    rcases ev.bind h with h | ⟨signal, q, run, h⟩
    · exact .part (.callBody depth created) (ev.discard (ev.inCall h))
    · cases signal with
      | normal => exact .inr (.result rfl depth created run h)
      | «return» value line => exact .inr (.result rfl depth created run h)
      | «break» line => exact (ev.fault h rfl).elim
      | «continue» line => exact (ev.fault h rfl).elim

theorem traced_classDecl (ev : Traceable host F) {decl : ClassDecl Stmt}
    (begins : Begins host (.classDecl decl) m n) (h : F Unit (declareClass decl) n) :
    Traced host F ⟨fuel + 1, .exec (.classDecl decl), m⟩ := by
  rcases ev.bind h with h | ⟨superclass, o, -, h⟩
  · unfold superclassOf at h
    cases named : decl.superclass with
    | none =>
        rw [named] at h
        exact (ev.step (.pure _) h).elim
    | some parent =>
        rw [named] at h
        dsimp only at h
        split at h
        · exact (ev.fault h rfl).elim
        · rename_i ne
          rcases ev.bind h with h | ⟨v, _, -, h⟩
          · exact .part (.superclass begins named (by simpa using ne)) (ev.discard h)
          · split at h
            · exact (ev.step (.pure _) h).elim
            · exact (ev.fault h rfl).elim
  · obtain ⟨_, _, -, h⟩ := ev.past (ev.composes.methodScope superclass) h
    obtain ⟨value, _, -, h⟩ := ev.past (ev.step (.newClass _ _ _)) h
    exact (ev.step (.define _ value) h).elim

theorem traced_exec (ev : Traceable host F) {s : Stmt} (h : F _ (exec host (fuel + 1) s) m) :
    Traced host F ⟨fuel + 1, .exec s, m⟩ := by
  unfold exec at h
  rcases ev.bind h with h | ⟨_, m', started, h⟩
  · exact .inr (.origin (.statement rfl h))
  obtain ⟨_, n, collected, h⟩ := ev.past ev.collectIfDue h
  have begins : Begins host s m n := (bind_ok started).trans collected
  cases s with
  | expression e =>
      rcases ev.bind h with h | ⟨_, _, -, h⟩
      · exact .part (.expression begins) h
      · exact (ev.step (.pure _) h).elim
  | print e =>
      rcases ev.bind h with h | ⟨v, _, -, h⟩
      · exact .part (.print begins) (ev.discard h)
      · obtain ⟨_, _, -, h⟩ := ev.past (ev.step (.print v)) h
        exact (ev.step (.pure _) h).elim
  | varDecl name initializer =>
      cases initializer with
      | none =>
          obtain ⟨_, _, -, h⟩ := ev.past (ev.step (.define _ _)) h
          exact (ev.step (.pure _) h).elim
      | some e =>
          rcases ev.bind h with h | ⟨v, _, -, h⟩
          · exact .part (.varDecl begins) (ev.discard h)
          · obtain ⟨_, _, -, h⟩ := ev.past (ev.step (.define _ v)) h
            exact (ev.step (.pure _) h).elim
  | block body line =>
      obtain ⟨m', n', eq, h⟩ := ev.past (ev.step .get) h
      cases eq
      obtain ⟨scope, o, created, h⟩ := ev.past (ev.step (.newScope _)) h
      exact .part (.block begins created) (ev.discard (ev.inScope h))
  | branch condition thenBranch elseBranch =>
      rcases ev.bind h with h | ⟨v, o, run, h⟩
      · exact .part (.branchCondition begins) (ev.discard h)
      · split at h
        · rename_i yes
          exact .part (.thenBranch begins run yes) (ev.discard h)
        · rename_i no
          cases elseBranch with
          | none => exact (ev.step (.pure _) h).elim
          | some other =>
              exact .part (.elseBranch begins run (Bool.eq_false_iff.mpr no))
                (ev.discard h)
  | loop condition body increment =>
      exact .part (.loop begins) (ev.discard (ev.inLoop h))
  | funDecl decl =>
      obtain ⟨_, _, -, h⟩ := ev.past (ev.composes.declareFunction decl) h
      exact (ev.step (.pure _) h).elim
  | classDecl decl =>
      rcases ev.bind h with h | ⟨_, _, -, h⟩
      · exact traced_classDecl ev begins h
      · exact (ev.step (.pure _) h).elim
  | «return» keyword value =>
      obtain ⟨_, o, checked, h⟩ := ev.past (ev.composes.checkReturn keyword value) h
      cases value with
      | none => exact (ev.step (.pure _) h).elim
      | some e =>
          rcases ev.bind h with h | ⟨_, _, -, h⟩
          · exact .part (.returned begins checked) (ev.discard h)
          · exact (ev.step (.pure _) h).elim
  | «break» keyword => exact (ev.composes.leaveLoop _ _ _ h).elim
  | «continue» keyword => exact (ev.composes.leaveLoop _ _ _ h).elim

theorem traced_execAll (ev : Traceable host F) {ss : List Stmt}
    (h : F _ (execAll host (fuel + 1) ss) m) :
    Traced host F ⟨fuel + 1, .execAll ss, m⟩ := by
  cases ss with
  | nil => exact (ev.step (.pure _) h).elim
  | cons s rest =>
      rcases ev.bind h with h | ⟨signal, n, run, h⟩
      · exact .part .firstStmt (ev.discard h)
      · split at h
        · exact .part (.otherStmts run) (ev.discard h)
        · exact (ev.step (.pure _) h).elim

theorem traced_execLoop (ev : Traceable host F) {condition : Expr} {body : Stmt}
    {increment : Option Expr} (h : F _ (execLoop host (fuel + 1) condition body increment) m) :
    Traced host F ⟨fuel + 1, .execLoop condition body increment, m⟩ := by
  rcases ev.bind h with h | ⟨v, n, run, h⟩
  · exact .part .loopCondition (ev.discard h)
  split at h
  · rename_i yes
    rcases ev.bind h with h | ⟨signal, o, once, h⟩
    · exact .part (.loopBody run yes) (ev.discard h)
    split at h
    · exact (ev.step (.pure _) h).elim
    · exact (ev.step (.pure _) h).elim
    rename_i notBreak notReturn
    have goesOn : GoesOn signal := by
      cases signal with
      | normal | «continue» line => trivial
      | «break» line => exact (notBreak line rfl).elim
      | «return» value line => exact (notReturn value line rfl).elim
    cases increment with
    | none => exact .part (.again run yes once goesOn) (ev.discard h)
    | some e =>
        rcases ev.bind h with h | ⟨_, q, more, h⟩
        · exact .part (.increment run yes once goesOn) h
        · obtain ⟨w, more⟩ := ok_of_discard more
          exact .part (.incremented run yes once goesOn more) (ev.discard h)
  · exact (ev.step (.pure _) h).elim

theorem traced (ev : Traceable host F) (h : F Unit (p.part host) p.machine) :
    Traced host F p := by
  obtain ⟨fuel, task, m⟩ := p
  have inner {α : Type} {part : Run α} (h : F PUnit (discard part) m) : F α part m := by
    rw [discard_eq] at h
    exact (ev.bind h).resolve_right fun ⟨_, _, _, h⟩ => ev.step (.pure _) h
  -- Without fuel there is no step to trace, and that is no fact of this kind.
  cases task with
  | program ss =>
      cases ss with
      | nil => exact (ev.step (.pure _) h).elim
      | cons s rest =>
          rcases ev.bind h with h | ⟨signal, n, run, h⟩
          · exact .part .firstOfProgram (ev.discard h)
          · cases signal with
            | normal => exact .part (.restOfProgram run) h
            | «break» line | «continue» line | «return» value line =>
                exact (ev.fault h rfl).elim
  | lookup o name => exact .inr (.lookup rfl (inner h))
  | assign o value => exact .inr (.assign rfl h)
  | superMethod keyword method => exact .inr (.superMethod rfl (inner h))
  | eval e =>
      cases fuel with
      | zero => exact (ev.exhausted (inner h)).elim
      | succ fuel => exact traced_eval ev (inner h)
  | evalAll es =>
      cases fuel with
      | zero => exact (ev.exhausted (inner h)).elim
      | succ fuel => exact traced_evalAll ev (inner h)
  | call f args line =>
      cases fuel with
      | zero => exact (ev.exhausted (inner h)).elim
      | succ fuel => exact traced_call ev (inner h)
  | invoke closure args line =>
      cases fuel with
      | zero => exact (ev.exhausted (inner h)).elim
      | succ fuel => exact traced_invoke ev (inner h)
  | exec s =>
      cases fuel with
      | zero => exact (ev.exhausted (inner h)).elim
      | succ fuel => exact traced_exec ev (inner h)
  | execAll ss =>
      cases fuel with
      | zero => exact (ev.exhausted (inner h)).elim
      | succ fuel => exact traced_execAll ev (inner h)
  | execLoop condition body increment =>
      cases fuel with
      | zero => exact (ev.exhausted (inner h)).elim
      | succ fuel => exact traced_execLoop ev (inner h)

theorem Lockstep.part {left right : Host} {R : (α : Type) → Run α → Run α → Prop}
    (h : Lockstep left right R) (all : ∀ fuel, LockstepWith left right R fuel fuel) (p : Moment) :
    R Unit (p.part left) (p.part right) := by
  obtain ⟨fuel, task, m⟩ := p
  cases task with
  | eval e => exact h.plain.discard ((all fuel).eval e)
  | evalAll es => exact h.plain.discard ((all fuel).evalAll es)
  | call f args line => exact h.plain.discard ((all fuel).call f args line)
  | invoke closure args line => exact h.plain.discard ((all fuel).invoke closure args line)
  | exec s => exact h.plain.discard ((all fuel).exec s)
  | execAll ss => exact h.plain.discard ((all fuel).execAll ss)
  | execLoop condition body increment =>
      exact h.plain.discard ((all fuel).execLoop condition body increment)
  | program ss => exact h.program (all fuel) ss
  | lookup o name => exact h.plain.discard (h.step (.lookup o name))
  | assign o value => exact h.step (.assign o value)
  | superMethod keyword method => exact h.plain.discard (h.superMethod keyword method)

def Moment.rank : Moment → Nat
  | ⟨fuel, .program ss, _⟩ => fuel + ss.length + 1
  | ⟨fuel, _, _⟩ => fuel

theorem rank_of_enters (enters : Enters host p q) : q.rank < p.rank := by
  cases enters <;> simp only [Moment.rank, List.length_cons] <;> omega

theorem exists_source (ev : Traceable host F) {p : Moment} (h : F Unit (p.part host) p.machine) :
    ∃ q, Relation.ReflTransGen (Enters host) p q ∧ Source host F q := by
  rcases traced ev h with ⟨q, enters, holds⟩ | source
  · have := rank_of_enters enters
    obtain ⟨last, run, source⟩ := exists_source ev holds
    exact ⟨last, .head enters run, source⟩
  · exact ⟨p, .refl, source⟩
termination_by p.rank

/-- What holds of no single step at all comes from the host. -/
theorem exists_origin (ev : Traceable host F)
    (none : ∀ {plain α} {part : Run α} {m}, Primitive plain part → ¬ F α part m)
    (h : F Unit (p.part host) p.machine) :
    ∃ q, Relation.ReflTransGen (Enters host) p q ∧ Origin host F q := by
  have composes := ev.composes.all fun step => none step
  obtain ⟨q, run, source⟩ := exists_source ev h
  refine ⟨q, run, ?_⟩
  cases source with
  | origin origin => exact origin
  | lookup _ h => exact (none (.lookup _ _) h).elim
  | assign _ h => exact (none (.assign _ _) h).elim
  | superMethod _ h => exact (composes.superMethod _ _ h).elim
  | unary _ h => exact (composes.ofExcept (fun _ => unary_fault) h).elim
  | binary _ h => exact (composes.ofExcept (fun _ => binary_fault) h).elim
  | result _ _ _ _ h => exact (composes.callResult _ _ _ h).elim

end ClassScript.Run
