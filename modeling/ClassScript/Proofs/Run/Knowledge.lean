import ClassScript.Proofs.Run.Overflow

namespace ClassScript

def Machine.knowing (m : Machine) (d : Distances) : Machine := { m with distances := d }

namespace Run

variable {α β : Type} {host : Host} {d : Distances} {fuel line : Nat} {m n : Machine} {p q : Moment}

def resultKnowing (d : Distances) :
    EStateM.Result Halt Machine α → EStateM.Result Halt Machine α
  | .ok a n => .ok a (n.knowing d)
  | .error e n => .error e (n.knowing d)

def Blind (d : Distances) (part : Run α) (m : Machine) : Prop :=
  part (m.knowing d) = resultKnowing d (part m)

def Moment.Agrees (d : Distances) (p : Moment) : Prop :=
  match p.task with
  | .lookup o _ | .assign o _ | .superMethod o _ => p.machine.distances[o.id]? = d[o.id]?
  | _ => True

def Needs (host : Host) (d : Distances) (p : Moment) : Prop :=
  ∀ q, Relation.ReflTransGen (Enters host) p q → q.Agrees d

theorem Needs.enter (h : Needs host d p) (enters : Enters host p q) : Needs host d q :=
  fun _ run => h _ (.head enters run)

theorem Blind.bind {part : Run α} {rest : α → Run β} (h : Blind d part m)
    (next : ∀ a n, part m = .ok a n → Blind d (rest a) n) : Blind d (part >>= rest) m := by
  unfold Blind at h ⊢
  simp only [Bind.bind, EStateM.bind]
  rw [h]
  cases run : part m with
  | ok a n => exact next a n run
  | error e n => rfl

theorem Blind.discard {part : Run α} (h : Blind d part m) :
    Blind d (discard part : Run PUnit) m := by
  rw [discard_eq]
  exact h.bind fun _ _ _ => rfl

theorem blind_get {rest : Machine → Run β} (same : rest (m.knowing d) = rest m)
    (h : Blind d (rest m) m) : Blind d (get >>= rest) m := by
  change rest (m.knowing d) (m.knowing d) = resultKnowing d (rest m m)
  rw [same]
  exact h

theorem Blind.inScope {part : Run α} {scope : Address}
    (h : Blind d part { m with environment := scope }) : Blind d (inScope scope part) m := by
  unfold Blind Run.inScope
  dsimp only
  change (match part (Machine.knowing { m with environment := scope } d) with
    | .ok a n => _ | .error e n => _) = _
  rw [h]
  cases part { m with environment := scope } <;> rfl

theorem Blind.inLoop {part : Run α} (h : Blind d part m.insideLoop) : Blind d (inLoop part) m := by
  unfold Blind Run.inLoop
  change (match part (m.insideLoop.knowing d) with | .ok a n => _ | .error e n => _) =
    resultKnowing d (match part m.insideLoop with | .ok a n => _ | .error e n => _)
  rw [h]
  cases part m.insideLoop <;> rfl

theorem Blind.inCall {part : Run α} {kind : FrameKind} {scope : Address}
    (h : Blind d part { m.insideCall kind with environment := scope }) :
    Blind d (inCall kind scope part) m := by
  unfold Blind Run.inCall
  change (match part (Machine.knowing { m.insideCall kind with environment := scope } d) with
    | .ok a n => _ | .error e n => _) =
    resultKnowing d (match part { m.insideCall kind with environment := scope } with
      | .ok a n => _ | .error e n => _)
  rw [h]
  cases part { m.insideCall kind with environment := scope } <;> rfl

theorem blind_ofExcept (r : Except RuntimeError α) (m : Machine) : Blind d (ofExcept r) m := by
  cases r <;> rfl

theorem blind_lookup {o : Occurrence} (same : m.distances[o.id]? = d[o.id]?) (name : String) :
    Blind d (lookup o name) m := by
  unfold Blind lookup Machine.knowing
  dsimp only
  rw [← same]
  split <;> rfl

theorem blind_assign {o : Occurrence} (same : m.distances[o.id]? = d[o.id]?) (value : Value) :
    Blind d (assign o value) m := by
  unfold Blind assign Machine.knowing
  dsimp only
  rw [← same]
  split <;> rfl

theorem blind_superMethod {keyword : Occurrence}
    (same : m.distances[keyword.id]? = d[keyword.id]?) (method : Token) :
    Blind d (superMethod keyword method) m := by
  apply blind_get
  · simp only [Machine.knowing, same]
  cases m.distances[keyword.id]? with
  | none => rfl
  | some distance =>
      apply (blind_ofExcept _ m).bind
      intro superclass n _
      apply (blind_ofExcept _ n).bind
      intro receiver n _
      split
      · split <;> rfl
      · rfl

theorem blind_readProperty (id : Address) (object : ClassObject) (name : String) :
    Blind d (readProperty id object name line) m := by
  unfold Blind readProperty Machine.knowing
  dsimp only
  split <;> rfl

theorem blind_start : Blind d (start host line) m := by
  unfold Blind start Machine.knowing
  dsimp only
  split <;> rfl

theorem blind_collectIfDue : Blind d (collectIfDue host) m := by
  unfold Blind collectIfDue Machine.knowing
  dsimp only
  split <;> rfl

theorem blind_checkDepth : Blind d (checkDepth host line) m := by
  unfold checkDepth
  cases host.maxDepth with
  | none => rfl
  | some limit =>
      apply blind_get rfl
      split <;> rfl

theorem blind_callResult (closure : Closure) (value : Value) :
    Blind d (callResult closure line value) m := by
  unfold callResult
  split
  · exact blind_get rfl (blind_ofExcept _ m)
  · rfl

theorem blind_checkReturn (keyword : Token) (value : Option Expr) :
    Blind d (checkReturn keyword value) m := by
  apply blind_get rfl
  split
  · rfl
  · split <;> rfl
  · rfl

theorem blind_leaveLoop (exit : LoopExit) (signal : Signal) :
    Blind d (leaveLoop exit line signal) m := by
  apply blind_get rfl
  split <;> rfl

theorem blind_methodScope (superclass : Option ClassObject) :
    Blind d (methodScope superclass) m := by
  apply blind_get rfl
  cases superclass <;> rfl

theorem blind_declareClass {decl : ClassDecl Stmt}
    (same : ∀ parent, decl.superclass = some parent →
      parent.token.lexeme ≠ decl.name.lexeme → m.distances[parent.id]? = d[parent.id]?) :
    Blind d (declareClass decl) m := by
  have above : Blind d (superclassOf decl) m := by
    unfold superclassOf
    cases named : decl.superclass with
    | none => rfl
    | some parent =>
        dsimp only
        split
        · rfl
        · rename_i ne
          apply (blind_lookup (same parent named (by simpa using ne)) _).bind
          intro value n _
          split <;> rfl
  apply above.bind
  intro superclass n _
  apply (blind_methodScope superclass).bind
  intro scope o _
  rfl

theorem blind_statement {s : Stmt} {part : Run α}
    (h : ∀ n, Begins host s m n → Blind d part n) :
    Blind d (do start host s.line; collectIfDue host; part) m := by
  rw [← bind_assoc]
  exact (blind_start.bind fun _ _ _ => blind_collectIfDue).bind fun _ n run => h n run

structure BlindWith (host : Host) (d : Distances) (fuel : Nat) : Prop where
  eval : ∀ e m, Needs host d ⟨fuel, .eval e, m⟩ → Blind d (eval host fuel e) m
  evalAll : ∀ es m, Needs host d ⟨fuel, .evalAll es, m⟩ → Blind d (evalAll host fuel es) m
  call : ∀ f args line m, Needs host d ⟨fuel, .call f args line, m⟩ →
    Blind d (call host fuel f args line) m
  invoke : ∀ closure args line m, Needs host d ⟨fuel, .invoke closure args line, m⟩ →
    Blind d (invoke host fuel closure args line) m
  exec : ∀ s m, Needs host d ⟨fuel, .exec s, m⟩ → Blind d (exec host fuel s) m
  execAll : ∀ ss m, Needs host d ⟨fuel, .execAll ss, m⟩ → Blind d (execAll host fuel ss) m
  execLoop : ∀ condition body increment m,
    Needs host d ⟨fuel, .execLoop condition body increment, m⟩ →
    Blind d (execLoop host fuel condition body increment) m

theorem blind_eval (ih : BlindWith host d fuel) (e : Expr)
    (h : Needs host d ⟨fuel + 1, .eval e, m⟩) : Blind d (eval host (fuel + 1) e) m := by
  cases e with
  | literal value line => rfl
  | grouping inner => exact ih.eval inner m (h.enter .grouping)
  | var name => exact blind_lookup (h _ (.single .var)) _
  | assign name value =>
      apply (ih.eval value m (h.enter .assigned)).bind
      intro v n run
      exact (blind_assign (h _ (.single (.assign run))) v).bind fun _ _ _ => rfl
  | logical left operator right =>
      apply (ih.eval left m (h.enter .logicalLeft)).bind
      intro l n run
      split
      · rfl
      · rename_i goesOn
        exact ih.eval right n (h.enter (.logicalRight run (Bool.eq_false_iff.mpr goesOn)))
  | binary left operator right =>
      apply (ih.eval left m (h.enter .binaryLeft)).bind
      intro l n run
      apply (ih.eval right n (h.enter (.binaryRight run))).bind
      exact fun r o _ => blind_ofExcept _ o
  | unary operator operand =>
      exact (ih.eval operand m (h.enter .unary)).bind fun v n _ => blind_ofExcept _ n
  | call callee paren arguments =>
      apply (ih.eval callee m (h.enter .callee)).bind
      intro f n run
      apply (ih.evalAll arguments n (h.enter (.arguments run))).bind
      intro args o run'
      exact ih.call f args _ o (h.enter (.call run run'))
  | get object name =>
      apply (ih.eval object m (h.enter .get)).bind
      intro v n run
      split
      · exact blind_readProperty _ _ _
      · rfl
  | set object name value =>
      apply (ih.eval object m (h.enter .setObject)).bind
      intro target n run
      split
      · apply (ih.eval value n (h.enter (.setValue run))).bind
        intro v o _
        rfl
      · rfl
  | this keyword => exact blind_lookup (h _ (.single .this)) _
  | super keyword method => exact blind_superMethod (h _ (.single .super)) method

theorem blind_evalAll (ih : BlindWith host d fuel) (es : List Expr)
    (h : Needs host d ⟨fuel + 1, .evalAll es, m⟩) : Blind d (evalAll host (fuel + 1) es) m := by
  cases es with
  | nil => rfl
  | cons e rest =>
      apply (ih.eval e m (h.enter .firstExpr)).bind
      intro v n run
      exact (ih.evalAll rest n (h.enter (.otherExprs run))).bind fun _ _ _ => rfl

theorem blind_call (ih : BlindWith host d fuel) (f : Value) (args : List Value) (line : Nat)
    (h : Needs host d ⟨fuel + 1, .call f args line, m⟩) :
    Blind d (call host (fuel + 1) f args line) m := by
  unfold call
  cases takes : f.arity? with
  | none => rfl
  | some arity =>
      dsimp only
      split
      · rfl
      rename_i same
      have same := of_not_not same
      cases f with
      | function id closure =>
          cases takes
          exact ih.invoke closure args line m (h.enter (.function same))
      | bound id closure =>
          cases takes
          exact ih.invoke closure args line m (h.enter (.bound same))
      | «class» object =>
          cases takes
          have created : Blind d newInstance m := rfl
          apply created.bind
          intro id n created
          cases found : object.method? ClassObject.initializerName with
          | none => rfl
          | some init =>
              have binding : Blind d (bindMethod init (.instance id object)) n := rfl
              apply binding.bind
              intro closure o bound
              have entered := h.enter (.initializer same created found bound)
              have body := ih.invoke closure args line o entered
              exact body.discard.bind fun _ _ _ => rfl
      | _ => rfl

theorem blind_invoke (ih : BlindWith host d fuel) (closure : Closure) (args : List Value)
    (line : Nat) (h : Needs host d ⟨fuel + 1, .invoke closure args line, m⟩) :
    Blind d (invoke host (fuel + 1) closure args line) m := by
  apply blind_checkDepth.bind
  intro _ n depth
  have opening : Blind d (callScope closure args) n := rfl
  apply opening.bind
  intro scope o created
  apply (Blind.inCall (ih.execAll closure.decl.body _ (h.enter (.callBody depth created)))).bind
  intro signal q _
  cases signal with
  | normal => exact blind_callResult closure _
  | «return» value line => exact blind_callResult closure value
  | «break» line | «continue» line => rfl

theorem blind_exec (ih : BlindWith host d fuel) (s : Stmt)
    (h : Needs host d ⟨fuel + 1, .exec s, m⟩) : Blind d (exec host (fuel + 1) s) m := by
  unfold exec
  apply blind_statement
  intro n begins
  cases s with
  | expression e =>
      exact (ih.eval e n (h.enter (.expression begins))).discard.bind fun _ _ _ => rfl
  | print e => exact (ih.eval e n (h.enter (.print begins))).bind fun _ _ _ => rfl
  | varDecl name initializer =>
      cases initializer with
      | none => rfl
      | some e => exact (ih.eval e n (h.enter (.varDecl begins))).bind fun _ _ _ => rfl
  | block body line =>
      apply blind_get rfl
      have opening : Blind d (newScope n.environment) n := rfl
      apply opening.bind
      intro scope o created
      exact .inScope (ih.execAll body _ (h.enter (.block begins created)))
  | branch condition thenBranch elseBranch =>
      apply (ih.eval condition n (h.enter (.branchCondition begins))).bind
      intro v o run
      split
      · rename_i yes
        exact ih.exec thenBranch o (h.enter (.thenBranch begins run yes))
      · rename_i no
        cases elseBranch with
        | none => rfl
        | some other =>
            exact ih.exec other o (h.enter (.elseBranch begins run (Bool.eq_false_iff.mpr no)))
  | loop condition body increment =>
      exact .inLoop (ih.execLoop condition body increment _ (h.enter (.loop begins)))
  | funDecl decl => rfl
  | classDecl decl =>
      have declared : Blind d (declareClass decl) n := blind_declareClass fun parent named ne =>
        h _ (.single (.superclass begins named ne))
      exact declared.bind fun _ _ _ => rfl
  | «return» keyword value =>
      apply (blind_checkReturn keyword value).bind
      intro _ o checked
      cases value with
      | none => rfl
      | some e => exact (ih.eval e o (h.enter (.returned begins checked))).bind fun _ _ _ => rfl
  | «break» keyword => exact blind_leaveLoop _ _
  | «continue» keyword => exact blind_leaveLoop _ _

theorem blind_execAll (ih : BlindWith host d fuel) (ss : List Stmt)
    (h : Needs host d ⟨fuel + 1, .execAll ss, m⟩) : Blind d (execAll host (fuel + 1) ss) m := by
  cases ss with
  | nil => rfl
  | cons s rest =>
      apply (ih.exec s m (h.enter .firstStmt)).bind
      intro signal n run
      cases signal with
      | normal => exact ih.execAll rest n (h.enter (.otherStmts run))
      | «break» line | «continue» line | «return» value line => rfl

theorem blind_execLoop (ih : BlindWith host d fuel) (condition : Expr) (body : Stmt)
    (increment : Option Expr) (h : Needs host d ⟨fuel + 1, .execLoop condition body increment, m⟩) :
    Blind d (execLoop host (fuel + 1) condition body increment) m := by
  apply (ih.eval condition m (h.enter .loopCondition)).bind
  intro v n run
  split
  · rename_i yes
    apply (ih.exec body n (h.enter (.loopBody run yes))).bind
    intro signal o once
    have again (goesOn : GoesOn signal) : Blind d (goRound host fuel condition body increment
        .normal) o := by
      cases increment with
      | none => exact ih.execLoop condition body none o (h.enter (.again run yes once goesOn))
      | some e =>
          apply (ih.eval e o (h.enter (.increment run yes once goesOn))).discard.bind
          intro _ q more
          obtain ⟨w, more⟩ := ok_of_discard more
          exact ih.execLoop condition body (some e) q
            (h.enter (.incremented run yes once goesOn more))
    cases signal with
    | normal | «continue» line => exact again trivial
    | «break» line | «return» value line => rfl
  · rfl

theorem blindWith (host : Host) (d : Distances) (fuel : Nat) : BlindWith host d fuel := by
  induction fuel with
  | zero => constructor <;> intros <;> rfl
  | succ fuel ih =>
      exact {
        eval := fun e _ => blind_eval ih e
        evalAll := fun es _ => blind_evalAll ih es
        call := fun f args line _ => blind_call ih f args line
        invoke := fun closure args line _ => blind_invoke ih closure args line
        exec := fun s _ => blind_exec ih s
        execAll := fun ss _ => blind_execAll ih ss
        execLoop := fun condition body increment _ => blind_execLoop ih condition body increment }

theorem blind_program (host : Host) (d : Distances) (fuel : Nat) (ss : List Stmt)
    (h : Needs host d ⟨fuel, .program ss, m⟩) : Blind d (program host fuel ss) m := by
  induction ss generalizing m with
  | nil => rfl
  | cons s rest ih =>
      apply ((blindWith host d fuel).exec s m (h.enter .firstOfProgram)).bind
      intro signal n run
      cases signal with
      | normal => exact ih (h.enter (.restOfProgram run))
      | «break» line | «continue» line | «return» value line => rfl

end Run

end ClassScript
