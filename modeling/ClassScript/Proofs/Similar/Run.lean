import ClassScript.Proofs.Similar.Steps

namespace ClassScript.Run

open Store World

variable {T : Twins} {w : World} {a b : Address} {Γ : ScopePairs} {host : Host}
  {k fuel fuel' g line : Nat}

abbrev Yields (T : Twins) (w : World) (a b : Address) : Run Value → Run Value → Prop :=
  Parallel T w a b (ValueLinked T)

abbrev YieldsAll (T : Twins) (w : World) (a b : Address) :
    Run (List Value) → Run (List Value) → Prop :=
  Parallel T w a b fun w' => List.Forall₂ (ValueLinked T w')

abbrev Signals (T : Twins) (w : World) (a b : Address) : Run Signal → Run Signal → Prop :=
  Parallel T w a b (SignalLinked T)

abbrev Executes (T : Twins) (w : World) (a b : Address) (Γ : ScopePairs) :
    Run Signal → Run Signal → Prop :=
  Parallel T w a b fun w' x y => SignalLinked T w' x y ∧ w'.Chain Γ a b

structure ParallelWith (T : Twins) (host : Host) (k fuel : Nat) : Prop where
  eval : ∀ {fuel' w a b Γ e e'}, k * fuel ≤ fuel' → w.Chain Γ a b → T.Expr Γ e e' →
    Yields T w a b (eval host fuel e) (eval host fuel' e')
  evalAll : ∀ {fuel' w a b Γ es es'}, k * fuel ≤ fuel' → w.Chain Γ a b → T.Exprs Γ es es' →
    YieldsAll T w a b (evalAll host fuel es) (evalAll host fuel' es')
  call : ∀ {fuel' w a b f f' vs vs'} (line : Nat), k * fuel ≤ fuel' → ValueLinked T w f f' →
    List.Forall₂ (ValueLinked T w) vs vs' →
    Yields T w a b (call host fuel f vs line) (call host fuel' f' vs' line)
  invoke : ∀ {fuel' w a b c c' vs vs'} (line : Nat), k * fuel ≤ fuel' → Callable T w c c' →
    List.Forall₂ (ValueLinked T w) vs vs' → vs.length = c.decl.arity →
    Yields T w a b (invoke host fuel c vs line) (invoke host fuel' c' vs' line)
  exec : ∀ {fuel' w a b Γ s s'}, k * fuel ≤ fuel' → w.Chain Γ a b → T.Stmt Γ s s' →
    Executes T w a b (Γ.after s) (exec host fuel s) (exec host fuel' s')
  execAll : ∀ {fuel' w a b Γ ss ss'}, k * fuel ≤ fuel' → w.Chain Γ a b → T.Stmts Γ ss ss' →
    Signals T w a b (execAll host fuel ss) (execAll host fuel' ss')
  execLoop : ∀ {fuel' w a b Γ c c' s s' e e'}, k * fuel ≤ fuel' → w.Chain Γ a b →
    T.Plain Γ (.loop c s e) (.loop c' s' e') →
    Signals T w a b (execLoop host fuel c s e) (execLoop host fuel' c' s' e')

theorem parallel_exhausted {α β : Type} {Q : World → α → β → Prop} {part : Run β}
    (prints : Prints part) : Parallel T w a b Q (throw .outOfFuel) part := by
  intro m m' agree
  have start : Printed m m' := by
    unfold Printed
    rw [agree.output]
  exact .exhausted (start.trans (prints m'))

theorem parallel_zero (T : Twins) (host : Host) (k : Nat) : ParallelWith T host k 0 where
  eval _ _ _ := parallel_exhausted ((printsWith host _).eval _)
  evalAll _ _ _ := parallel_exhausted ((printsWith host _).evalAll _)
  call _ _ _ _ := parallel_exhausted ((printsWith host _).call _ _ _)
  invoke _ _ _ _ _ := parallel_exhausted ((printsWith host _).invoke _ _ _)
  exec _ _ _ := parallel_exhausted ((printsWith host _).exec _)
  execAll _ _ _ := parallel_exhausted ((printsWith host _).execAll _)
  execLoop _ _ _ := parallel_exhausted ((printsWith host _).execLoop _ _ _)

/-! ## Expressions -/

theorem plain_linked {v : Value} (h : v.Plain) : ValueLinked T w v v := by
  match v, h with
  | .nil, _ => exact .nil
  | .bool x, _ => exact .bool x
  | .number x, _ => exact .number x
  | .string text, _ => exact .string text

theorem unary_linked {v v' : Value} (alike : ValueLinked T w v v') (operator : Token) :
    Operator.unary operator v' = Operator.unary operator v := by
  unfold Operator.unary
  rw [alike.truthy]
  cases alike <;> rfl

theorem numeric_linked {l l' r r' : Value} (left : ValueLinked T w l l')
    (right : ValueLinked T w r r') (operator : Token) (apply : Float → Float → Value) :
    Operator.numeric operator l' r' apply = Operator.numeric operator l r apply := by
  cases left <;> cases right <;> rfl

theorem add_linked {l l' r r' : Value} (left : ValueLinked T w l l')
    (right : ValueLinked T w r r') (operator : Token) :
    Operator.add operator l' r' = Operator.add operator l r := by
  cases left <;> cases right <;> rfl

theorem binary_linked {l l' r r' : Value} (h : w.Consistent T) (left : ValueLinked T w l l')
    (right : ValueLinked T w r r') (operator : Token) :
    Operator.binary operator l' r' = Operator.binary operator l r := by
  unfold Operator.binary
  simp only [numeric_linked left right, add_linked left right, ValueLinked.equal h left right]

theorem steps_ofExcept {r : Except RuntimeError Value} (plain : ∀ v, r = .ok v → v.Plain) :
    Steps T w a b (ValueLinked T) (ofExcept r) (ofExcept r) := by
  cases r with
  | ok v => exact steps_pure (plain_linked (plain v rfl))
  | error e => exact steps_fail e.1 e.2

theorem steps_binary {l l' r r' : Value} (left : ValueLinked T w l l')
    (right : ValueLinked T w r r') (operator : Token) :
    Steps T w a b (ValueLinked T) (ofExcept (Operator.binary operator l r))
      (ofExcept (Operator.binary operator l' r')) := by
  intro m m' agree
  rw [binary_linked agree.consistent left right]
  exact steps_ofExcept (fun _ => Operator.plain_binary) m m' agree

theorem shortCircuits_linked {v v' : Value} (alike : ValueLinked T w v v') (operator : Token) :
    Operator.shortCircuits operator v' = Operator.shortCircuits operator v := by
  unfold Operator.shortCircuits
  rw [alike.truthy]

theorem parallel_eval (ih : ParallelWith T host k fuel) (enough : k * fuel ≤ g)
    (chain : w.Chain Γ a b) {e e' : Expr} (similar : T.Expr Γ e e') :
    Yields T w a b (eval host (fuel + 1) e) (eval host (g + 1) e') := by
  have prints := printsWith host g
  cases similar with
  | literal value line => exact (steps_pure (plain_linked value.plain_value)).parallel
  | grouping h => exact (ih.eval enough chain h :)
  | var known => exact (steps_lookup chain known).parallel
  | assign known h =>
      apply (ih.eval enough chain h).bind
      · exact fun v => (Primitive.assign _ v).prints.bind fun _ => (Primitive.pure v).prints
      intro w₁ v v' grows alike
      refine ((steps_assign (chain.mono grows) known alike).bind fun _ _ _ later _ => ?_).parallel
      exact steps_pure (alike.mono later)
  | logical operator l r =>
      apply (ih.eval enough chain l).bind
      · intro v
        split
        · exact (Primitive.pure v).prints
        · exact prints.eval _
      intro w₁ v v' grows alike
      rw [shortCircuits_linked alike]
      split
      · exact (steps_pure alike).parallel
      · exact ih.eval enough (chain.mono grows) r
  | binary operator l r =>
      apply (ih.eval enough chain l).bind
      · exact fun v => (prints.eval _).bind fun v' =>
          (lockstep_prints host).ofExcept fun _ => binary_fault
      intro w₁ v v' grows left
      apply (ih.eval enough (chain.mono grows) r).bind
      · exact fun v' => (lockstep_prints host).ofExcept fun _ => binary_fault
      intro w₂ u u' later right
      exact (steps_binary (left.mono later) right operator).parallel
  | unary operator h =>
      apply (ih.eval enough chain h).bind
      · exact fun v => (lockstep_prints host).ofExcept fun _ => unary_fault
      intro w₁ v v' grows alike
      rw [unary_linked alike]
      exact (steps_ofExcept fun _ => Operator.plain_unary).parallel
  | call paren h hs =>
      apply (ih.eval enough chain h).bind
      · exact fun f => (prints.evalAll _).bind fun vs => prints.call f vs _
      intro w₁ f f' grows callee
      apply (ih.evalAll enough (chain.mono grows) hs).bind
      · exact fun vs => prints.call _ vs _
      intro w₂ vs vs' later args
      exact ih.call paren.line enough (callee.mono later) args
  | get name h =>
      apply (ih.eval enough chain h).bind
      · intro v
        split
        · exact (Primitive.readProperty _ _ _ _).prints
        · exact Primitive.prints (.fail _ nofun)
      intro w₁ v v' grows alike
      cases alike with
      | «instance» linked object => exact (steps_readProperty linked object _ _).parallel
      | _ => exact (steps_fail _ _).parallel
  | set name h value =>
      apply (ih.eval enough chain h).bind
      · intro v
        split
        · exact (prints.eval _).bind fun v =>
            (Primitive.setField _ _ v).prints.bind fun _ => (Primitive.pure v).prints
        · exact Primitive.prints (.fail _ nofun)
      intro w₁ v v' grows alike
      cases alike with
      | «instance» linked object =>
          apply (ih.eval enough (chain.mono grows) value).bind
          · exact fun v => (Primitive.setField _ _ v).prints.bind fun _ => (Primitive.pure v).prints
          intro w₂ u u' later alike
          have written := steps_setField (a := a) (b := b) (later.linked linked) alike name.lexeme
          exact (written.bind fun _ _ _ grows _ => steps_pure (alike.mono grows)).parallel
      | _ => exact (steps_fail _ _).parallel
  | this known => exact (steps_lookup chain known).parallel
  | super method known regular => exact (steps_superMethod chain regular known method).parallel

theorem parallel_evalAll (ih : ParallelWith T host k fuel) (enough : k * fuel ≤ g)
    (chain : w.Chain Γ a b) {es es' : List Expr} (similar : T.Exprs Γ es es') :
    YieldsAll T w a b (evalAll host (fuel + 1) es) (evalAll host (g + 1) es') := by
  have prints := printsWith host g
  cases similar with
  | nil => exact (steps_pure .nil).parallel
  | cons h hs =>
      apply (ih.eval enough chain h).bind
      · exact fun v => (prints.evalAll _).bind fun vs => (Primitive.pure (v :: vs)).prints
      intro w₁ v v' grows alike
      apply (ih.evalAll enough (chain.mono grows) hs).bind
      · exact fun vs => (Primitive.pure _).prints
      intro w₂ vs vs' later rest
      exact (steps_pure (.cons (alike.mono later) rest)).parallel

/-! ## Calls -/

theorem parallel_call (ih : ParallelWith T host k fuel) (enough : k * fuel ≤ g) {f f' : Value}
    {vs vs' : List Value} (line : Nat) (callee : ValueLinked T w f f')
    (args : List.Forall₂ (ValueLinked T w) vs vs') :
    Yields T w a b (call host (fuel + 1) f vs line) (call host (g + 1) f' vs' line) := by
  have prints := printsWith host g
  unfold Run.call
  rw [callee.arity?, ← args.length_eq]
  cases arity : f.arity? with
  | none => exact (steps_fail _ _).parallel
  | some n =>
      dsimp only
      split
      · exact (steps_fail _ _).parallel
      · rename_i length
        have length : vs.length = n := by simpa using length
        cases callee with
        | function _ code | bound _ code =>
            cases arity
            exact ih.invoke line enough code args length
        | @«class» object object' alike =>
            cases arity
            unfold ClassObject.arity at length
            refine steps_newInstance.then fun w₁ id id' grows linked => ?_
            have alike := alike.mono grows
            have found := alike.method? ClassObject.initializerName
            generalize object.method? _ = x at *
            generalize object'.method? _ = y at *
            cases found with
            | none => exact (steps_pure (.instance linked alike)).parallel
            | some found =>
                have receiver := ValueLinked.instance linked alike
                refine (steps_bindMethod found receiver).then fun w₂ c c' later both => ?_
                obtain ⟨code, decl⟩ := both
                have args := args.imp fun _ _ v => (v.mono grows).mono later
                have length : vs.length = c.decl.arity := length.trans (by rw [decl]; rfl)
                apply (ih.invoke line enough code args length).discard.bind
                · exact fun _ => (Primitive.pure _).prints
                intro w₃ _ _ later' _
                exact (steps_pure ((receiver.mono later).mono later')).parallel
        | clock => exact (steps_readClock host).parallel
        | _ => cases arity

theorem parallel_invoke (ih : ParallelWith T host k fuel) (enough : k * fuel ≤ g) {c c' : Closure}
    {vs vs' : List Value} (line : Nat) (callable : Callable T w c c')
    (args : List.Forall₂ (ValueLinked T w) vs vs') (length : vs.length = c.decl.arity) :
    Yields T w a b (invoke host (fuel + 1) c vs line) (invoke host (g + 1) c' vs' line) := by
  have prints := printsWith host g
  have lockstep := lockstep_prints host
  refine (steps_checkDepth host line).then fun w₁ _ _ grows _ => ?_
  have callable := callable.mono grows
  obtain ⟨Γ, linked, initializer⟩ := callable
  have args := args.imp fun _ _ v => v.mono grows
  refine (steps_callScope linked args length).then fun w₂ p q later ⟨Δ, chain, body⟩ => ?_
  have callable : Callable T w₂ c c' := ⟨Γ, linked.mono later, initializer⟩
  rw [linked.initializer]
  apply ((ih.execAll enough chain body).inCall _).bind
  · intro signal
    cases signal with
    | normal | «return» => exact lockstep.callResult _ _ _
    | «break» | «continue» => exact Primitive.prints (.fail _ nofun)
  intro w₃ x y later' signals
  have callable := callable.mono later'
  cases signals with
  | normal => exact (steps_callResult callable line .nil).parallel
  | «return» _ alike => exact (steps_callResult callable line alike).parallel
  | «break» | «continue» => exact (steps_fail _ _).parallel

/-! ## Statements -/

theorem execAll_single (host : Host) (fuel : Nat) (s : Stmt) :
    execAll host (fuel + 2) [s] = exec host (fuel + 1) s := by
  funext m
  simp only [execAll, Bind.bind, EStateM.bind]
  cases exec host (fuel + 1) s m with
  | ok signal n => cases signal <;> rfl
  | error e n => rfl

theorem parallel_execPlain (suits : host.Suits T) (ih : ParallelWith T host k fuel)
    (enough : k * fuel ≤ g) (chain : w.Chain Γ a b) {s s' : Stmt} (similar : T.Plain Γ s s') :
    Executes T w a b (Γ.after s) (exec host (fuel + 1) s) (exec host (g + 1) s') := by
  have prints := printsWith host g
  have lines := similar.line fun known => known.line
  unfold Run.exec
  rw [collectIfDue_eq suits]
  refine (steps_start suits lines).then fun w₁ _ _ grows _ => ?_
  have chain := chain.mono grows
  simp only [pure_bind]
  cases similar with
  | expression h =>
      apply (ih.eval enough chain h).discard.bind
      · exact fun _ => (Primitive.pure _).prints
      intro w₂ _ _ later _
      exact (steps_pure ⟨.normal, chain.mono later⟩).parallel
  | print h =>
      apply (ih.eval enough chain h).bind
      · exact fun v => (Primitive.print v).prints.bind fun _ => (Primitive.pure _).prints
      intro w₂ v v' later alike
      refine ((steps_print alike).bind fun w₃ _ _ later' _ => ?_).parallel
      exact steps_pure ⟨.normal, (chain.mono later).mono later'⟩
  | varDecl _ declares h =>
      cases h with
      | none =>
          refine ((steps_define chain declares .nil).bind fun w₂ _ _ _ inner => ?_).parallel
          exact steps_pure ⟨.normal, inner⟩
      | some h =>
          apply (ih.eval enough chain h).bind
          · exact fun v => (Primitive.define _ v).prints.bind fun _ => (Primitive.pure _).prints
          intro w₂ v v' later alike
          have declared := steps_define (chain.mono later) declares alike
          exact (declared.bind fun w₃ _ _ _ inner => steps_pure ⟨.normal, inner⟩).parallel
  | scope ρ _ h =>
      refine parallel_get fun m m' agree => ?_
      rw [agree.environment, agree.environment']
      refine (steps_newScope chain ρ).then fun w₂ p q later inner => ?_
      exact (ih.execAll enough inner h).inScope.imp fun w₃ x y later' signals =>
        ⟨signals, (chain.mono later).mono later'⟩
  | branch c h other =>
      apply (ih.eval enough chain c).bind
      · intro v
        split
        · exact prints.exec _
        · split
          · exact prints.exec _
          · exact (Primitive.pure _).prints
      intro w₂ v v' later alike
      have chain := chain.mono later
      rw [alike.truthy]
      split
      · exact (ih.exec enough chain h).imp fun w₃ x y later' signals =>
          ⟨signals.1, chain.mono later'⟩
      · cases other with
        | none => exact (steps_pure ⟨.normal, chain⟩).parallel
        | some h =>
            exact (ih.exec enough chain h).imp fun w₃ x y later' signals =>
              ⟨signals.1, chain.mono later'⟩
  | loop c h e =>
      exact (ih.execLoop enough chain (.loop c h e)).inLoop.imp fun w₂ x y later signals =>
        ⟨signals, chain.mono later⟩
  | expandRight line allowed absent c h e =>
      exact (ih.execLoop enough chain (.expandRight line allowed absent c h e)).inLoop.imp
        fun w₂ x y later signals => ⟨signals, chain.mono later⟩
  | expandLeft line allowed absent c h e =>
      exact (ih.execLoop enough chain (.expandLeft line allowed absent c h e)).inLoop.imp
        fun w₂ x y later signals => ⟨signals, chain.mono later⟩
  | funDecl declares h =>
      refine ((steps_declareFunction chain declares h).bind fun w₂ _ _ _ inner => ?_).parallel
      exact steps_pure ⟨.normal, inner⟩
  | classDecl declares h =>
      refine ((steps_declareClass chain declares h).bind fun w₂ _ _ _ inner => ?_).parallel
      exact steps_pure ⟨.normal, inner⟩
  | «return» keyword h =>
      cases h with
      | none =>
          refine ((steps_checkReturn keyword rfl).bind fun w₂ _ _ later _ => ?_).parallel
          exact steps_pure ⟨.return _ .nil, chain.mono later⟩
      | some h =>
          refine (steps_checkReturn keyword rfl).then fun w₂ _ _ later _ => ?_
          have chain := chain.mono later
          apply (ih.eval enough chain h).bind
          · exact fun v => (Primitive.pure _).prints
          intro w₃ v v' later' alike
          exact (steps_pure ⟨.return _ alike, chain.mono later'⟩).parallel
  | «break» keyword =>
      exact (steps_leaveLoop .break keyword.line (.break _)).parallel.imp fun _ _ _ later signals =>
        ⟨signals, chain.mono later⟩
  | «continue» keyword =>
      exact (steps_leaveLoop .continue keyword.line (.continue _)).parallel.imp
        fun _ _ _ later signals => ⟨signals, chain.mono later⟩

theorem parallel_execAll (ih : ParallelWith T host k fuel) (enough : k * fuel ≤ g)
    (chain : w.Chain Γ a b) {ss ss' : List Stmt} (similar : T.Stmts Γ ss ss') :
    Signals T w a b (execAll host (fuel + 1) ss) (execAll host (g + 1) ss') := by
  have prints := printsWith host g
  cases similar with
  | nil => exact (steps_pure .normal).parallel
  | cons h hs =>
      apply (ih.exec enough chain h).bind
      · intro signal
        split
        · exact prints.execAll _
        · exact (Primitive.pure _).prints
      intro w₂ x y later ⟨signals, inner⟩
      cases signals with
      | normal => exact ih.execAll enough inner hs
      | «return» _ alike => exact (steps_pure (.return _ alike)).parallel
      | «break» => exact (steps_pure (.break _)).parallel
      | «continue» => exact (steps_pure (.continue _)).parallel

/-! ## Loops -/

def nextRound (host : Host) (fuel : Nat) (c : Expr) (s : Stmt) (increment : Option Expr) :
    Run Signal :=
  match increment with
  | some e => do
    discard <| eval host fuel e
    execLoop host fuel c s increment
  | none => execLoop host fuel c s increment

def leave (next : Run Signal) : Signal → Run Signal
  | .break _ => return .normal
  | .return value line => return .return value line
  | _ => next

theorem execLoop_eq (host : Host) (fuel : Nat) (c : Expr) (s : Stmt) (e : Option Expr) :
    execLoop host (fuel + 1) c s e = do
      if (← eval host fuel c).truthy then exec host fuel s >>= leave (nextRound host fuel c s e)
      else return .normal := by
  unfold Run.execLoop
  rfl

theorem Signals.rounds {c c' : Run Value} {round round' next next' : Run Signal}
    (condition : Yields T w a b c c') (prints : Prints round') (prints' : Prints next')
    (once : ∀ w', w.Grows w' → Signals T w' a b round round')
    (again : ∀ w', w.Grows w' → Signals T w' a b next next') :
    Signals T w a b (do if (← c).truthy then round >>= leave next else return .normal)
      (do if (← c').truthy then round' >>= leave next' else return .normal) := by
  have leaves : ∀ signal, Prints (leave next' signal) := by
    intro signal
    cases signal with
    | normal | «continue» => exact prints'
    | «break» | «return» => exact (Primitive.pure _).prints
  apply condition.bind
  · intro v
    split
    · exact prints.bind leaves
    · exact (Primitive.pure _).prints
  intro w₁ v v' grows alike
  rw [alike.truthy]
  split
  · apply (once w₁ grows).bind leaves
    intro w₂ x y later signals
    cases signals with
    | «return» _ alike => exact (steps_pure (.return _ alike)).parallel
    | «break» => exact (steps_pure .normal).parallel
    | normal | «continue» => exact again w₂ (grows.trans later)
  · exact (steps_pure .normal).parallel

theorem prints_nextRound (host : Host) (fuel : Nat) (c : Expr) (s : Stmt)
    (increment : Option Expr) : Prints (nextRound host fuel c s increment) := by
  have prints := printsWith host fuel
  cases increment with
  | none => exact prints.execLoop _ _ _
  | some e =>
      have evaluates : Prints (discard (eval host fuel e) : Run PUnit) := by
        rw [discard_eq]
        exact (prints.eval e).bind fun _ => (Primitive.pure _).prints
      exact evaluates.bind fun _ => prints.execLoop _ _ _

theorem parallel_nextRound (ih : ParallelWith T host k fuel) (enough : k * fuel ≤ g)
    (chain : w.Chain Γ a b) {c c' : Expr} {s s' : Stmt} {e e' : Option Expr} (hc : T.Expr Γ c c')
    (hs : T.Stmt Γ s s') (he : T.Optional Γ e e') :
    Signals T w a b (nextRound host fuel c s e) (nextRound host g c' s' e') := by
  cases he with
  | none => exact ih.execLoop enough chain (.loop hc hs .none)
  | some h =>
      apply (ih.eval enough chain h).discard.bind
      · exact fun _ => (printsWith host g).execLoop _ _ _
      intro w₂ _ _ later _
      exact ih.execLoop enough (chain.mono later) (.loop hc hs (.some h))

theorem parallel_execLoop (ih : ParallelWith T host k fuel) (enough : k * fuel ≤ g)
    (chain : w.Chain Γ a b) {c c' : Expr} {s s' : Stmt} {e e' : Option Expr} (hc : T.Expr Γ c c')
    (hs : T.Stmt Γ s s') (he : T.Optional Γ e e') :
    Signals T w a b (execLoop host (fuel + 1) c s e) (execLoop host (g + 1) c' s' e') := by
  rw [execLoop_eq, execLoop_eq]
  refine Signals.rounds (ih.eval enough chain hc) ((printsWith host g).exec s')
    (prints_nextRound host g c' s' e') ?_ ?_
  · exact fun w₁ grows => (ih.exec enough (chain.mono grows) hs).imp fun _ _ _ _ both => both.1
  · exact fun w₁ grows => parallel_nextRound ih enough (chain.mono grows) hc hs he

end ClassScript.Run
