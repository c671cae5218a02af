import ClassScript.Proofs.Similar.Run

namespace ClassScript.Run

open Store World

variable {α : Type} {T : Twins} {w : World} {a b : Address} {Γ : ScopePairs} {host : Host}
  {k fuel g line : Nat} {s s' : Stmt} {c c' : Expr} {e e' : Option Expr}
  {Q : World → α → Signal → Prop} {part : Run α} {part' : Run Signal}

theorem exists_more {c fuel' : Nat} (le : c ≤ k) (enough : k * (fuel + 1) ≤ fuel') :
    ∃ g, fuel' = g + c ∧ k * fuel ≤ g := by
  rw [Nat.mul_succ] at enough
  exact ⟨fuel' - c, by omega, by omega⟩

theorem exec_block (suits : host.Suits T) (wraps : T.wraps) (fuel line : Nat) (body : List Stmt)
    (m : Machine) :
    exec host (fuel + 1) (.block body line) m = inScope m.store.cells.size (execAll host fuel body)
      { m with started := m.started + 1, store := (m.store.newScope m.environment).2 } := by
  unfold Run.exec
  rw [collectIfDue_eq suits, bind_ok (start_eq suits wraps _ m)]
  rfl

theorem parallel_block_right (suits : host.Suits T) (wraps : T.wraps) (chain : w.Chain Γ a b)
    {body : List Stmt} (line : Nat)
    (inner : ∀ w' q, w.Grows w' → w'.Chain (.right :: Γ) a q →
      Parallel T w' a q Q part (execAll host g body)) :
    Parallel T w a b Q part (exec host (g + 1) (.block body line)) := by
  intro m m' agree
  obtain ⟨w', grows, consistent, left, right, chain⟩ :=
    reaches_newScope_right agree.consistent chain
  rw [agree.right] at chain
  rw [exec_block suits wraps]
  have ends := inner w' _ grows chain m
    { m' with
      started := m'.started + 1
      store := (m'.store.newScope m'.environment).2
      environment := m'.store.cells.size }
    { agree with
      consistent := consistent
      left := left.trans agree.left
      right := by rw [right, agree.right, agree.environment']
      environment' := rfl
      started := .inl wraps }
  simp only [inScope]
  generalize part m = x at *
  generalize execAll host g body _ = y at *
  cases ends with
  | step ends =>
      cases ends with
      | ok later agree' holds =>
          exact .step (.ok (grows.trans later)
            { agree' with environment' := agree.environment' } holds)
      | fault same => exact .step (.fault same)
  | exhausted printed =>
      refine .exhausted ?_
      cases y <;> exact printed

theorem parallel_block_left {Q : World → Signal → α → Prop} {part' : Run α} (suits : host.Suits T)
    (wraps : T.wraps) (chain : w.Chain Γ a b) {body : List Stmt} (line : Nat)
    (inner : ∀ w' p, w.Grows w' → w'.Chain (.left :: Γ) p b →
      Parallel T w' p b Q (execAll host fuel body) part') :
    Parallel T w a b Q (exec host (fuel + 1) (.block body line)) part' := by
  intro m m' agree
  obtain ⟨w', grows, consistent, left, right, chain⟩ :=
    reaches_newScope_left agree.consistent chain
  rw [agree.left] at chain
  rw [exec_block suits wraps]
  have ends := inner w' _ grows chain
    { m with
      started := m.started + 1
      store := (m.store.newScope m.environment).2
      environment := m.store.cells.size } m'
    { agree with
      consistent := consistent
      left := by rw [left, agree.left, agree.environment]
      right := right.trans agree.right
      environment := rfl
      started := .inl wraps }
  simp only [inScope]
  generalize execAll host fuel body _ = x at *
  generalize part' m' = y at *
  cases ends with
  | step ends =>
      cases ends with
      | ok later agree' holds =>
          exact .step (.ok (grows.trans later)
            { agree' with environment := agree.environment } holds)
      | fault same => exact .step (.fault same)
  | exhausted printed => exact .exhausted printed

theorem parallel_wrapRight (suits : host.Suits T) (wraps : T.wraps)
    (ih : ParallelWith T host k fuel) (enough : k * fuel ≤ g) (chain : w.Chain Γ a b)
    (line : Nat) (similar : T.Plain (.right :: Γ) s s') :
    Executes T w a b (Γ.after s) (exec host (fuel + 1) s)
      (exec host (g + 3) (.block [s'] line)) := by
  obtain ⟨same, -⟩ := similar.after_wrapped (.inr rfl) Γ []
  rw [same]
  refine parallel_block_right suits wraps chain line fun w' q grows inner => ?_
  rw [execAll_single]
  exact (parallel_execPlain suits ih enough inner similar).imp fun _ _ _ later both =>
    ⟨both.1, (chain.mono grows).mono later⟩

theorem parallel_wrapLeft (suits : host.Suits T) (wraps : T.wraps)
    (earlier : ∀ f < fuel, ParallelWith T host k f) (enough : k * fuel ≤ g)
    (chain : w.Chain Γ a b) (line : Nat) (similar : T.Plain (.left :: Γ) s s') :
    Executes T w a b Γ (exec host (fuel + 1) (.block [s] line)) (exec host (g + 1) s') := by
  have prints := (printsWith host (g + 1)).exec s'
  refine parallel_block_left suits wraps chain line fun w' p grows inner => ?_
  match fuel, earlier with
  | 0, _ => exact parallel_exhausted prints
  | 1, _ => exact parallel_exhausted prints
  | f + 2, earlier =>
      have enough : k * f ≤ g := (Nat.mul_le_mul_left k (by omega)).trans enough
      rw [execAll_single]
      exact (parallel_execPlain suits (earlier f (by omega)) enough inner similar).imp
        fun _ _ _ later both => ⟨both.1, (chain.mono grows).mono later⟩

def incremented (host : Host) (fuel : Nat) : Option Expr → Run Signal
  | none => return .normal
  | some e => do
    discard <| eval host fuel e
    return .normal

def once (host : Host) (fuel : Nat) (s : Stmt) (e : Option Expr) : Run Signal := do
  match ← exec host fuel s with
  | .normal => incremented host fuel e
  | signal => return signal

theorem prints_incremented (host : Host) (fuel : Nat) (e : Option Expr) :
    Prints (incremented host fuel e) := by
  cases e with
  | none => exact (Primitive.pure _).prints
  | some e =>
      rw [incremented, discard_eq]
      exact (((printsWith host fuel).eval e).bind fun _ => (Primitive.pure _).prints).bind
        fun _ => (Primitive.pure _).prints

theorem prints_once (host : Host) (fuel : Nat) (s : Stmt) (e : Option Expr) :
    Prints (once host fuel s e) := by
  apply ((printsWith host fuel).exec s).bind
  intro signal
  cases signal with
  | normal => exact prints_incremented host fuel e
  | «break» | «continue» | «return» => exact (Primitive.pure _).prints

theorem execLoop_once (host : Host) (fuel : Nat) (c : Expr) (e : Option Expr)
    (absent : s.continues = false) :
    execLoop host (fuel + 1) c s e = do
      if (← eval host fuel c).truthy then
        once host fuel s e >>= leave (execLoop host fuel c s e)
      else return .normal := by
  have rounds : exec host fuel s >>= leave (nextRound host fuel c s e) =
      once host fuel s e >>= leave (execLoop host fuel c s e) := by
    funext m
    cases run : exec host fuel s m with
    | error halt n => simp only [once, Bind.bind, EStateM.bind, run]
    | ok signal n =>
        rw [once, bind_assoc, bind_ok run, bind_ok run]
        cases signal with
        | normal =>
            cases e with
            | none => rfl
            | some e => rw [incremented, bind_assoc]; rfl
        | «break» | «return» => rfl
        | «continue» line => exact absurd rfl (exec_continue absent run)
  rw [execLoop_eq, rounds]

theorem Parallel.start_right (h : Parallel T w a b Q part part') (suits : host.Suits T)
    (wraps : T.wraps) (line : Nat) :
    Parallel T w a b Q part (do start host line; part') := by
  intro m m' agree
  rw [bind_ok (start_eq suits wraps line m')]
  exact h m _ { agree with started := .inl wraps }

theorem Parallel.start_left (h : Parallel T w a b Q part part') (suits : host.Suits T)
    (wraps : T.wraps) (line : Nat) :
    Parallel T w a b Q (do start host line; part) part' := by
  intro m m' agree
  rw [bind_ok (start_eq suits wraps line m)]
  exact h _ m' { agree with started := .inl wraps }

theorem exec_expression (suits : host.Suits T) (fuel : Nat) (e : Expr) :
    exec host (fuel + 1) (.expression e) =
      (do start host e.line; incremented host fuel (some e)) := by
  unfold Run.exec
  rw [collectIfDue_eq suits]
  rfl

theorem parallel_incremented {f f' : Nat} {e e' : Expr}
    (h : Yields T w a b (eval host f e) (eval host f' e')) :
    Signals T w a b (incremented host f (some e)) (incremented host f' (some e')) := by
  apply h.discard.bind
  · exact fun _ => (Primitive.pure _).prints
  · exact fun _ _ _ _ _ => (steps_pure .normal).parallel

theorem parallel_increment_right (suits : host.Suits T) (wraps : T.wraps)
    (ih : ParallelWith T host k fuel) (enough : k * fuel ≤ g) (chain : w.Chain Γ a b)
    (he : T.Optional Γ e e') :
    Signals T w a b (incremented host (fuel + 1) e) (execAll host (g + 3) (increments e')) := by
  cases he with
  | none => exact (steps_pure .normal).parallel
  | some h =>
      have evaluates := parallel_incremented (parallel_eval ih enough chain h)
      change Parallel _ _ _ _ _ _ (execAll host (g + 1 + 2) [_])
      rw [execAll_single, exec_expression suits]
      exact evaluates.start_right suits wraps _

theorem parallel_increment_left (suits : host.Suits T) (wraps : T.wraps)
    (earlier : ∀ f < fuel, ParallelWith T host k f) (enough : k * fuel ≤ g)
    (chain : w.Chain Γ a b) (he : T.Optional Γ e e') :
    Signals T w a b (execAll host fuel (increments e)) (incremented host g e') := by
  have prints := prints_incremented host g e'
  match fuel, earlier, he with
  | 0, _, _ => exact parallel_exhausted prints
  | f + 1, _, .none => exact (steps_pure .normal).parallel
  | 1, _, .some _ => exact parallel_exhausted prints
  | f + 2, earlier, .some h =>
      have enough : k * f ≤ g := (Nat.mul_le_mul_left k (by omega)).trans enough
      have evaluates := parallel_incremented ((earlier f (by omega)).eval enough chain h)
      change Parallel _ _ _ _ _ (execAll host (f + 2) [_]) _
      rw [execAll_single, exec_expression suits]
      exact evaluates.start_left suits wraps _

theorem parallel_once_right (suits : host.Suits T) (wraps : T.wraps) (three : 3 ≤ k)
    (earlier : ∀ f ≤ fuel, ParallelWith T host k f) (enough : k * fuel ≤ g)
    (chain : w.Chain Γ a b) (line : Nat) (hs : T.Plain (.right :: Γ) s s')
    (he : T.Optional (.right :: Γ) e e') :
    Signals T w a b (once host fuel s e)
      (exec host (g + 2) (.block (s' :: increments e') line)) := by
  cases fuel with
  | zero => exact parallel_exhausted ((printsWith host _).exec _)
  | succ f =>
      have prints := printsWith host g
      obtain ⟨same, -⟩ := hs.after_wrapped (.inr rfl) (.right :: Γ) []
      refine parallel_block_right suits wraps chain line fun w' q grows inner => ?_
      apply ((earlier (f + 1) le_rfl).exec enough inner (.plain hs)).bind
      · intro signal
        split
        · exact prints.execAll _
        · exact (Primitive.pure _).prints
      intro w'' x y later both
      obtain ⟨signals, chain⟩ := both
      rw [same] at chain
      cases signals with
      | normal =>
          obtain ⟨g, rfl, more⟩ := exists_more three enough
          exact parallel_increment_right suits wraps (earlier f (by omega)) more chain he
      | «return» _ alike => exact (steps_pure (.return _ alike)).parallel
      | «break» => exact (steps_pure (.break _)).parallel
      | «continue» => exact (steps_pure (.continue _)).parallel

theorem parallel_once_left (suits : host.Suits T) (wraps : T.wraps)
    (earlier : ∀ f ≤ fuel, ParallelWith T host k f) (enough : k * fuel ≤ g)
    (chain : w.Chain Γ a b) (line : Nat) (hs : T.Plain (.left :: Γ) s s')
    (he : T.Optional (.left :: Γ) e e') :
    Signals T w a b (exec host fuel (.block (s :: increments e) line)) (once host g s' e') := by
  have prints := prints_once host g s' e'
  match fuel, earlier with
  | 0, _ => exact parallel_exhausted prints
  | 1, _ =>
      exact parallel_block_left suits wraps chain line fun _ _ _ _ => parallel_exhausted prints
  | f + 2, earlier =>
      have enough : k * f ≤ g := (Nat.mul_le_mul_left k (by omega)).trans enough
      obtain ⟨same, -⟩ := hs.after_wrapped (.inl rfl) (.left :: Γ) []
      refine parallel_block_left suits wraps chain line fun w' p grows inner => ?_
      apply ((earlier f (by omega)).exec enough inner (.plain hs)).bind
      · intro signal
        cases signal with
        | normal => exact prints_incremented host g e'
        | «break» | «continue» | «return» => exact (Primitive.pure _).prints
      intro w'' x y later both
      obtain ⟨signals, chain⟩ := both
      rw [same] at chain
      cases signals with
      | normal =>
          exact parallel_increment_left suits wraps (fun f' lt => earlier f' (by omega)) enough
            chain he
      | «return» _ alike => exact (steps_pure (.return _ alike)).parallel
      | «break» => exact (steps_pure (.break _)).parallel
      | «continue» => exact (steps_pure (.continue _)).parallel

theorem parallel_condition (one : 1 ≤ k) (ih : ParallelWith T host k fuel) (enough : k * fuel ≤ g)
    (chain : w.Chain Γ a b) (h : SimilarCondition T.occurrences Γ c c') :
    Yields T w a b (eval host fuel c) (eval host g c') := by
  cases h with
  | same h => exact ih.eval enough chain h
  | constant value line line' =>
      cases fuel with
      | zero => exact parallel_exhausted ((printsWith host g).eval _)
      | succ fuel =>
          obtain ⟨g, rfl, -⟩ := exists_more one enough
          exact (steps_pure (plain_linked value.plain_value)).parallel

theorem parallel_expandRight (suits : host.Suits T) (wraps : T.wraps) (three : 3 ≤ k)
    (earlier : ∀ f ≤ fuel, ParallelWith T host k f) (enough : k * fuel ≤ g)
    (chain : w.Chain Γ a b) (line : Nat) (absent : s.continues = false)
    (hc : SimilarCondition T.occurrences Γ c c') (hs : T.Plain (.right :: Γ) s s')
    (he : T.Optional (.right :: Γ) e e') :
    Signals T w a b (execLoop host (fuel + 1) c s e)
      (execLoop host (g + 3) c' (.block (s' :: increments e') line) none) := by
  have ih := earlier fuel le_rfl
  have more : k * fuel ≤ g + 2 := by omega
  rw [execLoop_once host fuel c e absent, execLoop_eq]
  refine Signals.rounds (parallel_condition (by omega) ih more chain hc)
    ((printsWith host (g + 2)).exec _) (prints_nextRound host (g + 2) _ _ _) ?_ ?_
  · exact fun _ grows =>
      parallel_once_right suits wraps three earlier enough (chain.mono grows) line hs he
  · exact fun _ grows =>
      ih.execLoop more (chain.mono grows) (.expandRight line wraps absent hc hs he)

theorem parallel_expandLeft (suits : host.Suits T) (wraps : T.wraps) (one : 1 ≤ k)
    (earlier : ∀ f ≤ fuel, ParallelWith T host k f) (enough : k * fuel ≤ g)
    (chain : w.Chain Γ a b) (line : Nat) (absent : s'.continues = false)
    (hc : SimilarCondition T.occurrences Γ c c') (hs : T.Plain (.left :: Γ) s s')
    (he : T.Optional (.left :: Γ) e e') :
    Signals T w a b (execLoop host (fuel + 1) c (.block (s :: increments e) line) none)
      (execLoop host (g + 1) c' s' e') := by
  have ih := earlier fuel le_rfl
  rw [execLoop_eq, execLoop_once host g c' e' absent]
  refine Signals.rounds (parallel_condition one ih enough chain hc)
    (prints_once host g s' e') ((printsWith host g).execLoop _ _ _) ?_ ?_
  · exact fun _ grows =>
      parallel_once_left suits wraps earlier enough (chain.mono grows) line hs he
  · exact fun _ grows =>
      ih.execLoop enough (chain.mono grows) (.expandLeft line wraps absent hc hs he)

theorem parallelWith (suits : host.Suits T) (one : 1 ≤ k) (three : T.wraps → 3 ≤ k) (fuel : Nat) :
    ParallelWith T host k fuel := by
  -- A block in the first program and the statement in it take three units of fuel together, so that
  -- the hypothesis for one unit less is not enough.
  induction fuel using Nat.strong_induction_on with
  | _ fuel earlier =>
  cases fuel with
  | zero => exact parallel_zero T host k
  | succ fuel =>
      have ih := earlier fuel (Nat.lt_succ_self fuel)
      have earlier : ∀ f ≤ fuel, ParallelWith T host k f :=
        fun f le => earlier f (Nat.lt_succ_of_le le)
      constructor
      case eval =>
        intro fuel' w a b Γ e e' enough chain h
        obtain ⟨g, rfl, more⟩ := exists_more one enough
        exact parallel_eval ih more chain h
      case evalAll =>
        intro fuel' w a b Γ es es' enough chain h
        obtain ⟨g, rfl, more⟩ := exists_more one enough
        exact parallel_evalAll ih more chain h
      case call =>
        intro fuel' w a b f f' vs vs' line enough callee args
        obtain ⟨g, rfl, more⟩ := exists_more one enough
        exact parallel_call ih more line callee args
      case invoke =>
        intro fuel' w a b c c' vs vs' line enough callable args length
        obtain ⟨g, rfl, more⟩ := exists_more one enough
        exact parallel_invoke ih more line callable args length
      case exec =>
        intro fuel' w a b Γ s s' enough chain h
        cases h with
        | plain h =>
            obtain ⟨g, rfl, more⟩ := exists_more one enough
            exact parallel_execPlain suits ih more chain h
        | wrapRight line wraps h =>
            obtain ⟨g, rfl, more⟩ := exists_more (three wraps) enough
            exact parallel_wrapRight suits wraps ih more chain line h
        | wrapLeft line wraps h =>
            obtain ⟨g, rfl, more⟩ := exists_more one enough
            exact parallel_wrapLeft suits wraps (fun f lt => earlier f lt.le) more chain line h
      case execAll =>
        intro fuel' w a b Γ ss ss' enough chain h
        obtain ⟨g, rfl, more⟩ := exists_more one enough
        exact parallel_execAll ih more chain h
      case execLoop =>
        intro fuel' w a b Γ c c' s s' e e' enough chain h
        cases h with
        | loop hc hs he =>
            obtain ⟨g, rfl, more⟩ := exists_more one enough
            exact parallel_execLoop ih more chain hc hs he
        | expandRight line wraps absent hc hs he =>
            obtain ⟨g, rfl, more⟩ := exists_more (three wraps) enough
            exact parallel_expandRight suits wraps (three wraps) earlier more chain line absent
              hc hs he
        | expandLeft line wraps absent hc hs he =>
            obtain ⟨g, rfl, more⟩ := exists_more one enough
            exact parallel_expandLeft suits wraps one earlier more chain line absent hc hs he

end ClassScript.Run
