import ClassScript.Proofs.Lexical.Occurrences
import ClassScript.Proofs.Run.Shortened
import ClassScript.Proofs.Similar.Operations

namespace ClassScript

open Store World

structure Agree (T : Twins) (w : World) (a b : Address) (m m' : Machine) : Prop where
  consistent : w.Consistent T
  left : w.left = m.store
  right : w.right = m'.store
  environment : m.environment = a
  environment' : m'.environment = b
  distances : m.distances = T.left
  distances' : m'.distances = T.right
  frame : m'.frame = m.frame
  callDepth : m'.callDepth = m.callDepth
  output : m'.output = m.output
  readings : m'.readings = m.readings
  started : T.wraps ∨ m'.started = m.started

/-- A host under which it cannot be seen when statements start, unless both programs start the same
ones. -/
structure Host.Suits (host : Host) (T : Twins) : Prop where
  collects : ∀ n s, host.collects n s = false
  interrupts : T.wraps → ∀ n, host.interrupts n = false

namespace Run

variable {α β γ δ : Type} {T : Twins} {w : World} {a b p q : Address} {Γ : ScopePairs} {host : Host}
  {m m' : Machine} {line : Nat} {v v' : Value} {c c' : Closure}

inductive StepAlike (T : Twins) (w : World) (a b : Address) (Q : World → α → β → Prop) :
    EStateM.Result Halt Machine α → EStateM.Result Halt Machine β → Prop
  | ok {w' x y n n'} : w.Grows w' → Agree T w' a b n n' → Q w' x y →
      StepAlike T w a b Q (.ok x n) (.ok y n')
  | fault {e n n'} : n'.output = n.output → StepAlike T w a b Q (.error (.fault e) n)
      (.error (.fault e) n')

inductive EndsAlike (T : Twins) (w : World) (a b : Address) (Q : World → α → β → Prop) :
    EStateM.Result Halt Machine α → EStateM.Result Halt Machine β → Prop
  | step {x y} : StepAlike T w a b Q x y → EndsAlike T w a b Q x y
  | exhausted {n y} : Printed n (leftIn y) → EndsAlike T w a b Q (.error .outOfFuel n) y

def Steps (T : Twins) (w : World) (a b : Address) (Q : World → α → β → Prop) (part : Run α)
    (part' : Run β) : Prop :=
  ∀ m m', Agree T w a b m m' → StepAlike T w a b Q (part m) (part' m')

def Parallel (T : Twins) (w : World) (a b : Address) (Q : World → α → β → Prop) (part : Run α)
    (part' : Run β) : Prop :=
  ∀ m m', Agree T w a b m m' → EndsAlike T w a b Q (part m) (part' m')

variable {Q : World → α → β → Prop} {Q' : World → γ → δ → Prop} {part : Run α} {part' : Run β}
  {rest : α → Run γ} {rest' : β → Run δ}

/-! ## Parts one after the other -/

theorem Steps.parallel (h : Steps T w a b Q part part') : Parallel T w a b Q part part' :=
  fun m m' agree => .step (h m m' agree)

theorem StepAlike.later {w' : World} (grows : w.Grows w') {x : EStateM.Result Halt Machine α}
    {y : EStateM.Result Halt Machine β} (h : StepAlike T w' a b Q x y) :
    StepAlike T w a b Q x y := by
  cases h with
  | ok more agree holds => exact .ok (grows.trans more) agree holds
  | fault same => exact .fault same

theorem EndsAlike.later {w' : World} (grows : w.Grows w') {x : EStateM.Result Halt Machine α}
    {y : EStateM.Result Halt Machine β} (h : EndsAlike T w' a b Q x y) :
    EndsAlike T w a b Q x y := by
  cases h with
  | step h => exact .step (h.later grows)
  | exhausted printed => exact .exhausted printed

theorem Steps.bind (h : Steps T w a b Q part part')
    (next : ∀ w' x y, w.Grows w' → Q w' x y → Steps T w' a b Q' (rest x) (rest' y)) :
    Steps T w a b Q' (part >>= rest) (part' >>= rest') := by
  intro m m' agree
  have first := h m m' agree
  simp only [Bind.bind, EStateM.bind]
  generalize part m = x at *
  generalize part' m' = y at *
  cases first with
  | ok grows agree holds => exact (next _ _ _ grows holds _ _ agree).later grows
  | fault same => exact .fault same

theorem Steps.then (h : Steps T w a b Q part part')
    (next : ∀ w' x y, w.Grows w' → Q w' x y → Parallel T w' a b Q' (rest x) (rest' y)) :
    Parallel T w a b Q' (part >>= rest) (part' >>= rest') := by
  intro m m' agree
  have first := h m m' agree
  simp only [Bind.bind, EStateM.bind]
  generalize part m = x at *
  generalize part' m' = y at *
  cases first with
  | ok grows agree holds => exact (next _ _ _ grows holds _ _ agree).later grows
  | fault same => exact .step (.fault same)

theorem Parallel.bind (h : Parallel T w a b Q part part') (prints : ∀ y, Prints (rest' y))
    (next : ∀ w' x y, w.Grows w' → Q w' x y → Parallel T w' a b Q' (rest x) (rest' y)) :
    Parallel T w a b Q' (part >>= rest) (part' >>= rest') := by
  intro m m' agree
  have first := h m m' agree
  have printed := leftIn_bind part' rest' m'
  simp only [Bind.bind, EStateM.bind] at printed ⊢
  generalize part m = x at *
  generalize part' m' = y at *
  cases first with
  | step first =>
      cases first with
      | ok grows agree holds => exact (next _ _ _ grows holds _ _ agree).later grows
      | fault same => exact .step (.fault same)
  | exhausted before =>
      refine .exhausted ?_
      rw [printed]
      cases y with
      | ok y n => exact before.trans (prints y n)
      | error e n => exact before

theorem Parallel.imp {R : World → α → β → Prop} (h : Parallel T w a b Q part part')
    (imp : ∀ w' x y, w.Grows w' → Q w' x y → R w' x y) : Parallel T w a b R part part' := by
  intro m m' agree
  have ends := h m m' agree
  generalize part m = x at *
  generalize part' m' = y at *
  cases ends with
  | step h =>
      cases h with
      | ok grows agree holds => exact .step (.ok grows agree (imp _ _ _ grows holds))
      | fault same => exact .step (.fault same)
  | exhausted printed => exact .exhausted printed

theorem Parallel.discard (h : Parallel T w a b Q part part') :
    Parallel T w a b (fun _ (_ _ : PUnit) => True) (discard part) (discard part') := by
  rw [discard_eq, discard_eq]
  exact h.bind (fun _ => (Primitive.pure _).prints) fun _ _ _ _ _ _ _ agree =>
    .step (.ok (.refl _) agree trivial)

theorem Parallel.inScope {p q : Address} (h : Parallel T w p q Q part part') :
    Parallel T w a b Q (inScope p part) (inScope q part') := by
  intro m m' agree
  have inner := h { m with environment := p } { m' with environment := q }
    { agree with environment := rfl, environment' := rfl }
  simp only [Run.inScope]
  generalize part _ = x at *
  generalize part' _ = y at *
  cases inner with
  | step inner =>
      cases inner with
      | ok grows inside holds =>
          exact .step (.ok grows { inside with
            environment := agree.environment, environment' := agree.environment' } holds)
      | fault same => exact .step (.fault same)
  | exhausted printed =>
      refine .exhausted ?_
      cases y <;> exact printed

theorem Parallel.inLoop (h : Parallel T w a b Q part part') :
    Parallel T w a b Q (inLoop part) (inLoop part') := by
  intro m m' agree
  have frames : m'.insideLoop.frame = m.insideLoop.frame := by
    simp only [Machine.insideLoop, agree.frame]
  have inner := h m.insideLoop m'.insideLoop { agree with frame := frames }
  simp only [Run.inLoop, Machine.insideLoop] at *
  generalize part _ = x at *
  generalize part' _ = y at *
  cases inner with
  | step inner =>
      cases inner with
      | ok grows inside holds => exact .step (.ok grows { inside with frame := agree.frame } holds)
      | fault same => exact .step (.fault same)
  | exhausted printed =>
      refine .exhausted ?_
      cases y <;> exact printed

theorem Parallel.inCall (kind : FrameKind) (h : Parallel T w p q Q part part') :
    Parallel T w a b Q (inCall kind p part) (inCall kind q part') := by
  intro m m' agree
  have depths : (m'.insideCall kind).callDepth = (m.insideCall kind).callDepth := by
    simp only [Machine.insideCall, agree.callDepth]
  have inner := h { m.insideCall kind with environment := p }
    { m'.insideCall kind with environment := q }
    { agree with environment := rfl, environment' := rfl, frame := rfl, callDepth := depths }
  simp only [Run.inCall, Machine.insideCall] at *
  generalize part _ = x at *
  generalize part' _ = y at *
  cases inner with
  | step inner =>
      cases inner with
      | ok grows inside holds =>
          exact .step (.ok grows { inside with
            environment := agree.environment, environment' := agree.environment',
            frame := agree.frame, callDepth := agree.callDepth } holds)
      | fault same => exact .step (.fault same)
  | exhausted printed =>
      refine .exhausted ?_
      cases y <;> exact printed

/-! ## Single steps -/

theorem steps_pure {x : α} {y : β} (holds : Q w x y) : Steps T w a b Q (pure x) (pure y) :=
  fun _ _ agree => .ok (.refl w) agree holds

theorem steps_fail (fault : RuntimeFault) (line : Nat) :
    Steps T w a b Q (fail fault line) (fail fault line) :=
  fun _ _ agree => .fault agree.output

theorem steps_get {rest rest' : Machine → Run α} {Q : World → α → α → Prop}
    (next : ∀ m m', Agree T w a b m m' → Steps T w a b Q (rest m) (rest' m')) :
    Steps T w a b Q (get >>= rest) (get >>= rest') :=
  fun m m' agree => next m m' agree m m' agree

theorem parallel_get {rest rest' : Machine → Run α} {Q : World → α → α → Prop}
    (next : ∀ m m', Agree T w a b m m' → Parallel T w a b Q (rest m) (rest' m')) :
    Parallel T w a b Q (get >>= rest) (get >>= rest') :=
  fun m m' agree => next m m' agree m m' agree

theorem steps_of_reaches {x : Machine → α} {y : Machine → β} {s t : Machine → Store}
    (left : ∀ m, part m = .ok (x m) { m with store := s m })
    (right : ∀ m', part' m' = .ok (y m') { m' with store := t m' })
    (reaches : ∀ m m', Agree T w a b m m' →
      w.Reaches T (s m) (t m') fun w' => Q w' (x m) (y m')) : Steps T w a b Q part part' := by
  intro m m' agree
  obtain ⟨w', grows, consistent, hs, ht, holds⟩ := reaches m m' agree
  rw [left, right]
  exact .ok grows { agree with consistent := consistent, left := hs, right := ht } holds

theorem steps_print (alike : ValueLinked T w v v') :
    Steps T w a b (fun _ _ _ => True) (print v) (print v') := by
  intro m m' agree
  refine .ok (.refl w) { agree with output := ?_ } trivial
  change m'.output.push v'.display = m.output.push v.display
  rw [agree.output, alike.display]

theorem steps_readClock (host : Host) :
    Steps T w a b (ValueLinked T) (readClock host) (readClock host) := by
  intro m m' agree
  refine .ok (.refl w) { agree with readings := congrArg (· + 1) agree.readings } ?_
  rw [agree.readings]
  exact .number _

theorem start_eq (suits : host.Suits T) (wraps : T.wraps) (line : Nat) (m : Machine) :
    start host line m = .ok () { m with started := m.started + 1 } := by
  unfold start
  dsimp only
  rw [suits.interrupts wraps]
  rfl

theorem steps_start (suits : host.Suits T) {line line' : Nat} (lines : line' = line ∨ T.wraps) :
    Steps T w a b (fun _ _ _ => True) (start host line) (start host line') := by
  intro m m' agree
  rcases lines with rfl | wraps
  · have same : host.interrupts (m'.started + 1) = host.interrupts (m.started + 1) := by
      rcases agree.started with wraps | same
      · rw [suits.interrupts wraps, suits.interrupts wraps]
      · rw [same]
    unfold start
    dsimp only
    rw [same]
    split
    · exact .fault agree.output
    · exact .ok (.refl w) { agree with started := agree.started.imp id (congrArg (· + 1)) } trivial
  · rw [start_eq suits wraps, start_eq suits wraps]
    exact .ok (.refl w) { agree with started := .inl wraps } trivial

theorem collectIfDue_eq (suits : host.Suits T) : collectIfDue host = pure () := by
  funext m
  unfold collectIfDue
  rw [suits.collects, Bool.and_false]
  rfl

theorem steps_checkDepth (host : Host) (line : Nat) :
    Steps T w a b (fun _ _ _ => True) (checkDepth host line) (checkDepth host line) := by
  unfold checkDepth
  cases host.maxDepth with
  | none => exact steps_pure trivial
  | some limit =>
      refine steps_get fun m m' agree => ?_
      rw [agree.callDepth]
      split
      · exact steps_fail _ _
      · exact steps_pure trivial

theorem steps_newScope (chain : w.Chain Γ p q) (ρ : Equiv.Perm String) :
    Steps T w a b (fun w' x y => w'.Chain (.both ρ [] :: Γ) x y) (newScope p) (newScope q) :=
  steps_of_reaches (fun _ => rfl) (fun _ => rfl) fun m m' agree => by
    have reached := reaches_newScope agree.consistent chain ρ
    rw [agree.left, agree.right] at reached
    exact reached.imp fun _ _ _ holds => holds.2

theorem steps_newInstance : Steps T w a b (fun w' x y => w'.linked x y (.refl String)) newInstance
    newInstance :=
  steps_of_reaches (fun _ => rfl) (fun _ => rfl) fun m m' agree => by
    have reached := reaches_newInstance agree.consistent
    rwa [agree.left, agree.right] at reached

theorem steps_setField {id id' : Address} (linked : w.linked id id' (.refl String))
    (alike : ValueLinked T w v v') (name : String) :
    Steps T w a b (fun _ _ _ => True) (setField id name v) (setField id' name v') :=
  steps_of_reaches (fun _ => rfl) (fun _ => rfl) fun m m' agree => by
    have reached := reaches_setField agree.consistent linked alike name
    rwa [agree.left, agree.right] at reached

theorem steps_define {name name' : String} (chain : w.Chain Γ a b)
    (declares : Γ.Declares name name') (alike : ValueLinked T w v v') :
    Steps T w a b (fun w' _ _ => w'.Chain (Γ.declare name) a b) (define name v)
      (define name' v') :=
  steps_of_reaches (fun _ => rfl) (fun _ => rfl) fun m m' agree => by
    have reached := reaches_declare agree.consistent chain declares v v'
      fun _ grows _ => alike.mono grows
    obtain rfl := agree.environment
    obtain rfl := agree.environment'
    rwa [agree.left, agree.right] at reached

theorem steps_bindMethod (method : MethodLinked T w c c') (receiver : ValueLinked T w v v') :
    Steps T w a b (fun w' x y => Callable T w' x y ∧ x.decl = c.decl) (bindMethod c v)
      (bindMethod c' v') :=
  steps_of_reaches (fun _ => rfl) (fun _ => rfl) fun m m' agree => by
    have reached := reaches_bindMethod agree.consistent method receiver
    rw [agree.left, agree.right] at reached
    exact reached.imp fun _ _ _ callable => ⟨callable, rfl⟩

theorem steps_boundMethod (method : MethodLinked T w c c') (receiver : ValueLinked T w v v') :
    Steps T w a b (ValueLinked T) (boundMethod c v) (boundMethod c' v') :=
  steps_of_reaches (fun _ => rfl) (fun _ => rfl) fun m m' agree => by
    have reached := reaches_boundMethod agree.consistent method receiver
    rwa [agree.left, agree.right] at reached

/-! ## Occurrences -/

theorem scopes_linked {o o' : Occurrence} {name name' : String} (agree : Agree T w a b m m')
    (chain : w.Chain Γ a b) (known : T.occurrences Γ o o' name name') :
    ∃ x y ρ, m.scopeOf o = some x ∧ m'.scopeOf o' = some y ∧ w.linked x y ρ ∧ name' = ρ name ∧
      ((w.left.bindings x).contains name = true ∨ name' = name) := by
  obtain ⟨-, meets⟩ := known
  unfold Machine.scopeOf
  rw [agree.distances, agree.distances']
  generalize T.left[o.id]? = found at *
  generalize T.right[o'.id]? = found' at *
  cases meets with
  | global same => exact ⟨_, _, _, rfl, rfl, agree.consistent.globals, same, .inr same⟩
  | scope place mem called =>
      obtain ⟨x, y, hx, hy, linked, bound⟩ := chain.ancestors place
      rw [agree.left, ← agree.environment] at hx
      rw [agree.right, ← agree.environment'] at hy
      exact ⟨x, y, _, hx, hy, linked, called, .inl (bound _ mem)⟩

theorem steps_lookup {o o' : Occurrence} {name name' : String} (chain : w.Chain Γ a b)
    (known : T.occurrences Γ o o' name name') :
    Steps T w a b (ValueLinked T) (lookup o name) (lookup o' name') := by
  intro m m' agree
  obtain ⟨x, y, ρ, hx, hy, linked, called, bound⟩ := scopes_linked agree chain known
  have alike := agree.consistent.binding linked name
  rw [lookup_eq, lookup_eq, hx, hy, Option.bind_some, Option.bind_some, ← agree.left,
    ← agree.right, known.line]
  unfold Bindings.contains at bound
  rw [← called] at alike
  generalize (w.left.bindings x).get? name = found at *
  generalize (w.right.bindings y).get? name' = found' at *
  cases alike with
  | some alike => exact .ok (.refl w) agree alike
  | none =>
      obtain rfl : name' = name := bound.resolve_left nofun
      exact .fault agree.output

theorem steps_assign {o o' : Occurrence} (chain : w.Chain Γ a b)
    (known : T.occurrences Γ o o' o.token.lexeme o'.token.lexeme) (alike : ValueLinked T w v v') :
    Steps T w a b (fun _ _ _ => True) (assign o v) (assign o' v') := by
  intro m m' agree
  obtain ⟨x, y, ρ, hx, hy, linked, called, bound⟩ := scopes_linked agree chain known
  have same := agree.consistent.contains linked o.token.lexeme
  rw [← called] at same
  rw [assign_eq, assign_eq, hx, hy, Option.filter_some, Option.filter_some, ← agree.left,
    ← agree.right, known.line, same]
  cases there : (w.left.bindings x).contains o.token.lexeme with
  | true =>
      obtain ⟨w', grows, consistent, hs, ht, -⟩ := reaches_define agree.consistent linked
        o.token.lexeme fun _ grows _ => alike.mono grows
      rw [← called] at ht
      exact .ok grows { agree with consistent := consistent, left := hs, right := ht } trivial
  | false =>
      rw [there] at bound
      rw [bound.resolve_left nofun]
      exact .fault agree.output

/-! ## Classes -/

theorem steps_readProperty {id id' : Address} {object object' : ClassObject}
    (linked : w.linked id id' (.refl String)) (alike : ClassLinked T w object object')
    (name : String) (line : Nat) :
    Steps T w a b (ValueLinked T) (readProperty id object name line)
      (readProperty id' object' name line) := by
  intro m m' agree
  have field := agree.consistent.field linked name
  have method := alike.method? name
  unfold readProperty property?
  rw [← agree.left, ← agree.right]
  generalize (w.left.fields id).get? name = found at *
  generalize (w.right.fields id').get? name = found' at *
  cases field with
  | some alike =>
      exact .ok (.refl w) { agree with left := rfl, right := rfl } alike
  | none =>
      generalize object.method? name = found at *
      generalize object'.method? name = found' at *
      cases method with
      | none => exact .fault agree.output
      | some method =>
          have bound := steps_boundMethod method (.instance linked alike) m m' agree
          unfold boundMethod at bound
          rw [← agree.left, ← agree.right] at bound
          exact bound

theorem steps_superMethod {o o' : Occurrence} (chain : w.Chain Γ a b) (regular : Γ.Regular)
    (known : T.occurrences Γ o o' "super" "super") (method : Token) :
    Steps T w a b (ValueLinked T) (superMethod o method) (superMethod o' method) := by
  obtain ⟨line, meets⟩ := known
  refine steps_get fun m m' agree => ?_
  rw [agree.distances, agree.distances', agree.environment, agree.environment', ← agree.left,
    ← agree.right, line]
  generalize T.left[o.id]? = found at *
  generalize T.right[o'.id]? = found' at *
  cases meets with
  | global => exact steps_fail _ _
  | scope place mem called =>
      obtain ⟨i, i', rfl, rfl, inner⟩ := regular.receiver place mem
      obtain ⟨c, c', hc, hc', object⟩ :=
        agree.consistent.getAt chain place mem o.token.line
      obtain ⟨r, r', hr, hr', receiver⟩ :=
        agree.consistent.getAt chain inner (List.mem_singleton_self _) o.token.line
      rw [← called] at hc'
      have hr' : w.right.getAt b i' "this" o.token.line = .ok r' := hr'
      simp only [superclassName, receiverName, Nat.add_sub_cancel, hc, hc', hr, hr', ofExcept,
        pure_bind]
      cases object with
      | «class» object =>
          cases receiver with
          | «instance» linked alike =>
              have found := object.method? method.lexeme
              dsimp only
              generalize ClassObject.method? _ _ = x at *
              generalize ClassObject.method? _ _ = y at *
              cases found with
              | none => exact steps_fail _ _
              | some found => exact steps_boundMethod found (.instance linked alike)
          | _ => exact steps_fail _ _
      | _ => exact steps_fail _ _

theorem steps_superclassOf {decl decl' : ClassDecl Stmt} (chain : w.Chain Γ a b)
    (similar : SimilarClass T.occurrences T.wraps (Γ.declare decl.name.lexeme) decl decl') :
    Steps T w a b (fun w' x y => Option.Rel (ClassLinked T w') x y ∧
      ∃ k, k = (if x.isSome then [.single "super"] else []) ∧
        T.Methods (.single "this" :: (k ++ Γ.declare decl.name.lexeme)) decl.methods decl'.methods)
      (superclassOf decl) (superclassOf decl') := by
  unfold superclassOf
  cases similar with
  | base methods => exact steps_pure ⟨.none, [], rfl, methods⟩
  | @sub _ _ _ name parent parent' known self methods =>
      dsimp only
      rw [self, known.line]
      split
      · exact steps_fail _ _
      · rename_i other
        have ne : parent.token.lexeme ≠ name.lexeme := by simpa using other
        have known : T.occurrences Γ parent parent' _ _ := ⟨known.line, known.meets.of_declare ne⟩
        refine (steps_lookup chain known).bind fun w' v v' _ alike => ?_
        cases alike with
        | «class» object => exact steps_pure ⟨.some object, _, rfl, methods⟩
        | _ => exact steps_fail _ _

theorem steps_methodScope {c c' : Option ClassObject} (above : Option.Rel (ClassLinked T w) c c') :
    Steps T w a b (fun w' x y => ∀ w'' Δ, w'.Grows w'' → w''.Chain Δ a b →
      w''.Chain ((if c.isSome then [.single "super"] else []) ++ Δ) x y)
      (methodScope c) (methodScope c') := by
  unfold methodScope
  refine steps_get fun m m' agree => ?_
  rw [agree.environment, agree.environment']
  cases above with
  | none => exact steps_pure fun _ _ _ outer => outer
  | some object =>
      refine steps_of_reaches (fun _ => rfl) (fun _ => rfl) fun m m' agree => ?_
      have reached := reaches_superScope agree.consistent object a b
      rwa [agree.left, agree.right] at reached

theorem steps_declareClass {decl decl' : ClassDecl Stmt} (chain : w.Chain Γ a b)
    (declares : Γ.Declares decl.name.lexeme decl.name.lexeme)
    (similar : SimilarClass T.occurrences T.wraps (Γ.declare decl.name.lexeme) decl decl') :
    Steps T w a b (fun w' _ _ => w'.Chain (Γ.declare decl.name.lexeme) a b) (declareClass decl)
      (declareClass decl') := by
  refine (steps_superclassOf chain similar).bind fun w' c c' grows ⟨above, k, fixed, methods⟩ => ?_
  refine (steps_methodScope above).bind fun w'' p q grows' home => ?_
  rw [← fixed] at home
  refine steps_of_reaches (fun _ => rfl) (fun _ => rfl) fun m m' agree => ?_
  obtain rfl := agree.environment
  obtain rfl := agree.environment'
  have reached := reaches_declareClass agree.consistent ((chain.mono grows).mono grows') declares
    methods home (rel_imp above fun _ _ object => object.mono grows')
  rw [agree.left, agree.right] at reached
  rw [similar.same_name]
  exact reached

theorem steps_declareFunction {decl decl' : FunctionDecl Stmt} (chain : w.Chain Γ a b)
    (declares : Γ.Declares decl.name.lexeme decl.name.lexeme)
    (similar : T.Function (Γ.declare decl.name.lexeme) decl decl') :
    Steps T w a b (fun w' _ _ => w'.Chain (Γ.declare decl.name.lexeme) a b) (declareFunction decl)
      (declareFunction decl') := by
  refine steps_of_reaches (fun _ => rfl) (fun _ => rfl) fun m m' agree => ?_
  obtain rfl := agree.environment
  obtain rfl := agree.environment'
  have reached := reaches_declareFunction agree.consistent chain declares similar
  rwa [agree.left, agree.right] at reached

/-! ## Calls -/

theorem steps_callScope (linked : CodeLinked T w Γ Γ c c') {vs vs' : List Value}
    (alike : List.Forall₂ (ValueLinked T w) vs vs') (length : vs.length = c.decl.arity) :
    Steps T w a b (fun w' x y => ∃ Δ, w'.Chain Δ x y ∧ T.Stmts Δ c.decl.body c'.decl.body)
      (callScope c vs) (callScope c' vs') := by
  refine steps_of_reaches (fun _ => rfl) (fun _ => rfl) fun m m' agree => ?_
  obtain ⟨-, chain, code⟩ := linked
  obtain ⟨decl, scope, _⟩ := c
  obtain ⟨decl', scope', _⟩ := c'
  cases code with
  | @intro _ _ _ _ params params' ρ called body =>
      have reached := reaches_callScope agree.consistent chain ρ (params.map Token.lexeme) alike
        (by simpa [FunctionDecl.arity] using length)
      rw [agree.left, agree.right, ← called] at reached
      exact reached.imp fun _ _ _ inner => ⟨_, inner, body⟩

theorem steps_callResult (callable : Callable T w c c') (line : Nat)
    (alike : ValueLinked T w v v') :
    Steps T w a b (ValueLinked T) (callResult c line v) (callResult c' line v') := by
  obtain ⟨Γ, linked, initializer⟩ := callable
  unfold callResult
  rw [linked.initializer]
  split
  · rename_i isInitializer
    obtain ⟨Δ, rfl⟩ := initializer isInitializer
    refine steps_get fun m m' agree => ?_
    obtain ⟨r, r', hr, hr', receiver⟩ :=
      agree.consistent.getAt linked.chain .here (List.mem_singleton_self _) line
    have hr' : w.right.getAt c'.scope 0 "this" line = .ok r' := hr'
    rw [← agree.left, ← agree.right, receiverName, hr, hr']
    exact steps_pure receiver
  · exact steps_pure alike

/-! ## Leaving -/

inductive SignalLinked (T : Twins) (w : World) : Signal → Signal → Prop
  | normal : SignalLinked T w .normal .normal
  | break (line : Nat) : SignalLinked T w (.break line) (.break line)
  | continue (line : Nat) : SignalLinked T w (.continue line) (.continue line)
  | return {u u'} (line : Nat) : ValueLinked T w u u' →
      SignalLinked T w (.return u line) (.return u' line)

theorem steps_checkReturn (keyword : Token) {e e' : Option Expr} (same : e'.isSome = e.isSome) :
    Steps T w a b (fun _ _ _ => True) (checkReturn keyword e) (checkReturn keyword e') := by
  refine steps_get fun m m' agree => ?_
  rw [agree.frame, same]
  split
  · exact steps_fail _ _
  · split
    · exact steps_fail _ _
    · exact steps_pure trivial
  · exact steps_pure trivial

theorem steps_leaveLoop (exit : LoopExit) (line : Nat) {signal : Signal}
    (alike : SignalLinked T w signal signal) :
    Steps T w a b (SignalLinked T) (leaveLoop exit line signal) (leaveLoop exit line signal) := by
  refine steps_get fun m m' agree => ?_
  rw [agree.frame]
  split
  · exact steps_fail _ _
  · exact steps_pure alike

end Run

end ClassScript
