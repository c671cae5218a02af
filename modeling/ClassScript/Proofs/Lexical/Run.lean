import ClassScript.Proofs.Lexical.Steps

namespace ClassScript.Run

open Binding Store Machine

variable {visited : Set (Scopes × Expr)} {scopes : Scopes} {m n : Machine} {host : Host}
  {fuel line : Nat} {a : Address}

structure Leaves (visited : Set (Scopes × Expr)) (a : Address) (scopes after : Scopes) (s : Store)
    (signal : Signal) : Prop where
  placed : s.SignalPlaced visited signal
  agree : s.ScopesAgree a scopes
  after : signal = .normal → s.ScopesAgree a after

structure LocatedWith (visited : Set (Scopes × Expr)) (host : Host) (fuel : Nat) : Prop where
  eval : ∀ e {scopes m}, m.Located visited scopes → Within visited (exprVisits scopes e) →
    PlacedWith visited (eval host fuel e) m (ValuePlaced visited)
  evalAll : ∀ es {scopes m}, m.Located visited scopes → Within visited (exprsVisits scopes es) →
    PlacedWith visited (evalAll host fuel es) m fun s vs => ∀ v ∈ vs, ValuePlaced visited s v
  call : ∀ f args line {m}, m.Intact visited → m.store.Owned visited f →
    (∀ v ∈ args, m.store.Owned visited v) →
    PlacedWith visited (call host fuel f args line) m (ValuePlaced visited)
  invoke : ∀ c args line {m}, m.Intact visited → m.store.ClosureOwned visited c →
    (∀ v ∈ args, m.store.Owned visited v) → args.length = c.decl.arity →
    PlacedWith visited (invoke host fuel c args line) m (ValuePlaced visited)
  exec : ∀ s {scopes m a}, m.environment = a → m.Located visited scopes →
    Within visited (stmtVisits scopes s) →
    PlacedWith visited (exec host fuel s) m (Leaves visited a scopes (scopesAfter scopes s))
  execAll : ∀ ss {scopes m a}, m.environment = a → m.Located visited scopes →
    Within visited (stmtsVisits scopes ss) →
    PlacedWith visited (execAll host fuel ss) m (Leaves visited a scopes scopes)
  execLoop : ∀ condition body increment {scopes m a}, m.environment = a →
    m.Located visited scopes → Within visited (exprVisits scopes condition) →
    Within visited (stmtVisits scopes body) → Within visited (optionalVisits scopes increment) →
    PlacedWith visited (execLoop host fuel condition body increment) m
      (Leaves visited a scopes scopes)

theorem Leaves.normal {s : Store} (agree : s.ScopesAgree a scopes) :
    Leaves visited a scopes scopes s .normal := ⟨trivial, agree, fun _ => agree⟩

theorem Leaves.inside {s : Store} {signal : Signal} {after : Scopes}
    (h : Leaves visited a scopes after s signal) : Leaves visited a scopes scopes s signal :=
  ⟨h.placed, h.agree, fun _ => h.agree⟩

theorem Leaves.behind {s : Store} {signal : Signal} {stmt : Stmt} {after : Scopes}
    (h : Leaves visited a (scopesAfter scopes stmt) after s signal) :
    Leaves visited a scopes scopes s signal :=
  have agree := h.agree.of_scopesAfter
  ⟨h.placed, agree, fun _ => agree⟩

theorem Leaves.early {s : Store} {signal : Signal} {after after' : Scopes}
    (h : Leaves visited a scopes after s signal) (ne : signal ≠ .normal) :
    Leaves visited a scopes after' s signal :=
  ⟨h.placed, h.agree, fun eq => absurd eq ne⟩

/-! ## Expressions and calls -/

theorem placed_eval (ih : LocatedWith visited host fuel) (e : Expr)
    (h : m.Located visited scopes) (within : Within visited (exprVisits scopes e)) :
    PlacedWith visited (eval host (fuel + 1) e) m (ValuePlaced visited) := by
  have sound := soundWith host fuel
  cases e with
  | literal value line => exact placed_pure h.placed (value.plain_value.placed _)
  | grouping inner => exact ih.eval inner h (within_cons.mp within).2
  | var name => exact placed_lookup h.sound h.placed name _
  | assign name value =>
      have inner := (within_cons.mp within).2
      apply (sound.eval value h.sound).thenPlaced (ih.eval value h inner)
      intro v n hn hp hl hv
      apply (keeps_assign hn.sound name hl).thenPlaced (placed_assign hp name hv)
      intro _ o ho hop _ _
      exact placed_pure hop (valuePlaced_lasting _ _ _ ho.growth hv)
  | logical left operator right =>
      have both := within_append.mp (within_cons.mp within).2
      apply (sound.eval left h.sound).thenPlaced (ih.eval left h both.1)
      intro l n hn hp _ hl
      split
      · exact placed_pure hp hl
      · exact ih.eval right (h.keeps hn hp) both.2
  | binary left operator right =>
      have both := within_append.mp (within_cons.mp within).2
      apply (sound.eval left h.sound).thenPlaced (ih.eval left h both.1)
      intro l n hn hp _ hl
      have hn' := h.keeps hn hp
      apply (sound.eval right hn.sound).thenPlaced (ih.eval right hn' both.2)
      intro r o _ hop _ _
      exact placed_ofExcept hop fun v hv => (Operator.plain_binary hv).placed _
  | unary operator operand =>
      apply (sound.eval operand h.sound).thenPlaced (ih.eval operand h (within_cons.mp within).2)
      intro v n _ hp _ _
      exact placed_ofExcept hp fun w hw => (Operator.plain_unary hw).placed _
  | call callee paren arguments =>
      have both := within_append.mp (within_cons.mp within).2
      apply (sound.eval callee h.sound).thenPlaced (ih.eval callee h both.1)
      intro f n hn hp hfl hf
      have hn' := h.keeps hn hp
      apply (sound.evalAll arguments hn.sound).thenPlaced (ih.evalAll arguments hn' both.2)
      intro args o ho hop hal ha
      have callee : o.store.Owned visited f := Owned.mono ⟨hfl, hf⟩ ho.growth
      have ho' := (hn'.keeps ho hop).toIntact
      exact ih.call f args _ ho' callee fun v mem => ⟨hal v mem, ha v mem⟩
  | get object name =>
      apply (sound.eval object h.sound).thenPlaced (ih.eval object h (within_cons.mp within).2)
      intro v n _ hp hl hv
      split
      · exact placed_readProperty hp _ ⟨hl, hv⟩
      · exact placed_fail hp
  | set object name value =>
      have both := within_append.mp (within_cons.mp within).2
      apply (sound.eval object h.sound).thenPlaced (ih.eval object h both.2)
      intro target n hn hp _ _
      split
      · have hn' := h.keeps hn hp
        apply (sound.eval value hn.sound).thenPlaced (ih.eval value hn' both.1)
        intro v o ho hop hl hv
        apply (keeps_setField ho.sound _ _ hl).thenPlaced (placed_setField hop _ _ hv)
        intro _ q hq hqp _ _
        exact placed_pure hqp (valuePlaced_lasting _ _ _ hq.growth hv)
      · exact placed_fail hp
  | this keyword => exact placed_lookup h.sound h.placed keyword _
  | super keyword method => exact placed_superMethod h.sound h.placed keyword method

theorem placed_evalAll (ih : LocatedWith visited host fuel) (es : List Expr)
    (h : m.Located visited scopes) (within : Within visited (exprsVisits scopes es)) :
    PlacedWith visited (evalAll host (fuel + 1) es) m
      fun s vs => ∀ v ∈ vs, ValuePlaced visited s v := by
  have sound := soundWith host fuel
  cases es with
  | nil => exact placed_pure h.placed fun v mem => by cases mem
  | cons e rest =>
      have both := within_append.mp within
      apply (sound.eval e h.sound).thenPlaced (ih.eval e h both.1)
      intro v n hn hp _ hv
      have hn' := h.keeps hn hp
      apply (sound.evalAll rest hn.sound).thenPlaced (ih.evalAll rest hn' both.2)
      intro vs o ho hop _ hvs
      refine placed_pure hop fun w mem => ?_
      rcases List.mem_cons.mp mem with rfl | mem
      · exact valuePlaced_lasting _ _ _ ho.growth hv
      · exact hvs w mem

theorem arity_of_method? {object : ClassObject} {init : Closure} {arity : Nat}
    (found : object.method? ClassObject.initializerName = some init)
    (same : (Value.class object).arity? = some arity) : arity = init.decl.arity := by
  simp only [Value.arity?, ClassObject.arity, found, Option.map_some, Option.getD_some,
    Option.some.injEq] at same
  exact same.symm

theorem placed_call (ih : LocatedWith visited host fuel) {f : Value} {args : List Value}
    (h : m.Intact visited) (hf : m.store.Owned visited f)
    (ha : ∀ v ∈ args, m.store.Owned visited v) :
    PlacedWith visited (call host (fuel + 1) f args line) m (ValuePlaced visited) := by
  have sound := soundWith host fuel
  simp only [call]
  cases takes : f.arity? with
  | none => exact placed_fail h.placed
  | some arity =>
      dsimp only
      split
      · exact placed_fail h.placed
      rename_i same
      have same := of_not_not same
      cases f with
      | function id closure =>
          cases takes
          exact ih.invoke closure args line h ⟨hf.listed, hf.placed⟩ ha same
      | bound id closure =>
          cases takes
          exact ih.invoke closure args line h ⟨hf.listed, hf.placed⟩ ha same
      | «class» object =>
          have scopes : ∀ b ∈ Value.classScopes object, m.store.ScopeListed b := hf.listed
          apply (keeps_newInstance h.sound).thenPlaced (placed_newInstance h.placed)
          intro id n hn hnp hid _
          have object' := hf.mono hn.growth
          have receiver : n.store.Owned visited (.instance id object) :=
            ⟨⟨hid, object'.listed⟩, object'.placed⟩
          split
          · rename_i init found
            have method := ClassPlaced.method? object'.placed found
            have inScope := (scopes _ (Store.method?_scope_mem found)).mono hn.growth
            apply (keeps_bindMethod hn.sound inScope receiver.listed).thenPlaced
              (placed_bindMethod hnp method receiver.placed)
            intro closure o ho hop hcl hc
            have takesAll : args.length = closure.decl.arity := by
              rw [hc.1, same, arity_of_method? found takes]
            have owned : ∀ v ∈ args, o.store.Owned visited v := fun v mem =>
              ((ha v mem).mono hn.growth).mono ho.growth
            have listed : ∀ v ∈ args, o.store.ValueListed v := fun v mem => (owned v mem).listed
            have ho' := (h.passes hn.toPasses hnp).passes ho.toPasses hop
            apply (sound.invoke closure args line ho.sound hcl listed).discard.thenPlaced
              (ih.invoke closure args line ho' ⟨hcl, hc.2⟩ owned takesAll).discard
            intro _ q hq hqp _ _
            exact placed_pure hqp ((receiver.mono ho.growth).mono hq.growth).placed
          · exact placed_pure hnp receiver.placed
      | _ => exact placed_readClock h.placed host

/-! ## Parts in scopes of their own -/

theorem placed_inCall (h : m.Intact visited) (kind : FrameKind) {scope : Address}
    {part : Run Signal} (hs : m.store.ScopeListed scope) (agree : m.store.ScopesAgree scope scopes)
    (hpart : ∀ n : Machine, n.Located visited scopes →
      PlacedWith visited part n (Leaves visited n.environment scopes scopes)) :
    PlacedWith visited (inCall kind scope part) m (SignalPlaced visited) := by
  let inner : Machine := { m with
    environment := scope
    frame := ⟨kind, 0⟩
    callDepth := m.callDepth + 1 }
  have located : inner.Located visited scopes :=
    ⟨⟨⟨h.sound.store, hs⟩, h.placed, h.recorded⟩, agree⟩
  apply ends_inCall.mpr
  apply (hpart inner located).imp
  · intro signal n hn
    exact ⟨hn.1, hn.2.placed⟩
  · intro _ n hn
    exact hn

theorem placed_invoke (ih : LocatedWith visited host fuel) {c : Closure} {args : List Value}
    (h : m.Intact visited) (hc : m.store.ClosureOwned visited c)
    (ha : ∀ v ∈ args, m.store.Owned visited v) (same : args.length = c.decl.arity) :
    PlacedWith visited (invoke host (fuel + 1) c args line) m (ValuePlaced visited) := by
  have sound := soundWith host fuel
  rw [invoke]
  apply (keeps_checkDepth h.sound).thenPlaced (placed_checkDepth h.placed)
  intro _ n hn hnp _ _
  have owned : ∀ v ∈ args, n.store.Owned visited v := fun v mem => (ha v mem).mono hn.growth
  have closure := hc.mono hn.growth
  obtain ⟨scopes, agree, within⟩ := closure.placed
  rw [functionVisits_eq] at within
  apply (keeps_callScope hn.sound closure.listed fun v mem => (owned v mem).listed).thenPlaced
    (placed_callScope hnp agree owned same)
  intro scope o ho hop hscope agree'
  have ho' := (h.passes hn.toPasses hnp).passes ho.toPasses hop
  apply (keeps_inCall ho.sound _ hscope fun q hq => sound.execAll c.decl.body hq).thenPlaced
    (placed_inCall ho' _ hscope agree' fun q hq => ih.execAll c.decl.body rfl hq within)
  intro signal q hq hqp _ hs
  have listed := ((hc.mono hn.growth).mono ho.growth).listed.mono hq.growth
  cases signal with
  | normal => exact placed_callResult hq.sound hqp listed trivial
  | «return» value line => exact placed_callResult hq.sound hqp listed hs
  | «break» line => exact placed_fail hqp
  | «continue» line => exact placed_fail hqp

theorem placed_inScope (h : m.Located visited scopes) (env : m.environment = a) {part : Run Signal}
    (sound : ∀ n : Machine, n.Sound → PassesWith part n SignalListed)
    (hpart : ∀ n : Machine, n.Located visited ([] :: scopes) →
      PlacedWith visited part n (Leaves visited n.environment ([] :: scopes) ([] :: scopes))) :
    PlacedWith visited (do inScope (← newScope m.environment) part) m
      (Leaves visited a scopes scopes) := by
  have inner : Machine.Located visited ([] :: scopes) { m with
      store := (m.store.newScope m.environment).2
      environment := (m.store.newScope m.environment).1 } :=
    ⟨⟨⟨h.sound.store.newScope h.sound.environment, newScope_listed _ _⟩,
      h.placed.newScope valuePlaced_lasting _, h.recorded⟩, h.agree.newScope⟩
  apply ends_bind.mpr
  apply ends_inScope.mpr
  apply ((sound _ inner.sound).and (hpart _ inner)).imp
  · intro signal n hn
    have around := hn.1.1.ext.parent? (parent?_newScope m.store m.environment)
    have agree : n.store.ScopesAgree a scopes := env ▸ hn.2.2.agree.outside around
    exact ⟨hn.2.1, hn.2.2.placed, agree, fun _ => agree⟩
  · intro _ n hn
    exact hn.2

theorem placed_inLoop (h : m.Located visited scopes) (env : m.environment = a) {part : Run Signal}
    (hpart : ∀ n : Machine, n.environment = a → n.Located visited scopes →
      PlacedWith visited part n (Leaves visited a scopes scopes)) :
    PlacedWith visited (inLoop part) m (Leaves visited a scopes scopes) := by
  let inner : Machine := { m with frame := { m.frame with loopDepth := m.frame.loopDepth + 1 } }
  have located : inner.Located visited scopes :=
    ⟨⟨⟨h.sound.store, h.sound.environment⟩, h.placed, h.recorded⟩, h.agree⟩
  apply ends_inLoop.mpr
  apply (hpart inner env located).imp
  · intro _ n hn
    exact hn
  · intro _ n hn
    exact hn

theorem placed_statement (h : m.Located visited scopes) (env : m.environment = a) (host : Host)
    {part : Run Signal} {post : Store → Signal → Prop}
    (hpart : ∀ n : Machine, n.environment = a → n.Located visited scopes →
      PlacedWith visited part n post) :
    PlacedWith visited (do start host line; collectIfDue host; part) m post := by
  apply (keeps_start h.sound host).thenPlaced (placed_start h.placed host)
  intro _ n hn hnp _ _
  apply ends_bind.mpr
  apply (located_collectIfDue (h.keeps hn hnp) host).imp
  · intro _ o ho
    exact hpart o (ho.2.trans (hn.environment.trans env)) ho.1
  · intro _ _ impossible
    exact impossible.elim

/-! ## Statements -/

theorem placed_exec (ih : LocatedWith visited host fuel) (s : Stmt) (env : m.environment = a)
    (h : m.Located visited scopes) (within : Within visited (stmtVisits scopes s)) :
    PlacedWith visited (exec host (fuel + 1) s) m
      (Leaves visited a scopes (scopesAfter scopes s)) := by
  have sound := soundWith host fuel
  cases s with
  | expression e =>
      apply placed_statement h env host
      intro n he hn
      apply (sound.eval e hn.sound).discard.thenPlaced (ih.eval e hn within).discard
      intro _ o ho hop _ _
      exact placed_pure hop (.normal (he ▸ hn.agree.mono ho.growth))
  | print e =>
      apply placed_statement h env host
      intro n he hn
      apply (sound.eval e hn.sound).thenPlaced (ih.eval e hn within)
      intro v o ho hop _ _
      apply (keeps_print ho.sound v).thenPlaced (placed_print hop v)
      intro _ q hq hqp _ _
      exact placed_pure hqp (.normal (he ▸ (hn.agree.mono ho.growth).mono hq.growth))
  | varDecl name initializer =>
      apply placed_statement h env host
      intro n he hn
      cases initializer with
      | none =>
          have listed : n.store.ValueListed .nil := trivial
          apply (keeps_define hn.sound _ listed).thenPlaced (placed_define hn _ trivial)
          intro _ o ho hop _ agree
          rw [he] at agree
          exact placed_pure hop ⟨trivial, agree.of_declare, fun _ => agree⟩
      | some e =>
          apply (sound.eval e hn.sound).thenPlaced (ih.eval e hn within)
          intro v o ho hop hl hv
          apply (keeps_define ho.sound _ hl).thenPlaced (placed_define (hn.keeps ho hop) _ hv)
          intro _ q hq hqp _ agree
          rw [ho.environment, he] at agree
          exact placed_pure hqp ⟨trivial, agree.of_declare, fun _ => agree⟩
  | block body line =>
      apply placed_statement h env host
      intro n he hn
      exact placed_inScope hn he (fun o ho => sound.execAll body ho)
        fun o ho => ih.execAll body rfl ho within
  | branch condition thenBranch elseBranch =>
      have all := within_append.mp within
      have both := within_append.mp all.1
      apply placed_statement h env host
      intro n he hn
      apply (sound.eval condition hn.sound).thenPlaced (ih.eval condition hn both.1)
      intro v o ho hop _ _
      have env' : o.environment = a := ho.environment.trans he
      have ho' := hn.keeps ho hop
      split
      · apply (ih.exec thenBranch env' ho' both.2).imp
        · exact fun _ _ hq => ⟨hq.1, hq.2.inside⟩
        · exact fun _ _ hq => hq
      · cases elseBranch with
        | none => exact placed_pure hop (.normal (env' ▸ ho'.agree))
        | some other =>
            apply (ih.exec other env' ho' all.2).imp
            · exact fun _ _ hq => ⟨hq.1, hq.2.inside⟩
            · exact fun _ _ hq => hq
  | loop condition body increment =>
      have all := within_append.mp within
      have both := within_append.mp all.1
      apply placed_statement h env host
      intro n he hn
      exact placed_inLoop hn he fun o heo ho =>
        ih.execLoop condition body increment heo ho both.1 both.2 all.2
  | funDecl decl =>
      apply placed_statement h env host
      intro n he hn
      apply (keeps_declareFunction hn.sound decl).thenPlaced (placed_declareFunction hn decl within)
      intro _ o ho hop _ agree
      rw [he] at agree
      exact placed_pure hop ⟨trivial, agree.of_declare, fun _ => agree⟩
  | classDecl decl =>
      apply placed_statement h env host
      intro n he hn
      apply (keeps_declareClass hn.sound decl).thenPlaced (placed_declareClass hn decl within)
      intro _ o ho hop _ agree
      rw [he] at agree
      exact placed_pure hop ⟨trivial, agree.of_declare, fun _ => agree⟩
  | «return» keyword value =>
      apply placed_statement h env host
      intro n he hn
      apply (keeps_checkReturn hn.sound keyword value).thenPlaced
        (placed_checkReturn hn.placed keyword value)
      intro _ o ho hop _ _
      have ho' := hn.keeps ho hop
      cases value with
      | none => exact placed_pure hop ⟨trivial, he ▸ hn.agree.mono ho.growth, fun eq => by cases eq⟩
      | some e =>
          apply (sound.eval e ho.sound).thenPlaced (ih.eval e ho' within)
          intro v q hq hqp _ hv
          exact placed_pure hqp
            ⟨hv, he ▸ (hn.agree.mono ho.growth).mono hq.growth, fun eq => by cases eq⟩
  | «break» keyword =>
      apply placed_statement h env host
      intro n he hn
      exact placed_leaveLoop hn.placed _ ⟨trivial, he ▸ hn.agree, fun eq => by cases eq⟩
  | «continue» keyword =>
      apply placed_statement h env host
      intro n he hn
      exact placed_leaveLoop hn.placed _ ⟨trivial, he ▸ hn.agree, fun eq => by cases eq⟩

theorem placed_execAll (ih : LocatedWith visited host fuel) (ss : List Stmt)
    (env : m.environment = a) (h : m.Located visited scopes)
    (within : Within visited (stmtsVisits scopes ss)) :
    PlacedWith visited (execAll host (fuel + 1) ss) m (Leaves visited a scopes scopes) := by
  have sound := soundWith host fuel
  cases ss with
  | nil => exact placed_pure h.placed (.normal (env ▸ h.agree))
  | cons s rest =>
      have both := within_append.mp within
      apply (sound.exec s h.sound).thenPlaced (ih.exec s env h both.1)
      intro signal n hn hp _ hs
      have env' := hn.environment.trans env
      split
      · have hn' : n.Located visited (scopesAfter scopes s) :=
          ⟨h.toIntact.passes hn hp, env' ▸ hs.after rfl⟩
        apply (ih.execAll rest env' hn' both.2).imp
        · exact fun _ _ ho => ⟨ho.1, ho.2.behind⟩
        · exact fun _ _ ho => ho
      · rename_i ne
        exact placed_pure hp (hs.early fun eq => ne eq)

theorem placed_execLoop (ih : LocatedWith visited host fuel) (condition : Expr) (body : Stmt)
    (increment : Option Expr) (env : m.environment = a) (h : m.Located visited scopes)
    (hc : Within visited (exprVisits scopes condition))
    (hb : Within visited (stmtVisits scopes body))
    (hi : Within visited (optionalVisits scopes increment)) :
    PlacedWith visited (execLoop host (fuel + 1) condition body increment) m
      (Leaves visited a scopes scopes) := by
  have sound := soundWith host fuel
  apply (sound.eval condition h.sound).thenPlaced (ih.eval condition h hc)
  intro v n hn hp _ _
  have env' := hn.environment.trans env
  have hn' := h.keeps hn hp
  split
  · apply (sound.exec body hn.sound).thenPlaced (ih.exec body env' hn' hb)
    intro signal o ho hop _ hs
    have env'' := ho.environment.trans env'
    have ho' : o.Located visited scopes :=
      ⟨hn'.toIntact.passes ho hop, env'' ▸ hs.agree⟩
    split
    · exact placed_pure hop (.normal hs.agree)
    · exact placed_pure hop ⟨hs.placed, hs.agree, fun eq => by cases eq⟩
    · cases increment with
      | none => exact ih.execLoop condition body none env'' ho' hc hb hi
      | some e =>
          apply (sound.eval e ho.sound).discard.thenPlaced (ih.eval e ho' hi).discard
          intro _ q hq hqp _ _
          exact ih.execLoop condition body (some e) (hq.environment.trans env'') (ho'.keeps hq hqp)
            hc hb hi
  · exact placed_pure hp (.normal (env' ▸ hn'.agree))

theorem locatedWith (visited : Set (Scopes × Expr)) (host : Host) (fuel : Nat) :
    LocatedWith visited host fuel := by
  induction fuel with
  | zero =>
      constructor
      · exact fun _ _ _ h _ => h.placed
      · exact fun _ _ _ h _ => h.placed
      · exact fun _ _ _ _ h _ _ => h.placed
      · exact fun _ _ _ _ h _ _ _ => h.placed
      · exact fun _ _ _ _ _ h _ => h.placed
      · exact fun _ _ _ _ _ h _ => h.placed
      · exact fun _ _ _ _ _ _ _ h _ _ _ => h.placed
  | succ fuel ih =>
      exact {
        eval := fun e _ _ => placed_eval ih e
        evalAll := fun es _ _ => placed_evalAll ih es
        call := fun _ _ _ _ => placed_call ih
        invoke := fun _ _ _ _ => placed_invoke ih
        exec := fun s _ _ _ => placed_exec ih s
        execAll := fun ss _ _ _ => placed_execAll ih ss
        execLoop := fun c b i _ _ _ => placed_execLoop ih c b i }

theorem placed_program (host : Host) (fuel : Nat) (ss : List Stmt) (h : m.Located visited [])
    (within : Within visited (stmtsVisits [] ss)) :
    PlacedWith visited (program host fuel ss) m anything := by
  induction ss generalizing m with
  | nil => exact placed_pure h.placed trivial
  | cons s rest ih =>
      have both := within_append.mp within
      rw [scopesAfter_nil] at both
      apply ((soundWith host fuel).exec s h.sound).thenPlaced
        ((locatedWith visited host fuel).exec s rfl h both.1)
      intro signal n hn hp _ hs
      cases signal with
      | normal => exact ih ⟨h.toIntact.passes hn hp, hn.environment ▸ hs.agree⟩ both.2
      | «break» line => exact placed_fail hp
      | «continue» line => exact placed_fail hp
      | «return» value line => exact placed_fail hp

end ClassScript.Run
