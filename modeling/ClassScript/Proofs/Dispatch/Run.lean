import ClassScript.Proofs.Dispatch.Steps
import ClassScript.Proofs.Run.Order

namespace ClassScript.Run

open Binding Store Machine

variable {src : Sources} {setting : Setting} {m n : Machine} {host : Host}
  {fuel line : Nat} {a : Address} {quiet : Prop} {first : Moment}

structure Remains (src : Sources) (a : Address) (setting : Setting) (s : Store)
    (signal : Signal) : Prop where
  signal : s.SignalHomed src signal
  inside : s.InSetting src a setting

def Moment.Declares (host : Host) (q : Moment) (decl : ClassDecl Stmt) (object : ClassObject) :
    Prop :=
  ∃ fuel m n, q = ⟨fuel + 1, .exec (.classDecl decl), m⟩ ∧ Begins host (.classDecl decl) m n ∧
    Run.Declares decl n object

structure Follows (host : Host) (first : Moment) (src : Sources) : Prop where
  names : src.mentions ⊆ ordinary
  declares : ∀ {q decl object}, Relation.ReflTransGen (Enters host) first q →
    q.Declares host decl object → src.declares decl object.layer object.ancestors

abbrev Leads (host : Host) (first : Moment) (fuel : Nat) (task : Task) (m : Machine) : Prop :=
  Relation.ReflTransGen (Enters host) first ⟨fuel, task, m⟩

structure HomedEval (src : Sources) (host : Host) (first : Moment) (fuel : Nat) : Prop where
  eval : ∀ e {setting m}, Leads host first fuel (.eval e) m → m.Inside src setting →
    Within src.mentions (exprMentions setting e) →
    HomedWith True src (eval host fuel e) m (ValueHomed src)
  evalAll : ∀ es {setting m}, Leads host first fuel (.evalAll es) m → m.Inside src setting →
    Within src.mentions (exprsMentions setting es) →
    HomedWith True src (evalAll host fuel es) m fun s vs => ∀ v ∈ vs, ValueHomed src s v
  call : ∀ f args line {m}, Leads host first fuel (.call f args line) m → m.Settled src →
    m.store.Housed src f → (∀ v ∈ args, m.store.Housed src v) →
    HomedWith True src (call host fuel f args line) m (ValueHomed src)
  invoke : ∀ c args line {m}, Leads host first fuel (.invoke c args line) m → m.Settled src →
    m.store.ClosureHoused src c → (∀ v ∈ args, m.store.Housed src v) →
    HomedWith True src (invoke host fuel c args line) m (ValueHomed src)
  exec : ∀ s {quiet setting m a}, Leads host first fuel (.exec s) m → m.environment = a →
    (quiet → 0 < m.callDepth) → m.Inside src setting →
    Within src.mentions (stmtMentions setting s) →
    HomedWith quiet src (exec host fuel s) m (Remains src a setting)
  execAll : ∀ ss {quiet setting m a}, Leads host first fuel (.execAll ss) m → m.environment = a →
    (quiet → 0 < m.callDepth) → m.Inside src setting →
    Within src.mentions (stmtsMentions setting ss) →
    HomedWith quiet src (execAll host fuel ss) m (Remains src a setting)
  execLoop : ∀ condition body increment {quiet setting m a},
    Leads host first fuel (.execLoop condition body increment) m → m.environment = a →
    (quiet → 0 < m.callDepth) → m.Inside src setting →
    Within src.mentions (exprMentions setting condition) →
    Within src.mentions (stmtMentions setting body) →
    Within src.mentions (optionalMentions setting increment) →
    HomedWith quiet src (execLoop host fuel condition body increment) m (Remains src a setting)

theorem Remains.of_inside {signal : Signal} (h : n.Inside src setting) (env : n.environment = a)
    (hs : n.store.SignalHomed src signal) : Remains src a setting n.store signal :=
  ⟨hs, env ▸ h.inside⟩

/-! ## Expressions and calls -/

theorem homed_eval (ih : HomedEval src host first fuel) (follows : Follows host first src)
    (e : Expr) (reach : Leads host first (fuel + 1) (.eval e) m) (h : m.Inside src setting)
    (within : Within src.mentions (exprMentions setting e)) :
    HomedWith True src (eval host (fuel + 1) e) m (ValueHomed src) := by
  have sound := soundWith host fuel
  cases e with
  | literal value line => exact homed_pure h.homed (value.plain_value.homed _)
  | grouping inner => exact ih.eval inner (reach.tail .grouping) h within
  | var name => exact homed_lookup h.sound h.homed name _
  | assign name value =>
      have both := within_cons.mp within
      apply (sound.eval value h.sound).thenHomed
        (ih.eval value (reach.tail .assigned) h both.2)
      intro v n _ hn hl hv
      apply (keeps_assign hn.sound name hl).thenHomed
        (homed_assign hn.homed (follows.names both.1) hv)
      intro _ o _ ho _ _
      exact homed_pure ho.homed (hv.mono ho.steady)
  | logical left operator right =>
      have both := within_append.mp within
      apply (sound.eval left h.sound).thenHomed (ih.eval left (reach.tail .logicalLeft) h both.1)
      intro l n run hn _ hl
      split
      · exact homed_pure hn.homed hl
      · rename_i goesOn
        have next := reach.tail (.logicalRight run (Bool.eq_false_iff.mpr goesOn))
        exact ih.eval right next (h.settles hn) both.2
  | binary left operator right =>
      have both := within_append.mp within
      apply (sound.eval left h.sound).thenHomed (ih.eval left (reach.tail .binaryLeft) h both.1)
      intro l n run hn _ hl
      apply (sound.eval right hn.sound).thenHomed
        (ih.eval right (reach.tail (.binaryRight run)) (h.settles hn) both.2)
      intro r o _ ho _ _
      exact homed_ofExcept ho.homed fun v hv => (Operator.plain_binary hv).homed _
  | unary operator operand =>
      apply (sound.eval operand h.sound).thenHomed
        (ih.eval operand (reach.tail .unary) h within)
      intro v n _ hn _ _
      exact homed_ofExcept hn.homed fun w hw => (Operator.plain_unary hw).homed _
  | call callee paren arguments =>
      have both := within_append.mp within
      apply (sound.eval callee h.sound).thenHomed (ih.eval callee (reach.tail .callee) h both.1)
      intro f n runCallee hn hfl hf
      have hn' := h.settles hn
      apply (sound.evalAll arguments hn.sound).thenHomed
        (ih.evalAll arguments (reach.tail (.arguments runCallee)) hn' both.2)
      intro args o runArguments ho hal ha
      have callee : o.store.Housed src f := Housed.mono ⟨hfl, hf⟩ ho
      exact ih.call f args _ (reach.tail (.call runCallee runArguments)) (hn'.settles ho).toSettled
        callee fun v mem => ⟨hal v mem, ha v mem⟩
  | get object name =>
      apply (sound.eval object h.sound).thenHomed (ih.eval object (reach.tail .get) h within)
      intro v n _ hn hl hv
      split
      · exact homed_readProperty hn.homed _ ⟨hl, hv⟩
      · exact homed_fail hn.homed
  | set object name value =>
      have both := within_append.mp within
      apply (sound.eval object h.sound).thenHomed
        (ih.eval object (reach.tail .setObject) h both.2)
      intro target n run hn _ _
      split
      · apply (sound.eval value hn.sound).thenHomed
          (ih.eval value (reach.tail (.setValue run)) (h.settles hn) both.1)
        intro v o _ ho hl hv
        apply (keeps_setField ho.sound _ _ hl).thenHomed (homed_setField ho.homed _ _ hv)
        intro _ q _ hq _ _
        exact homed_pure hq.homed (hv.mono hq.steady)
      · exact homed_fail hn.homed
  | this keyword => exact homed_lookup h.sound h.homed keyword _
  | super keyword method => exact homed_superMethod h (within_cons.mp within).1 method

theorem homed_evalAll (ih : HomedEval src host first fuel) (es : List Expr)
    (reach : Leads host first (fuel + 1) (.evalAll es) m) (h : m.Inside src setting)
    (within : Within src.mentions (exprsMentions setting es)) :
    HomedWith True src (evalAll host (fuel + 1) es) m
      fun s vs => ∀ v ∈ vs, ValueHomed src s v := by
  have sound := soundWith host fuel
  cases es with
  | nil => exact homed_pure h.homed fun v mem => by cases mem
  | cons e rest =>
      have both := within_append.mp within
      apply (sound.eval e h.sound).thenHomed (ih.eval e (reach.tail .firstExpr) h both.1)
      intro v n run hn _ hv
      apply (sound.evalAll rest hn.sound).thenHomed
        (ih.evalAll rest (reach.tail (.otherExprs run)) (h.settles hn) both.2)
      intro vs o _ ho _ hvs
      refine homed_pure ho.homed fun w mem => ?_
      rcases List.mem_cons.mp mem with rfl | mem
      · exact hv.mono ho.steady
      · exact hvs w mem

theorem homed_call (ih : HomedEval src host first fuel) {f : Value} {args : List Value}
    (reach : Leads host first (fuel + 1) (.call f args line) m) (h : m.Settled src)
    (hf : m.store.Housed src f) (ha : ∀ v ∈ args, m.store.Housed src v) :
    HomedWith True src (call host (fuel + 1) f args line) m (ValueHomed src) := by
  have sound := soundWith host fuel
  simp only [call]
  cases takes : f.arity? with
  | none => exact homed_fail h.homed
  | some arity =>
      dsimp only
      split
      · exact homed_fail h.homed
      rename_i same
      have same := of_not_not same
      cases f with
      | function id closure =>
          cases takes
          have next := reach.tail (.function same)
          exact ih.invoke closure args line next h ⟨hf.listed, hf.homed⟩ ha
      | bound id closure =>
          cases takes
          have next := reach.tail (.bound same)
          exact ih.invoke closure args line next h ⟨hf.listed, hf.homed.1⟩ ha
      | «class» object =>
          cases takes
          have scopes : ∀ b ∈ Value.classScopes object, m.store.ScopeListed b := hf.listed
          apply (keeps_newInstance h.sound).thenHomed (homed_newInstance h.homed)
          intro id n fresh hn hid _
          have object' := hf.mono hn
          have receiver : n.store.Housed src (.instance id object) :=
            ⟨⟨hid, object'.listed⟩, object'.homed⟩
          split
          · rename_i init found
            have method := ClassHomed.method? object'.homed found
            have inScope := (scopes _ (Store.method?_scope_mem found)).mono hn.growth
            apply (keeps_bindMethod hn.sound inScope receiver.listed).thenHomed
              (homed_bindMethod hn.homed method (List.suffix_refl _) receiver.homed)
            intro closure o bound ho hcl hc
            have args' : ∀ v ∈ args, o.store.Housed src v := fun v mem =>
              ((ha v mem).mono hn).mono ho
            have listed : ∀ v ∈ args, o.store.ValueListed v := fun v mem => (args' v mem).listed
            have ho' := (h.settles hn).settles ho
            have next := reach.tail (.initializer same fresh found bound)
            apply (sound.invoke closure args line ho.sound hcl listed).discard.thenHomed
              (ih.invoke closure args line next ho' ⟨hcl, hc⟩ args').discard
            intro _ q _ hq _ _
            exact homed_pure hq.homed ((receiver.mono ho).mono hq).homed
          · exact homed_pure hn.homed receiver.homed
      | _ => exact homed_readClock h.homed host

/-! ## Parts in scopes of their own -/

theorem homed_inCall {kind : FrameKind} {scope : Address} {part : Run Signal}
    (h : HomedWith True src part
      { m with environment := scope, frame := ⟨kind, 0⟩, callDepth := m.callDepth + 1 }
      (Remains src scope setting)) :
    HomedWith True src (inCall kind scope part) m (SignalHomed src) := by
  apply ends_inCall.mpr
  apply Ends.imp h
  · intro signal n hn
    exact ⟨hn.1, hn.2.1, hn.2.2.signal⟩
  · intro _ n hn
    exact hn

theorem homed_invoke (ih : HomedEval src host first fuel) (follows : Follows host first src)
    {c : Closure} {args : List Value}
    (reach : Leads host first (fuel + 1) (.invoke c args line) m) (h : m.Settled src)
    (hc : m.store.ClosureHoused src c) (ha : ∀ v ∈ args, m.store.Housed src v) :
    HomedWith True src (invoke host (fuel + 1) c args line) m (ValueHomed src) := by
  have sound := soundWith host fuel
  rw [invoke]
  apply (keeps_checkDepth h.sound).thenHomed (homed_checkDepth h.homed)
  intro _ n depth hn _ _
  have args' : ∀ v ∈ args, n.store.Housed src v := fun v mem => (ha v mem).mono hn
  have listed := hc.listed.mono hn.growth
  obtain ⟨setting, inside, within, -⟩ := hc.homed.mono hn.steady
  rw [functionMentions_eq] at within
  have both := within_append.mp within
  apply (keeps_callScope hn.sound listed fun v mem => (args' v mem).listed).thenHomed
    (homed_callScope hn.homed follows.names inside both.1 fun v mem => (args' v mem).homed)
  intro scope o created ho hscope inScope
  have ho' := (h.settles hn).settles ho
  let inner : Machine := { o with
    environment := scope
    frame := ⟨if c.isInitializer then .initializer else .function, 0⟩
    callDepth := o.callDepth + 1 }
  have inside : inner.Inside src _ := ⟨⟨⟨ho.sound.store, hscope⟩, ho.homed, ho'.charted⟩, inScope⟩
  have body := ih.execAll c.decl.body (reach.tail (.callBody depth created)) rfl
    (fun _ : True => Nat.succ_pos _) inside both.2
  apply (keeps_inCall ho.sound _ hscope fun q hq => sound.execAll c.decl.body hq).thenHomed
    (homed_inCall body)
  intro signal q _ hq _ hs
  have listed := (listed.mono ho.growth).mono hq.growth
  cases signal with
  | normal => exact homed_callResult hq.sound hq.homed listed trivial
  | «return» value line => exact homed_callResult hq.sound hq.homed listed hs
  | «break» line => exact homed_fail hq.homed
  | «continue» line => exact homed_fail hq.homed

theorem homed_inScope (env : m.environment = a) {part : Run Signal}
    (h : m.Inside src setting) (sound : ∀ n : Machine, n.Sound → PassesWith part n SignalListed)
    (hpart : HomedWith quiet src part { m with
        store := (m.store.newScope m.environment).2
        environment := (m.store.newScope m.environment).1 }
      (Remains src (m.store.newScope m.environment).1 setting.inner)) :
    HomedWith quiet src (do inScope (← newScope m.environment) part) m
      (Remains src a setting) := by
  have inner := h.newScope
  apply ends_bind.mpr
  apply ends_inScope.mpr
  apply ((sound _ inner.sound).and hpart).imp
  · intro signal n hn
    have around := hn.1.1.ext.parent? (parent?_newScope m.store m.environment)
    refine ⟨fun q => (steady_newScope _ _).trans (hn.2.1 q), hn.2.2.1, hn.2.2.2.signal, ?_⟩
    exact env ▸ hn.2.2.2.inside.outer around
  · intro _ n hn
    exact hn.2

theorem homed_inLoop {part : Run Signal} {post : Store → Signal → Prop}
    (h : HomedWith quiet src part
      { m with frame := { m.frame with loopDepth := m.frame.loopDepth + 1 } } post) :
    HomedWith quiet src (inLoop part) m post := ends_inLoop.mpr h

theorem homed_statement {s : Stmt} (h : m.Inside src setting) (env : m.environment = a)
    (still : quiet → 0 < m.callDepth) (host : Host) {part : Run Signal}
    {post : Store → Signal → Prop}
    (hpart : ∀ n : Machine, Begins host s m n → n.environment = a → (quiet → 0 < n.callDepth) →
      n.Inside src setting → HomedWith quiet src part n post) :
    HomedWith quiet src (do start host s.line; collectIfDue host; part) m post := by
  have begins : Ends (do start host s.line; collectIfDue host) m
      (fun _ n => (quiet → m.store.Steady n.store) ∧ n.Inside src setting ∧ n.environment = a ∧
        (quiet → 0 < n.callDepth)) fun _ n => n.Homed src := by
    apply ends_bind.mpr
    apply ((keeps_start h.sound host).and (homed_start h.homed host)).imp
    · intro _ n hn
      have settles : m.Settles src n := ⟨hn.1.1, hn.2.1 trivial, hn.2.2.1⟩
      have still' : quiet → 0 < n.callDepth := fun q => settles.callDepth ▸ still q
      apply (inside_collectIfDue (h.settles settles) still' host).imp
      · intro _ o ho
        exact ⟨fun q => settles.steady.trans (ho.1 q), ho.2.1,
          ho.2.2.1.trans (settles.environment.trans env), fun q => ho.2.2.2 ▸ still' q⟩
      · exact fun _ _ impossible => impossible.elim
    · exact fun _ _ hn => hn.2
  rw [← bind_assoc]
  apply ends_bind.mpr
  apply begins.ran.imp
  · intro _ n ⟨run, steady, inside, env', still'⟩
    apply (hpart n run env' still' inside).imp
    · exact fun _ _ ho => ⟨fun q => (steady q).trans (ho.1 q), ho.2⟩
    · exact fun _ _ ho => ho
  · exact fun _ _ hn => hn

/-! ## Statements -/

theorem homed_exec (ih : HomedEval src host first fuel) (follows : Follows host first src)
    (s : Stmt) (reach : Leads host first (fuel + 1) (.exec s) m) (env : m.environment = a)
    (still : quiet → 0 < m.callDepth) (h : m.Inside src setting)
    (within : Within src.mentions (stmtMentions setting s)) :
    HomedWith quiet src (exec host (fuel + 1) s) m (Remains src a setting) := by
  have sound := soundWith host fuel
  cases s with
  | expression e =>
      apply homed_statement h env still host
      intro n begins he _ hn
      apply (sound.eval e hn.sound).discard.thenHomed
        (ih.eval e (reach.tail (.expression begins)) hn within).discard
      intro _ o _ ho _ _
      exact homed_pure ho.homed (.of_inside (hn.settles ho) (ho.environment.trans he) trivial)
  | print e =>
      apply homed_statement h env still host
      intro n begins he _ hn
      apply (sound.eval e hn.sound).thenHomed
        (ih.eval e (reach.tail (.print begins)) hn within)
      intro v o _ ho _ _
      have env' := ho.environment.trans he
      apply (keeps_print ho.sound v).thenHomed (homed_print ho.homed v)
      intro _ q _ hq _ _
      exact homed_pure hq.homed
        (.of_inside ((hn.settles ho).settles hq) (hq.environment.trans env') trivial)
  | varDecl name initializer =>
      have both := within_cons.mp within
      apply homed_statement h env still host
      intro n begins he _ hn
      cases initializer with
      | none =>
          have listed : n.store.ValueListed .nil := trivial
          apply (keeps_define hn.sound _ listed).thenHomed
            (homed_define hn.homed (follows.names both.1) trivial)
          intro _ o _ ho _ _
          exact homed_pure ho.homed (.of_inside (hn.settles ho) (ho.environment.trans he) trivial)
      | some e =>
          apply (sound.eval e hn.sound).thenHomed
            (ih.eval e (reach.tail (.varDecl begins)) hn both.2)
          intro v o _ ho hl hv
          have env' := ho.environment.trans he
          apply (keeps_define ho.sound _ hl).thenHomed
            (homed_define ho.homed (follows.names both.1) hv)
          intro _ q _ hq _ _
          exact homed_pure hq.homed
            (.of_inside ((hn.settles ho).settles hq) (hq.environment.trans env') trivial)
  | block body line =>
      apply homed_statement h env still host
      intro n begins he still' hn
      exact homed_inScope he hn (fun o ho => sound.execAll body ho)
        (ih.execAll body (reach.tail (.block begins rfl)) rfl still' hn.newScope
          within)
  | branch condition thenBranch elseBranch =>
      have all := within_append.mp within
      have both := within_append.mp all.1
      apply homed_statement h env still host
      intro n begins he still' hn
      apply (sound.eval condition hn.sound).thenHomed
        (ih.eval condition (reach.tail (.branchCondition begins)) hn both.1)
      intro v o run ho _ _
      have env' := ho.environment.trans he
      have still'' : quiet → 0 < o.callDepth := fun q => ho.callDepth ▸ still' q
      have ho' := hn.settles ho
      split
      · rename_i yes
        exact ih.exec thenBranch (reach.tail (.thenBranch begins run yes)) env' still'' ho' both.2
      · rename_i no
        cases elseBranch with
        | none => exact homed_pure ho.homed (.of_inside ho' env' trivial)
        | some other =>
            have next := reach.tail (.elseBranch begins run (Bool.eq_false_iff.mpr no))
            exact ih.exec other next env' still'' ho' all.2
  | loop condition body increment =>
      have all := within_append.mp within
      have both := within_append.mp all.1
      apply homed_statement h env still host
      intro n begins he still' hn
      apply homed_inLoop
      exact ih.execLoop condition body increment (reach.tail (.loop begins)) he still'
        ⟨⟨⟨hn.sound.store, hn.sound.environment⟩, hn.homed, hn.charted⟩, hn.inside⟩
        both.1 both.2 all.2
  | funDecl decl =>
      have both := within_cons.mp within
      apply homed_statement h env still host
      intro n begins he _ hn
      apply (keeps_declareFunction hn.sound decl).thenHomed
        (homed_declareFunction hn follows.names both.1 both.2)
      intro _ o _ ho _ _
      exact homed_pure ho.homed (.of_inside (hn.settles ho) (ho.environment.trans he) trivial)
  | classDecl decl =>
      apply homed_statement h env still host
      intro n begins he _ hn
      have declared object (declares : Run.Declares decl n object) :=
        follows.declares reach ⟨fuel, m, n, rfl, begins, declares⟩
      apply (keeps_declareClass hn.sound decl).thenHomed
        (homed_declareClass hn follows.names within declared)
      intro _ o _ ho _ _
      exact homed_pure ho.homed (.of_inside (hn.settles ho) (ho.environment.trans he) trivial)
  | «return» keyword value =>
      apply homed_statement h env still host
      intro n begins he _ hn
      apply (keeps_checkReturn hn.sound keyword value).thenHomed
        (homed_checkReturn hn.homed keyword value)
      intro _ o checked ho _ _
      have env' := ho.environment.trans he
      have ho' := hn.settles ho
      cases value with
      | none => exact homed_pure ho.homed (.of_inside ho' env' trivial)
      | some e =>
          apply (sound.eval e ho.sound).thenHomed
            (ih.eval e (reach.tail (.returned begins checked)) ho' within)
          intro v q _ hq _ hv
          exact homed_pure hq.homed (.of_inside (ho'.settles hq) (hq.environment.trans env') hv)
  | «break» keyword =>
      apply homed_statement h env still host
      intro n begins he _ hn
      exact homed_leaveLoop hn.homed _ (.of_inside hn he trivial)
  | «continue» keyword =>
      apply homed_statement h env still host
      intro n begins he _ hn
      exact homed_leaveLoop hn.homed _ (.of_inside hn he trivial)

theorem homed_execAll (ih : HomedEval src host first fuel) (ss : List Stmt)
    (reach : Leads host first (fuel + 1) (.execAll ss) m) (env : m.environment = a)
    (still : quiet → 0 < m.callDepth) (h : m.Inside src setting)
    (within : Within src.mentions (stmtsMentions setting ss)) :
    HomedWith quiet src (execAll host (fuel + 1) ss) m (Remains src a setting) := by
  have sound := soundWith host fuel
  cases ss with
  | nil => exact homed_pure h.homed (.of_inside h env trivial)
  | cons s rest =>
      have both := within_append.mp within
      apply (sound.exec s h.sound).thenHomed
        (ih.exec s (reach.tail .firstStmt) env still h both.1)
      intro signal n run hn hp _ hs
      have env' := hn.environment.trans env
      have still' : quiet → 0 < n.callDepth := fun q => hn.callDepth ▸ still q
      split
      · exact ih.execAll rest (reach.tail (.otherStmts run)) env' still'
          (h.passes hn hp env' hs.inside) both.2
      · exact homed_pure hp hs

theorem homed_execLoop (ih : HomedEval src host first fuel) (condition : Expr) (body : Stmt)
    (increment : Option Expr)
    (reach : Leads host first (fuel + 1) (.execLoop condition body increment) m)
    (env : m.environment = a) (still : quiet → 0 < m.callDepth) (h : m.Inside src setting)
    (hc : Within src.mentions (exprMentions setting condition))
    (hb : Within src.mentions (stmtMentions setting body))
    (hi : Within src.mentions (optionalMentions setting increment)) :
    HomedWith quiet src (execLoop host (fuel + 1) condition body increment) m
      (Remains src a setting) := by
  have sound := soundWith host fuel
  apply (sound.eval condition h.sound).thenHomed
    (ih.eval condition (reach.tail .loopCondition) h hc)
  intro v n run hn _ _
  have env' := hn.environment.trans env
  have still' : quiet → 0 < n.callDepth := fun q => hn.callDepth ▸ still q
  have hn' := h.settles hn
  split
  · rename_i yes
    apply (sound.exec body hn.sound).thenHomed
      (ih.exec body (reach.tail (.loopBody run yes)) env' still' hn' hb)
    intro signal o once ho hop _ hs
    have env'' := ho.environment.trans env'
    have still'' : quiet → 0 < o.callDepth := fun q => ho.callDepth ▸ still' q
    have ho' := hn'.passes ho hop env'' hs.inside
    have again (goesOn : GoesOn signal) : HomedWith quiet src
        (goRound host fuel condition body increment .normal) o (Remains src a setting) := by
      cases increment with
      | none =>
          have next := reach.tail (.again run yes once goesOn)
          exact ih.execLoop condition body none next env'' still'' ho' hc hb hi
      | some e =>
          apply (sound.eval e ho.sound).discard.thenHomed
            (ih.eval e (reach.tail (.increment run yes once goesOn)) ho' hi).discard
          intro _ q more hq _ _
          obtain ⟨_, more⟩ := ok_of_discard more
          exact ih.execLoop condition body (some e)
            (reach.tail (.incremented run yes once goesOn more)) (hq.environment.trans env'')
            (fun still => hq.callDepth ▸ still'' still) (ho'.settles hq) hc hb hi
    cases signal with
    | normal | «continue» _ => exact again trivial
    | «break» line => exact homed_pure hop ⟨trivial, hs.inside⟩
    | «return» value line => exact homed_pure hop hs
  · exact homed_pure hn.homed (.of_inside hn' env' trivial)

theorem homedEval (follows : Follows host first src) (fuel : Nat) :
    HomedEval src host first fuel := by
  induction fuel with
  | zero =>
      constructor
      · exact fun _ _ _ _ h _ => h.homed
      · exact fun _ _ _ _ h _ => h.homed
      · exact fun _ _ _ _ _ h _ _ => h.homed
      · exact fun _ _ _ _ _ h _ _ => h.homed
      · exact fun _ _ _ _ _ _ _ _ h _ => h.homed
      · exact fun _ _ _ _ _ _ _ _ h _ => h.homed
      · exact fun _ _ _ _ _ _ _ _ _ _ h _ _ _ => h.homed
  | succ fuel ih =>
      exact {
        eval := fun e _ _ => homed_eval ih follows e
        evalAll := fun es _ _ => homed_evalAll ih es
        call := fun _ _ _ _ => homed_call ih
        invoke := fun _ _ _ _ => homed_invoke ih follows
        exec := fun s _ _ _ _ => homed_exec ih follows s
        execAll := fun ss _ _ _ _ => homed_execAll ih ss
        execLoop := fun c b i _ _ _ _ => homed_execLoop ih c b i }

theorem homed_program (follows : Follows host first src) (ss : List Stmt)
    (reach : Leads host first fuel (.program ss) m) (h : m.Inside src .outside)
    (within : Within src.mentions (stmtsMentions .outside ss)) :
    HomedWith False src (program host fuel ss) m anything := by
  induction ss generalizing m with
  | nil => exact homed_pure h.homed trivial
  | cons s rest ih =>
      have both := within_append.mp within
      apply ((soundWith host fuel).exec s h.sound).thenHomed
        ((homedEval follows fuel).exec s (reach.tail .firstOfProgram) rfl False.elim h both.1)
      intro signal n run hn hp _ _
      cases signal with
      | normal =>
          exact ih (reach.tail (.restOfProgram run)) ⟨h.toSettled.passes hn hp, trivial⟩ both.2
      | «break» line => exact homed_fail hp
      | «continue» line => exact homed_fail hp
      | «return» value line => exact homed_fail hp

end ClassScript.Run
