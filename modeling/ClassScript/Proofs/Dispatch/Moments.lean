import ClassScript.Proofs.Dispatch.Run

namespace ClassScript.Run

open Binding Store

variable {src : Sources} {setting : Setting} {m n o : Machine} {host : Host} {fuel line : Nat}
  {first p q : Moment}

def AtHome (src : Sources) : Task → Machine → Prop
  | .eval e, m => ∃ setting, m.Inside src setting ∧ Within src.mentions (exprMentions setting e)
  | .evalAll es, m => ∃ setting, m.Inside src setting ∧
      Within src.mentions (exprsMentions setting es)
  | .call f args _, m => m.Settled src ∧ m.store.Housed src f ∧ ∀ v ∈ args, m.store.Housed src v
  | .invoke c args _, m => m.Settled src ∧ m.store.ClosureHoused src c ∧
      ∀ v ∈ args, m.store.Housed src v
  | .exec s, m => ∃ setting, m.Inside src setting ∧ Within src.mentions (stmtMentions setting s)
  | .execAll ss, m => ∃ setting, m.Inside src setting ∧
      Within src.mentions (stmtsMentions setting ss)
  | .execLoop condition body increment, m => ∃ setting, m.Inside src setting ∧
      Within src.mentions (exprMentions setting condition) ∧
      Within src.mentions (stmtMentions setting body) ∧
      Within src.mentions (optionalMentions setting increment)
  | .program ss, m => m.Inside src .outside ∧ Within src.mentions (stmtsMentions .outside ss)
  | .lookup o name, m => ¬ Reserved name ∨
      name = receiverName ∧ ∃ setting, m.Inside src setting ∧ (setting, .this o) ∈ src.mentions
  | .assign o _, _ => ¬ Reserved o.token.lexeme
  | .superMethod keyword _, m => ∃ setting, m.Inside src setting ∧
      (setting, .super keyword) ∈ src.mentions

theorem inside_eval (follows : Follows host first src) {e : Expr} {v : Value}
    (reach : Leads host first fuel (.eval e) m) (h : m.Inside src setting)
    (within : Within src.mentions (exprMentions setting e)) (run : eval host fuel e m = .ok v n) :
    n.Inside src setting ∧ m.Settles src n ∧ n.store.Housed src v := by
  obtain ⟨settles, listed, homed⟩ := settles_of_ok run ((soundWith host fuel).eval e h.sound)
    ((homedEval follows fuel).eval e reach h within)
  exact ⟨h.settles settles, settles, listed, homed⟩

theorem inside_evalAll (follows : Follows host first src) {es : List Expr} {vs : List Value}
    (reach : Leads host first fuel (.evalAll es) m) (h : m.Inside src setting)
    (within : Within src.mentions (exprsMentions setting es))
    (run : evalAll host fuel es m = .ok vs n) :
    n.Inside src setting ∧ m.Settles src n ∧ ∀ v ∈ vs, n.store.Housed src v := by
  obtain ⟨settles, listed, homed⟩ := settles_of_ok run ((soundWith host fuel).evalAll es h.sound)
    ((homedEval follows fuel).evalAll es reach h within)
  exact ⟨h.settles settles, settles, fun v mem => ⟨listed v mem, homed v mem⟩⟩

theorem inside_exec (follows : Follows host first src) {s : Stmt} {signal : Signal}
    (reach : Leads host first fuel (.exec s) m) (h : m.Inside src setting)
    (within : Within src.mentions (stmtMentions setting s))
    (run : exec host fuel s m = .ok signal n) : n.Inside src setting := by
  have passed := (ends_ok_iff run).mp ((soundWith host fuel).exec s h.sound)
  have homed := (ends_ok_iff run).mp
    ((homedEval follows fuel).exec s reach rfl False.elim h within)
  exact h.passes passed.1 homed.2.1 passed.1.environment homed.2.2.inside

theorem inside_begins {s : Stmt} (h : m.Inside src setting) (begins : Begins host s m n) :
    n.Inside src setting := by
  have ends : Ends (do start host s.line; collectIfDue host) m
      (fun _ n => n.Inside src setting) fun _ _ => True := by
    apply ends_bind.mpr
    apply ((keeps_start h.sound host).and (homed_start h.homed host)).imp
    · intro _ o ho
      have settles : m.Settles src o := ⟨ho.1.1, ho.2.1 trivial, ho.2.2.1⟩
      apply (inside_collectIfDue (h.settles settles) False.elim host).imp
      · exact fun _ _ hq => hq.2.1
      · exact fun _ _ _ => trivial
    · exact fun _ _ _ => trivial
  exact (ends_ok_iff begins).mp ends

theorem atHome_initializer {object : ClassObject} {init closure : Closure} {args : List Value}
    {id : Address} (created : newInstance m = .ok id n)
    (found : object.method? ClassObject.initializerName = some init)
    (bound : bindMethod init (.instance id object) n = .ok closure o)
    (h : AtHome src (.call (.class object) args line) m) :
    AtHome src (.invoke closure args line) o := by
  obtain ⟨settled, housed, args⟩ := h
  obtain ⟨settles, listed, -⟩ := settles_of_ok created (keeps_newInstance settled.sound)
    (homed_newInstance settled.homed)
  have housed := housed.mono settles
  have receiver : Housed src n.store (.instance id object) :=
    ⟨⟨listed, housed.listed⟩, housed.homed⟩
  have inScope := housed.listed _ (method?_scope_mem found)
  have method := ClassHomed.method? housed.homed found
  obtain ⟨settles', closure⟩ := settles_of_ok bound
    (keeps_bindMethod settles.sound inScope receiver.listed)
    (homed_bindMethod settles.homed method (List.suffix_refl _) receiver.homed)
  exact ⟨(settled.settles settles).settles settles', ⟨closure.1, closure.2⟩,
    fun v mem => ((args v mem).mono settles).mono settles'⟩

theorem settles_callScope (names : src.mentions ⊆ ordinary) {closure : Closure} {args : List Value}
    {scope : Address} (depth : checkDepth host line m = .ok () n)
    (created : callScope closure args n = .ok scope o)
    (h : AtHome src (.invoke closure args line) m) :
    m.store.Steady o.store ∧ o.Settled src ∧ o.store.ScopeListed scope ∧ ∃ setting,
      o.store.InSetting src scope setting ∧
        Within src.mentions (stmtsMentions setting closure.decl.body) := by
  obtain ⟨settled, closure, args⟩ := h
  obtain ⟨settles, -⟩ := settles_of_ok depth (keeps_checkDepth settled.sound)
    (homed_checkDepth settled.homed)
  have args : ∀ v ∈ _, Housed src n.store v := fun v mem => (args v mem).mono settles
  obtain ⟨setting, inside, within, -⟩ := closure.homed.mono settles.steady
  rw [functionMentions_eq] at within
  have both := within_append.mp within
  obtain ⟨settles', listed, inScope⟩ := settles_of_ok created
    (keeps_callScope settles.sound (closure.listed.mono settles.growth)
      fun v mem => (args v mem).listed)
    (homed_callScope settles.homed names inside both.1 fun v mem => (args v mem).homed)
  exact ⟨settles.steady.trans settles'.steady, (settled.settles settles).settles settles', listed,
    _, inScope, both.2⟩

theorem atHome_callBody (names : src.mentions ⊆ ordinary) {closure : Closure} {args : List Value}
    {scope : Address} {frame : Frame} (depth : checkDepth host line m = .ok () n)
    (created : callScope closure args n = .ok scope o)
    (h : AtHome src (.invoke closure args line) m) :
    AtHome src (.execAll closure.decl.body)
      { o with environment := scope, frame, callDepth := o.callDepth + 1 } := by
  obtain ⟨-, settled, listed, setting, inScope, within⟩ := settles_callScope names depth created h
  exact ⟨setting, ⟨⟨⟨settled.sound.store, listed⟩, settled.homed, settled.charted⟩, inScope⟩,
    within⟩

theorem atHome_superclass (names : src.mentions ⊆ ordinary) {decl : ClassDecl Stmt}
    {parent : Occurrence} (named : decl.superclass = some parent)
    (within : Within src.mentions (stmtMentions setting (.classDecl decl))) :
    ¬ Reserved parent.token.lexeme := by
  rw [stmtMentions, classMentions_eq, named] at within
  exact not_reserved (names (within_cons.mp (within_cons.mp within).2).1)

theorem atHome_of_enters (follows : Follows host first src)
    (reach : Relation.ReflTransGen (Enters host) first p) (enters : Enters host p q)
    (h : AtHome src p.task p.machine) : AtHome src q.task q.machine := by
  cases enters with
  | grouping | unary | get => exact h
  | var =>
      obtain ⟨setting, inside, within⟩ := h
      exact .inl (not_reserved (follows.names (within_cons.mp within).1))
  | assign _ =>
      obtain ⟨setting, inside, within⟩ := h
      exact not_reserved (follows.names (within_cons.mp within).1)
  | this =>
      obtain ⟨setting, inside, within⟩ := h
      exact .inr ⟨rfl, setting, inside, (within_cons.mp within).1⟩
  | superclass _ named _ =>
      obtain ⟨setting, inside, within⟩ := h
      exact .inl (atHome_superclass follows.names named within)
  | assigned =>
      obtain ⟨setting, inside, within⟩ := h
      exact ⟨setting, inside, (within_cons.mp within).2⟩
  | logicalLeft | binaryLeft | callee =>
      obtain ⟨setting, inside, within⟩ := h
      exact ⟨setting, inside, (within_append.mp within).1⟩
  | logicalRight left _ =>
      obtain ⟨setting, inside, within⟩ := h
      have both := within_append.mp within
      exact ⟨setting, (inside_eval follows (reach.tail .logicalLeft) inside both.1 left).1, both.2⟩
  | binaryRight left =>
      obtain ⟨setting, inside, within⟩ := h
      have both := within_append.mp within
      exact ⟨setting, (inside_eval follows (reach.tail .binaryLeft) inside both.1 left).1, both.2⟩
  | arguments callee =>
      obtain ⟨setting, inside, within⟩ := h
      have both := within_append.mp within
      exact ⟨setting, (inside_eval follows (reach.tail .callee) inside both.1 callee).1, both.2⟩
  | call callee arguments =>
      obtain ⟨setting, inside, within⟩ := h
      have both := within_append.mp within
      have first := inside_eval follows (reach.tail .callee) inside both.1 callee
      have others :=
        inside_evalAll follows (reach.tail (.arguments callee)) first.1 both.2 arguments
      exact ⟨others.1.toSettled, first.2.2.mono others.2.1, others.2.2⟩
  | setObject =>
      obtain ⟨setting, inside, within⟩ := h
      exact ⟨setting, inside, (within_append.mp within).2⟩
  | setValue object =>
      obtain ⟨setting, inside, within⟩ := h
      have both := within_append.mp within
      exact ⟨setting, (inside_eval follows (reach.tail .setObject) inside both.2 object).1, both.1⟩
  | super =>
      obtain ⟨setting, inside, within⟩ := h
      exact ⟨setting, inside, (within_cons.mp within).1⟩
  | firstExpr =>
      obtain ⟨setting, inside, within⟩ := h
      exact ⟨setting, inside, (within_append.mp within).1⟩
  | otherExprs first =>
      obtain ⟨setting, inside, within⟩ := h
      have both := within_append.mp within
      exact ⟨setting, (inside_eval follows (reach.tail .firstExpr) inside both.1 first).1, both.2⟩
  | function _ =>
      obtain ⟨settled, housed, args⟩ := h
      exact ⟨settled, ⟨housed.listed, housed.homed⟩, args⟩
  | bound _ =>
      obtain ⟨settled, housed, args⟩ := h
      exact ⟨settled, ⟨housed.listed, housed.homed.1⟩, args⟩
  | «initializer» _ created found bound => exact atHome_initializer created found bound h
  | callBody depth created => exact atHome_callBody follows.names depth created h
  | expression begins | print begins =>
      obtain ⟨setting, inside, within⟩ := h
      exact ⟨setting, inside_begins inside begins, within⟩
  | varDecl begins =>
      obtain ⟨setting, inside, within⟩ := h
      exact ⟨setting, inside_begins inside begins, (within_cons.mp within).2⟩
  | block begins created =>
      obtain ⟨setting, inside, within⟩ := h
      cases created
      exact ⟨setting.inner, (inside_begins inside begins).newScope, within⟩
  | branchCondition begins =>
      obtain ⟨setting, inside, within⟩ := h
      have both := within_append.mp (within_append.mp within).1
      exact ⟨setting, inside_begins inside begins, both.1⟩
  | thenBranch begins run _ =>
      obtain ⟨setting, inside, within⟩ := h
      have both := within_append.mp (within_append.mp within).1
      have condition := reach.tail (.branchCondition begins)
      have inside := inside_begins inside begins
      exact ⟨setting, (inside_eval follows condition inside both.1 run).1, both.2⟩
  | elseBranch begins run _ =>
      obtain ⟨setting, inside, within⟩ := h
      have all := within_append.mp within
      have condition := reach.tail (.branchCondition begins)
      have inside := inside_begins inside begins
      have both := within_append.mp all.1
      exact ⟨setting, (inside_eval follows condition inside both.1 run).1, all.2⟩
  | loop begins =>
      obtain ⟨setting, inside, within⟩ := h
      have all := within_append.mp within
      have both := within_append.mp all.1
      have inner := inside_begins inside begins
      exact ⟨setting, ⟨⟨⟨inner.sound.store, inner.sound.environment⟩, inner.homed, inner.charted⟩,
        inner.inside⟩, both.1, both.2, all.2⟩
  | returned begins checked =>
      obtain ⟨setting, inside, within⟩ := h
      have inner := inside_begins inside begins
      have settles := settles_of_ok checked (keeps_checkReturn inner.sound _ _)
        (homed_checkReturn inner.homed _ _)
      exact ⟨setting, inner.settles settles.1, within⟩
  | firstStmt =>
      obtain ⟨setting, inside, within⟩ := h
      exact ⟨setting, inside, (within_append.mp within).1⟩
  | otherStmts first =>
      obtain ⟨setting, inside, within⟩ := h
      have both := within_append.mp within
      exact ⟨setting, inside_exec follows (reach.tail .firstStmt) inside both.1 first, both.2⟩
  | loopCondition =>
      obtain ⟨setting, inside, condition, -, -⟩ := h
      exact ⟨setting, inside, condition⟩
  | loopBody run _ =>
      obtain ⟨setting, inside, condition, body, -⟩ := h
      have next := inside_eval follows (reach.tail .loopCondition) inside condition run
      exact ⟨setting, next.1, body⟩
  | increment run yes once _ =>
      obtain ⟨setting, inside, condition, body, increment⟩ := h
      have next := inside_eval follows (reach.tail .loopCondition) inside condition run
      have round := inside_exec follows (reach.tail (.loopBody run yes)) next.1 body once
      exact ⟨setting, round, increment⟩
  | again run yes once _ =>
      obtain ⟨setting, inside, condition, body, increment⟩ := h
      have next := inside_eval follows (reach.tail .loopCondition) inside condition run
      have round := inside_exec follows (reach.tail (.loopBody run yes)) next.1 body once
      exact ⟨setting, round, condition, body, increment⟩
  | incremented run yes once goesOn more =>
      obtain ⟨setting, inside, condition, body, increment⟩ := h
      have next := inside_eval follows (reach.tail .loopCondition) inside condition run
      have round := inside_exec follows (reach.tail (.loopBody run yes)) next.1 body once
      have last := inside_eval follows (reach.tail (.increment run yes once goesOn)) round increment
        more
      exact ⟨setting, last.1, condition, body, increment⟩
  | firstOfProgram =>
      obtain ⟨inside, within⟩ := h
      exact ⟨.outside, inside, (within_append.mp within).1⟩
  | restOfProgram first =>
      obtain ⟨inside, within⟩ := h
      have both := within_append.mp within
      exact ⟨inside_exec follows (reach.tail .firstOfProgram) inside both.1 first, both.2⟩

theorem atHome_of_moments (follows : Follows host first src)
    (run : Relation.ReflTransGen (Enters host) first p)
    (h : AtHome src first.task first.machine) : AtHome src p.task p.machine := by
  induction run with
  | refl => exact h
  | tail before enters ih => exact atHome_of_enters follows before enters ih

end ClassScript.Run
