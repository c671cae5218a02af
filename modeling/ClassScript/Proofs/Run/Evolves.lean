import ClassScript.Proofs.Grammar.Proper
import ClassScript.Proofs.Run.Operates

namespace ClassScript

open Store

def Stmt.declaredName? : Stmt → Option String
  | .varDecl name _ => some name.lexeme
  | .funDecl decl => some decl.name.lexeme
  | .classDecl decl => some decl.name.lexeme
  | _ => none

def Stmt.Confined (A : Set Address) (scope : Address) (s : Stmt) : Prop :=
  scope ∈ A ∨ s.isDeclaration = false ∧ s.Proper

variable {A : Set Address} {scope : Address}

theorem Stmt.Confined.thenBranch {condition : Expr} {s : Stmt} {other : Option Stmt}
    (h : (Stmt.branch condition s other).Confined A scope) : s.Confined A scope := by
  rcases h with mem | ⟨-, proper⟩
  · exact .inl mem
  · rw [Stmt.Proper] at proper
    exact .inr proper.1

theorem Stmt.Confined.elseBranch {condition : Expr} {s other : Stmt}
    (h : (Stmt.branch condition s (some other)).Confined A scope) : other.Confined A scope := by
  rcases h with mem | ⟨-, proper⟩
  · exact .inl mem
  · rw [Stmt.Proper, ProperBranch] at proper
    exact .inr proper.2

theorem Stmt.Confined.body {condition : Expr} {s : Stmt} {increment : Option Expr}
    (h : (Stmt.loop condition s increment).Confined A scope) : s.Confined A scope := by
  rcases h with mem | ⟨-, proper⟩
  · exact .inl mem
  · rw [Stmt.Proper] at proper
    exact .inr proper

theorem Stmt.Confined.mem {s : Stmt} {name : String} (h : s.Confined A scope)
    (declares : s.declaredName? = some name) : scope ∈ A := by
  rcases h with mem | ⟨quiet, -⟩
  · exact mem
  · cases s <;> simp [Stmt.isDeclaration, Stmt.declaredName?] at quiet declares

namespace Machine

variable {m n : Machine}

theorem Orderly.prepared (h : m.Orderly) : m.Prepared Set.univ := ⟨h, fun a _ => Set.mem_univ a⟩

theorem Orderly.passes {A : Set Address} (h : m.Orderly) (hn : m.Passes n)
    (evolves : Evolves A m.store n.store) : n.Orderly := ⟨hn.sound, evolves.ordered h.ordered⟩

end Machine

namespace Run

open Machine

variable {m n : Machine} {host : Host} {fuel line : Nat}

structure EvolvesAll (host : Host) (fuel : Nat) : Prop where
  eval : ∀ e {A m}, m.Prepared A → EvolvesWith A (eval host fuel e) m Store.Made
  evalAll : ∀ es {A m}, m.Prepared A →
    EvolvesWith A (evalAll host fuel es) m fun s vs => ∀ v ∈ vs, s.Made v
  call : ∀ f args line {A m}, m.Prepared A → m.store.Admits f → (∀ v ∈ args, m.store.Admits v) →
    EvolvesWith A (call host fuel f args line) m Store.Made
  invoke : ∀ c args line {A m}, m.Prepared A → m.store.ScopeListed c.scope →
    (∀ v ∈ args, m.store.Admits v) → EvolvesWith A (invoke host fuel c args line) m Store.Made
  exec : ∀ s {A m}, m.Prepared A → s.Confined A m.environment →
    EvolvesWith A (exec host fuel s) m Store.SignalMade
  execAll : ∀ ss {A m}, m.Prepared A → m.environment ∈ A →
    EvolvesWith A (execAll host fuel ss) m Store.SignalMade
  execLoop : ∀ condition body increment {A m}, m.Prepared A → body.Confined A m.environment →
    EvolvesWith A (execLoop host fuel condition body increment) m Store.SignalMade

theorem evolves_eval (ih : EvolvesAll host fuel) (e : Expr) (h : m.Prepared A) :
    EvolvesWith A (eval host (fuel + 1) e) m Store.Made := by
  have sound := soundWith host fuel
  cases e with
  | literal value line => exact evolves_pure (value.plain_value.made _)
  | grouping inner => exact ih.eval inner h
  | var name => exact evolves_lookup h name _
  | assign name value =>
      apply (sound.eval value h.sound).thenEvolves h (ih.eval value h)
      intro v n hn h' hl hv
      apply (keeps_assign h'.sound name hl).thenEvolves h' (evolves_assign name hv)
      exact fun _ o ho _ _ _ => evolves_pure (hv.mono ho.ext)
  | logical left operator right =>
      apply (sound.eval left h.sound).thenEvolves h (ih.eval left h)
      intro l n _ h' _ hl
      split
      · exact evolves_pure hl
      · exact ih.eval right h'
  | binary left operator right =>
      apply (sound.eval left h.sound).thenEvolves h (ih.eval left h)
      intro l n _ h' _ _
      apply (sound.eval right h'.sound).thenEvolves h' (ih.eval right h')
      intro r o _ _ _ _
      exact evolves_ofExcept fun v hv => (Operator.plain_binary hv).made _
  | unary operator operand =>
      apply (sound.eval operand h.sound).thenEvolves h (ih.eval operand h)
      intro v n _ _ _ _
      exact evolves_ofExcept fun w hw => (Operator.plain_unary hw).made _
  | call callee paren arguments =>
      apply (sound.eval callee h.sound).thenEvolves h (ih.eval callee h)
      intro f n _ h' hfl hf
      apply (sound.evalAll arguments h'.sound).thenEvolves h' (ih.evalAll arguments h')
      intro args o ho h'' hal ha
      exact ih.call f args _ h'' (Admits.mono ⟨hfl, hf⟩ ho) fun v mem => ⟨hal v mem, ha v mem⟩
  | get object name =>
      apply (sound.eval object h.sound).thenEvolves h (ih.eval object h)
      intro v n _ h' hl hv
      split
      · exact evolves_readProperty h' _ hl hv
      · exact evolves_fail
  | set object name value =>
      apply (sound.eval object h.sound).thenEvolves h (ih.eval object h)
      intro target n _ h' hl _
      split
      · apply (sound.eval value h'.sound).thenEvolves h' (ih.eval value h')
        intro v o ho h'' hl' hv
        have registered := ho.growth.instances _ hl.1
        apply (keeps_setField h''.sound _ _ hl').thenEvolves h'' (evolves_setField registered _ hv)
        exact fun _ q hq _ _ _ => evolves_pure (hv.mono hq.ext)
      · exact evolves_fail
  | this keyword => exact evolves_lookup h keyword _
  | super keyword method => exact evolves_superMethod h keyword method

theorem evolves_evalAll (ih : EvolvesAll host fuel) (es : List Expr) (h : m.Prepared A) :
    EvolvesWith A (evalAll host (fuel + 1) es) m fun s vs => ∀ v ∈ vs, s.Made v := by
  have sound := soundWith host fuel
  cases es with
  | nil => exact evolves_pure fun v mem => by cases mem
  | cons e rest =>
      apply (sound.eval e h.sound).thenEvolves h (ih.eval e h)
      intro v n _ h' _ hv
      apply (sound.evalAll rest h'.sound).thenEvolves h' (ih.evalAll rest h')
      intro vs o ho _ _ hvs
      refine evolves_pure fun w mem => ?_
      rcases List.mem_cons.mp mem with rfl | mem
      · exact hv.mono ho.ext
      · exact hvs w mem

theorem evolves_newInstance {object : ClassObject} (hf : m.store.Admits (.class object)) :
    EvolvesWith A newInstance m fun s id => s.Admits (.instance id object) := by
  have grows := grows_newInstance m.store
  have listed : m.store.newInstance.2.ValueListed (.class object) := hf.listed.mono grows
  refine ⟨.step .newInstance, ⟨newInstance_listed m.store, listed⟩, hf.made, ?_⟩
  simp only [Array.size_push, Nat.lt_succ_self]

theorem evolves_call (ih : EvolvesAll host fuel) {f : Value} {args : List Value} (h : m.Prepared A)
    (hf : m.store.Admits f) (ha : ∀ v ∈ args, m.store.Admits v) :
    EvolvesWith A (call host (fuel + 1) f args line) m Store.Made := by
  have sound := soundWith host fuel
  simp only [call]
  cases f.arity? with
  | none => exact evolves_fail
  | some arity =>
      dsimp only
      split
      · exact evolves_fail
      cases f with
      | function id closure => exact ih.invoke closure args line h hf.listed ha
      | bound id closure => exact ih.invoke closure args line h hf.listed ha
      | «class» object =>
          apply (keeps_newInstance h.sound).thenEvolves h (evolves_newInstance hf)
          intro id n hn h' _ receiver
          split
          · rename_i init found
            have scope := receiver.listed.2 _ (Store.method?_scope_mem found)
            apply (keeps_bindMethod h'.sound scope receiver.listed).thenEvolves h'
              (evolves_bindMethod h' scope receiver.made)
            intro closure o ho h'' hc _
            have args' : ∀ v ∈ args, o.store.Admits v := fun v mem => ((ha v mem).mono hn).mono ho
            have listed : ∀ v ∈ args, o.store.ValueListed v := fun v mem => (args' v mem).listed
            apply (sound.invoke closure args line h''.sound hc listed).discard.thenEvolves h''
              (ih.invoke closure args line h'' hc args').discard
            exact fun _ q hq _ _ _ => evolves_pure ((receiver.made.mono ho.ext).mono hq.ext)
          · exact evolves_pure receiver.made
      | _ => exact ⟨.refl _, trivial⟩

theorem evolves_inCall {kind : FrameKind} {scope : Address} {part : Run Signal}
    (h : EvolvesWith A part
      { m with environment := scope, frame := ⟨kind, 0⟩, callDepth := m.callDepth + 1 }
      SignalMade) : EvolvesWith A (inCall kind scope part) m SignalMade := ends_inCall.mpr h

theorem evolves_invoke (ih : EvolvesAll host fuel) {c : Closure} {args : List Value}
    (h : m.Prepared A) (hc : m.store.ScopeListed c.scope) (ha : ∀ v ∈ args, m.store.Admits v) :
    EvolvesWith A (invoke host (fuel + 1) c args line) m Store.Made := by
  have sound := soundWith host fuel
  rw [invoke]
  apply (keeps_checkDepth h.sound).thenEvolves h evolves_checkDepth
  intro _ n hn h' _ _
  have args' : ∀ v ∈ args, n.store.Admits v := fun v mem => (ha v mem).mono hn
  have listed := hc.mono hn.growth
  apply (keeps_callScope h'.sound listed fun v mem => (args' v mem).listed).thenEvolves h'
    (evolves_callScope h' listed fun v mem => (args' v mem).made)
  intro scope o _ h'' hscope fresh
  have inner : Machine.Prepared A { o with
      environment := scope
      frame := ⟨if c.isInitializer then .initializer else .function, 0⟩
      callDepth := o.callDepth + 1 } :=
    ⟨⟨⟨h''.sound.store, hscope⟩, h''.ordered⟩, h''.fresh⟩
  have body := ih.execAll c.decl.body inner (h'.fresh scope fresh.ge)
  apply (keeps_inCall h''.sound _ hscope fun q hq => sound.execAll c.decl.body hq).thenEvolves h''
    (evolves_inCall body)
  intro signal q _ h''' _ hs
  cases signal with
  | normal => exact evolves_callResult h''' trivial
  | «return» value line => exact evolves_callResult h''' hs
  | «break» line => exact evolves_fail
  | «continue» line => exact evolves_fail

theorem ends_statement (h : m.Prepared A) (host : Host) {part : Run Signal}
    {Q : Signal → Machine → Prop} {E : Halt → Machine → Prop}
    (hpart : ∀ n, m.Passes n → n.Prepared A → Evolves A m.store n.store → Ends part n Q E)
    (fails : ∀ e n, Evolves A m.store n.store → E e n) :
    Ends (do start host line; collectIfDue host; part) m Q E := by
  rw [← bind_assoc]
  apply ends_bind.mpr
  apply (evolves_begin h host).imp
  · exact fun _ n hn => hpart n hn.1 hn.2.1 hn.2.2
  · exact fails

theorem evolves_statement (h : m.Prepared A) (host : Host) {part : Run Signal}
    {made : Store → Signal → Prop}
    (hpart : ∀ n, m.Passes n → n.Prepared A → EvolvesWith A part n made) :
    EvolvesWith A (do start host line; collectIfDue host; part) m made := by
  apply ends_statement h host
  · exact fun n hn h' before => (hpart n hn h').after before
  · exact fun _ _ before => before

theorem declares_statement (h : m.Prepared A) (host : Host) {part : Run Signal} {name : String}
    (hpart : ∀ n, n.Prepared A → DeclaresWith A name part n .normal) :
    DeclaresWith A name (do start host line; collectIfDue host; part) m .normal := by
  apply ends_statement h host
  · exact fun n hn h' before => (hpart n h').after hn.environment before
  · exact fun _ _ before => before

theorem DeclaresWith.normally {part : Run Unit} {name : String} (h : DeclaresWith A name part m ()) :
    DeclaresWith A name (do part; return .normal) m Signal.normal := by
  apply ends_bind.mpr
  apply h.imp
  · exact fun _ _ hn => ⟨rfl, hn.2⟩
  · exact fun _ _ hn => hn

theorem declares_exec (eval : ∀ e {m}, m.Prepared A → EvolvesWith A (eval host fuel e) m Store.Made)
    {s : Stmt} {name : String} (declares : s.declaredName? = some name) (h : m.Prepared A) :
    DeclaresWith A name (exec host (fuel + 1) s) m .normal := by
  cases s with
  | varDecl token initializer =>
      cases declares
      apply declares_statement h host
      intro n h'
      cases initializer with
      | none =>
          have made : n.store.Made .nil := trivial
          exact (declares_define h' _ made).normally
      | some e =>
          apply ((soundWith host fuel).eval e h'.sound).thenDeclares h' (eval e h')
          intro v o _ h'' _ hv
          exact (declares_define h'' _ hv).normally
  | funDecl decl =>
      cases declares
      apply declares_statement h host
      exact fun n h' => (declares_declareFunction h' decl).normally
  | classDecl decl =>
      cases declares
      apply declares_statement h host
      exact fun n h' => (declares_declareClass h' decl).normally
  | _ => cases declares

theorem evolves_inScope (h : m.Prepared A) {part : Run Signal}
    (hpart : ∀ n, n.Prepared A → n.environment ∈ A → EvolvesWith A part n SignalMade) :
    EvolvesWith A (do inScope (← newScope m.environment) part) m SignalMade := by
  have op : Operates A m.store (m.store.newScope m.environment).2 :=
    .newScope (h.lt h.sound.environment)
  have inner : Machine.Prepared A { m with
      store := (m.store.newScope m.environment).2
      environment := (m.store.newScope m.environment).1 } :=
    ⟨⟨⟨h.sound.store.newScope h.sound.environment, newScope_listed _ _⟩, op.ordered h.ordered⟩,
      fun a le => h.fresh a (op.ext.size_le.trans le)⟩
  apply ends_bind.mpr
  apply ends_inScope.mpr
  exact (hpart _ inner (h.fresh _ le_rfl)).after (Evolves.step op)

theorem evolves_declaration (ih : EvolvesAll host fuel) {s : Stmt} {name : String}
    (declares : s.declaredName? = some name) (h : m.Prepared A)
    (confined : s.Confined A m.environment) :
    EvolvesWith A (exec host (fuel + 1) s) m SignalMade := by
  apply (declares_exec (fun e => ih.eval e) declares h).imp
  · rintro _ n ⟨rfl, last, v, before, listed, made, eq⟩
    rw [eq]
    exact ⟨before.add (.declare (confined.mem declares) listed made), trivial⟩
  · exact fun _ n hn => hn

theorem evolves_exec (ih : EvolvesAll host fuel) (s : Stmt) (h : m.Prepared A)
    (confined : s.Confined A m.environment) :
    EvolvesWith A (exec host (fuel + 1) s) m SignalMade := by
  have sound := soundWith host fuel
  cases s with
  | expression e =>
      apply evolves_statement h host
      intro n _ h'
      apply (sound.eval e h'.sound).discard.thenEvolves h' (ih.eval e h').discard
      exact fun _ _ _ _ _ _ => evolves_pure trivial
  | print e =>
      apply evolves_statement h host
      intro n _ h'
      apply (sound.eval e h'.sound).thenEvolves h' (ih.eval e h')
      exact fun _ _ _ _ _ _ => ⟨.refl _, trivial⟩
  | block body line =>
      apply evolves_statement h host
      exact fun n _ h' => evolves_inScope h' fun o h'' mem => ih.execAll body h'' mem
  | branch condition thenBranch elseBranch =>
      apply evolves_statement h host
      intro n hn h'
      apply (sound.eval condition h'.sound).thenEvolves h' (ih.eval condition h')
      intro v o ho h'' _ _
      have confined := (ho.environment.trans hn.environment).symm ▸ confined
      split
      · exact ih.exec thenBranch h'' confined.thenBranch
      · cases elseBranch with
        | none => exact evolves_pure trivial
        | some other => exact ih.exec other h'' confined.elseBranch
  | loop condition body increment =>
      apply evolves_statement h host
      intro n hn h'
      have confined : body.Confined A n.environment := hn.environment.symm ▸ confined.body
      exact ends_inLoop.mpr (ih.execLoop condition body increment
        ⟨⟨⟨h'.sound.store, h'.sound.environment⟩, h'.ordered⟩, h'.fresh⟩ confined)
  | varDecl | funDecl | classDecl => exact evolves_declaration ih rfl h confined
  | «return» keyword value =>
      apply evolves_statement h host
      intro n _ h'
      apply (keeps_checkReturn h'.sound keyword value).thenEvolves h'
        (evolves_checkReturn keyword value)
      intro _ o _ h'' _ _
      cases value with
      | none => exact evolves_pure trivial
      | some e =>
          apply (sound.eval e h''.sound).thenEvolves h'' (ih.eval e h'')
          exact fun v q _ _ _ hv => evolves_pure hv
  | «break» keyword | «continue» keyword =>
      apply evolves_statement h host
      exact fun n _ h' => evolves_leaveLoop _ trivial

theorem evolves_execAll (ih : EvolvesAll host fuel) (ss : List Stmt) (h : m.Prepared A)
    (mem : m.environment ∈ A) : EvolvesWith A (execAll host (fuel + 1) ss) m SignalMade := by
  cases ss with
  | nil => exact evolves_pure trivial
  | cons s rest =>
      apply ((soundWith host fuel).exec s h.sound).thenEvolves h (ih.exec s h (.inl mem))
      intro signal n hn h' hs
      split
      · exact ih.execAll rest h' (hn.environment ▸ mem)
      · exact evolves_pure hs

theorem evolves_execLoop (ih : EvolvesAll host fuel) (condition : Expr) (body : Stmt)
    (increment : Option Expr) (h : m.Prepared A) (confined : body.Confined A m.environment) :
    EvolvesWith A (execLoop host (fuel + 1) condition body increment) m SignalMade := by
  have sound := soundWith host fuel
  apply (sound.eval condition h.sound).thenEvolves h (ih.eval condition h)
  intro v n hn h' _ _
  have confined := hn.environment.symm ▸ confined
  split
  · apply (sound.exec body h'.sound).thenEvolves h' (ih.exec body h' confined)
    intro signal o ho h'' hs
    have confined := ho.environment.symm ▸ confined
    split
    · exact evolves_pure trivial
    · exact evolves_pure hs
    · cases increment with
      | none => exact ih.execLoop condition body none h'' confined
      | some e =>
          apply (sound.eval e h''.sound).discard.thenEvolves h'' (ih.eval e h'').discard
          intro _ q hq h''' _ _
          exact ih.execLoop condition body (some e) h''' (hq.environment.symm ▸ confined)
  · exact evolves_pure trivial

theorem evolvesAll (host : Host) (fuel : Nat) : EvolvesAll host fuel := by
  induction fuel with
  | zero => constructor <;> intros <;> exact Evolves.refl _
  | succ fuel ih =>
      exact {
        eval := fun e _ _ => evolves_eval ih e
        evalAll := fun es _ _ => evolves_evalAll ih es
        call := fun _ _ _ _ _ => evolves_call ih
        invoke := fun _ _ _ _ _ => evolves_invoke ih
        exec := fun s _ _ => evolves_exec ih s
        execAll := fun ss _ _ => evolves_execAll ih ss
        execLoop := fun c b i _ _ => evolves_execLoop ih c b i }

theorem evolves_program (host : Host) (fuel : Nat) (ss : List Stmt) (h : m.Prepared A)
    (mem : m.environment ∈ A) : EvolvesWith A (program host fuel ss) m anything := by
  induction ss generalizing m with
  | nil => exact evolves_pure trivial
  | cons s rest ih =>
      apply ((soundWith host fuel).exec s h.sound).thenEvolves h
        ((evolvesAll host fuel).exec s h (.inl mem))
      intro signal n hn h' _
      cases signal with
      | normal => exact ih h' (hn.environment ▸ mem)
      | «break» line | «continue» line | «return» value line => exact evolves_fail

theorem orderly_of_ok {α : Type} {part : Run α} {a : α} {listed made : Store → α → Prop}
    (h : m.Orderly) (run : part m = .ok a n) (keeps : KeepsWith part m listed)
    (evolves : EvolvesWith Set.univ part m made) :
    n.Orderly ∧ m.Keeps n ∧ listed n.store a ∧ made n.store a := by
  have kept := (ends_ok_iff run).mp keeps
  have evolved := (ends_ok_iff run).mp evolves
  exact ⟨h.passes kept.1.toPasses evolved.1, kept.1, kept.2, evolved.2⟩

theorem orderly_eval {e : Expr} {v : Value} (h : m.Orderly) (run : eval host fuel e m = .ok v n) :
    n.Orderly ∧ m.Keeps n ∧ n.store.Admits v := by
  obtain ⟨h', keeps, listed, made⟩ := orderly_of_ok h run ((soundWith host fuel).eval e h.sound)
    ((evolvesAll host fuel).eval e h.prepared)
  exact ⟨h', keeps, listed, made⟩

theorem orderly_evalAll {es : List Expr} {vs : List Value} (h : m.Orderly)
    (run : evalAll host fuel es m = .ok vs n) :
    n.Orderly ∧ m.Keeps n ∧ ∀ v ∈ vs, n.store.Admits v := by
  obtain ⟨h', keeps, listed, made⟩ := orderly_of_ok h run
    ((soundWith host fuel).evalAll es h.sound) ((evolvesAll host fuel).evalAll es h.prepared)
  exact ⟨h', keeps, fun v mem => ⟨listed v mem, made v mem⟩⟩

theorem orderly_exec {s : Stmt} {signal : Signal} (h : m.Orderly)
    (run : exec host fuel s m = .ok signal n) : n.Orderly := by
  have passed := (ends_ok_iff run).mp ((soundWith host fuel).exec s h.sound)
  have evolved := (ends_ok_iff run).mp
    ((evolvesAll host fuel).exec s h.prepared (.inl (Set.mem_univ _)))
  exact h.passes passed.1 evolved.1

theorem orderly_begins {s : Stmt} (h : m.Orderly) (begins : Begins host s m n) : n.Orderly :=
  ((ends_ok_iff begins).mp (evolves_begin h.prepared host)).2.1.toOrderly

end Run

end ClassScript
