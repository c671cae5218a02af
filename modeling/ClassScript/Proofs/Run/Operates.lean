import ClassScript.Proofs.Lexical.Occurrences
import ClassScript.Proofs.Store.Evolution

namespace ClassScript

open Store

structure Machine.Orderly (m : Machine) : Prop where
  sound : m.Sound
  ordered : m.store.Ordered

structure Machine.Prepared (A : Set Address) (m : Machine) : Prop extends m.Orderly where
  fresh : ∀ a, m.store.cells.size ≤ a → a ∈ A

namespace Store

structure Admits (s : Store) (v : Value) : Prop where
  listed : s.ValueListed v
  made : s.Made v

def SignalMade (s : Store) : Signal → Prop
  | .return value _ => s.Made value
  | _ => True

end Store

variable {A : Set Address} {m n : Machine} {a : Address} {value : Value}

theorem Store.Admits.mono (h : m.store.Admits value) (hn : m.Keeps n) : n.store.Admits value :=
  ⟨h.listed.mono hn.growth, h.made.mono hn.ext⟩

theorem Value.Plain.made (h : value.Plain) (s : Store) : s.Made value := by
  cases value <;> trivial

namespace Machine.Prepared

theorem passes (h : m.Prepared A) (hn : m.Passes n) (evolves : Evolves A m.store n.store) :
    n.Prepared A where
  sound := hn.sound
  ordered := evolves.ordered h.ordered
  fresh a le := h.fresh a (evolves.ext.size_le.trans le)

theorem lt (h : m.Prepared A) (listed : m.store.ScopeListed a) : a < m.store.cells.size :=
  h.sound.store.listed_lt (.inl listed)

end Machine.Prepared

namespace Run

open Machine

variable {α β : Type} {host : Host} {line : Nat} {name : String}

abbrev EvolvesWith (A : Set Address) (part : Run α) (m : Machine) (made : Store → α → Prop) : Prop :=
  Ends part m (fun a n => Evolves A m.store n.store ∧ made n.store a)
    fun _ n => Evolves A m.store n.store

abbrev DeclaresWith (A : Set Address) (name : String) (part : Run α) (m : Machine) (result : α) :
    Prop :=
  Ends part m (fun a n => a = result ∧ BindsLast A m.environment name m.store n.store)
    fun _ n => Evolves A m.store n.store

theorem EvolvesWith.discard {part : Run α} {made : Store → α → Prop}
    (h : EvolvesWith A part m made) : EvolvesWith A (discard part) m anything :=
  ends_discard.mpr (h.imp (fun _ _ hn => ⟨hn.1, trivial⟩) fun _ _ hn => hn)

theorem evolves_pure {made : Store → α → Prop} {a : α} (ha : made m.store a) :
    EvolvesWith A (pure a) m made := ⟨.refl _, ha⟩

theorem evolves_fail {made : Store → α → Prop} {fault : RuntimeFault} :
    EvolvesWith A (fail fault line : Run α) m made := Evolves.refl _

theorem evolves_ofExcept {made : Store → α → Prop} {r : Except RuntimeError α}
    (hr : ∀ a, r = .ok a → made m.store a) : EvolvesWith A (ofExcept r) m made :=
  ends_ofExcept.mpr ⟨fun a ha => ⟨.refl _, hr a ha⟩, fun _ _ => .refl _⟩

section Sequences

variable {part : Run α} {rest : α → Run β} {listed made : Store → α → Prop}
  {made' : Store → β → Prop} {b : β}

/-! A part that runs in the state `n`, seen from an earlier state `m`. -/

theorem EvolvesWith.after (h : EvolvesWith A part n made) (before : Evolves A m.store n.store) :
    Ends part n (fun a o => Evolves A m.store o.store ∧ made o.store a)
      fun _ o => Evolves A m.store o.store := by
  apply h.imp
  · exact fun _ _ ho => ⟨before.trans ho.1, ho.2⟩
  · exact fun _ _ ho => before.trans ho

theorem DeclaresWith.after {result : α} (h : DeclaresWith A name part n result)
    (same : n.environment = m.environment) (before : Evolves A m.store n.store) :
    Ends part n (fun a o => a = result ∧ BindsLast A m.environment name m.store o.store)
      fun _ o => Evolves A m.store o.store := by
  apply h.imp
  · exact fun _ _ ho => ⟨ho.1, same ▸ ho.2.after before⟩
  · exact fun _ _ ho => before.trans ho

theorem PassesWith.thenEvolves (passes : PassesWith part m listed) (h : m.Prepared A)
    (first : EvolvesWith A part m made)
    (next : ∀ a n, m.Passes n → n.Prepared A → made n.store a → EvolvesWith A (rest a) n made') :
    EvolvesWith A (part >>= rest) m made' := by
  apply ends_bind.mpr
  apply (passes.and first).imp
  · rintro a n ⟨⟨hn, -⟩, before, ha⟩
    exact (next a n hn (h.passes hn before) ha).after before
  · exact fun _ _ hn => hn.2

theorem KeepsWith.thenEvolves (keeps : KeepsWith part m listed) (h : m.Prepared A)
    (first : EvolvesWith A part m made)
    (next : ∀ a n, m.Keeps n → n.Prepared A → listed n.store a → made n.store a →
      EvolvesWith A (rest a) n made') : EvolvesWith A (part >>= rest) m made' := by
  apply ends_bind.mpr
  apply (keeps.and first).imp
  · rintro a n ⟨⟨hn, hl⟩, before, ha⟩
    exact (next a n hn (h.passes hn.toPasses before) hl ha).after before
  · exact fun _ _ hn => hn.2

theorem KeepsWith.thenDeclares (keeps : KeepsWith part m listed) (h : m.Prepared A)
    (first : EvolvesWith A part m made)
    (next : ∀ a n, m.Keeps n → n.Prepared A → listed n.store a → made n.store a →
      DeclaresWith A name (rest a) n b) : DeclaresWith A name (part >>= rest) m b := by
  apply ends_bind.mpr
  apply (keeps.and first).imp
  · rintro a n ⟨⟨hn, hl⟩, before, ha⟩
    exact (next a n hn (h.passes hn.toPasses before) hl ha).after hn.environment before
  · exact fun _ _ hn => hn.2

end Sequences

theorem evolves_lookup (h : m.Prepared A) (o : Occurrence) (name : String) :
    EvolvesWith A (lookup o name) m Store.Made := by
  unfold EvolvesWith Ends
  rw [lookup_eq]
  cases found : (m.scopeOf o).bind fun scope => (m.store.bindings scope).get? name with
  | none => exact .refl _
  | some value =>
      obtain ⟨scope, -, found⟩ := Option.bind_eq_some_iff.mp found
      exact ⟨.refl _, h.ordered.get? found⟩

theorem evolves_assign (o : Occurrence) (hv : m.store.Made value) :
    EvolvesWith A (assign o value) m anything := by
  unfold EvolvesWith Ends
  rw [assign_eq]
  cases found : (m.scopeOf o).filter fun scope =>
      (m.store.bindings scope).contains o.token.lexeme with
  | none => exact .refl _
  | some scope => exact ⟨.step (.assign (Option.filter_eq_some_iff.mp found).2 hv), trivial⟩

theorem evolves_setField {id : Address} (listed : id ∈ m.store.instances) (name : String)
    (hv : m.store.Made value) : EvolvesWith A (setField id name value) m anything :=
  ⟨.step (.setField listed hv), trivial⟩

theorem evolves_newScope (h : m.Prepared A) {parent : Address}
    (listed : m.store.ScopeListed parent) : EvolvesWith A (newScope parent) m anything :=
  ⟨.step (.newScope (h.lt listed)), trivial⟩

theorem evolves_bindMethod (h : m.Prepared A) {method : Closure}
    (listed : m.store.ScopeListed method.scope) (hv : m.store.Made value) :
    EvolvesWith A (bindMethod method value) m anything :=
  ⟨evolves_newScope_define (h.lt listed) (h.fresh _ le_rfl) hv, trivial⟩

theorem evolves_boundMethod (h : m.Prepared A) {method : Closure}
    (listed : m.store.ScopeListed method.scope) (hv : m.store.Made value) :
    EvolvesWith A (boundMethod method value) m Store.Made := by
  have bound : Evolves A m.store (m.store.bindMethod method value).2 :=
    evolves_newScope_define (h.lt listed) (h.fresh _ le_rfl) hv
  refine ⟨bound.add .newIdentity, ?_, ?_⟩
  · simp only [Store.size_define, Array.size_push, Nat.lt_succ_self]
  · simp only [Array.size_push, Nat.lt_succ_self]

theorem evolves_readProperty (h : m.Prepared A) {id : Address} {object : ClassObject}
    (name : String) (listed : m.store.ValueListed (.instance id object))
    (hv : m.store.Made (.instance id object)) :
    EvolvesWith A (readProperty id object name line) m Store.Made := by
  unfold EvolvesWith Ends readProperty Store.property?
  cases field : (m.store.fields id).get? name with
  | some value =>
      exact ⟨.refl _, (h.ordered.field id _ (Bindings.mem_entries_of_get? field)).2⟩
  | none =>
      cases found : object.method? name with
      | some method => exact evolves_boundMethod h (listed.2 _ (Store.method?_scope_mem found)) hv
      | none => exact .refl _

theorem evolves_superMethod (h : m.Prepared A) (keyword : Occurrence) (method : Token) :
    EvolvesWith A (superMethod keyword method) m Store.Made := by
  unfold superMethod EvolvesWith
  rw [ends_bind, ends_get]
  cases m.distances[keyword.id]? with
  | none => exact evolves_fail
  | some distance =>
      have read (d : Nat) (name : String) : KeepsWith
          (ofExcept (m.store.getAt m.environment d name keyword.token.line)) m Store.ValueListed :=
        keepsWith_ofExcept h.sound fun v found => h.sound.store.getAt_listed h.sound.environment found
      apply (read distance _).thenEvolves h (evolves_ofExcept fun v found => h.ordered.getAt found)
      intro superclass n hn h' hs made
      have read' : KeepsWith (ofExcept (m.store.getAt m.environment (distance - 1)
          Store.receiverName keyword.token.line)) n Store.ValueListed := by
        apply keepsWith_ofExcept h'.sound
        exact fun v found => (h.sound.store.getAt_listed h.sound.environment found).mono hn.growth
      apply read'.thenEvolves h' (evolves_ofExcept fun v found => (h.ordered.getAt found).mono hn.ext)
      intro receiver o ho h'' listed hr
      split
      · rename_i object id cls
        split
        · rename_i found eq
          have scopes : ∀ a ∈ Value.classScopes object, o.store.ScopeListed a := hs.mono ho.growth
          exact evolves_boundMethod h'' (scopes _ (Store.method?_scope_mem eq)) hr
        · exact evolves_fail
      · exact evolves_fail

theorem evolves_begin (h : m.Prepared A) (host : Host) :
    Ends (do start host line; collectIfDue host) m
      (fun _ n => m.Passes n ∧ n.Prepared A ∧ Evolves A m.store n.store)
      fun _ n => Evolves A m.store n.store := by
  have passes : PassesWith (do start host line; collectIfDue host) m anything :=
    (keeps_start h.sound host).passes.then fun _ n hn _ => passes_collectIfDue hn.sound host
  have evolves : EvolvesWith A (do start host line; collectIfDue host) m anything := by
    apply ends_bind.mpr
    apply ends_start.mpr
    split
    · exact .refl _
    · apply ends_collectIfDue.mpr
      split
      · exact ⟨.step (.collect h.sound.store h.sound.environment), trivial⟩
      · exact ⟨.refl _, trivial⟩
  apply (passes.and evolves).imp
  · exact fun _ n hn => ⟨hn.1.1, h.passes hn.1.1 hn.2.1, hn.2.1⟩
  · exact fun _ n hn => hn.2

theorem evolves_checkDepth : EvolvesWith A (checkDepth host line) m anything := by
  unfold EvolvesWith checkDepth
  cases host.maxDepth with
  | none => exact ⟨.refl _, trivial⟩
  | some limit =>
      simp only [ends_bind, ends_get]
      split
      · exact evolves_fail
      · exact ⟨.refl _, trivial⟩

theorem evolves_callScope (h : m.Prepared A) {closure : Closure} {args : List Value}
    (listed : m.store.ScopeListed closure.scope) (ha : ∀ v ∈ args, m.store.Made v) :
    EvolvesWith A (callScope closure args) m fun _ scope => scope = m.store.cells.size := by
  have ext := extends_newScope m.store closure.scope
  refine ⟨(Evolves.step (.newScope (h.lt listed))).trans ?_, rfl⟩
  apply evolves_defineAll (h.fresh _ le_rfl) (newScope_listed _ _)
  exact fun entry mem => (ha _ (List.of_mem_zip mem).2).mono ext

theorem evolves_callResult (h : m.Prepared A) {closure : Closure} (hv : m.store.Made value) :
    EvolvesWith A (callResult closure line value) m Store.Made := by
  unfold EvolvesWith callResult
  split
  · rw [ends_bind, ends_get]
    exact evolves_ofExcept fun v found => h.ordered.getAt found
  · exact evolves_pure hv

theorem evolves_checkReturn (keyword : Token) (value : Option Expr) :
    EvolvesWith A (checkReturn keyword value) m anything := by
  unfold EvolvesWith checkReturn
  rw [ends_bind, ends_get]
  cases m.frame.kind with
  | script => exact evolves_fail
  | function => exact ⟨.refl _, trivial⟩
  | initializer =>
      dsimp only
      split
      · exact evolves_fail
      · exact ⟨.refl _, trivial⟩

theorem evolves_leaveLoop (exit : LoopExit) {signal : Signal}
    (hs : m.store.SignalMade signal) :
    EvolvesWith A (leaveLoop exit line signal) m Store.SignalMade := by
  unfold EvolvesWith leaveLoop
  rw [ends_bind, ends_get]
  split
  · exact evolves_fail
  · exact evolves_pure hs

theorem declares_define (h : m.Prepared A) (name : String) (hv : m.store.Made value) :
    DeclaresWith A name (define name value) m () :=
  ⟨rfl, m.store, value, .refl _, h.sound.environment, hv, rfl⟩

theorem declares_declareFunction (h : m.Prepared A) (decl : FunctionDecl Stmt) :
    DeclaresWith A decl.name.lexeme (declareFunction decl) m () := by
  have listed := h.sound.environment
  have made : m.store.newIdentity.2.Made (m.store.newFunction decl m.environment).1 := by
    refine ⟨h.lt listed, ?_⟩
    simp only [Store.newIdentity, Array.size_push, Nat.lt_succ_self]
  exact ⟨rfl, _, _, .step .newIdentity, listed.mono (grows_newIdentity m.store), made, rfl⟩

theorem evolves_superclassOf (h : m.Prepared A) (decl : ClassDecl Stmt) :
    EvolvesWith A (superclassOf decl) m
      fun s superclass => ∀ object ∈ superclass, s.Made (.class object) := by
  unfold superclassOf
  cases decl.superclass with
  | none => exact evolves_pure fun _ mem => by cases mem
  | some parent =>
      dsimp only
      split
      · exact evolves_fail
      · apply (keeps_lookup h.sound parent _).thenEvolves h (evolves_lookup h parent _)
        intro value n hn h' _ hv
        split
        · refine evolves_pure fun object mem => ?_
          cases mem
          exact hv
        · exact evolves_fail

theorem evolves_methodScope (h : m.Prepared A) {superclass : Option ClassObject}
    (hs : ∀ object ∈ superclass, m.store.Made (.class object)) :
    EvolvesWith A (methodScope superclass) m anything := by
  unfold methodScope EvolvesWith
  rw [ends_bind, ends_get]
  cases superclass with
  | none => exact evolves_pure trivial
  | some object =>
      have lt := h.lt h.sound.environment
      exact ⟨evolves_newScope_define lt (h.fresh _ le_rfl) (hs object rfl), trivial⟩

theorem declares_declareClass (h : m.Prepared A) (decl : ClassDecl Stmt) :
    DeclaresWith A decl.name.lexeme (declareClass decl) m () := by
  apply (keeps_superclassOf h.sound decl).thenDeclares h (evolves_superclassOf h decl)
  intro superclass n hn h' listed made
  apply (keeps_methodScope h'.sound listed).thenDeclares h' (evolves_methodScope h' made)
  intro scope o ho h'' hscope _
  have made := made_newClass decl.name.lexeme decl.methods (h''.lt hscope)
    fun object mem => (made object mem).mono ho.ext
  exact ⟨rfl, _, _, .step .newIdentity, h''.sound.environment.mono (grows_newIdentity o.store),
    made, rfl⟩

end Run

end ClassScript
