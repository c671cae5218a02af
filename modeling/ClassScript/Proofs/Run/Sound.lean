import ClassScript.Proofs.Run.Ends
import ClassScript.Proofs.Store.Marking
import ClassScript.Session

namespace ClassScript

structure Machine.Sound (m : Machine) : Prop where
  store : m.store.Sound
  environment : m.store.ScopeListed m.environment

/-- The state `n` comes from `m` by a part of a run that may have collected. -/
structure Machine.Passes (m n : Machine) : Prop where
  environment : n.environment = m.environment
  frame : n.frame = m.frame
  callDepth : n.callDepth = m.callDepth
  distances : n.distances = m.distances
  ext : m.store.Extends n.store
  sound : n.Sound
  grows : 0 < m.callDepth → m.store.Grows n.store

/-- The state `n` comes from `m` by a part of a run that did not collect. -/
structure Machine.Keeps (m n : Machine) : Prop extends m.Passes n where
  growth : m.store.Grows n.store

def Store.SignalListed (s : Store) : Signal → Prop
  | .return value _ => s.ValueListed value
  | _ => True

def Value.Plain : Value → Prop
  | .nil | .bool _ | .number _ | .string _ => True
  | _ => False

theorem Value.Plain.listed {v : Value} (h : v.Plain) (s : Store) : s.ValueListed v := by
  cases v <;> trivial

theorem Literal.plain_value (l : Literal) : l.value.Plain := by
  cases l <;> trivial

namespace Operator

variable {operator : Token} {left right value : Value}

theorem plain_unary (h : unary operator left = .ok value) : value.Plain := by
  unfold unary at h
  split at h
  · split at h <;> cases h
    trivial
  · cases h
    trivial
  · cases h

theorem plain_add (h : add operator left right = .ok value) : value.Plain := by
  unfold add at h
  split at h <;> cases h <;> trivial

theorem plain_numeric {apply : Float → Float → Value} (plain : ∀ x y, (apply x y).Plain)
    (h : numeric operator left right apply = .ok value) : value.Plain := by
  unfold numeric at h
  split at h <;> cases h
  exact plain _ _

theorem plain_binary (h : binary operator left right = .ok value) : value.Plain := by
  unfold binary at h
  split at h
  · exact plain_add h
  case h_9 | h_10 =>
      cases h
      trivial
  case h_11 => cases h
  all_goals exact plain_numeric (by exact fun _ _ => trivial) h

end Operator

namespace Machine

variable {m n o : Machine}

theorem Sound.keeps_self (h : m.Sound) : m.Keeps m where
  environment := rfl
  frame := rfl
  callDepth := rfl
  distances := rfl
  ext := .refl _
  sound := h
  grows _ := .refl _
  growth := .refl _

theorem Passes.trans (hmn : m.Passes n) (hno : n.Passes o) : m.Passes o where
  environment := hno.environment.trans hmn.environment
  frame := hno.frame.trans hmn.frame
  callDepth := hno.callDepth.trans hmn.callDepth
  distances := hno.distances.trans hmn.distances
  ext := hmn.ext.trans hno.ext
  sound := hno.sound
  grows h := (hmn.grows h).trans (hno.grows (hmn.callDepth ▸ h))

theorem Keeps.trans (hmn : m.Keeps n) (hno : n.Keeps o) : m.Keeps o where
  toPasses := hmn.toPasses.trans hno.toPasses
  growth := hmn.growth.trans hno.growth

theorem Sound.keeps_store (h : m.Sound) {s : Store} (grows : m.store.Grows s) (sound : s.Sound) :
    m.Keeps { m with store := s } where
  environment := rfl
  frame := rfl
  callDepth := rfl
  distances := rfl
  ext := grows.ext
  sound := ⟨sound, h.environment.mono grows⟩
  grows _ := grows
  growth := grows

end Machine

namespace Run

open Machine

variable {m n : Machine} {host : Host} {fuel line : Nat} {value : Value}

abbrev KeepsWith {α : Type} (part : Run α) (m : Machine) (listed : Store → α → Prop) : Prop :=
  Ends part m (fun a n => m.Keeps n ∧ listed n.store a) fun _ n => m.Keeps n

abbrev PassesWith {α : Type} (part : Run α) (m : Machine) (listed : Store → α → Prop) : Prop :=
  Ends part m (fun a n => m.Passes n ∧ listed n.store a) fun _ n => m.Passes n

theorem KeepsWith.passes {α : Type} {part : Run α} {listed : Store → α → Prop}
    (h : KeepsWith part m listed) : PassesWith part m listed :=
  h.imp (fun _ _ h => ⟨h.1.toPasses, h.2⟩) fun _ _ h => h.toPasses

theorem KeepsWith.then {α β : Type} {part : Run α} {rest : α → Run β}
    {listed : Store → α → Prop} {listed' : Store → β → Prop} (h : KeepsWith part m listed)
    (next : ∀ a n, m.Keeps n → listed n.store a → KeepsWith (rest a) n listed') :
    KeepsWith (part >>= rest) m listed' := by
  refine ends_bind.mpr (h.imp (fun a n hn => ?_) fun _ _ hn => hn)
  exact (next a n hn.1 hn.2).imp (fun _ _ ho => ⟨hn.1.trans ho.1, ho.2⟩) fun _ _ ho => hn.1.trans ho

theorem PassesWith.then {α β : Type} {part : Run α} {rest : α → Run β}
    {listed : Store → α → Prop} {listed' : Store → β → Prop} (h : PassesWith part m listed)
    (next : ∀ a n, m.Passes n → listed n.store a → PassesWith (rest a) n listed') :
    PassesWith (part >>= rest) m listed' := by
  refine ends_bind.mpr (h.imp (fun a n hn => ?_) fun _ _ hn => hn)
  exact (next a n hn.1 hn.2).imp (fun _ _ ho => ⟨hn.1.trans ho.1, ho.2⟩) fun _ _ ho => hn.1.trans ho

theorem KeepsWith.discard {α : Type} {part : Run α} {listed : Store → α → Prop}
    (h : KeepsWith part m listed) : KeepsWith (discard part) m fun _ _ => True :=
  ends_discard.mpr (h.imp (fun _ _ hn => ⟨hn.1, trivial⟩) fun _ _ hn => hn)

theorem keepsWith_pure {α : Type} {listed : Store → α → Prop} {a : α} (h : m.Sound)
    (ha : listed m.store a) : KeepsWith (pure a) m listed := ⟨h.keeps_self, ha⟩

theorem keepsWith_fail {α : Type} {listed : Store → α → Prop} {fault : RuntimeFault} (h : m.Sound) :
    KeepsWith (fail fault line : Run α) m listed := h.keeps_self

theorem keepsWith_ofExcept {α : Type} {listed : Store → α → Prop} {r : Except RuntimeError α}
    (h : m.Sound) (hr : ∀ a, r = .ok a → listed m.store a) : KeepsWith (ofExcept r) m listed :=
  ends_ofExcept.mpr ⟨fun a ha => ⟨h.keeps_self, hr a ha⟩, fun _ _ => h.keeps_self⟩

abbrev anything {α : Type} : Store → α → Prop := fun _ _ => True

/-! ## Single steps -/

theorem keeps_lookup (h : m.Sound) (o : Occurrence) (name : String) :
    KeepsWith (lookup o name) m Store.ValueListed := by
  unfold KeepsWith Ends lookup
  cases hd : m.distances[o.id]? with
  | none =>
      dsimp only
      cases found : m.store.get Store.globals name o.token.line with
      | ok value => exact ⟨h.keeps_self, h.store.get_listed (Store.scopeListed_globals _) found⟩
      | error e => exact h.keeps_self
  | some distance =>
      dsimp only
      cases found : m.store.getAt m.environment distance name o.token.line with
      | ok value => exact ⟨h.keeps_self, h.store.getAt_listed h.environment found⟩
      | error e => exact h.keeps_self

theorem keeps_defineIn (h : m.Sound) (scope : Address) (name : String)
    (hv : m.store.ValueListed value) : KeepsWith (defineIn scope name value) m anything :=
  ⟨h.keeps_store (Store.grows_define _ _ _ _) (h.store.define hv), trivial⟩

theorem keeps_define (h : m.Sound) (name : String) (hv : m.store.ValueListed value) :
    KeepsWith (define name value) m anything :=
  ⟨h.keeps_store (Store.grows_define _ _ _ _) (h.store.define hv), trivial⟩

theorem keeps_assign (h : m.Sound) (o : Occurrence) (hv : m.store.ValueListed value) :
    KeepsWith (assign o value) m anything := by
  have stored (holder : Address) : m.Keeps
      { m with store := m.store.define holder o.token.lexeme value } :=
    h.keeps_store (Store.grows_define _ _ _ _) (h.store.define hv)
  unfold KeepsWith Ends assign
  cases hd : m.distances[o.id]? with
  | none =>
      dsimp only
      cases found : m.store.target Store.globals o.token.lexeme o.token.line with
      | ok holder => exact ⟨stored holder, trivial⟩
      | error e => exact h.keeps_self
  | some distance =>
      dsimp only
      cases found : m.store.targetAt m.environment distance o.token.lexeme o.token.line with
      | ok holder => exact ⟨stored holder, trivial⟩
      | error e => exact h.keeps_self

theorem keeps_newScope (h : m.Sound) {parent : Address} (hp : m.store.ScopeListed parent) :
    KeepsWith (newScope parent) m Store.ScopeListed :=
  ⟨h.keeps_store (Store.grows_newScope _ _) (h.store.newScope hp), Store.newScope_listed _ _⟩

theorem keeps_newInstance (h : m.Sound) :
    KeepsWith newInstance m fun s id => id ∈ s.instances :=
  ⟨h.keeps_store (Store.grows_newInstance _) h.store.newInstance, Store.newInstance_listed _⟩

theorem keeps_newFunction (h : m.Sound) (decl : FunctionDecl Stmt) {scope : Address}
    (hs : m.store.ScopeListed scope) : KeepsWith (newFunction decl scope) m Store.ValueListed :=
  ⟨h.keeps_store (Store.grows_newIdentity _) h.store.newIdentity, hs⟩

theorem keeps_newClass (h : m.Sound) (name : String) {superclass : Option ClassObject}
    {methods : List (String × Closure)} (hm : ∀ c ∈ methods, m.store.ScopeListed c.2.scope)
    (hs : ∀ object ∈ superclass, m.store.ValueListed (.class object)) :
    KeepsWith (newClass name superclass methods) m Store.ValueListed :=
  ⟨h.keeps_store (Store.grows_newIdentity _) h.store.newIdentity, Store.newClass_listed _ hm hs⟩

theorem keeps_bindMethod (h : m.Sound) {method : Closure} {receiver : Value}
    (hm : m.store.ScopeListed method.scope) (hr : m.store.ValueListed receiver) :
    KeepsWith (bindMethod method receiver) m fun s c => s.ScopeListed c.scope :=
  ⟨h.keeps_store (Store.grows_bindMethod _ _ _) (h.store.bindMethod hm hr),
    Store.bindMethod_listed _ _ _⟩

theorem keeps_boundMethod (h : m.Sound) {method : Closure} {receiver : Value}
    (hm : m.store.ScopeListed method.scope) (hr : m.store.ValueListed receiver) :
    KeepsWith (boundMethod method receiver) m Store.ValueListed :=
  ⟨h.keeps_store (Store.grows_boundMethod _ _ _) (h.store.boundMethod hm hr),
    Store.boundMethod_listed _ _ _⟩

theorem keeps_readProperty (h : m.Sound) {id : Address} {object : ClassObject} (name : String)
    (hv : m.store.ValueListed (.instance id object)) :
    KeepsWith (readProperty id object name line) m Store.ValueListed := by
  unfold KeepsWith Ends readProperty Store.property?
  cases field : (m.store.fields id).get? name with
  | some value =>
      exact ⟨h.keeps_store (.refl _) h.store, h.store.field_get?_listed hv.1 field⟩
  | none =>
      cases found : object.method? name with
      | some method =>
          exact keeps_boundMethod h (hv.2 _ (Store.method?_scope_mem found)) hv
      | none => exact h.keeps_self

theorem keeps_setField (h : m.Sound) (id : Address) (name : String)
    (hv : m.store.ValueListed value) : KeepsWith (setField id name value) m anything :=
  ⟨h.keeps_store (Store.grows_setField _ _ _ _) (h.store.setField hv), trivial⟩

theorem keeps_superMethod (h : m.Sound) (keyword : Occurrence) (method : Token) :
    KeepsWith (superMethod keyword method) m Store.ValueListed := by
  have listed (n : Nat) (name : String) (v : Value)
      (hv : m.store.getAt m.environment n name keyword.token.line = .ok v) :
      m.store.ValueListed v := h.store.getAt_listed h.environment hv
  unfold superMethod KeepsWith
  rw [ends_bind, ends_get]
  cases m.distances[keyword.id]? with
  | none => exact keepsWith_fail h
  | some distance =>
      refine (keepsWith_ofExcept h (listed distance _)).then fun superclass n hn hs => ?_
      have second : KeepsWith (ofExcept
          (m.store.getAt m.environment (distance - 1) Store.receiverName keyword.token.line)) n
          Store.ValueListed :=
        keepsWith_ofExcept hn.sound fun v hv => (listed _ _ v hv).mono hn.growth
      refine second.then fun receiver o ho hr => ?_
      split
      · rename_i object id cls
        split
        · rename_i found heq
          have scopes : ∀ a ∈ Value.classScopes object, o.store.ScopeListed a := hs.mono ho.growth
          exact keeps_boundMethod ho.sound (scopes _ (Store.method?_scope_mem heq)) hr
        · exact keepsWith_fail ho.sound
      · exact keepsWith_fail ho.sound

theorem keeps_print (h : m.Sound) (value : Value) : KeepsWith (print value) m anything :=
  ⟨{ h.keeps_self with sound := ⟨h.store, h.environment⟩ }, trivial⟩

theorem keeps_readClock (h : m.Sound) (host : Host) :
    KeepsWith (readClock host) m Store.ValueListed :=
  ⟨{ h.keeps_self with sound := ⟨h.store, h.environment⟩ }, trivial⟩

theorem keeps_start (h : m.Sound) (host : Host) : KeepsWith (start host line) m anything := by
  have kept : m.Keeps { m with started := m.started + 1 } :=
    { h.keeps_self with sound := ⟨h.store, h.environment⟩ }
  refine ends_start.mpr ?_
  split
  · exact kept
  · exact ⟨kept, trivial⟩

theorem passes_collectIfDue (h : m.Sound) (host : Host) :
    PassesWith (collectIfDue host) m anything := by
  refine ends_collectIfDue.mpr ?_
  split
  · rename_i due
    have outside : m.callDepth = 0 := by simpa using (Bool.and_eq_true_iff.mp due).1
    have kept : (m.store.collect m.environment).ScopeListed m.environment :=
      (h.store.scopeListed_collect h.environment).mpr
        ⟨h.environment, h.store.marked_root h.environment⟩
    refine ⟨⟨rfl, rfl, rfl, rfl, Store.extends_collect _ _, ?_, fun inside => ?_⟩, trivial⟩
    · exact ⟨h.store.collect h.environment, kept⟩
    · omega
  · exact ⟨h.keeps_self.toPasses, trivial⟩

/-! ## Compound steps -/

theorem keeps_checkDepth (h : m.Sound) : KeepsWith (checkDepth host line) m anything := by
  unfold KeepsWith checkDepth
  cases host.maxDepth with
  | none => exact ⟨h.keeps_self, trivial⟩
  | some limit =>
      simp only [ends_bind, ends_get]
      split
      · exact keepsWith_fail h
      · exact ⟨h.keeps_self, trivial⟩

theorem keeps_callScope (h : m.Sound) {closure : Closure} {args : List Value}
    (hc : m.store.ScopeListed closure.scope) (ha : ∀ v ∈ args, m.store.ValueListed v) :
    KeepsWith (callScope closure args) m Store.ScopeListed := by
  refine (keeps_newScope h hc).then fun scope n hn hs => ?_
  have entries : ∀ entry ∈ (closure.decl.params.map Token.lexeme).zip args,
      n.store.ValueListed entry.2 :=
    fun entry mem => (ha _ (List.of_mem_zip mem).2).mono hn.growth
  have grows := Store.grows_defineAll n.store scope
    ((closure.decl.params.map Token.lexeme).zip args)
  have bound := hn.sound.keeps_store grows (hn.sound.store.defineAll entries)
  exact ⟨bound, hs.mono grows⟩

theorem keeps_callResult (h : m.Sound) {closure : Closure}
    (hc : m.store.ScopeListed closure.scope) (hv : m.store.ValueListed value) :
    KeepsWith (callResult closure line value) m Store.ValueListed := by
  unfold KeepsWith callResult
  split
  · rw [ends_bind, ends_get]
    exact keepsWith_ofExcept h fun v found => h.store.getAt_listed hc found
  · exact keepsWith_pure h hv

theorem keeps_superclassOf (h : m.Sound) (decl : ClassDecl Stmt) :
    KeepsWith (superclassOf decl) m
      fun s superclass => ∀ object ∈ superclass, s.ValueListed (.class object) := by
  unfold superclassOf
  cases decl.superclass with
  | none => exact keepsWith_pure h fun _ mem => by cases mem
  | some parent =>
      dsimp only
      split
      · exact keepsWith_fail h
      · refine (keeps_lookup h parent _).then fun value n hn hv => ?_
        split
        · refine keepsWith_pure hn.sound fun object mem => ?_
          cases mem
          exact hv
        · exact keepsWith_fail hn.sound

theorem keeps_methodScope (h : m.Sound) {superclass : Option ClassObject}
    (hs : ∀ object ∈ superclass, m.store.ValueListed (.class object)) :
    KeepsWith (methodScope superclass) m Store.ScopeListed := by
  unfold methodScope KeepsWith
  rw [ends_bind, ends_get]
  cases superclass with
  | none => exact keepsWith_pure h h.environment
  | some object =>
      refine (keeps_newScope h h.environment).then fun scope n hn hscope => ?_
      refine (keeps_defineIn hn.sound scope _ ((hs object rfl).mono hn.growth)).then
        fun _ o ho _ => ?_
      exact keepsWith_pure ho.sound (hscope.mono ho.growth)

theorem keeps_declareClass (h : m.Sound) (decl : ClassDecl Stmt) :
    KeepsWith (declareClass decl) m anything := by
  refine (keeps_superclassOf h decl).then fun superclass n hn hs => ?_
  refine (keeps_methodScope hn.sound hs).then fun scope o ho hscope => ?_
  have methods : ∀ c ∈ decl.methods.map (Store.methodEntry scope),
      o.store.ScopeListed c.2.scope := by
    intro c mem
    obtain ⟨method, -, rfl⟩ := List.mem_map.mp mem
    exact hscope
  have superclasses : ∀ object ∈ superclass, o.store.ValueListed (.class object) :=
    fun object mem => (hs object mem).mono ho.growth
  refine (keeps_newClass ho.sound _ methods superclasses).then fun value q hq hv => ?_
  exact keeps_define hq.sound _ hv

theorem keeps_declareFunction (h : m.Sound) (decl : FunctionDecl Stmt) :
    KeepsWith (declareFunction decl) m anything := by
  unfold declareFunction KeepsWith
  rw [ends_bind, ends_get]
  refine (keeps_newFunction h decl h.environment).then fun value n hn hv => ?_
  exact keeps_define hn.sound _ hv

theorem keeps_checkReturn (h : m.Sound) (keyword : Token) (value : Option Expr) :
    KeepsWith (checkReturn keyword value) m anything := by
  unfold KeepsWith checkReturn
  rw [ends_bind, ends_get]
  cases m.frame.kind with
  | script => exact keepsWith_fail h
  | function => exact ⟨h.keeps_self, trivial⟩
  | initializer =>
      dsimp only
      split
      · exact keepsWith_fail h
      · exact ⟨h.keeps_self, trivial⟩

theorem keeps_leaveLoop (h : m.Sound) (exit : LoopExit) (signal : Signal)
    (hs : m.store.SignalListed signal) :
    KeepsWith (leaveLoop exit line signal) m Store.SignalListed := by
  unfold KeepsWith leaveLoop
  rw [ends_bind, ends_get]
  split
  · exact keepsWith_fail h
  · exact keepsWith_pure h hs

/-! ## Evaluation -/

def ValuesListed (s : Store) (values : List Value) : Prop := ∀ v ∈ values, s.ValueListed v

structure SoundWith (host : Host) (fuel : Nat) : Prop where
  eval : ∀ e {m}, m.Sound → KeepsWith (eval host fuel e) m Store.ValueListed
  evalAll : ∀ es {m}, m.Sound → KeepsWith (evalAll host fuel es) m ValuesListed
  call : ∀ f args line {m}, m.Sound → m.store.ValueListed f → ValuesListed m.store args →
    KeepsWith (call host fuel f args line) m Store.ValueListed
  invoke : ∀ c args line {m}, m.Sound → m.store.ScopeListed c.scope → ValuesListed m.store args →
    KeepsWith (invoke host fuel c args line) m Store.ValueListed
  exec : ∀ s {m}, m.Sound → PassesWith (exec host fuel s) m Store.SignalListed
  execAll : ∀ ss {m}, m.Sound → PassesWith (execAll host fuel ss) m Store.SignalListed
  execLoop : ∀ condition body increment {m}, m.Sound →
    PassesWith (execLoop host fuel condition body increment) m Store.SignalListed

theorem ValuesListed.mono {s t : Store} {values : List Value} (grows : s.Grows t)
    (h : ValuesListed s values) : ValuesListed t values := fun v hv => (h v hv).mono grows

theorem keeps_eval (ih : SoundWith host fuel) (e : Expr) (h : m.Sound) :
    KeepsWith (eval host (fuel + 1) e) m Store.ValueListed := by
  cases e with
  | literal value line =>
      exact keepsWith_pure h (value.plain_value.listed _)
  | grouping inner => exact ih.eval inner h
  | var name => exact keeps_lookup h name _
  | assign name value =>
      refine (ih.eval value h).then fun v n hn hv => ?_
      refine (keeps_assign hn.sound name hv).then fun _ o ho _ => ?_
      exact keepsWith_pure ho.sound (hv.mono ho.growth)
  | logical left operator right =>
      refine (ih.eval left h).then fun l n hn hl => ?_
      split
      · exact keepsWith_pure hn.sound hl
      · exact ih.eval right hn.sound
  | binary left operator right =>
      refine (ih.eval left h).then fun l n hn hl => ?_
      refine (ih.eval right hn.sound).then fun r o ho hr => ?_
      exact keepsWith_ofExcept ho.sound fun v hv => (Operator.plain_binary hv).listed _
  | unary operator operand =>
      refine (ih.eval operand h).then fun v n hn hv => ?_
      exact keepsWith_ofExcept hn.sound fun w hw => (Operator.plain_unary hw).listed _
  | call callee paren arguments =>
      refine (ih.eval callee h).then fun f n hn hf => ?_
      refine (ih.evalAll arguments hn.sound).then fun args o ho hargs => ?_
      exact ih.call f args _ ho.sound (hf.mono ho.growth) hargs
  | get object name =>
      refine (ih.eval object h).then fun v n hn hv => ?_
      split
      · exact keeps_readProperty hn.sound _ hv
      · exact keepsWith_fail hn.sound
  | set object name value =>
      refine (ih.eval object h).then fun target n hn _ => ?_
      split
      · refine (ih.eval value hn.sound).then fun v o ho hv => ?_
        refine (keeps_setField ho.sound _ _ hv).then fun _ q hq _ => ?_
        exact keepsWith_pure hq.sound (hv.mono hq.growth)
      · exact keepsWith_fail hn.sound
  | this keyword => exact keeps_lookup h keyword _
  | super keyword method => exact keeps_superMethod h keyword method

theorem keeps_evalAll (ih : SoundWith host fuel) (es : List Expr) (h : m.Sound) :
    KeepsWith (evalAll host (fuel + 1) es) m ValuesListed := by
  cases es with
  | nil => exact keepsWith_pure h fun v hv => by cases hv
  | cons e rest =>
      refine (ih.eval e h).then fun v n hn hv => ?_
      refine (ih.evalAll rest hn.sound).then fun vs o ho hvs => ?_
      refine keepsWith_pure ho.sound fun w hw => ?_
      rcases List.mem_cons.mp hw with rfl | hw
      · exact hv.mono ho.growth
      · exact hvs w hw

theorem keeps_call (ih : SoundWith host fuel) {f : Value} {args : List Value} (h : m.Sound)
    (hf : m.store.ValueListed f) (ha : ValuesListed m.store args) :
    KeepsWith (call host (fuel + 1) f args line) m Store.ValueListed := by
  simp only [call]
  cases f.arity? with
  | none => exact keepsWith_fail h
  | some arity =>
      dsimp only
      split
      · exact keepsWith_fail h
      cases f with
      | function id closure => exact ih.invoke closure args line h hf ha
      | bound id closure => exact ih.invoke closure args line h hf ha
      | «class» object =>
          have scopes : ∀ a ∈ Value.classScopes object, m.store.ScopeListed a := hf
          refine (keeps_newInstance h).then fun id n hn hid => ?_
          have receiver : n.store.ValueListed (.instance id object) :=
            ⟨hid, fun a mem => (scopes a mem).mono hn.growth⟩
          split
          · rename_i init found
            have hinit := (scopes _ (Store.method?_scope_mem found)).mono hn.growth
            refine (keeps_bindMethod hn.sound hinit receiver).then fun closure o ho hc => ?_
            have hargs := (ha.mono hn.growth).mono ho.growth
            have body := (ih.invoke closure args line ho.sound hc hargs).discard
            refine body.then fun _ q hq _ => ?_
            exact keepsWith_pure hq.sound ((receiver.mono ho.growth).mono hq.growth)
          · exact keepsWith_pure hn.sound receiver
      | _ => exact keeps_readClock h host

theorem keeps_inCall (h : m.Sound) (kind : FrameKind) {scope : Address} {part : Run Signal}
    (hs : m.store.ScopeListed scope)
    (hpart : ∀ n : Machine, n.Sound → PassesWith part n Store.SignalListed) :
    KeepsWith (inCall kind scope part) m Store.SignalListed := by
  let inner : Machine := { m with
    environment := scope
    frame := ⟨kind, 0⟩
    callDepth := m.callDepth + 1 }
  have sound : inner.Sound := ⟨h.store, hs⟩
  have back : ∀ n : Machine, inner.Passes n → m.Keeps
      { n with environment := m.environment, frame := m.frame, callDepth := m.callDepth } := by
    intro n hn
    have growth := hn.grows (Nat.succ_pos _)
    exact ⟨⟨rfl, rfl, rfl, hn.distances, hn.ext,
      ⟨hn.sound.store, h.environment.mono growth⟩, fun _ => growth⟩, growth⟩
  refine ends_inCall.mpr ((hpart inner sound).imp ?_ ?_)
  · exact fun _ n hn => ⟨back n hn.1, hn.2⟩
  · exact fun _ n hn => back n hn

theorem keeps_invoke (ih : SoundWith host fuel) {c : Closure} {args : List Value} (h : m.Sound)
    (hc : m.store.ScopeListed c.scope) (ha : ValuesListed m.store args) :
    KeepsWith (invoke host (fuel + 1) c args line) m Store.ValueListed := by
  rw [invoke]
  refine (keeps_checkDepth h).then fun _ n hn _ => ?_
  refine (keeps_callScope hn.sound (hc.mono hn.growth) (ha.mono hn.growth)).then
    fun scope o ho hscope => ?_
  refine (keeps_inCall ho.sound _ hscope fun q hq => ih.execAll c.decl.body hq).then
    fun signal q hq hs => ?_
  have closure := ((hc.mono hn.growth).mono ho.growth).mono hq.growth
  cases signal with
  | normal => exact keeps_callResult hq.sound closure trivial
  | «return» value line => exact keeps_callResult hq.sound closure hs
  | «break» line => exact keepsWith_fail hq.sound
  | «continue» line => exact keepsWith_fail hq.sound

theorem passes_inScope {parent : Machine} (h : parent.Sound) {part : Run Signal}
    (hpart : ∀ n : Machine, n.Sound → PassesWith part n Store.SignalListed) :
    PassesWith (do inScope (← newScope parent.environment) part) parent Store.SignalListed := by
  have created := Store.cells_newScope parent.store parent.environment parent.store.cells.size
  rw [if_pos rfl] at created
  let inner : Machine := { parent with
    store := (parent.store.newScope parent.environment).2
    environment := (parent.store.newScope parent.environment).1 }
  have sound : inner.Sound := ⟨h.store.newScope h.environment, Store.newScope_listed _ _⟩
  have back : ∀ n : Machine, inner.Passes n →
      parent.Passes { n with environment := parent.environment } := by
    intro n hn
    have grows := Store.grows_newScope parent.store parent.environment
    obtain ⟨bs, hcell⟩ := hn.ext.scope_cell created
    have listed : n.store.ScopeListed parent.store.cells.size := by
      have env := hn.sound.environment
      rw [hn.environment] at env
      exact env
    exact ⟨rfl, hn.frame, hn.callDepth, hn.distances, grows.ext.trans hn.ext,
      ⟨hn.sound.store, hn.sound.store.parent_listed listed (Store.parent?_of_cell hcell)⟩,
      fun inside => grows.trans (hn.grows inside)⟩
  refine ends_bind.mpr (ends_inScope.mpr ((hpart inner sound).imp ?_ ?_))
  · exact fun _ n hn => ⟨back n hn.1, hn.2⟩
  · exact fun _ n hn => back n hn

theorem passes_statement (h : m.Sound) (host : Host) {part : Run Signal}
    (hpart : ∀ n : Machine, n.Sound → PassesWith part n Store.SignalListed) :
    PassesWith (do start host line; collectIfDue host; part) m Store.SignalListed := by
  refine (keeps_start h host).passes.then fun _ n hn _ => ?_
  exact (passes_collectIfDue hn.sound host).then fun _ o ho _ => hpart o ho.sound

theorem passes_exec (ih : SoundWith host fuel) (s : Stmt) (h : m.Sound) :
    PassesWith (exec host (fuel + 1) s) m Store.SignalListed := by
  cases s with
  | expression e =>
      refine passes_statement h host fun n hn => KeepsWith.passes ?_
      exact (ih.eval e hn).discard.then fun _ o ho _ => keepsWith_pure ho.sound trivial
  | print e =>
      refine passes_statement h host fun n hn => KeepsWith.passes ?_
      refine (ih.eval e hn).then fun v o ho _ => ?_
      exact (keeps_print ho.sound v).then fun _ q hq _ => keepsWith_pure hq.sound trivial
  | varDecl name initializer =>
      refine passes_statement h host fun n hn => KeepsWith.passes ?_
      cases initializer with
      | none =>
          have listed : n.store.ValueListed .nil := trivial
          refine (keeps_define hn _ listed).then fun _ o ho _ => ?_
          exact keepsWith_pure ho.sound trivial
      | some e =>
          refine (ih.eval e hn).then fun v o ho hv => ?_
          exact (keeps_define ho.sound _ hv).then fun _ q hq _ => keepsWith_pure hq.sound trivial
  | block body line =>
      exact passes_statement h host fun n hn => passes_inScope hn fun o ho => ih.execAll body ho
  | branch condition thenBranch elseBranch =>
      refine passes_statement h host fun n hn => ?_
      refine (ih.eval condition hn).passes.then fun v o ho _ => ?_
      split
      · exact ih.exec thenBranch ho.sound
      · cases elseBranch with
        | none => exact (keepsWith_pure ho.sound trivial).passes
        | some other => exact ih.exec other ho.sound
  | loop condition body increment =>
      refine passes_statement h host fun n hn => ends_inLoop.mpr ?_
      let inner : Machine := { n with frame := { n.frame with loopDepth := n.frame.loopDepth + 1 } }
      have sound : inner.Sound := ⟨hn.store, hn.environment⟩
      have back : ∀ o : Machine, inner.Passes o → n.Passes { o with frame := n.frame } :=
        fun o ho =>
        ⟨ho.environment, rfl, ho.callDepth, ho.distances, ho.ext,
          ⟨ho.sound.store, ho.sound.environment⟩, ho.grows⟩
      refine (ih.execLoop condition body increment sound).imp ?_ ?_
      · exact fun _ o ho => ⟨back o ho.1, ho.2⟩
      · exact fun _ o ho => back o ho
  | funDecl decl =>
      refine passes_statement h host fun n hn => KeepsWith.passes ?_
      exact (keeps_declareFunction hn decl).then fun _ o ho _ => keepsWith_pure ho.sound trivial
  | classDecl decl =>
      refine passes_statement h host fun n hn => KeepsWith.passes ?_
      exact (keeps_declareClass hn decl).then fun _ o ho _ => keepsWith_pure ho.sound trivial
  | «return» keyword value =>
      refine passes_statement h host fun n hn => KeepsWith.passes ?_
      refine (keeps_checkReturn hn keyword value).then fun _ o ho _ => ?_
      cases value with
      | none => exact keepsWith_pure ho.sound trivial
      | some e => exact (ih.eval e ho.sound).then fun v q hq hv => keepsWith_pure hq.sound hv
  | «break» keyword =>
      refine passes_statement h host fun n hn => ?_
      exact (keeps_leaveLoop hn _ (.break keyword.line) trivial).passes
  | «continue» keyword =>
      refine passes_statement h host fun n hn => ?_
      exact (keeps_leaveLoop hn _ (.continue keyword.line) trivial).passes

theorem passes_execAll (ih : SoundWith host fuel) (ss : List Stmt) (h : m.Sound) :
    PassesWith (execAll host (fuel + 1) ss) m Store.SignalListed := by
  cases ss with
  | nil => exact (keepsWith_pure h trivial).passes
  | cons s rest =>
      refine (ih.exec s h).then fun signal n hn hs => ?_
      split
      · exact ih.execAll rest hn.sound
      · exact (keepsWith_pure hn.sound hs).passes

theorem passes_execLoop (ih : SoundWith host fuel) (condition : Expr) (body : Stmt)
    (increment : Option Expr) (h : m.Sound) :
    PassesWith (execLoop host (fuel + 1) condition body increment) m Store.SignalListed := by
  refine (ih.eval condition h).passes.then fun v n hn _ => ?_
  split
  · refine (ih.exec body hn.sound).then fun signal o ho hs => ?_
    split
    · exact (keepsWith_pure ho.sound trivial).passes
    · exact (keepsWith_pure ho.sound hs).passes
    · cases increment with
      | none => exact ih.execLoop condition body none ho.sound
      | some e =>
          refine (ih.eval e ho.sound).discard.passes.then fun _ q hq _ => ?_
          exact ih.execLoop condition body (some e) hq.sound
  · exact (keepsWith_pure hn.sound trivial).passes

theorem soundWith (host : Host) (fuel : Nat) : SoundWith host fuel := by
  induction fuel with
  | zero =>
      constructor <;> intros <;> first
        | exact Machine.Sound.keeps_self ‹_›
        | exact (Machine.Sound.keeps_self ‹_›).toPasses
  | succ fuel ih =>
      exact {
        eval := fun e _ => keeps_eval ih e
        evalAll := fun es _ => keeps_evalAll ih es
        call := fun _ _ _ _ => keeps_call ih
        invoke := fun _ _ _ _ => keeps_invoke ih
        exec := fun s _ => passes_exec ih s
        execAll := fun ss _ => passes_execAll ih ss
        execLoop := fun c b i _ => passes_execLoop ih c b i }

theorem passes_program (host : Host) (fuel : Nat) (statements : List Stmt) (h : m.Sound) :
    PassesWith (program host fuel statements) m anything := by
  induction statements generalizing m with
  | nil => exact (keepsWith_pure h trivial).passes
  | cons s rest ih =>
      refine ((soundWith host fuel).exec s h).then fun signal n hn _ => ?_
      cases signal with
      | normal => exact ih hn.sound
      | «break» line => exact (keepsWith_fail hn.sound).passes
      | «continue» line => exact (keepsWith_fail hn.sound).passes
      | «return» value line => exact (keepsWith_fail hn.sound).passes

end Run

end ClassScript
