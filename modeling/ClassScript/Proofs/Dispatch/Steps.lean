import ClassScript.Proofs.Dispatch.Homes
import ClassScript.Proofs.Run.Sound

namespace ClassScript

open Binding Store

abbrev Machine.Homed (src : Sources) (m : Machine) : Prop :=
  Stored (ValueHomed src) m.store

structure Machine.Settled (src : Sources) (m : Machine) : Prop where
  sound : m.Sound
  homed : m.Homed src
  charted : Charted src.mentions m.distances

structure Machine.Inside (src : Sources) (setting : Setting) (m : Machine) : Prop
    extends m.Settled src where
  inside : m.store.InSetting src m.environment setting

structure Machine.Settles (src : Sources) (m n : Machine) : Prop
    extends m.Keeps n where
  steady : m.store.Steady n.store
  homed : n.Homed src

structure Store.Housed (src : Sources) (s : Store) (value : Value) : Prop where
  listed : s.ValueListed value
  homed : ValueHomed src s value

structure Store.ClosureHoused (src : Sources) (s : Store) (closure : Closure) :
    Prop where
  listed : s.ScopeListed closure.scope
  homed : ClosureHomed src s closure

def Store.SignalHomed (src : Sources) (s : Store) : Signal → Prop
  | .return value _ => ValueHomed src s value
  | _ => True

variable {src : Sources} {setting : Setting} {m n o : Machine} {s t : Store}
  {value : Value} {closure : Closure} {host : Host} {line : Nat} {decl : ClassDecl Stmt}

theorem Value.Plain.homed (h : value.Plain) (s : Store) : ValueHomed src s value := by
  cases value <;> trivial

theorem Store.Housed.mono (h : m.store.Housed src value) (hn : m.Settles src n) :
    n.store.Housed src value :=
  ⟨h.listed.mono hn.growth, h.homed.mono hn.steady⟩

theorem Machine.Settled.passes (h : m.Settled src) (hn : m.Passes n) (homed : n.Homed src) :
    n.Settled src where
  sound := hn.sound
  homed := homed
  charted := by
    rw [hn.distances]
    exact h.charted

theorem Machine.Settled.settles (h : m.Settled src) (hn : m.Settles src n) : n.Settled src :=
  h.passes hn.toPasses hn.homed

theorem Machine.Inside.settles (h : m.Inside src setting) (hn : m.Settles src n) :
    n.Inside src setting where
  toSettled := h.toSettled.settles hn
  inside := by
    rw [hn.environment]
    exact h.inside.mono hn.steady

theorem Machine.Inside.passes {a : Address} (h : m.Inside src setting) (hn : m.Passes n)
    (homed : n.Homed src) (env : n.environment = a) (inside : n.store.InSetting src a setting) :
    n.Inside src setting := ⟨h.toSettled.passes hn homed, env ▸ inside⟩

theorem Machine.Inside.newScope (h : m.Inside src setting) :
    Machine.Inside src setting.inner { m with
      store := (m.store.newScope m.environment).2
      environment := (m.store.newScope m.environment).1 } where
  sound := ⟨h.sound.store.newScope h.sound.environment, newScope_listed _ _⟩
  homed := h.homed.newScope_homed _
  charted := h.charted
  inside := (h.inside.mono (steady_newScope _ _)).inner (parent?_newScope _ _)

theorem Machine.Inside.receiver (h : m.Inside src setting) {depth : Nat} {r : Receiver}
    (around : m.store.ancestor? m.environment depth = some r.scope)
    (receives : m.store.Receives src decl r) :
    ValueHomed src m.store (.instance r.id r.object) :=
  h.homed.get? (h.sound.store.ancestor?_listed h.sound.environment around) receives.holds

namespace Run

open Machine

variable {α β : Type} {quiet : Prop}

abbrev HomedWith (quiet : Prop) (src : Sources) (part : Run α) (m : Machine)
    (homed : Store → α → Prop) : Prop :=
  Ends part m (fun a n => (quiet → m.store.Steady n.store) ∧ n.Homed src ∧ homed n.store a)
    fun _ n => n.Homed src

theorem PassesWith.thenHomed {part : Run α} {rest : α → Run β} {listed homed : Store → α → Prop}
    {homed' : Store → β → Prop} (h : PassesWith part m listed)
    (hp : HomedWith quiet src part m homed)
    (next : ∀ a n, part m = .ok a n → m.Passes n → n.Homed src → listed n.store a →
      homed n.store a → HomedWith quiet src (rest a) n homed') :
    HomedWith quiet src (part >>= rest) m homed' := by
  apply ends_bind.mpr
  apply (h.and hp).ran.imp
  · intro a n ⟨run, hn⟩
    apply (next a n run hn.1.1 hn.2.2.1 hn.1.2 hn.2.2.2).imp
    · exact fun _ _ ho => ⟨fun still => (hn.2.1 still).trans (ho.1 still), ho.2⟩
    · exact fun _ _ ho => ho
  · exact fun _ _ hn => hn.2

theorem KeepsWith.thenHomed {part : Run α} {rest : α → Run β} {listed homed : Store → α → Prop}
    {homed' : Store → β → Prop} (h : KeepsWith part m listed)
    (hp : HomedWith True src part m homed)
    (next : ∀ a n, part m = .ok a n → m.Settles src n → listed n.store a → homed n.store a →
      HomedWith quiet src (rest a) n homed') : HomedWith quiet src (part >>= rest) m homed' := by
  apply ends_bind.mpr
  apply (h.and hp).ran.imp
  · intro a n ⟨run, hn⟩
    have steady := hn.2.1 trivial
    apply (next a n run ⟨hn.1.1, steady, hn.2.2.1⟩ hn.1.2 hn.2.2.2).imp
    · exact fun _ _ ho => ⟨fun still => steady.trans (ho.1 still), ho.2⟩
    · exact fun _ _ ho => ho
  · exact fun _ _ hn => hn.2

theorem settles_of_ok {part : Run α} {a : α} {listed homed : Store → α → Prop}
    (run : part m = .ok a n) (kept : KeepsWith part m listed)
    (h : HomedWith True src part m homed) :
    m.Settles src n ∧ listed n.store a ∧ homed n.store a := by
  have kept := (ends_ok_iff run).mp kept
  have left := (ends_ok_iff run).mp h
  exact ⟨⟨kept.1, left.1 trivial, left.2.1⟩, kept.2, left.2.2⟩

theorem HomedWith.discard {part : Run α} {homed : Store → α → Prop}
    (h : HomedWith quiet src part m homed) :
    HomedWith quiet src (discard part) m anything :=
  ends_discard.mpr (h.imp (fun _ _ hn => ⟨hn.1, hn.2.1, trivial⟩) fun _ _ hn => hn)

theorem homed_pure {homed : Store → α → Prop} {a : α} (h : m.Homed src) (ha : homed m.store a) :
    HomedWith quiet src (pure a) m homed := ⟨fun _ => .refl _, h, ha⟩

theorem homed_fail {homed : Store → α → Prop} {fault : RuntimeFault} (h : m.Homed src) :
    HomedWith quiet src (fail fault line : Run α) m homed := h

theorem homed_ofExcept {homed : Store → α → Prop} {r : Except RuntimeError α} (h : m.Homed src)
    (hr : ∀ a, r = .ok a → homed m.store a) : HomedWith quiet src (ofExcept r) m homed :=
  ends_ofExcept.mpr ⟨fun a ha => ⟨fun _ => .refl _, h, hr a ha⟩, fun _ _ => h⟩

/-! ## Single steps -/

theorem homed_lookup (h : m.Sound) (hp : m.Homed src) (o : Occurrence) (name : String) :
    HomedWith quiet src (lookup o name) m (ValueHomed src) := by
  unfold HomedWith Ends lookup
  cases hd : m.distances[o.id]? with
  | none =>
      dsimp only
      cases found : m.store.get Store.globals name o.token.line with
      | ok value => exact ⟨fun _ => .refl _, hp, hp.get h.store (scopeListed_globals _) found⟩
      | error e => exact hp
  | some distance =>
      dsimp only
      cases found : m.store.getAt m.environment distance name o.token.line with
      | ok value => exact ⟨fun _ => .refl _, hp, hp.getAt h.store h.environment found⟩
      | error e => exact hp

theorem homed_define (hp : m.Homed src) {name : String} (ordinary : (Mention.binder name).Ordinary)
    (hv : ValueHomed src m.store value) :
    HomedWith quiet src (define name value) m anything :=
  have steady := steady_define ordinary m.store m.environment value
  ⟨fun _ => steady, hp.define_homed steady hv, trivial⟩

theorem homed_assign (hp : m.Homed src) {o : Occurrence} (ordinary : (Mention.var o).Ordinary)
    (hv : ValueHomed src m.store value) : HomedWith quiet src (assign o value) m anything := by
  have steady (holder : Address) := steady_define ordinary m.store holder value
  have stored (holder : Address) := hp.define_homed (steady holder) hv
  unfold HomedWith Ends assign
  cases hd : m.distances[o.id]? with
  | none =>
      dsimp only
      cases found : m.store.target Store.globals o.token.lexeme o.token.line with
      | ok holder => exact ⟨fun _ => steady holder, stored holder, trivial⟩
      | error e => exact hp
  | some distance =>
      dsimp only
      cases found : m.store.targetAt m.environment distance o.token.lexeme o.token.line with
      | ok holder => exact ⟨fun _ => steady holder, stored holder, trivial⟩
      | error e => exact hp

theorem homed_newInstance (hp : m.Homed src) : HomedWith quiet src newInstance m anything :=
  have steady := steady_newInstance m.store
  ⟨fun _ => steady, hp.newInstance_kept fun _ homed => homed.mono steady, trivial⟩

theorem homed_setField (hp : m.Homed src) (id : Address) (name : String)
    (hv : ValueHomed src m.store value) :
    HomedWith quiet src (setField id name value) m anything :=
  have steady := steady_setField m.store id name value
  ⟨fun _ => steady, hp.setField_kept (fun _ homed => homed.mono steady) hv, trivial⟩

theorem homed_bindMethod (hp : m.Homed src) {method : Closure} {id : Address}
    {object : ClassObject} {layers : List ClassLayer} (hm : MethodHomed src m.store layers method)
    (sub : layers <:+ object.layers) (hr : ValueHomed src m.store (.instance id object)) :
    HomedWith quiet src (bindMethod method (.instance id object)) m fun s c =>
      ClosureHomed src s c :=
  ⟨fun _ => steady_bindMethod _ _ _, hp.newScope_define_homed _ _ hr, hm.bindMethod id sub⟩

theorem homed_boundMethod (hp : m.Homed src) {method : Closure} {id : Address}
    {object : ClassObject} {layers : List ClassLayer} (hm : MethodHomed src m.store layers method)
    (sub : layers <:+ object.layers) (hr : ValueHomed src m.store (.instance id object)) :
    HomedWith quiet src (boundMethod method (.instance id object)) m (ValueHomed src) :=
  ⟨fun _ => steady_boundMethod _ _ _, (hp.newScope_define_homed _ _ hr).newIdentity_homed,
    hm.boundMethod id sub⟩

theorem homed_readProperty (hp : m.Homed src) {id : Address} {object : ClassObject}
    (name : String) (hv : m.store.Housed src (.instance id object)) :
    HomedWith quiet src (readProperty id object name line) m (ValueHomed src) := by
  unfold HomedWith Ends readProperty Store.property?
  cases field : (m.store.fields id).get? name with
  | some value => exact ⟨fun _ => .refl _, hp, hp.field_get? hv.listed.1 field⟩
  | none =>
      cases found : object.method? name with
      | some method =>
          exact homed_boundMethod hp (ClassHomed.method? hv.homed found) (List.suffix_refl _)
            hv.homed
      | none => exact hp

/-! ## Superclasses -/

theorem getAt_of_ancestor? {a scope : Address} {d : Nat} {name : String}
    (around : s.ancestor? a d = some scope) (found : (s.bindings scope).get? name = some value)
    (line : Nat) : s.getAt a d name line = .ok value := by
  simp [getAt, around, found]

def dispatch (layers : List ClassLayer) (name : Token) (receiver : Value) : Run Value :=
  match layers.findSome? (·.methods.lookup name.lexeme) with
  | some method => boundMethod method receiver
  | none => fail (.undefinedProperty name.lexeme) name.line

theorem superMethod_eq {keyword : Occurrence} {depth : Nat} {r : Receiver}
    (known : m.distances[keyword.id]? = some (depth + 1))
    (around : m.store.ancestor? m.environment depth = some r.scope)
    (receives : m.store.Receives src decl r) (sub : decl.superclass.isSome = true)
    (method : Token) :
    superMethod keyword method m = dispatch r.above method (.instance r.id r.object) m := by
  obtain ⟨object, holds, layers⟩ := receives.super sub
  have outward : m.store.ancestor? m.environment (depth + 1) = some r.home := by
    rw [ancestor?_append around, ancestor?, receives.outside]
    rfl
  have method? : object.method? method.lexeme =
      r.above.findSome? (·.methods.lookup method.lexeme) := by
    rw [ClassObject.method?, layers]
  unfold superMethod
  rw [get_bind]
  cases found : r.above.findSome? (·.methods.lookup method.lexeme) <;>
    simp only [dispatch, bind, EStateM.bind, known, getAt_of_ancestor? outward holds,
      Nat.add_sub_cancel, getAt_of_ancestor? around receives.holds, ofExcept, pure, EStateM.pure,
      method?, found]

theorem homed_dispatch (hp : m.Homed src) {id : Address} {object : ClassObject}
    {layers : List ClassLayer} (sub : layers <:+ object.layers) (name : Token)
    (hr : ValueHomed src m.store (.instance id object)) :
    HomedWith quiet src (dispatch layers name (.instance id object)) m (ValueHomed src) := by
  unfold dispatch
  cases found : layers.findSome? (·.methods.lookup name.lexeme) with
  | none => exact homed_fail hp
  | some method =>
      have above : ClassHomed src m.store layers := ClassHomed.of_suffix hr sub
      exact homed_boundMethod hp (ClassHomed.method? above found) sub hr

theorem homed_superMethod (h : m.Inside src setting) {keyword : Occurrence}
    (mem : (setting, .super keyword) ∈ src.mentions) (method : Token) :
    HomedWith quiet src (superMethod keyword method) m (ValueHomed src) := by
  cases known : m.distances[keyword.id]? with
  | none =>
      unfold superMethod HomedWith
      rw [ends_bind, ends_get]
      simp only [known]
      exact homed_fail h.homed
  | some d =>
      obtain ⟨decl, depth, rfl, sub, rfl⟩ := h.charted _ mem keyword.id d rfl known
      obtain ⟨r, around, receives⟩ := h.inside
      unfold HomedWith Ends
      rw [superMethod_eq known around receives sub]
      exact homed_dispatch h.homed ((List.suffix_cons _ _).trans receives.chain) method
        (h.receiver around receives)

/-! ## The host -/

theorem homed_print (hp : m.Homed src) (value : Value) :
    HomedWith quiet src (print value) m anything := ⟨fun _ => .refl _, hp, trivial⟩

theorem homed_readClock (hp : m.Homed src) (host : Host) :
    HomedWith quiet src (readClock host) m (ValueHomed src) := ⟨fun _ => .refl _, hp, trivial⟩

theorem homed_start (hp : m.Homed src) (host : Host) :
    HomedWith quiet src (start host line) m anything := by
  apply ends_start.mpr
  split
  · exact hp
  · exact ⟨fun _ => .refl _, hp, trivial⟩

theorem inside_collectIfDue (h : m.Inside src setting) (still : quiet → 0 < m.callDepth)
    (host : Host) : Ends (collectIfDue host) m
      (fun _ n => (quiet → m.store.Steady n.store) ∧ n.Inside src setting ∧
        n.environment = m.environment ∧ n.callDepth = m.callDepth) fun _ _ => False := by
  have sound := passes_collectIfDue h.sound host
  apply ends_collectIfDue.mpr
  unfold PassesWith at sound
  rw [ends_collectIfDue] at sound
  split
  · rename_i due
    rw [if_pos due] at sound
    have root := h.sound.environment
    have outside : m.callDepth = 0 := by simpa using (Bool.and_eq_true_iff.mp due).1
    have settled := h.toSettled.passes sound.1 (h.homed.collect_homed h.sound.store root)
    refine ⟨fun q => ?_, ⟨settled, ?_⟩, rfl, rfl⟩
    · exact absurd (still q) (by omega)
    · exact h.inside.collect h.sound.store root (h.sound.store.marked_root root)
  · exact ⟨fun _ => .refl _, h, rfl, rfl⟩

/-! ## Compound steps -/

theorem homed_checkDepth (hp : m.Homed src) :
    HomedWith quiet src (checkDepth host line) m anything := by
  unfold HomedWith checkDepth
  cases host.maxDepth with
  | none => exact ⟨fun _ => .refl _, hp, trivial⟩
  | some limit =>
      simp only [ends_bind, ends_get]
      split
      · exact homed_fail hp
      · exact ⟨fun _ => .refl _, hp, trivial⟩

theorem homed_callScope (hp : m.Homed src) (names : src.mentions ⊆ ordinary) {args : List Value}
    (inside : m.store.InSetting src closure.scope setting)
    (within : Within src.mentions (paramsMentions setting closure.decl.params))
    (ha : ∀ v ∈ args, ValueHomed src m.store v) :
    HomedWith quiet src (callScope closure args) m fun s scope =>
      s.InSetting src scope setting.inner := by
  have params := within_paramsMentions.mp fun x mem => names (within x mem)
  have entries : ∀ entry ∈ (closure.decl.params.map Token.lexeme).zip args,
      (Mention.binder entry.1).Ordinary := by
    intro entry mem
    obtain ⟨p, inParams, eq⟩ := List.mem_map.mp (List.of_mem_zip mem).1
    rw [← eq]
    exact params p inParams
  have created := steady_newScope m.store closure.scope
  have filled := steady_defineAll entries (m.store.newScope closure.scope).2
    (m.store.newScope closure.scope).1
  refine ⟨fun _ => created.trans filled, ?_, ?_⟩
  · apply (hp.newScope_homed closure.scope).defineAll_homed entries
    intro entry mem
    exact (ha _ (List.of_mem_zip mem).2).mono created
  · have around := filled.ext.parent? (parent?_newScope m.store closure.scope)
    exact (inside.mono (created.trans filled)).inner around

theorem homed_callResult (h : m.Sound) (hp : m.Homed src)
    (hc : m.store.ScopeListed closure.scope) (hv : ValueHomed src m.store value) :
    HomedWith quiet src (callResult closure line value) m (ValueHomed src) := by
  unfold HomedWith callResult
  split
  · rw [ends_bind, ends_get]
    exact homed_ofExcept hp fun v found => hp.getAt h.store hc found
  · exact homed_pure hp hv

theorem homed_checkReturn (hp : m.Homed src) (keyword : Token) (value : Option Expr) :
    HomedWith quiet src (checkReturn keyword value) m anything := by
  unfold HomedWith checkReturn
  rw [ends_bind, ends_get]
  cases m.frame.kind with
  | script => exact homed_fail hp
  | function => exact ⟨fun _ => .refl _, hp, trivial⟩
  | initializer =>
      dsimp only
      split
      · exact homed_fail hp
      · exact ⟨fun _ => .refl _, hp, trivial⟩

theorem homed_leaveLoop (hp : m.Homed src) (exit : LoopExit) {signal : Signal}
    {post : Store → Signal → Prop} (hs : post m.store signal) :
    HomedWith quiet src (leaveLoop exit line signal) m post := by
  unfold HomedWith leaveLoop
  rw [ends_bind, ends_get]
  split
  · exact homed_fail hp
  · exact homed_pure hp hs

/-! ## Declarations -/

theorem homed_declareFunction (h : m.Inside src setting) (names : src.mentions ⊆ ordinary)
    {decl : FunctionDecl Stmt} (binder : (setting, .binder decl.name.lexeme) ∈ src.mentions)
    (within : Within src.mentions (functionMentions setting decl)) :
    HomedWith quiet src (declareFunction decl) m anything := by
  have created := steady_newIdentity m.store
  have defined := steady_define (names binder) m.store.newIdentity.2 m.environment
    (m.store.newFunction decl m.environment).1
  have homed : ValueHomed src m.store (m.store.newFunction decl m.environment).1 :=
    ⟨setting, h.inside, within, nofun⟩
  exact ⟨fun _ => created.trans defined,
    h.homed.newIdentity_homed.define_homed defined (homed.mono created), trivial⟩

theorem homed_superclassOf (h : m.Sound) (hp : m.Homed src) (decl : ClassDecl Stmt) :
    HomedWith quiet src (superclassOf decl) m fun s superclass =>
      superclass.isSome = decl.superclass.isSome ∧
        ∀ object ∈ superclass, ClassHomed src s object.layers := by
  unfold superclassOf
  cases decl.superclass with
  | none => exact homed_pure hp ⟨rfl, fun _ mem => by cases mem⟩
  | some parent =>
      dsimp only
      split
      · exact homed_fail hp
      · apply (keeps_lookup h parent _).thenHomed (homed_lookup h hp parent _)
        intro value n _ hn _ hv
        split
        · refine homed_pure hn.homed ⟨rfl, fun object mem => ?_⟩
          cases mem
          exact hv
        · exact homed_fail hn.homed

theorem homed_methodScope (hp : m.Homed src) {superclass : Option ClassObject}
    (hs : ∀ object ∈ superclass, ClassHomed src m.store object.layers) :
    HomedWith quiet src (methodScope superclass) m fun s scope =>
      ∀ object ∈ superclass, s.BindsSuper scope object.layers := by
  unfold methodScope HomedWith
  rw [ends_bind, ends_get]
  cases superclass with
  | none => exact ⟨fun _ => .refl _, hp, fun _ mem => by cases mem⟩
  | some object =>
      refine ⟨fun _ => steady_newScope_define _ _ _ _,
        hp.newScope_define_homed _ _ (hs object rfl), fun other mem => ?_⟩
      cases mem
      exact ⟨object, get?_newScope_define _ _ _ _, rfl⟩

def Declares (decl : ClassDecl Stmt) (m : Machine) (object : ClassObject) : Prop :=
  ∃ n, declareClass decl m = .ok () n ∧
    (n.store.bindings n.environment).get? decl.name.lexeme = some (.class object)

theorem declares_of_ok (h : o.Sound) {superclass : Option ClassObject} {scope : Address}
    {object : ClassObject} (named : superclassOf decl m = .ok superclass n)
    (opened : methodScope superclass n = .ok scope o)
    (is : (o.store.newClass decl.name.lexeme superclass
      (decl.methods.map (methodEntry scope))).1 = .class object) : Declares decl m object := by
  let name := decl.name.lexeme
  refine ⟨{ o with store := o.store.newIdentity.2.define o.environment name (.class object) }, ?_,
    get?_newIdentity_define h.store h.environment name (.class object)⟩
  simp only [declareClass, bind, EStateM.bind, named, opened, newClass, define, is]
  rfl

theorem homed_declareClass (h : m.Inside src setting) (names : src.mentions ⊆ ordinary)
    (within : Within src.mentions (classMentions setting decl))
    (declared : ∀ object, Declares decl m object →
      src.declares decl object.layer object.ancestors) :
    HomedWith quiet src (declareClass decl) m anything := by
  rw [classMentions_eq] at within
  have parts := within_cons.mp within
  have methods := (within_append.mp parts.2).2
  apply (keeps_superclassOf h.sound decl).thenHomed (homed_superclassOf h.sound h.homed decl)
  intro superclass n named hn listed above
  apply (keeps_methodScope hn.sound listed).thenHomed (homed_methodScope hn.homed above.2)
  intro scope o opened ho _ binds
  have created := steady_newIdentity o.store
  have classes : ∀ object ∈ superclass, ClassHomed src o.store object.layers :=
    fun object mem => (above.2 object mem).mono ho.steady
  have made := declared _ (declares_of_ok ho.sound named opened rfl)
  have value := newClass_homed (s := o.store) rfl made methods above.1 binds classes
  have defined := steady_define (names parts.1) o.store.newIdentity.2 o.environment
    (o.store.newClass decl.name.lexeme superclass (decl.methods.map (methodEntry scope))).1
  exact ⟨fun _ => created.trans defined,
    ho.homed.newIdentity_homed.define_homed defined (value.mono created), trivial⟩

end Run

end ClassScript
