import ClassScript.Proofs.Binding.Charted
import ClassScript.Proofs.Lexical.Ancestors
import ClassScript.Proofs.Store.Stored

/-!
# Homes of methods

A method is at home in the layer of the class that declares it. Code in a method of a class runs in
scopes inside of one that holds a receiver, and the class of that receiver has the layer of the
method, with the layers above it as they were when the class was declared. Nothing that programs do
changes this: they bind neither `this` nor `super`.
-/

namespace ClassScript

open Binding

/-- What the code and the classes in a store come from: what programs mention, and the class
declarations that ran, each with the layer that it made and those above. -/
structure Sources where
  mentions : Set (Setting × Mention)
  declares : ClassDecl Stmt → ClassLayer → List ClassLayer → Prop

structure ClassLayer.MadeFrom (layer : ClassLayer) (decl : ClassDecl Stmt) (home : Address) :
    Prop where
  name : layer.name = decl.name.lexeme
  methods : layer.methods = Store.lastOfEach (decl.methods.map (Store.methodEntry home))

def Value.class? : Value → Option ClassObject
  | .class object => some object
  | .instance _ object => some object
  | _ => none

namespace Store

variable {s t u : Store} {a p root scope home : Address} {setting : Setting} {name : String}
  {value : Value} {src larger : Sources} {above layers : List ClassLayer}
  {layer : ClassLayer} {object : ClassObject} {decl : ClassDecl Stmt} {closure method : Closure}

/-! ## Reserved names keep their values -/

def Reserved (name : String) : Prop := name = receiverName ∨ name = superclassName

theorem not_reserved (h : (Mention.binder name).Ordinary) : ¬ Reserved name :=
  fun reserved => reserved.elim h.1 h.2

/-- A store with everything that was there before, in which no reserved name got another value. -/
structure Steady (s t : Store) : Prop where
  ext : s.Extends t
  reserved : ∀ a name value, Reserved name → (s.bindings a).get? name = some value →
    (t.bindings a).get? name = some value

theorem Steady.refl (s : Store) : s.Steady s := ⟨.refl s, fun _ _ _ _ h => h⟩

theorem Steady.trans (hst : s.Steady t) (htu : t.Steady u) : s.Steady u where
  ext := hst.ext.trans htu.ext
  reserved a name value hr h := htu.reserved a name value hr (hst.reserved a name value hr h)

theorem cell_of_get? (h : (s.bindings a).get? name = some value) :
    ∃ parent bs, s.cells[a]? = some (.scope parent bs) := by
  have contains : (s.bindings a).contains name = true := by
    unfold Bindings.contains
    rw [h]
    rfl
  exact cell_of_contains contains

theorem lt_of_get? (h : (s.bindings a).get? name = some value) : a < s.cells.size := by
  obtain ⟨parent, bs, hc⟩ := cell_of_get? h
  exact (Array.getElem?_eq_some_iff.mp hc).1

theorem Steady.of_bindings (ext : s.Extends t)
    (same : ∀ a, a < s.cells.size → t.bindings a = s.bindings a) : s.Steady t where
  ext := ext
  reserved a name value _ h := by
    rw [same a (lt_of_get? h)]
    exact h

theorem steady_newScope (s : Store) (p : Address) : s.Steady (s.newScope p).2 := by
  refine .of_bindings (extends_newScope s p) fun a lt => ?_
  rw [bindings_newScope, if_neg lt.ne]

theorem steady_newInstance (s : Store) : s.Steady s.newInstance.2 :=
  .of_bindings (extends_newInstance s) fun a _ => bindings_newInstance s a

theorem steady_newIdentity (s : Store) : s.Steady s.newIdentity.2 :=
  .of_bindings (extends_newIdentity s) fun a _ => bindings_newIdentity s a

theorem steady_setField (s : Store) (id : Address) (name : String) (value : Value) :
    s.Steady (s.setField id name value) :=
  .of_bindings (extends_setField s id name value) fun a _ => bindings_setField s id a name value

theorem steady_define_empty (h : s.bindings a = .empty) (name : String) (value : Value) :
    s.Steady (s.define a name value) where
  ext := extends_define s a name value
  reserved b other found _ hb := by
    have ne : a ≠ b := by
      rintro rfl
      rw [h] at hb
      cases hb
    rw [bindings_define_of_ne ne]
    exact hb

theorem bindings_of_newScope (s : Store) (p : Address) :
    (s.newScope p).2.bindings (s.newScope p).1 = .empty := by
  rw [bindings_newScope, if_pos (fst_newScope)]

theorem steady_newScope_define (s : Store) (p : Address) (name : String) (value : Value) :
    s.Steady ((s.newScope p).2.define (s.newScope p).1 name value) :=
  (steady_newScope s p).trans (steady_define_empty (bindings_of_newScope s p) name value)

theorem steady_define (h : (Mention.binder name).Ordinary) (s : Store) (a : Address)
    (value : Value) : s.Steady (s.define a name value) where
  ext := extends_define s a name value
  reserved b other found hr hb := by
    by_cases eq : a = b
    · subst eq
      obtain ⟨parent, bs, hc⟩ := cell_of_get? hb
      have ne : other ≠ name := fun eq => not_reserved h (eq ▸ hr)
      rw [bindings_of_cell hc] at hb
      rw [bindings_define_of_cell hc, Bindings.get?_set, if_neg ne]
      exact hb
    · rw [bindings_define_of_ne eq]
      exact hb

theorem steady_defineAll {entries : List (String × Value)}
    (h : ∀ entry ∈ entries, (Mention.binder entry.1).Ordinary) (s : Store) (a : Address) :
    s.Steady (s.defineAll a entries) := by
  induction entries generalizing s with
  | nil => exact .refl s
  | cons entry rest ih =>
      have first := steady_define (h entry List.mem_cons_self) s a entry.2
      exact first.trans (ih (fun other mem => h other (List.mem_cons_of_mem _ mem)) _)

theorem steady_bindMethod (s : Store) (method : Closure) (receiver : Value) :
    s.Steady (s.bindMethod method receiver).2 := steady_newScope_define s method.scope _ receiver

theorem steady_boundMethod (s : Store) (method : Closure) (receiver : Value) :
    s.Steady (s.boundMethod method receiver).2 :=
  (steady_bindMethod s method receiver).trans (steady_newIdentity _)

/-! ## Homes -/

def BindsSuper (s : Store) (home : Address) (above : List ClassLayer) : Prop :=
  ∃ object, (s.bindings home).get? superclassName = some (.class object) ∧ object.layers = above

/-- A layer, below others, that was made from a declaration. A scope that no method is in may be
gone. -/
structure LayerHome (src : Sources) (s : Store) (layer : ClassLayer)
    (above : List ClassLayer) (decl : ClassDecl Stmt) (home : Address) : Prop where
  made : layer.MadeFrom decl home
  declared : src.declares decl layer above
  within : Within src.mentions (methodsMentions (.method decl 0) decl.methods)
  super : decl.superclass.isSome = true → layer.methods ≠ [] → s.BindsSuper home above

def ClassHomed (src : Sources) (s : Store) (layers : List ClassLayer) : Prop :=
  ∀ layer above, (layer :: above) <:+ layers → ∃ decl home, LayerHome src s layer above decl home

/-- A receiver: the scope that holds it, the scope of the method, and the layer of the method in the
class of the instance. -/
structure Receiver where
  scope : Address
  home : Address
  id : Address
  object : ClassObject
  layer : ClassLayer
  above : List ClassLayer

structure Receives (s : Store) (src : Sources) (decl : ClassDecl Stmt) (r : Receiver) : Prop where
  outside : s.parent? r.scope = some r.home
  holds : (s.bindings r.scope).get? receiverName = some (.instance r.id r.object)
  chain : (r.layer :: r.above) <:+ r.object.layers
  made : r.layer.MadeFrom decl r.home
  declared : src.declares decl r.layer r.above
  super : decl.superclass.isSome = true → s.BindsSuper r.home r.above

def InSetting (s : Store) (src : Sources) (a : Address) : Setting → Prop
  | .outside => True
  | .method decl depth => ∃ r : Receiver, s.ancestor? a depth = some r.scope ∧ s.Receives src decl r

/-- The code of a closure is at home in its scope. The scope of an initializer is the one for its
receiver. -/
def ClosureHomed (src : Sources) (s : Store) (closure : Closure) : Prop :=
  ∃ setting, s.InSetting src closure.scope setting ∧
    Within src.mentions (functionMentions setting closure.decl) ∧
    (closure.isInitializer = true → ∃ decl, setting = .method decl 0)

def WellNamed (method : Closure) : Prop :=
  method.isInitializer = (method.name == ClassObject.initializerName)

def ValueHomed (src : Sources) (s : Store) : Value → Prop
  | .function _ closure => ClosureHomed src s closure
  | .bound _ closure => ClosureHomed src s closure ∧ WellNamed closure
  | .class object => ClassHomed src s object.layers
  | .instance _ object => ClassHomed src s object.layers
  | _ => True

/-! ## Later stores -/

theorem BindsSuper.mono (h : s.BindsSuper home above) (steady : s.Steady t) :
    t.BindsSuper home above := by
  obtain ⟨object, found, layers⟩ := h
  exact ⟨object, steady.reserved _ _ _ (.inr rfl) found, layers⟩

theorem LayerHome.mono (h : LayerHome src s layer above decl home) (steady : s.Steady t) :
    LayerHome src t layer above decl home :=
  ⟨h.made, h.declared, h.within, fun sub some => (h.super sub some).mono steady⟩

theorem ClassHomed.mono (h : ClassHomed src s layers) (steady : s.Steady t) :
    ClassHomed src t layers := by
  intro layer above suffix
  obtain ⟨decl, home, at_home⟩ := h layer above suffix
  exact ⟨decl, home, at_home.mono steady⟩

theorem Receives.mono {r : Receiver} (h : s.Receives src decl r) (steady : s.Steady t) :
    t.Receives src decl r where
  outside := steady.ext.parent? h.outside
  holds := steady.reserved _ _ _ (.inl rfl) h.holds
  chain := h.chain
  made := h.made
  declared := h.declared
  super sub := (h.super sub).mono steady

theorem InSetting.mono (h : s.InSetting src a setting) (steady : s.Steady t) :
    t.InSetting src a setting := by
  cases setting with
  | outside => trivial
  | method decl depth =>
      obtain ⟨r, around, receives⟩ := h
      exact ⟨r, steady.ext.ancestor? around, receives.mono steady⟩

theorem ClosureHomed.mono (h : ClosureHomed src s closure) (steady : s.Steady t) :
    ClosureHomed src t closure := by
  obtain ⟨setting, inside, within, own⟩ := h
  exact ⟨setting, inside.mono steady, within, own⟩

theorem ValueHomed.mono (h : ValueHomed src s value) (steady : s.Steady t) :
    ValueHomed src t value := by
  cases value with
  | function id closure => exact ClosureHomed.mono h steady
  | bound id closure => exact ⟨h.1.mono steady, h.2⟩
  | «class» object => exact ClassHomed.mono h steady
  | «instance» id object => exact ClassHomed.mono h steady
  | _ => trivial

/-! ## More sources -/

def Holds (s : Store) (layer : ClassLayer) (above : List ClassLayer) : Prop :=
  ∃ a, ∃ entry ∈ (s.bindings a).entries ++ (s.fields a).entries, ∃ object,
    entry.2.class? = some object ∧ (layer :: above) <:+ object.layers

structure Widens (s : Store) (src larger : Sources) : Prop where
  mentions : src.mentions ⊆ larger.mentions
  declares : ∀ {decl layer above}, s.Holds layer above → src.declares decl layer above →
    larger.declares decl layer above

theorem ClassHomed.widen (h : ClassHomed src s layers) (widens : s.Widens src larger)
    (held : ∀ layer above, (layer :: above) <:+ layers → s.Holds layer above) :
    ClassHomed larger s layers := by
  intro layer above suffix
  obtain ⟨decl, home, at_home⟩ := h layer above suffix
  exact ⟨decl, home, at_home.made, widens.declares (held layer above suffix) at_home.declared,
    fun x mem => widens.mentions (at_home.within x mem), at_home.super⟩

theorem ClosureHomed.widen (h : ClosureHomed src s closure) (widens : s.Widens src larger) :
    ClosureHomed larger s closure := by
  obtain ⟨setting, inside, within, own⟩ := h
  refine ⟨setting, ?_, fun x mem => widens.mentions (within x mem), own⟩
  cases setting with
  | outside => trivial
  | method decl depth =>
      obtain ⟨r, around, receives⟩ := inside
      have held : s.Holds r.layer r.above := ⟨r.scope, _,
        List.mem_append_left _ (Bindings.mem_entries_of_get? receives.holds), _, rfl,
        receives.chain⟩
      exact ⟨r, around,
        { receives with declared := widens.declares held receives.declared }⟩

theorem ValueHomed.widen (h : ValueHomed src s value) (widens : s.Widens src larger)
    (held : ∀ object, value.class? = some object → ∀ layer above,
      (layer :: above) <:+ object.layers → s.Holds layer above) :
    ValueHomed larger s value := by
  cases value with
  | function id closure => exact ClosureHomed.widen h widens
  | bound id closure => exact ⟨h.1.widen widens, h.2⟩
  | «class» object => exact ClassHomed.widen h widens (held object rfl)
  | «instance» id object => exact ClassHomed.widen h widens (held object rfl)
  | _ => trivial

theorem Stored.widen_homed (h : Stored (ValueHomed src) s) (widens : s.Widens src larger) :
    Stored (ValueHomed larger) s where
  bindings a ha entry he := (h.bindings a ha entry he).widen widens fun object is _ _ suffix =>
    ⟨a, entry, List.mem_append_left _ he, object, is, suffix⟩
  fields a ha entry he := (h.fields a ha entry he).widen widens fun object is _ _ suffix =>
    ⟨a, entry, List.mem_append_right _ he, object, is, suffix⟩

/-! ## New scopes -/

theorem InSetting.inner (h : s.InSetting src p setting) (hp : s.parent? a = some p) :
    s.InSetting src a setting.inner := by
  cases setting with
  | outside => trivial
  | method decl depth =>
      obtain ⟨r, around, receives⟩ := h
      exact ⟨r, (ancestor?_succ hp depth).trans around, receives⟩

theorem InSetting.outer (h : s.InSetting src a setting.inner) (hp : s.parent? a = some p) :
    s.InSetting src p setting := by
  cases setting with
  | outside => trivial
  | method decl depth =>
      obtain ⟨r, around, receives⟩ := h
      exact ⟨r, (ancestor?_succ hp depth).symm.trans around, receives⟩

theorem get?_newIdentity_define (sound : s.Sound) (listed : s.ScopeListed a) (name : String)
    (value : Value) :
    ((s.newIdentity.2.define a name value).bindings a).get? name = some value := by
  obtain ⟨p, bs, cell⟩ := sound.scopeListed_cell listed
  have kept : s.newIdentity.2.cells[a]? = some (.scope p bs) := by
    rw [cells_newIdentity, if_neg (ne_size_of_cell cell)]
    exact cell
  exact get?_define_self kept name value

/-! ## Methods -/

def MethodHomed (src : Sources) (s : Store) (layers : List ClassLayer)
    (method : Closure) : Prop :=
  ∃ layer above decl, (layer :: above) <:+ layers ∧
    LayerHome src s layer above decl method.scope ∧ method.decl ∈ decl.methods ∧
      WellNamed method ∧ layer.methods ≠ []

theorem ClassHomed.of_suffix (h : ClassHomed src s layers) (sub : above <:+ layers) :
    ClassHomed src s above := fun layer rest suffix => h layer rest (suffix.trans sub)

theorem suffix_of_mem (mem : layer ∈ layers) : ∃ above, (layer :: above) <:+ layers := by
  obtain ⟨before, after, rfl⟩ := List.append_of_mem mem
  exact ⟨after, List.suffix_append _ _⟩

theorem method_of_made (made : layer.MadeFrom decl home)
    (mem : (name, method) ∈ layer.methods) :
    method.scope = home ∧ method.decl ∈ decl.methods ∧ WellNamed method ∧ method.name = name := by
  rw [made.methods] at mem
  obtain ⟨declared, inDecl, eq⟩ := List.mem_map.mp (mem_lastOfEach mem)
  cases eq
  exact ⟨rfl, inDecl, rfl, rfl⟩

theorem ClassHomed.method? (h : ClassHomed src s layers)
    (found : layers.findSome? (·.methods.lookup name) = some method) :
    MethodHomed src s layers method := by
  obtain ⟨layer, hl, inLayer⟩ := List.exists_of_findSome?_eq_some found
  have mem := Bindings.mem_of_lookup inLayer
  obtain ⟨above, suffix⟩ := suffix_of_mem hl
  obtain ⟨decl, home, at_home⟩ := h layer above suffix
  obtain ⟨rfl, inDecl, named, -⟩ := method_of_made at_home.made mem
  exact ⟨layer, above, decl, suffix, at_home, inDecl, named, List.ne_nil_of_mem mem⟩

theorem ClassHomed.method?_name (h : ClassHomed src s layers)
    (found : layers.findSome? (·.methods.lookup name) = some method) : method.name = name := by
  obtain ⟨layer, hl, inLayer⟩ := List.exists_of_findSome?_eq_some found
  obtain ⟨above, suffix⟩ := suffix_of_mem hl
  obtain ⟨decl, home, at_home⟩ := h layer above suffix
  exact (method_of_made at_home.made (Bindings.mem_of_lookup inLayer)).2.2.2

theorem ClosureHomed.receiver (h : ClosureHomed src s closure)
    (init : closure.isInitializer = true) : ∃ id object,
      (s.bindings closure.scope).get? receiverName = some (.instance id object) := by
  obtain ⟨setting, inside, -, own⟩ := h
  obtain ⟨decl, rfl⟩ := own init
  obtain ⟨r, around, receives⟩ := inside
  have same : closure.scope = r.scope := Option.some.inj around
  rw [same]
  exact ⟨r.id, r.object, receives.holds⟩

theorem MethodHomed.bindMethod (h : MethodHomed src s layers method) (id : Address)
    (sub : layers <:+ object.layers) :
    ClosureHomed src (s.bindMethod method (.instance id object)).2
      (s.bindMethod method (.instance id object)).1 := by
  obtain ⟨layer, above, decl, suffix, at_home, inDecl, -, some⟩ := h
  have steady := steady_bindMethod s method (.instance id object)
  let r : Receiver := ⟨s.cells.size, method.scope, id, object, layer, above⟩
  have receives : (s.bindMethod method (.instance id object)).2.Receives src decl r :=
    ⟨parent?_newScope_define _ _ _ _, get?_newScope_define _ _ _ _, suffix.trans sub, at_home.made,
      at_home.declared, fun isSub => (at_home.super isSub some).mono steady⟩
  exact ⟨.method decl 0, ⟨r, rfl, receives⟩, mem_methodsMentions at_home.within inDecl,
    fun _ => ⟨decl, rfl⟩⟩

theorem MethodHomed.boundMethod (h : MethodHomed src s layers method) (id : Address)
    (sub : layers <:+ object.layers) :
    ValueHomed src (s.boundMethod method (.instance id object)).2
      (s.boundMethod method (.instance id object)).1 := by
  have named : WellNamed method := by
    obtain ⟨-, -, -, -, -, -, named, -⟩ := h
    exact named
  exact ⟨(h.bindMethod id sub).mono (steady_newIdentity _), named⟩

theorem newClass_homed {superclass : Option ClassObject}
    (is : (s.newClass decl.name.lexeme superclass (decl.methods.map (methodEntry home))).1 =
      .class object)
    (declared : src.declares decl object.layer object.ancestors)
    (within : Within src.mentions (methodsMentions (.method decl 0) decl.methods))
    (same : superclass.isSome = decl.superclass.isSome)
    (binds : ∀ object ∈ superclass, t.BindsSuper home object.layers)
    (above : ∀ object ∈ superclass, ClassHomed src t object.layers) :
    ClassHomed src t object.layers := by
  cases is
  intro layer above' suffix
  rcases List.suffix_cons_iff.mp suffix with eq | suffix
  · cases eq
    refine ⟨decl, home, ⟨rfl, rfl⟩, declared, within, fun sub _ => ?_⟩
    cases superclass with
    | none =>
        rw [← same] at sub
        cases sub
    | some object => exact binds object rfl
  · cases superclass with
    | none => cases List.suffix_nil.mp suffix
    | some object => exact above object rfl layer above' suffix

/-! ## What is stored -/

theorem Stored.define_homed (h : Stored (ValueHomed src) s)
    (steady : s.Steady (s.define a name value)) (hv : ValueHomed src s value) :
    Stored (ValueHomed src) (s.define a name value) :=
  h.define_kept (fun _ homed => homed.mono steady) (hv.mono steady)

theorem Stored.newScope_homed (h : Stored (ValueHomed src) s) (p : Address) :
    Stored (ValueHomed src) (s.newScope p).2 :=
  h.newScope_kept fun _ homed => homed.mono (steady_newScope s p)

theorem Stored.newIdentity_homed (h : Stored (ValueHomed src) s) :
    Stored (ValueHomed src) s.newIdentity.2 :=
  h.newIdentity_kept fun _ homed => homed.mono (steady_newIdentity s)

theorem Stored.newScope_define_homed (h : Stored (ValueHomed src) s) (p : Address) (name : String)
    (hv : ValueHomed src s value) :
    Stored (ValueHomed src) ((s.newScope p).2.define (s.newScope p).1 name value) :=
  (h.newScope_homed p).define_homed (steady_define_empty (bindings_of_newScope s p) name value)
    (hv.mono (steady_newScope s p))

theorem Stored.defineAll_homed (h : Stored (ValueHomed src) s) {entries : List (String × Value)}
    (names : ∀ entry ∈ entries, (Mention.binder entry.1).Ordinary)
    (hv : ∀ entry ∈ entries, ValueHomed src s entry.2) :
    Stored (ValueHomed src) (s.defineAll a entries) := by
  induction entries generalizing s with
  | nil => exact h
  | cons entry rest ih =>
      have steady := steady_define (names entry List.mem_cons_self) s a entry.2
      have others : ∀ other ∈ rest, ValueHomed src (s.define a entry.1 entry.2) other.2 :=
        fun other mem => (hv other (List.mem_cons_of_mem _ mem)).mono steady
      exact ih (h.define_homed steady (hv entry List.mem_cons_self))
        (fun other mem => names other (List.mem_cons_of_mem _ mem)) others

/-! ## Collecting -/

theorem BindsSuper.collect (h : s.BindsSuper home above) (marked : home ∈ s.marked root) :
    (s.collect root).BindsSuper home above := by
  obtain ⟨object, found, layers⟩ := h
  refine ⟨object, ?_, layers⟩
  rw [bindings_collect_of_marked marked]
  exact found

theorem InSetting.collect (sound : s.Sound) (hr : s.ScopeListed root)
    (h : s.InSetting src a setting) (marked : a ∈ s.marked root) :
    (s.collect root).InSetting src a setting := by
  cases setting with
  | outside => trivial
  | method decl depth =>
      obtain ⟨r, around, receives⟩ := h
      have kept := sound.marked_ancestor hr marked around
      have homeKept := sound.marked_parent hr kept receives.outside
      have ext := extends_collect s root
      refine ⟨r, ext.ancestor? around, ext.parent? receives.outside, ?_, receives.chain,
        receives.made, receives.declared, fun sub => (receives.super sub).collect homeKept⟩
      rw [bindings_collect_of_marked kept]
      exact receives.holds

theorem ClosureHomed.collect (sound : s.Sound) (hr : s.ScopeListed root)
    (h : ClosureHomed src s closure) (marked : closure.scope ∈ s.marked root) :
    ClosureHomed src (s.collect root) closure := by
  obtain ⟨setting, inside, within, own⟩ := h
  exact ⟨setting, inside.collect sound hr marked, within, own⟩

theorem ClassHomed.collect (h : ClassHomed src s object.layers)
    (marked : ∀ b ∈ Value.classScopes object, b ∈ s.marked root) :
    ClassHomed src (s.collect root) object.layers := by
  intro layer above suffix
  obtain ⟨decl, home, at_home⟩ := h layer above suffix
  refine ⟨decl, home, at_home.made, at_home.declared, at_home.within, fun sub some => ?_⟩
  obtain ⟨m, mem⟩ := List.exists_mem_of_ne_nil _ some
  obtain ⟨rfl, -⟩ := method_of_made at_home.made mem
  have inLayers : layer ∈ object.layers := suffix.subset List.mem_cons_self
  have kept := marked m.2.scope
    (List.mem_flatMap.mpr ⟨layer, inLayers, List.mem_map.mpr ⟨m, mem, rfl⟩⟩)
  exact (at_home.super sub some).collect kept

theorem ValueHomed.collect (sound : s.Sound) (hr : s.ScopeListed root)
    (h : ValueHomed src s value) (marked : ∀ b ∈ value.references, b ∈ s.marked root) :
    ValueHomed src (s.collect root) value := by
  cases value with
  | function id closure => exact ClosureHomed.collect sound hr h (marked _ List.mem_cons_self)
  | bound id closure => exact ⟨h.1.collect sound hr (marked _ List.mem_cons_self), h.2⟩
  | «class» object => exact ClassHomed.collect h marked
  | «instance» id object =>
      exact ClassHomed.collect h fun b hb => marked b (List.mem_cons_of_mem _ hb)
  | _ => trivial

theorem Stored.collect_homed (sound : s.Sound) (hr : s.ScopeListed root)
    (h : Stored (ValueHomed src) s) : Stored (ValueHomed src) (s.collect root) :=
  h.collect_kept sound hr fun _ homed marked => homed.collect sound hr marked

end Store

end ClassScript
