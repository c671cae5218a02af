import ClassScript.Proofs.Lexical.Chain
import ClassScript.Proofs.Store.Stored

namespace ClassScript.Store

open Binding

variable {visited larger : Set (Scopes × Expr)} {s t : Store} {a root : Address} {scopes : Scopes}
  {value receiver : Value} {object : ClassObject} {closure method : Closure} {name : String}
  {decl : FunctionDecl Stmt}

def ClosurePlaced (visited : Set (Scopes × Expr)) (s : Store) (closure : Closure) : Prop :=
  ∃ scopes, s.ScopesAgree closure.scope scopes ∧ Within visited (functionVisits scopes closure.decl)

-- The scope for the receiver is still to come.
def MethodPlaced (visited : Set (Scopes × Expr)) (s : Store) (method : Closure) : Prop :=
  ∃ scopes, s.ScopesAgree method.scope scopes ∧
    Within visited (functionVisits (["this"] :: scopes) method.decl)

def LayerPlaced (visited : Set (Scopes × Expr)) (s : Store) (layer : ClassLayer) : Prop :=
  ∀ m ∈ layer.methods, MethodPlaced visited s m.2

def ClassPlaced (visited : Set (Scopes × Expr)) (s : Store) (object : ClassObject) : Prop :=
  ∀ layer ∈ object.layers, LayerPlaced visited s layer

/-- The code in a value is visited at a place that the scopes of the value agree with. -/
def ValuePlaced (visited : Set (Scopes × Expr)) (s : Store) : Value → Prop
  | .function _ closure => ClosurePlaced visited s closure
  | .bound _ closure => ClosurePlaced visited s closure
  | .class object => ClassPlaced visited s object
  | .instance _ object => ClassPlaced visited s object
  | _ => True

theorem ClosurePlaced.mono (h : ClosurePlaced visited s closure) (grows : s.Grows t) :
    ClosurePlaced visited t closure := by
  obtain ⟨scopes, agree, within⟩ := h
  exact ⟨scopes, agree.mono grows, within⟩

theorem ClassPlaced.mono (h : ClassPlaced visited s object) (grows : s.Grows t) :
    ClassPlaced visited t object := by
  intro layer hl m hm
  obtain ⟨scopes, agree, within⟩ := h layer hl m hm
  exact ⟨scopes, agree.mono grows, within⟩

theorem valuePlaced_lasting : Lasting (ValuePlaced visited) := by
  intro s t v grows h
  cases v with
  | function id closure => exact ClosurePlaced.mono h grows
  | bound id closure => exact ClosurePlaced.mono h grows
  | «class» object => exact ClassPlaced.mono h grows
  | «instance» id object => exact ClassPlaced.mono h grows
  | _ => trivial

theorem ClosurePlaced.widen (h : ClosurePlaced visited s closure) (sub : visited ⊆ larger) :
    ClosurePlaced larger s closure := by
  obtain ⟨scopes, agree, within⟩ := h
  exact ⟨scopes, agree, fun visit mem => sub (within visit mem)⟩

theorem ClassPlaced.widen (h : ClassPlaced visited s object) (sub : visited ⊆ larger) :
    ClassPlaced larger s object := by
  intro layer hl m hm
  obtain ⟨scopes, agree, within⟩ := h layer hl m hm
  exact ⟨scopes, agree, fun visit mem => sub (within visit mem)⟩

theorem ValuePlaced.widen (h : ValuePlaced visited s value) (sub : visited ⊆ larger) :
    ValuePlaced larger s value := by
  cases value with
  | function id closure => exact ClosurePlaced.widen h sub
  | bound id closure => exact ClosurePlaced.widen h sub
  | «class» object => exact ClassPlaced.widen h sub
  | «instance» id object => exact ClassPlaced.widen h sub
  | _ => trivial

theorem ClassPlaced.method? (h : ClassPlaced visited s object)
    (found : object.method? name = some method) : MethodPlaced visited s method := by
  obtain ⟨layer, hl, inLayer⟩ := List.exists_of_findSome?_eq_some found
  exact h layer hl _ (Bindings.mem_of_lookup inLayer)

theorem contains_define_newScope (s : Store) (p : Address) (name : String) (value : Value) :
    (((s.newScope p).2.define (s.newScope p).1 name value).bindings
      (s.newScope p).1).contains name = true := by
  unfold Bindings.contains
  rw [get?_newScope_define]
  rfl

theorem ScopesAgree.newScope {p : Address} (h : s.ScopesAgree p scopes) :
    (s.newScope p).2.ScopesAgree (s.newScope p).1 ([] :: scopes) :=
  .scope (parent?_newScope s p) (fun _ mem => by cases mem) (h.mono (grows_newScope s p))

theorem ScopesAgree.newScope_define {p : Address} (h : s.ScopesAgree p scopes) (name : String)
    (value : Value) :
    ((s.newScope p).2.define (s.newScope p).1 name value).ScopesAgree (s.newScope p).1
      ([name] :: scopes) := by
  have grows := grows_define (s.newScope p).2 (s.newScope p).1 name value
  apply ScopesAgree.scope
  · exact grows.ext.parent? (parent?_newScope s p)
  · intro other mem
    rw [List.mem_singleton.mp mem]
    exact contains_define_newScope s p name value
  · exact (h.mono (grows_newScope s p)).mono grows

theorem Sound.contains_define (sound : s.Sound) (ha : s.ScopeListed a) (name : String)
    (value : Value) : ((s.define a name value).bindings a).contains name = true := by
  obtain ⟨p, bs, hc⟩ := sound.scopeListed_cell ha
  rw [bindings_define_of_cell hc]
  exact Bindings.contains_set_self _ _ _

theorem ScopesAgree.define (h : s.ScopesAgree a scopes) (sound : s.Sound) (ha : s.ScopeListed a)
    (name : String) (value : Value) :
    (s.define a name value).ScopesAgree a (Binding.declare name scopes) :=
  (h.mono (grows_define s a name value)).declare (sound.contains_define ha name value)

theorem contains_defineAll {p : Option Address} {bs : Bindings}
    (hc : s.cells[a]? = some (.scope p bs)) {entries : List (String × Value)}
    (mem : name ∈ entries.map Prod.fst) :
    ((s.defineAll a entries).bindings a).contains name = true := by
  induction entries generalizing s bs with
  | nil => cases mem
  | cons entry rest ih =>
      have here := cells_define s a a entry.1 entry.2
      rw [if_pos rfl, hc] at here
      rcases List.mem_cons.mp mem with rfl | mem
      · apply (grows_defineAll (s.define a entry.1 entry.2) a rest).names
        rw [bindings_define_of_cell hc]
        exact Bindings.contains_set_self _ _ _
      · exact ih here mem

theorem ScopesAgree.newScope_defineAll {p : Address} (h : s.ScopesAgree p scopes)
    {names : List String} {values : List Value} (same : values.length = names.length) :
    ((s.newScope p).2.defineAll (s.newScope p).1 (names.zip values)).ScopesAgree (s.newScope p).1
      (names.reverse :: scopes) := by
  have grows := grows_defineAll (s.newScope p).2 (s.newScope p).1 (names.zip values)
  have created := cells_newScope s p s.cells.size
  rw [if_pos rfl] at created
  apply ScopesAgree.scope
  · exact grows.ext.parent? (parent?_newScope s p)
  · intro name mem
    apply contains_defineAll created
    rw [List.map_fst_zip same.ge]
    exact List.mem_reverse.mp mem
  · exact (h.mono (grows_newScope s p)).mono grows

theorem MethodPlaced.bindMethod (h : MethodPlaced visited s method) (receiver : Value) :
    ClosurePlaced visited (s.bindMethod method receiver).2 (s.bindMethod method receiver).1 := by
  obtain ⟨scopes, agree, within⟩ := h
  exact ⟨["this"] :: scopes, agree.newScope_define receiverName receiver, within⟩

theorem MethodPlaced.boundMethod (h : MethodPlaced visited s method) (receiver : Value) :
    ValuePlaced visited (s.boundMethod method receiver).2 (s.boundMethod method receiver).1 :=
  (h.bindMethod receiver).mono (grows_newIdentity _)

theorem within_methodsVisits {ms : List (FunctionDecl Stmt)}
    (h : Within visited (methodsVisits scopes ms)) (mem : decl ∈ ms) :
    Within visited (functionVisits scopes decl) := by
  induction ms with
  | nil => cases mem
  | cons first rest ih =>
      obtain ⟨hfirst, hrest⟩ := within_append.mp h
      rcases List.mem_cons.mp mem with rfl | mem
      · exact hfirst
      · exact ih hrest mem

theorem newClass_placed (name : String) {ms : List (FunctionDecl Stmt)}
    {superclass : Option ClassObject}
    (agree : t.ScopesAgree a scopes)
    (within : Within visited (methodsVisits (["this"] :: scopes) ms))
    (above : ∀ object ∈ superclass, ClassPlaced visited t object) :
    ValuePlaced visited t (s.newClass name superclass (ms.map (methodEntry a))).1 := by
  intro layer hl
  rcases List.mem_cons.mp hl with rfl | hl
  · intro m hm
    obtain ⟨decl, mem, rfl⟩ := List.mem_map.mp (mem_lastOfEach hm)
    exact ⟨scopes, agree, within_methodsVisits within mem⟩
  · cases superclass with
    | none => cases hl
    | some object => exact above object rfl layer hl

theorem ClosurePlaced.collect (sound : s.Sound) (hr : s.ScopeListed root)
    (h : ClosurePlaced visited s closure) (marked : closure.scope ∈ s.marked root) :
    ClosurePlaced visited (s.collect root) closure := by
  obtain ⟨scopes, agree, within⟩ := h
  exact ⟨scopes, agree.collect sound hr marked, within⟩

theorem ClassPlaced.collect (sound : s.Sound) (hr : s.ScopeListed root)
    (h : ClassPlaced visited s object)
    (marked : ∀ b ∈ Value.classScopes object, b ∈ s.marked root) :
    ClassPlaced visited (s.collect root) object := by
  intro layer hl m hm
  obtain ⟨scopes, agree, within⟩ := h layer hl m hm
  have kept := marked m.2.scope (List.mem_flatMap.mpr ⟨layer, hl, List.mem_map.mpr ⟨m, hm, rfl⟩⟩)
  exact ⟨scopes, agree.collect sound hr kept, within⟩

theorem ValuePlaced.collect (sound : s.Sound) (hr : s.ScopeListed root)
    (h : ValuePlaced visited s value) (marked : ∀ b ∈ value.references, b ∈ s.marked root) :
    ValuePlaced visited (s.collect root) value := by
  cases value with
  | function id closure => exact ClosurePlaced.collect sound hr h (marked _ List.mem_cons_self)
  | bound id closure => exact ClosurePlaced.collect sound hr h (marked _ List.mem_cons_self)
  | «class» object => exact ClassPlaced.collect sound hr h marked
  | «instance» id object =>
      exact ClassPlaced.collect sound hr h fun b hb => marked b (List.mem_cons_of_mem _ hb)
  | _ => trivial

theorem Stored.collect (sound : s.Sound) (hr : s.ScopeListed root)
    (h : Stored (ValuePlaced visited) s) : Stored (ValuePlaced visited) (s.collect root) :=
  h.collect_kept sound hr fun _ placed marked => placed.collect sound hr marked

theorem Stored.widen (h : Stored (ValuePlaced visited) s) (sub : visited ⊆ larger) :
    Stored (ValuePlaced larger) s :=
  ⟨fun a ha entry he => (h.bindings a ha entry he).widen sub,
    fun a ha entry he => (h.fields a ha entry he).widen sub⟩

end ClassScript.Store
