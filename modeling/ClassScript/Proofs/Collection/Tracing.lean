import Mathlib.Algebra.BigOperators.Group.Multiset.Defs
import Mathlib.Algebra.Order.Group.Multiset
import Mathlib.Data.Finset.Range
import Mathlib.Data.Prod.Lex
import ClassScript.Proofs.Collection.Registry

/-!
# Tracing with two worklists

A trace looks at the scopes and the values that it has noted, and notes what they hold on to. It
stops at scopes and instances that it met before, and goes up the classes above a class until it
comes to one that it met. `Step` leaves open in which order it looks at them, so what is said here
holds for every order: a trace ends (`terminates`), and then it has met exactly what its root leads
to (`mem_scopes_iff`, `mem_instances_iff`).
-/

namespace ClassScript.Store

def Node.Among (values : Set Value) : Node → Prop
  | .scope _ => True
  | .value v => v ∈ values

/-- Values such that the identity of a class or an instance tells all about it, and that hold all
values that are stored or that they hold on to themselves. -/
structure Told (s : Store) (told : Set Value) : Prop where
  binding : ∀ a, ∀ entry ∈ (s.bindings a).entries, entry.2 ∈ told
  field : ∀ id, ∀ entry ∈ (s.fields id).entries, entry.2 ∈ told
  superclass : ∀ layer above rest,
    .class ⟨layer, above :: rest⟩ ∈ told → .class ⟨above, rest⟩ ∈ told
  instanceOf : ∀ id object, .instance id object ∈ told → .class object ∈ told
  sameClass : ∀ object other, .class object ∈ told → .class other ∈ told →
    object.layer.id = other.layer.id → object = other
  sameInstance : ∀ id object other, .instance id object ∈ told → .instance id other ∈ told →
    object = other

theorem Told.leads {s : Store} {told : Set Value} {x y : Node} (h : Told s told)
    (hx : x.Among told) (leads : s.Leads x y) : y.Among told := by
  cases leads with
  | binding mem => exact h.binding _ _ mem
  | superclass => exact h.superclass _ _ _ hx
  | instanceOf => exact h.instanceOf _ _ hx
  | field mem => exact h.field _ _ mem
  | parent | function | bound | method => trivial

structure Trace where
  scopes : Finset Address
  instances : Finset Address
  classes : Finset Address
  pendingScopes : Multiset Address
  pendingValues : Multiset Value

namespace Trace

def start (root : Address) : Trace := ⟨∅, ∅, ∅, {root}, 0⟩

def values (b : Bindings) : Multiset Value := b.entries.map (·.2)

def methodScopes (layer : ClassLayer) : List Address := layer.methods.map (·.2.scope)

def walk (t : Trace) : List ClassLayer → Trace
  | [] => t
  | layer :: above =>
    if layer.id ∈ t.classes then t
    else
      walk { t with
        classes := insert layer.id t.classes
        pendingScopes := methodScopes layer + t.pendingScopes } above

def visit (s : Store) (t : Trace) : Value → Trace
  | .function _ closure => { t with pendingScopes := closure.scope ::ₘ t.pendingScopes }
  | .bound _ closure => { t with pendingScopes := closure.scope ::ₘ t.pendingScopes }
  | .class object => t.walk object.layers
  | .instance id object =>
    if id ∈ t.instances then t
    else
      let met := { t with instances := insert id t.instances }.walk object.layers
      { met with pendingValues := values (s.fields id) + met.pendingValues }
  | _ => t

/-- A trace takes up something pending, whichever it is. -/
inductive Step (s : Store) : Trace → Trace → Prop
  | again {t a rest} : t.pendingScopes = a ::ₘ rest → a ∈ t.scopes →
      Step s t { t with pendingScopes := rest }
  | scope {t a rest} : t.pendingScopes = a ::ₘ rest → a ∉ t.scopes →
      Step s t { t with
        scopes := insert a t.scopes
        pendingScopes := (s.parent? a).toList + rest
        pendingValues := values (s.bindings a) + t.pendingValues }
  | value {t v rest} : t.pendingValues = v ::ₘ rest →
      Step s t (visit s { t with pendingValues := rest } v)

def Done (t : Trace) : Prop := t.pendingScopes = 0 ∧ t.pendingValues = 0

variable {s : Store} {t u : Trace} {a root : Address} {layers : List ClassLayer}

theorem walk_eq (t : Trace) (layers : List ClassLayer) : ∃ classes pendingScopes,
    t.walk layers = { t with classes, pendingScopes } ∧ t.classes ⊆ classes ∧
      t.pendingScopes ≤ pendingScopes ∧
      pendingScopes ≤ ↑(layers.flatMap methodScopes) + t.pendingScopes := by
  induction layers generalizing t with
  | nil => exact ⟨_, _, rfl, subset_rfl, le_rfl, Multiset.le_add_left _ _⟩
  | cons layer above ih =>
      unfold walk
      split
      · exact ⟨_, _, rfl, subset_rfl, le_rfl, Multiset.le_add_left _ _⟩
      · let next : Trace := { t with
          classes := insert layer.id t.classes
          pendingScopes := methodScopes layer + t.pendingScopes }
        obtain ⟨classes, pending, eq, sub, more, le⟩ := ih next
        refine ⟨classes, pending, eq, ?_, ?_, ?_⟩
        · exact (Finset.subset_insert _ _).trans sub
        · exact (Multiset.le_add_left _ _).trans more
        · apply le.trans_eq
          rw [List.flatMap_cons, ← Multiset.coe_add, ← add_assoc]
          exact congrArg (· + t.pendingScopes) (add_comm _ _)

theorem walk_pendingValues (t : Trace) (layers : List ClassLayer) (pendingValues : Multiset Value) :
    { t with pendingValues }.walk layers = { t.walk layers with pendingValues } := by
  induction layers generalizing t with
  | nil => rfl
  | cons layer above ih =>
      unfold walk
      split
      · rfl
      · exact ih { t with
          classes := insert layer.id t.classes
          pendingScopes := methodScopes layer + t.pendingScopes }

theorem mem_values {b : Bindings} {v : Value} :
    v ∈ values b ↔ ∃ entry ∈ b.entries, entry.2 = v := by
  simp [values]

/-! ## Termination -/

def weight (v : Value) : Nat := 1 + v.references.length

/-- What has no cell holds on to nothing, so only what has one counts as not met. -/
def rank (s : Store) (t : Trace) : Nat ×ₗ Nat :=
  toLex ((Finset.range s.cells.size \ t.scopes).card +
      (Finset.range s.cells.size \ t.instances).card,
    t.pendingScopes.card + (t.pendingValues.map weight).sum)

theorem rank_lt_of_fewer
    (fewer : (Finset.range s.cells.size \ u.scopes).card +
        (Finset.range s.cells.size \ u.instances).card <
      (Finset.range s.cells.size \ t.scopes).card +
        (Finset.range s.cells.size \ t.instances).card) : rank s u < rank s t :=
  Prod.Lex.toLex_lt_toLex.mpr (.inl fewer)

theorem rank_lt_of_less
    (scopes : Finset.range s.cells.size \ u.scopes = Finset.range s.cells.size \ t.scopes)
    (instances : Finset.range s.cells.size \ u.instances = Finset.range s.cells.size \ t.instances)
    (less : u.pendingScopes.card + (u.pendingValues.map weight).sum <
      t.pendingScopes.card + (t.pendingValues.map weight).sum) : rank s u < rank s t :=
  Prod.Lex.toLex_lt_toLex.mpr (.inr ⟨by rw [scopes, instances], less⟩)

theorem card_insert_lt {n : Nat} {met : Finset Address} (range : a < n) (fresh : a ∉ met) :
    (Finset.range n \ insert a met).card < (Finset.range n \ met).card := by
  rw [Finset.sdiff_insert]
  exact Finset.card_erase_lt_of_mem (by simp [range, fresh])

theorem sdiff_insert_of_le {n : Nat} (met : Finset Address) (range : n ≤ a) :
    Finset.range n \ insert a met = Finset.range n \ met := by
  rw [Finset.sdiff_insert]
  exact Finset.erase_eq_of_notMem (by simp [range])

theorem length_methodScopes (object : ClassObject) :
    (object.layers.flatMap methodScopes).length = (Value.classScopes object).length := rfl

theorem rank_visit (v : Value) {rest : Multiset Value} (h : t.pendingValues = v ::ₘ rest) :
    rank s (visit s { t with pendingValues := rest } v) < rank s t := by
  cases v with
  | function id closure | bound id closure =>
      refine rank_lt_of_less rfl rfl ?_
      simp [visit, h, weight, Value.references]
      omega
  | «class» object =>
      obtain ⟨classes, pending, eq, -, -, le⟩ :=
        walk_eq { t with pendingValues := rest } object.layers
      have few := Multiset.card_le_card le
      simp only [visit, eq]
      refine rank_lt_of_less rfl rfl ?_
      simp [h, weight, Value.references, ← length_methodScopes] at few ⊢
      omega
  | «instance» id object =>
      simp only [visit]
      split
      · refine rank_lt_of_less rfl rfl ?_
        simp [h, weight]
      · rename_i fresh
        obtain ⟨classes, pending, eq, -, -, le⟩ := walk_eq
          { t with pendingValues := rest, instances := insert id t.instances } object.layers
        have few := Multiset.card_le_card le
        simp only [eq]
        by_cases range : id < s.cells.size
        · exact rank_lt_of_fewer (Nat.add_lt_add_left (card_insert_lt range fresh) _)
        · have none : s.cells[id]? = none := Array.getElem?_eq_none (Nat.le_of_not_lt range)
          refine rank_lt_of_less rfl (sdiff_insert_of_le _ (Nat.le_of_not_lt range)) ?_
          simp [h, weight, Value.references, ← length_methodScopes, fields, none, values] at few ⊢
          omega
  | nil | bool | number | string | clock =>
      refine rank_lt_of_less rfl rfl ?_
      simp [visit, h, weight]

theorem rank_step (h : Step s t u) : rank s u < rank s t := by
  cases h with
  | again pending _ => exact rank_lt_of_less rfl rfl (by simp [pending])
  | @scope a rest pending fresh =>
      by_cases range : a < s.cells.size
      · exact rank_lt_of_fewer (Nat.add_lt_add_right (card_insert_lt range fresh) _)
      · have none : s.cells[a]? = none := Array.getElem?_eq_none (Nat.le_of_not_lt range)
        refine rank_lt_of_less (sdiff_insert_of_le _ (Nat.le_of_not_lt range)) rfl ?_
        simp [pending, parent?, bindings, none, values]
  | value pending => exact rank_visit _ pending

theorem terminates (s : Store) : WellFounded fun u t => Step s t u :=
  Subrelation.wf rank_step (InvImage.wf (rank s) wellFounded_lt)

theorem exists_step (h : ¬ t.Done) : ∃ u, Step s t u := by
  by_cases scopes : t.pendingScopes = 0
  · obtain ⟨v, mem⟩ := Multiset.exists_mem_of_ne_zero fun values => h ⟨scopes, values⟩
    obtain ⟨rest, pending⟩ := Multiset.exists_cons_of_mem mem
    exact ⟨_, .value pending⟩
  · obtain ⟨a, mem⟩ := Multiset.exists_mem_of_ne_zero scopes
    obtain ⟨rest, pending⟩ := Multiset.exists_cons_of_mem mem
    by_cases known : a ∈ t.scopes
    · exact ⟨_, .again pending known⟩
    · exact ⟨_, .scope pending known⟩

theorem exists_done (s : Store) (t : Trace) :
    ∃ u, Relation.ReflTransGen (Step s) t u ∧ u.Done := by
  induction t using (terminates s).induction with
  | _ t ih =>
      by_cases done : t.Done
      · exact ⟨t, .refl, done⟩
      · obtain ⟨next, step⟩ := exists_step (s := s) done
        obtain ⟨u, run, done⟩ := ih next step
        exact ⟨u, .head step run, done⟩

/-! ## What a trace has met -/

def Met (t : Trace) : Node → Prop
  | .scope a => a ∈ t.scopes
  | .value (.function _ closure) => closure.scope ∈ t.scopes ∨ closure.scope ∈ t.pendingScopes
  | .value (.bound _ closure) => closure.scope ∈ t.scopes ∨ closure.scope ∈ t.pendingScopes
  | .value (.class object) => object.layer.id ∈ t.classes
  | .value (.instance id _) => id ∈ t.instances
  | .value _ => True

def Pending (t : Trace) : Node → Prop
  | .scope a => a ∈ t.pendingScopes
  | .value v => v ∈ t.pendingValues

def Seen (t : Trace) (x : Node) : Prop := t.Met x ∨ t.Pending x

variable {told : Set Value} {x y : Node} {object : ClassObject}

structure Onward (t u : Trace) : Prop where
  scopes : t.scopes ⊆ u.scopes
  instances : t.instances ⊆ u.instances
  classes : t.classes ⊆ u.classes
  pending : ∀ a ∈ t.pendingScopes, u.Seen (.scope a)

theorem Onward.scope (h : t.Onward u) (ha : t.Seen (.scope a)) : u.Seen (.scope a) :=
  ha.elim (fun met => .inl (h.scopes met)) (h.pending a)

theorem Onward.met (h : t.Onward u) (hx : t.Met x) : u.Met x := by
  cases x with
  | scope a => exact h.scopes hx
  | value v =>
      cases v with
      | function id closure | bound id closure => exact h.scope hx
      | «class» object => exact h.classes hx
      | «instance» id object => exact h.instances hx
      | _ => trivial

theorem onward_walk (t : Trace) (layers : List ClassLayer) : t.Onward (t.walk layers) := by
  obtain ⟨classes, pending, eq, sub, more, -⟩ := walk_eq t layers
  rw [eq]
  exact ⟨subset_rfl, subset_rfl, sub, fun a ha => .inr (Multiset.mem_of_le more ha)⟩

theorem mem_methodScopes {layer : ClassLayer} {m : String × Closure} (mem : m ∈ layer.methods) :
    m.2.scope ∈ (methodScopes layer : Multiset Address) :=
  Multiset.mem_coe.mpr (List.mem_map.mpr ⟨m, mem, rfl⟩)

theorem walk_met (h : Told s told) (ho : .class object ∈ told) :
    (t.walk object.layers).Met (.value (.class object)) ∧
      ∀ other, .class other ∈ told → (t.walk object.layers).Met (.value (.class other)) →
        t.Met (.value (.class other)) ∨
          ∀ y, s.Leads (.value (.class other)) y → (t.walk object.layers).Seen y := by
  obtain ⟨layer, ancestors⟩ := object
  induction ancestors generalizing layer t with
  | nil =>
      simp only [ClassObject.layers, walk]
      split
      · rename_i met
        exact ⟨met, fun _ _ met => .inl met⟩
      · refine ⟨Finset.mem_insert_self _ _, fun other told met => ?_⟩
        rcases Finset.mem_insert.mp met with same | met
        · obtain rfl := h.sameClass _ _ told ho same
          refine .inr fun y leads => ?_
          cases leads with
          | method mem =>
              exact .inr (Multiset.mem_add.mpr (.inl (mem_methodScopes mem)))
        · exact .inl met
  | cons above rest ih =>
      have upper := h.superclass _ _ _ ho
      simp only [ClassObject.layers]
      unfold walk
      split
      · rename_i met
        exact ⟨met, fun _ _ met => .inl met⟩
      · let next : Trace := { t with
          classes := insert layer.id t.classes
          pendingScopes := methodScopes layer + t.pendingScopes }
        obtain ⟨first, others⟩ := @ih next above upper
        have onward := onward_walk next (above :: rest)
        refine ⟨onward.classes (Finset.mem_insert_self _ _), fun other told met => ?_⟩
        rcases others other told met with met | noted
        · rcases Finset.mem_insert.mp met with same | met
          · obtain rfl := h.sameClass _ _ told ho same
            refine .inr fun y leads => ?_
            cases leads with
            | method mem =>
                apply onward.scope
                exact .inr (Multiset.mem_add.mpr (.inl (mem_methodScopes mem)))
            | superclass => exact .inl first
          · exact .inl met
        · exact .inr noted

structure Follows (s : Store) (told : Set Value) (root : Address) (t : Trace) : Prop where
  begun : t.Seen (.scope root)
  noted : ∀ x, x.Among told → t.Met x → ∀ y, s.Leads x y → t.Seen y
  scope : ∀ a, t.Seen (.scope a) → Relation.ReflTransGen s.Leads (.scope root) (.scope a)
  value : ∀ v ∈ t.pendingValues,
    v ∈ told ∧ Relation.ReflTransGen s.Leads (.scope root) (.value v)
  instances : ∀ id ∈ t.instances, ∃ object,
    Relation.ReflTransGen s.Leads (.scope root) (.value (.instance id object))

theorem follows_start (s : Store) (told : Set Value) (root : Address) :
    Follows s told root (start root) where
  begun := .inr (Multiset.mem_singleton_self root)
  noted x _ met y leads := by
    cases leads with
    | function | bound => exact met
    | binding | parent | method | superclass | instanceOf | field => simp [Met, start] at met
  scope a seen := by
    rcases seen with met | pending
    · simp [Met, start] at met
    · obtain rfl := Multiset.mem_singleton.mp pending
      exact .refl
  value v mem := by simp [start] at mem
  instances id mem := by simp [start] at mem

theorem Follows.next (h : Follows s told root t) (onward : t.Onward u)
    (kept : ∀ v ∈ t.pendingValues, u.Seen (.value v))
    (scopes : ∀ a ∈ u.scopes, a ∈ t.scopes ∨ ∀ y, s.Leads (.scope a) y → u.Seen y)
    (classes : ∀ object, .class object ∈ told → object.layer.id ∈ u.classes →
      object.layer.id ∈ t.classes ∨ ∀ y, s.Leads (.value (.class object)) y → u.Seen y)
    (instances : ∀ id ∈ u.instances, id ∈ t.instances ∨
      (∀ object, .instance id object ∈ told →
        ∀ y, s.Leads (.value (.instance id object)) y → u.Seen y) ∧
      ∃ object, Relation.ReflTransGen s.Leads (.scope root) (.value (.instance id object)))
    (scope : ∀ a, u.Seen (.scope a) → t.Seen (.scope a) ∨
      Relation.ReflTransGen s.Leads (.scope root) (.scope a))
    (value : ∀ v ∈ u.pendingValues, v ∈ t.pendingValues ∨
      v ∈ told ∧ Relation.ReflTransGen s.Leads (.scope root) (.value v)) :
    Follows s told root u where
  begun := onward.scope h.begun
  noted x among met := by
    have before : t.Met x → ∀ y, s.Leads x y → u.Seen y := by
      intro met y leads
      rcases h.noted x among met y leads with met | pending
      · exact .inl (onward.met met)
      · cases y with
        | scope a => exact onward.pending a pending
        | value v => exact kept v pending
    cases x with
    | scope a => exact (scopes a met).elim before id
    | value v =>
        cases v with
        | «class» object => exact (classes object among met).elim before id
        | «instance» id object => exact (instances id met).elim before fun new => new.1 object among
        | function id closure | bound id closure =>
            intro y leads
            cases leads
            exact met
        | nil | bool | number | string | clock =>
            intro y leads
            cases leads
  scope a seen := (scope a seen).elim (h.scope a) id
  value v mem := (value v mem).elim (h.value v) id
  instances id mem := (instances id mem).elim (h.instances id) fun new => new.2

theorem seen_walk (layers : List ClassLayer) (seen : (t.walk layers).Seen (.scope a)) :
    t.Seen (.scope a) ∨ a ∈ layers.flatMap methodScopes := by
  obtain ⟨classes, pending, eq, -, -, le⟩ := walk_eq t layers
  rw [eq] at seen
  rcases seen with met | pending
  · exact .inl (.inl met)
  · rcases Multiset.mem_add.mp (Multiset.mem_of_le le pending) with mem | mem
    · exact .inr mem
    · exact .inl (.inr mem)

section

variable {v : Value} {rest : Multiset Value}

theorem mem_pending_cons (pending : t.pendingValues = v ::ₘ rest) {w : Value} :
    w ∈ t.pendingValues ↔ w = v ∨ w ∈ rest := by
  rw [pending, Multiset.mem_cons]

theorem Follows.first (follows : Follows s told root t) (pending : t.pendingValues = v ::ₘ rest) :
    v ∈ told ∧ Relation.ReflTransGen s.Leads (.scope root) (.value v) :=
  follows.value v ((mem_pending_cons pending).mpr (.inl rfl))

theorem Follows.drop (follows : Follows s told root t) (pending : t.pendingValues = v ::ₘ rest)
    (met : t.Met (.value v)) : Follows s told root { t with pendingValues := rest } := by
  apply follows.next
  · exact ⟨subset_rfl, subset_rfl, subset_rfl, fun _ => .inr⟩
  · intro w hw
    rcases (mem_pending_cons pending).mp hw with rfl | hw
    · cases w <;> exact .inl met
    · exact .inr hw
  · exact fun _ => .inl
  · exact fun _ _ => .inl
  · exact fun _ => .inl
  · exact fun _ => .inl
  · exact fun w hw => .inl ((mem_pending_cons pending).mpr (.inr hw))

theorem Follows.note (follows : Follows s told root t) (pending : t.pendingValues = v ::ₘ rest)
    (leads : s.Leads (.value v) (.scope a))
    (met : ∀ u : Trace, a ∈ u.pendingScopes → u.Met (.value v)) :
    Follows s told root
      { t with pendingValues := rest, pendingScopes := a ::ₘ t.pendingScopes } := by
  apply follows.next
  · exact ⟨subset_rfl, subset_rfl, subset_rfl, fun a ha => .inr (Multiset.mem_cons_of_mem ha)⟩
  · intro w hw
    rcases (mem_pending_cons pending).mp hw with rfl | hw
    · exact .inl (met _ (Multiset.mem_cons_self _ _))
    · exact .inr hw
  · exact fun _ => .inl
  · exact fun _ _ => .inl
  · exact fun _ => .inl
  · intro b seen
    rcases seen with met | noted
    · exact .inl (.inl met)
    · rcases Multiset.mem_cons.mp noted with rfl | noted
      · exact .inr ((follows.first pending).2.tail leads)
      · exact .inl (.inr noted)
  · exact fun w hw => .inl ((mem_pending_cons pending).mpr (.inr hw))

theorem Follows.class (h : Told s told) (follows : Follows s told root t)
    (pending : t.pendingValues = .class object ::ₘ rest) :
    Follows s told root ({ t with pendingValues := rest }.walk object.layers) := by
  obtain ⟨mem, led⟩ := follows.first pending
  have onward := onward_walk { t with pendingValues := rest } object.layers
  obtain ⟨first, met⟩ := walk_met (t := { t with pendingValues := rest }) h mem
  obtain ⟨classes, noted, eq, -⟩ := walk_eq { t with pendingValues := rest } object.layers
  apply follows.next
  · exact ⟨onward.scopes, onward.instances, onward.classes, onward.pending⟩
  · intro w hw
    rcases (mem_pending_cons pending).mp hw with rfl | hw
    · exact .inl first
    · rw [eq]
      exact .inr hw
  · rw [eq]
    exact fun _ => .inl
  · exact met
  · rw [eq]
    exact fun _ => .inl
  · intro a seen
    rcases seen_walk _ seen with before | inClass
    · exact .inl before
    · exact .inr (led.trans (leads_classScopes inClass))
  · rw [eq]
    exact fun w hw => .inl ((mem_pending_cons pending).mpr (.inr hw))

theorem Follows.meet (h : Told s told) (follows : Follows s told root t) {id : Address}
    (pending : t.pendingValues = .instance id object ::ₘ rest) :
    Follows s told root { t with
      instances := insert id t.instances
      pendingValues := .class object ::ₘ (values (s.fields id) + rest) } := by
  obtain ⟨mem, led⟩ := follows.first pending
  apply follows.next
  · exact ⟨subset_rfl, Finset.subset_insert _ _, subset_rfl, fun _ => .inr⟩
  · intro w hw
    rcases (mem_pending_cons pending).mp hw with rfl | hw
    · exact .inl (Finset.mem_insert_self _ _)
    · exact .inr (Multiset.mem_cons_of_mem (Multiset.mem_add.mpr (.inr hw)))
  · exact fun _ => .inl
  · exact fun _ _ => .inl
  · intro other ho
    rcases Finset.mem_insert.mp ho with rfl | ho
    · refine .inr ⟨fun object' mem' y leads => ?_, object, led⟩
      obtain rfl := h.sameInstance _ _ _ mem mem'
      cases leads with
      | instanceOf => exact .inr (Multiset.mem_cons_self _ _)
      | field inFields =>
          refine .inr (Multiset.mem_cons_of_mem (Multiset.mem_add.mpr (.inl ?_)))
          exact mem_values.mpr ⟨_, inFields, rfl⟩
    · exact .inl ho
  · exact fun _ => .inl
  · intro w hw
    rcases Multiset.mem_cons.mp hw with rfl | hw
    · exact .inr ⟨h.instanceOf id object mem, led.tail .instanceOf⟩
    · rcases Multiset.mem_add.mp hw with hw | hw
      · obtain ⟨entry, inFields, rfl⟩ := mem_values.mp hw
        exact .inr ⟨h.field id entry inFields, led.tail (.field inFields)⟩
      · exact .inl ((mem_pending_cons pending).mpr (.inr hw))

theorem Follows.visit (h : Told s told) (follows : Follows s told root t)
    (pending : t.pendingValues = v ::ₘ rest) :
    Follows s told root (visit s { t with pendingValues := rest } v) := by
  cases v with
  | function id closure =>
      exact follows.note pending .function fun _ => .inr
  | bound id closure =>
      exact follows.note pending .bound fun _ => .inr
  | «class» object => exact follows.class h pending
  | «instance» id object =>
      by_cases met : id ∈ t.instances
      · rw [Trace.visit, if_pos met]
        exact follows.drop pending met
      · have walked :=
          walk_pendingValues { t with instances := insert id t.instances } object.layers
        have next := (follows.meet h pending).class h rfl
        rw [walked] at next
        rw [Trace.visit, if_neg met, walked]
        exact next
  | nil | bool | number | string | clock => exact follows.drop pending trivial

end

theorem seen_cons {b : Address} {rest : Multiset Address} (pending : t.pendingScopes = a ::ₘ rest)
    (hb : b = a ∨ b ∈ rest) : t.Seen (.scope b) := by
  refine .inr ?_
  show b ∈ t.pendingScopes
  rw [pending]
  exact Multiset.mem_cons.mpr hb

theorem Follows.step (h : Told s told) (follows : Follows s told root t) (step : Step s t u) :
    Follows s told root u := by
  -- What is taken up is met or noted afterwards, and nothing is forgotten.
  cases step with
  | @again a rest pending known =>
      apply follows.next
      · refine ⟨subset_rfl, subset_rfl, subset_rfl, fun b hb => ?_⟩
        rw [pending] at hb
        rcases Multiset.mem_cons.mp hb with rfl | hb
        · exact .inl known
        · exact .inr hb
      · exact fun _ => .inr
      · exact fun _ => .inl
      · exact fun _ _ => .inl
      · exact fun _ => .inl
      · intro b seen
        rcases seen with met | noted
        · exact .inl (.inl met)
        · exact .inl (seen_cons pending (.inr noted))
      · exact fun _ => .inl
  | @scope a rest pending fresh =>
      have led : Relation.ReflTransGen s.Leads (.scope root) (.scope a) :=
        follows.scope a (seen_cons pending (.inl rfl))
      apply follows.next
      · refine ⟨Finset.subset_insert _ _, subset_rfl, subset_rfl, fun b hb => ?_⟩
        rw [pending] at hb
        rcases Multiset.mem_cons.mp hb with rfl | hb
        · exact .inl (Finset.mem_insert_self _ _)
        · exact .inr (Multiset.mem_add.mpr (.inr hb))
      · exact fun _ hw => .inr (Multiset.mem_add.mpr (.inr hw))
      · intro b hb
        rcases Finset.mem_insert.mp hb with rfl | hb
        · refine .inr fun y leads => ?_
          cases leads with
          | binding mem =>
              exact .inr (Multiset.mem_add.mpr (.inl (mem_values.mpr ⟨_, mem, rfl⟩)))
          | parent hp =>
              refine .inr (Multiset.mem_add.mpr (.inl ?_))
              exact Multiset.mem_coe.mpr (Option.mem_toList.mpr hp)
        · exact .inl hb
      · exact fun _ _ => .inl
      · exact fun _ => .inl
      · intro b seen
        rcases seen with met | noted
        · rcases Finset.mem_insert.mp met with rfl | met
          · exact .inr led
          · exact .inl (.inl met)
        · rcases Multiset.mem_add.mp noted with mem | noted
          · exact .inr (led.tail (.parent (Option.mem_toList.mp (Multiset.mem_coe.mp mem))))
          · exact .inl (seen_cons pending (.inr noted))
      · intro w hw
        rcases Multiset.mem_add.mp hw with hw | hw
        · obtain ⟨entry, mem, rfl⟩ := mem_values.mp hw
          exact .inr ⟨h.binding a entry mem, led.tail (.binding mem)⟩
        · exact .inl hw
  | value pending => exact follows.visit h pending

theorem follows_of_steps (h : Told s told)
    (steps : Relation.ReflTransGen (Step s) (start root) t) : Follows s told root t := by
  induction steps with
  | refl => exact follows_start s told root
  | tail _ step ih => exact ih.step h step

theorem Follows.met (h : Told s told) (follows : Follows s told root t) (done : t.Done)
    (led : Relation.ReflTransGen s.Leads (.scope root) x) : x.Among told ∧ t.Met x := by
  have all : ∀ y, t.Seen y → t.Met y := by
    intro y seen
    rcases seen with met | pending
    · exact met
    · cases y with
      | scope a => simp [Pending, done.1] at pending
      | value v => simp [Pending, done.2] at pending
  induction led with
  | refl => exact ⟨trivial, all _ follows.begun⟩
  | tail _ leads ih => exact ⟨h.leads ih.1 leads, all _ (follows.noted _ ih.1 ih.2 _ leads)⟩

theorem mem_scopes_iff (h : Told s told) (steps : Relation.ReflTransGen (Step s) (start root) t)
    (done : t.Done) :
    a ∈ t.scopes ↔ Relation.ReflTransGen s.Leads (.scope root) (.scope a) := by
  have follows := follows_of_steps h steps
  constructor
  · exact fun met => follows.scope a (.inl met)
  · exact fun led => (follows.met h done led).2

theorem mem_instances_iff (h : Told s told) (steps : Relation.ReflTransGen (Step s) (start root) t)
    (done : t.Done) : a ∈ t.instances ↔
      ∃ object, Relation.ReflTransGen s.Leads (.scope root) (.value (.instance a object)) := by
  have follows := follows_of_steps h steps
  constructor
  · exact follows.instances a
  · rintro ⟨object, led⟩
    exact (follows.met h done led).2

end Trace

end ClassScript.Store
