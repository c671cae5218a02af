import ClassScript.Proofs.Collection.Pairs
import ClassScript.Proofs.Collection.Registry
import ClassScript.Proofs.Lexical.Sessions
import ClassScript.Proofs.Session.Identities

/-!
# Code that is known already

A statement can be executed without an analysis of its program, and then the functions that it
declares look up their names as global ones. An analysis that comes later changes what they do. It
does not matter to a machine that has the distances for all of the code that it holds
(`Machine.Informed`).
-/

namespace ClassScript

open Binding Store

def Value.code : Value → List (FunctionDecl Stmt)
  | .function _ closure | .bound _ closure => [closure.decl]
  | .class object | .instance _ object =>
    object.layers.flatMap fun layer => layer.methods.map fun method => method.2.decl
  | _ => []

/-- All functions that the global scope leads to have the distances that an analysis of the program
records for them. -/
def Machine.Informed (m : Machine) (program : List Stmt) : Prop :=
  ∀ v, Relation.ReflTransGen m.store.Leads (.scope globals) (.value v) → ∀ decl ∈ v.code,
    ∀ i ∈ functionIds decl, (m.analyse program).2.distances[i]? = m.distances[i]?

namespace Binding

variable {visited : Set (Scopes × Expr)} {P : Nat → Prop}

def visitsOf (visited : Set (Scopes × Expr)) (P : Nat → Prop) : Set (Scopes × Expr) :=
  {visit ∈ visited | ∀ i, ownId visit = some i → P i}

theorem within_visitsOf {visits : List (Scopes × Expr)} (within : Within visited visits)
    (known : ∀ i ∈ visits.filterMap ownId, P i) : Within (visitsOf visited P) visits :=
  fun visit mem =>
    ⟨within visit mem, fun i own => known i (List.mem_filterMap.mpr ⟨visit, mem, own⟩)⟩

theorem Recorded.visitsOf {d : Distances} (h : Recorded visited d)
    (known : ∀ (i n : Nat), d[i]? = some n → P i) : Recorded (visitsOf visited P) d := by
  intro i n recorded
  obtain ⟨visit, mem, o, name, occurs, rfl, found⟩ := h i n recorded
  refine ⟨visit, ⟨mem, fun i own => ?_⟩, o, name, occurs, rfl, found⟩
  rw [ownId, occurs] at own
  cases own
  exact known o.id n recorded

end Binding

namespace Store

def Node.Placed (visited : Set (Scopes × Expr)) (s : Store) : Node → Prop
  | .scope _ => True
  | .value v => ValuePlaced visited s v

variable {visited : Set (Scopes × Expr)} {s : Store} {x : Node} {v : Value} {i : Nat}
  {decl : FunctionDecl Stmt}

theorem placed_of_live (sound : s.Sound) (placed : Stored (ValuePlaced visited) s)
    (live : Relation.ReflTransGen s.Leads (.scope globals) x) : x.Placed visited s := by
  induction live with
  | refl => trivial
  | tail path step ih =>
      have listed := listed_of_leads sound (scopeListed_globals s) path
      cases step with
      | binding mem => exact placed.bindings _ listed _ mem
      | field mem => exact placed.fields _ listed.1 _ mem
      | superclass => exact fun layer mem => ih layer (List.mem_cons_of_mem _ mem)
      | instanceOf => exact ih
      | _ => trivial

theorem ValuePlaced.visitsOf {P : Nat → Prop} (h : ValuePlaced visited s v)
    (known : ∀ decl ∈ v.code, ∀ i ∈ functionIds decl, P i) :
    ValuePlaced (visitsOf visited P) s v := by
  have inFunction {scopes : Scopes} {decl : FunctionDecl Stmt} (inCode : decl ∈ v.code)
      (within : Within visited (functionVisits scopes decl)) :
      Within (Binding.visitsOf visited P) (functionVisits scopes decl) :=
    within_visitsOf within (ownIds_functionVisits scopes decl ▸ known decl inCode)
  cases v with
  | function id closure | bound id closure =>
      obtain ⟨scopes, agree, within⟩ := h
      exact ⟨scopes, agree, inFunction List.mem_cons_self within⟩
  | «class» object | «instance» id object =>
      intro layer hl method hm
      obtain ⟨scopes, agree, within⟩ := h layer hl method hm
      refine ⟨scopes, agree, inFunction ?_ within⟩
      exact List.mem_flatMap.mpr ⟨layer, hl, List.mem_map.mpr ⟨method, hm, rfl⟩⟩
  | _ => trivial

theorem Stored.visitsOf {P : Nat → Prop} (placed : Stored (ValuePlaced visited) s)
    (exact : s.RegistryExact)
    (known : ∀ v, Relation.ReflTransGen s.Leads (.scope globals) (.value v) →
      ∀ decl ∈ v.code, ∀ i ∈ functionIds decl, P i) :
    Stored (ValuePlaced (visitsOf visited P)) s where
  bindings a ha entry mem :=
    (placed.bindings a ha entry mem).visitsOf (known _ (exact.live_binding ha mem))
  fields a ha entry mem :=
    (placed.fields a ha entry mem).visitsOf (known _ (exact.live_field ha mem))

theorem ValuePlaced.visit (h : ValuePlaced visited s v) (inCode : decl ∈ v.code)
    (mem : i ∈ functionIds decl) : ∃ visit ∈ visited, ownId visit = some i := by
  have inVisits {scopes : Scopes} (within : Within visited (functionVisits scopes decl)) :
      ∃ visit ∈ visited, ownId visit = some i := by
    rw [← ownIds_functionVisits scopes] at mem
    obtain ⟨visit, inFunction, own⟩ := List.mem_filterMap.mp mem
    exact ⟨visit, within visit inFunction, own⟩
  cases v with
  | function id closure | bound id closure =>
      obtain rfl := List.mem_singleton.mp inCode
      obtain ⟨_, -, within⟩ := h
      exact inVisits within
  | «class» object | «instance» id object =>
      obtain ⟨layer, inClass, inLayer⟩ := List.mem_flatMap.mp inCode
      obtain ⟨method, inMethods, rfl⟩ := List.mem_map.mp inLayer
      obtain ⟨_, -, within⟩ := h layer inClass method inMethods
      exact inVisits within
  | _ => cases inCode

end Store

namespace Machine

variable {m n : Machine} {program : List Stmt}

theorem informed_interpret (m : Machine) (host : Host) (fuel : Nat) (program : List Stmt) :
    (m.interpret host fuel program).2.Informed program := by
  intro _ _ _ _ i _
  obtain ⟨entry, -, recorded⟩ := exists_recorded program i
  rw [recorded, interpret_distances, recorded]
  cases entry <;> rfl

theorem Informed.alike (h : m.Informed program) (alike : m.Alike n) : n.Informed program := by
  cases alike with
  | intro stores _ =>
      intro v live decl inCode i mem
      obtain ⟨entry, -, recorded⟩ := exists_recorded program i
      have known := h v (stores.symm.live live) decl inCode i mem
      rw [recorded] at known ⊢
      exact known

theorem Informed.behind (h : m.Informed program) {v : Value}
    (live : Relation.ReflTransGen m.store.Leads (.scope globals) (.value v))
    {decl : FunctionDecl Stmt} (inCode : decl ∈ v.code) {i : Nat} (mem : i ∈ functionIds decl)
    (kept : ∀ distance, m.distances[i]? = some distance → n.distances[i]? = some distance) :
    (n.analyse program).2.distances[i]? = n.distances[i]? := by
  obtain ⟨entry, -, recorded⟩ := exists_recorded program i
  have known := h v live decl inCode i mem
  rw [recorded] at known ⊢
  cases entry with
  | none => rfl
  | some distance => exact (kept distance known.symm).symm

end Machine

namespace Session

variable {programs : List (List Stmt)} {program : List Stmt} {s : Session} {m : Machine}

theorem Lexical.kept (h : Lexical programs s) (recorded : Recorded (visits programs) m.distances)
    (mem : program ∈ programs) {i distance : Nat} (known : m.distances[i]? = some distance) :
    (m.analyse program).2.distances[i]? = some distance := by
  obtain ⟨entry, -, analysed⟩ := Machine.exists_recorded program i
  have after := Machine.Recorded.analyse recorded (within_visits mem)
  have again := analysed m
  rw [known] at again
  cases entry with
  | none => exact again
  | some other =>
      obtain ⟨⟨scopes, e⟩, visited, o, name, occurs, rfl, found⟩ := recorded i distance known
      have found' := h.distance after visited occurs again
      rw [found] at found'
      rw [again, found']
      rfl

theorem Reached.informed (reached : Reached programs s) {tokens : List Token}
    (spelled : ∀ t ∈ tokens, t.Spelled)
    (parsed : (parseProgram s.nextId tokens).result = .ok program) :
    s.machine.Informed program := by
  intro v live decl inCode i mem
  have lexical := reached.lexical
  have placed : ValuePlaced (visits programs) s.machine.store v :=
    placed_of_live reached.atRest.sound.store lexical.placed live
  obtain ⟨visit, ⟨other, read, visited⟩, own⟩ := placed.visit inCode mem
  apply Machine.analyse_others
  intro inProgram
  have inOther : i ∈ stmtsIds other := by
    rw [← ownIds_stmtsVisits [] other]
    exact List.mem_filterMap.mpr ⟨visit, visited, own⟩
  have below := ((lexical.ids other read).range i inOther).2
  have above := (((parseProgram_reads s.nextId spelled).2 program parsed).1.range i inProgram).1
  omega

end Session

end ClassScript
