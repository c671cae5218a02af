import ClassScript.Proofs.Dispatch.Steps

namespace ClassScript

open Store

def ClassDecl.method? (decl : ClassDecl Stmt) (name : String) : Option (FunctionDecl Stmt) :=
  decl.methods.reverse.find? (·.name.lexeme == name)

/-- The declarations of the layers of a class, each with the scope that its methods are in. -/
inductive Descends (declared : ClassDecl Stmt → ClassLayer → List ClassLayer → Prop) :
    List ClassLayer → List (ClassDecl Stmt × Address) → Prop
  | nil : Descends declared [] []
  | cons {layer above decl home chain} : layer.MadeFrom decl home → declared decl layer above →
      Descends declared above chain → Descends declared (layer :: above) ((decl, home) :: chain)

def nearest? (name : String) (chain : List (ClassDecl Stmt × Address)) :
    Option (FunctionDecl Stmt × Address) :=
  chain.findSome? fun (decl, home) => (decl.method? name).map (·, home)

variable {declared : ClassDecl Stmt → ClassLayer → List ClassLayer → Prop} {src : Sources}
  {s : Store} {layer : ClassLayer} {layers : List ClassLayer} {decl : ClassDecl Stmt}
  {home : Address} {chain : List (ClassDecl Stmt × Address)}

theorem lookup_lastOfEach (ms : List (String × Closure)) (name : String) :
    (lastOfEach ms).lookup name = (ms.reverse.find? (·.1 == name)).map (·.2) := by
  induction ms with
  | nil => rfl
  | cons m ms ih =>
      rw [lastOfEach, List.reverse_cons, List.find?_append]
      cases other : ms.reverse.find? (·.1 == name) with
      | some found =>
          have mem := List.mem_reverse.mp (List.mem_of_find?_eq_some other)
          have named : found.1 = name := by simpa using List.find?_some other
          rw [other] at ih
          split
          · exact ih
          · rename_i alone
            have ne : name ≠ m.1 := by
              rintro rfl
              exact alone (List.any_eq_true.mpr ⟨found, mem, by simpa using named⟩)
            rw [List.lookup_cons, beq_false_of_ne ne]
            exact ih
      | none =>
          rw [other] at ih
          have absent : ∀ x ∈ ms, x.1 ≠ name := by simpa using other
          split
          · rename_i again
            obtain ⟨x, mem, same⟩ := List.any_eq_true.mp again
            have ne : m.1 ≠ name := fun eq =>
              absent x mem ((by simpa using same : x.1 = _).trans eq)
            simpa [List.find?_cons, ne] using ih
          · by_cases eq : m.1 = name
            · subst eq
              rw [List.lookup_cons, beq_self_eq_true]
              simp
            · simpa [List.lookup_cons, List.find?_cons, eq, Ne.symm eq] using ih

theorem lookup_of_made (made : layer.MadeFrom decl home) (name : String) :
    layer.methods.lookup name = (decl.method? name).map fun f => (methodEntry home f).2 := by
  rw [made.methods, lookup_lastOfEach, ← List.map_reverse, List.find?_map, Option.map_map]
  rfl

theorem descends_of_homed (h : ClassHomed src s layers) :
    ∃ chain, Descends src.declares layers chain := by
  induction layers with
  | nil => exact ⟨[], .nil⟩
  | cons layer above ih =>
      obtain ⟨decl, home, at_home⟩ := h layer above (List.suffix_refl _)
      obtain ⟨chain, descends⟩ := ih fun other rest suffix =>
        h other rest (suffix.trans (List.suffix_cons _ _))
      exact ⟨(decl, home) :: chain, .cons at_home.made at_home.declared descends⟩

theorem Descends.nearest (h : Descends declared layers chain) (name : String) :
    layers.findSome? (·.methods.lookup name) =
      (nearest? name chain).map fun found => (methodEntry found.2 found.1).2 := by
  unfold nearest?
  induction h with
  | nil => rfl
  | @cons layer above decl home chain made _ _ ih =>
      rw [List.findSome?_cons, List.findSome?_cons, lookup_of_made made, ih]
      cases found : decl.method? name <;> simp [found]

/-- The value is the method bound to the receiver, which is all that the scope of the method has. -/
def Store.BoundTo (s : Store) (decl : FunctionDecl Stmt) (home : Address) (receiver : Value)
    (value : Value) : Prop :=
  ∃ id scope, value = .bound id ⟨decl, scope, decl.name.lexeme == ClassObject.initializerName⟩ ∧
    s.parent? scope = some home ∧
    ∀ name, (s.bindings scope).get? name = if name = receiverName then some receiver else none

/-- The method that the name stands for in these declarations, bound to the receiver, or the fault
that there is none. -/
def Dispatches (name : Token) (chain : List (ClassDecl Stmt × Address)) (receiver : Value)
    (m : Machine) (result : EStateM.Result Halt Machine Value) : Prop :=
  match nearest? name.lexeme chain with
  | some (decl, home) => ∃ value store, result = .ok value { m with store } ∧
      m.store.Steady store ∧ store.BoundTo decl home receiver value
  | none => result = .error (.fault ⟨.undefinedProperty name.lexeme, name.line⟩) m ∧
      (RuntimeFault.undefinedProperty name.lexeme).message =
        "Undefined property '" ++ name.lexeme ++ "'."

theorem boundTo_boundMethod (s : Store) (decl : FunctionDecl Stmt) (home : Address)
    (receiver : Value) : (s.boundMethod (methodEntry home decl).2 receiver).2.BoundTo decl home
      receiver (s.boundMethod (methodEntry home decl).2 receiver).1 := by
  have created := cells_newScope s home s.cells.size
  rw [if_pos rfl] at created
  have bound : (s.boundMethod (methodEntry home decl).2 receiver).2.bindings s.cells.size =
      Bindings.empty.set receiverName receiver :=
    (bindings_newIdentity _ _).trans (bindings_define_of_cell created)
  refine ⟨_, _, rfl, ?_, fun name => ?_⟩
  · exact (extends_newIdentity _).parent? (parent?_newScope_define s home receiverName receiver)
  · exact (congrArg (Bindings.get? · name) bound).trans (Bindings.get?_set _ _ _ _)

theorem Descends.dispatches (h : Descends declared layers chain) (name : Token)
    (receiver : Value) (m : Machine) :
    Dispatches name chain receiver m (Run.dispatch layers name receiver m) := by
  unfold Run.dispatch Dispatches
  rw [h.nearest]
  cases nearest? name.lexeme chain with
  | none => exact ⟨rfl, rfl⟩
  | some found =>
      exact ⟨_, _, rfl, steady_boundMethod _ _ _, boundTo_boundMethod _ _ _ _⟩

end ClassScript
