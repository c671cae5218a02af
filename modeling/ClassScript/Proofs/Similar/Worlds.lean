import ClassScript.Proofs.Similar.Analysis
import ClassScript.Proofs.Store.Sound

/-!
# The stores of similar programs

While similar programs run, their stores differ: one has scopes that the other lacks, addresses are
shifted, and names in scopes are renamed. A `World` holds the two stores and says which of their
cells go together. Values are alike if they lead to cells that go together and to similar code, seen
from chains of scopes that go together as the analysis says.
-/

namespace ClassScript

open Store

/-- What is known of the occurrences in two similar programs, and whether they may differ in their
blocks: whether these may be around single statements of one program only, around a body and an
increment, or on other lines. -/
structure Twins where
  left : Distances
  right : Distances
  wraps : Prop

namespace Twins

def occurrences (T : Twins) : OccurrencePairs := RecordedAlike T.left T.right

abbrev Expr (T : Twins) := SimilarExpr T.occurrences
abbrev Exprs (T : Twins) := SimilarExprs T.occurrences
abbrev Optional (T : Twins) := SimilarOptional T.occurrences
abbrev Stmt (T : Twins) := SimilarStmt T.occurrences T.wraps
abbrev Plain (T : Twins) := SimilarPlain T.occurrences T.wraps
abbrev Stmts (T : Twins) := SimilarStmts T.occurrences T.wraps
abbrev Function (T : Twins) := SimilarFunction T.occurrences T.wraps
abbrev Methods (T : Twins) := SimilarMethods T.occurrences T.wraps

end Twins

/-- Two stores, and which of their cells go together. Names in a scope of the first store are called
differently in its counterpart. -/
structure World where
  left : Store
  right : Store
  linked : Address → Address → Equiv.Perm String → Prop

namespace World

structure Grows (w w' : World) : Prop where
  left : w.left.Grows w'.left
  right : w.right.Grows w'.right
  linked : ∀ {a b ρ}, w.linked a b ρ → w'.linked a b ρ

theorem Grows.refl (w : World) : w.Grows w := ⟨.refl _, .refl _, id⟩

theorem Grows.trans {u v w : World} (h : u.Grows v) (h' : v.Grows w) : u.Grows w :=
  ⟨h.left.trans h'.left, h.right.trans h'.right, fun linked => h'.linked (h.linked linked)⟩

/-- From these addresses outward, the scopes of the two stores go together as at a place. -/
inductive Chain (w : World) : ScopePairs → Address → Address → Prop
  | globals : Chain w [] globals globals
  | both {Γ ρ names a b p q} : w.linked a b ρ → w.left.parent? a = some p →
      w.right.parent? b = some q → (∀ name ∈ names, (w.left.bindings a).contains name = true) →
      Chain w Γ p q → Chain w (.both ρ names :: Γ) a b
  | left {Γ a b p} : w.left.parent? a = some p → Chain w Γ p b → Chain w (.left :: Γ) a b
  | right {Γ a b q} : w.right.parent? b = some q → Chain w Γ a q → Chain w (.right :: Γ) a b

variable {w w' : World} {Γ : ScopePairs} {a b : Address} {name name' : String}

theorem Chain.mono (h : w.Chain Γ a b) (grows : w.Grows w') : w'.Chain Γ a b := by
  induction h with
  | globals => exact .globals
  | both linked hp hq bound _ ih =>
      exact .both (grows.linked linked) (grows.left.ext.parent? hp) (grows.right.ext.parent? hq)
        (fun name mem => grows.left.names _ name (bound name mem)) ih
  | left hp _ ih => exact .left (grows.left.ext.parent? hp) ih
  | right hq _ ih => exact .right (grows.right.ext.parent? hq) ih

theorem Chain.binds {ρ : Equiv.Perm String} {names others : List String}
    (h : w.Chain (.both ρ others :: Γ) a b)
    (bound : ∀ name ∈ names, (w.left.bindings a).contains name = true) :
    w.Chain (.both ρ names :: Γ) a b := by
  cases h with
  | both linked hp hq _ rest => exact .both linked hp hq bound rest

theorem Chain.declare (h : w.Chain Γ a b) (bound : (w.left.bindings a).contains name = true) :
    w.Chain (Γ.declare name) a b := by
  cases h with
  | globals => exact .globals
  | both linked hp hq others rest =>
      exact .both linked hp hq (List.forall_mem_cons.mpr ⟨bound, others⟩) rest
  | left hp rest => exact .left hp rest
  | right hq rest => exact .right hq rest

theorem Chain.ancestors (h : w.Chain Γ a b) {d d' : Nat} {ρ : Equiv.Perm String}
    {names : List String} (found : Γ.At d d' ρ names) :
    ∃ x y, w.left.ancestor? a d = some x ∧ w.right.ancestor? b d' = some y ∧ w.linked x y ρ ∧
      ∀ name ∈ names, (w.left.bindings x).contains name = true := by
  induction h generalizing d d' with
  | globals => cases found
  | @both Γ σ others a b p q linked hp hq bound _ ih =>
      cases found with
      | here => exact ⟨a, b, rfl, rfl, linked, bound⟩
      | both found =>
          obtain ⟨x, y, hx, hy, facts⟩ := ih found
          exact ⟨x, y, by rw [ancestor?, hp]; exact hx, by rw [ancestor?, hq]; exact hy, facts⟩
  | left hp _ ih =>
      cases found with
      | left found =>
          obtain ⟨x, y, hx, hy, facts⟩ := ih found
          exact ⟨x, y, by rw [ancestor?, hp]; exact hx, hy, facts⟩
  | right hq _ ih =>
      cases found with
      | right found =>
          obtain ⟨x, y, hx, hy, facts⟩ := ih found
          exact ⟨x, y, hx, by rw [ancestor?, hq]; exact hy, facts⟩

variable {T : Twins}

/-- Code that is similar in these scopes, in closures whose own scopes are those. -/
structure CodeLinked (T : Twins) (w : World) (inner outer : ScopePairs) (c c' : Closure) :
    Prop where
  initializer : c'.isInitializer = c.isInitializer
  chain : w.Chain outer c.scope c'.scope
  code : T.Function inner c.decl c'.decl

/-- Of functions, only methods that have their receivers can be initializers. -/
def Callable (T : Twins) (w : World) (c c' : Closure) : Prop :=
  ∃ Γ, CodeLinked T w Γ Γ c c' ∧ (c.isInitializer = true → ∃ Δ, Γ = .single "this" :: Δ)

def MethodLinked (T : Twins) (w : World) (c c' : Closure) : Prop :=
  ∃ Γ, CodeLinked T w (.single "this" :: Γ) Γ c c'

structure LayerLinked (T : Twins) (w : World) (l l' : ClassLayer) : Prop where
  id : w.linked l.id l'.id (.refl String)
  name : l'.name = l.name
  methods : List.Forall₂ (fun m m' => m'.1 = m.1 ∧ MethodLinked T w m.2 m'.2)
    l.methods l'.methods

def ClassLinked (T : Twins) (w : World) (c c' : ClassObject) : Prop :=
  List.Forall₂ (LayerLinked T w) c.layers c'.layers

inductive ValueLinked (T : Twins) (w : World) : Value → Value → Prop
  | nil : ValueLinked T w .nil .nil
  | bool (x : Bool) : ValueLinked T w (.bool x) (.bool x)
  | number (x : Float) : ValueLinked T w (.number x) (.number x)
  | string (text : String) : ValueLinked T w (.string text) (.string text)
  | clock : ValueLinked T w .clock .clock
  | function {id id' c c'} : w.linked id id' (.refl String) → Callable T w c c' →
      ValueLinked T w (.function id c) (.function id' c')
  | bound {id id' c c'} : w.linked id id' (.refl String) → Callable T w c c' →
      ValueLinked T w (.bound id c) (.bound id' c')
  | class {c c'} : ClassLinked T w c c' → ValueLinked T w (.class c) (.class c')
  | instance {id id' c c'} : w.linked id id' (.refl String) → ClassLinked T w c c' →
      ValueLinked T w (.instance id c) (.instance id' c')

theorem CodeLinked.mono {inner outer : ScopePairs} {c c' : Closure}
    (h : CodeLinked T w inner outer c c') (grows : w.Grows w') :
    CodeLinked T w' inner outer c c' := ⟨h.initializer, h.chain.mono grows, h.code⟩

theorem Callable.mono {c c' : Closure} (h : Callable T w c c') (grows : w.Grows w') :
    Callable T w' c c' := by
  obtain ⟨Γ, linked, initializer⟩ := h
  exact ⟨Γ, linked.mono grows, initializer⟩

theorem MethodLinked.mono {c c' : Closure} (h : MethodLinked T w c c') (grows : w.Grows w') :
    MethodLinked T w' c c' := by
  obtain ⟨Γ, linked⟩ := h
  exact ⟨Γ, linked.mono grows⟩

theorem LayerLinked.mono {l l' : ClassLayer} (h : LayerLinked T w l l') (grows : w.Grows w') :
    LayerLinked T w' l l' where
  id := grows.linked h.id
  name := h.name
  methods := h.methods.imp fun _ _ ⟨same, linked⟩ => ⟨same, linked.mono grows⟩

theorem ClassLinked.mono {c c' : ClassObject} (h : ClassLinked T w c c') (grows : w.Grows w') :
    ClassLinked T w' c c' := List.Forall₂.imp (fun _ _ linked => linked.mono grows) h

theorem ValueLinked.mono {v v' : Value} (h : ValueLinked T w v v') (grows : w.Grows w') :
    ValueLinked T w' v v' := by
  cases h with
  | nil => exact .nil
  | bool x => exact .bool x
  | number x => exact .number x
  | string text => exact .string text
  | clock => exact .clock
  | function linked code => exact .function (grows.linked linked) (code.mono grows)
  | bound linked code => exact .bound (grows.linked linked) (code.mono grows)
  | «class» linked => exact .class (linked.mono grows)
  | «instance» linked code => exact .instance (grows.linked linked) (code.mono grows)

inductive CellLinked (T : Twins) (w : World) (ρ : Equiv.Perm String) : Cell → Cell → Prop
  | scope {p p' bs bs'} :
      (∀ name, Option.Rel (ValueLinked T w) (bs.get? name) (bs'.get? (ρ name))) →
      CellLinked T w ρ (.scope p bs) (.scope p' bs')
  | instance {bs bs'} :
      (∀ name, Option.Rel (ValueLinked T w) (bs.get? name) (bs'.get? name)) →
      CellLinked T w ρ (.instance bs) (.instance bs')
  | identity : CellLinked T w ρ .identity .identity

/-- Cells go together one to one, and what is in them is alike. -/
structure Consistent (T : Twins) (w : World) : Prop where
  unique : ∀ {a b ρ a' b' ρ'}, w.linked a b ρ → w.linked a' b' ρ' →
    (a = a' ↔ b = b') ∧ (a = a' → ρ = ρ')
  cells : ∀ {a b ρ}, w.linked a b ρ → ∃ c c', w.left.cells[a]? = some c ∧
    w.right.cells[b]? = some c' ∧ CellLinked T w ρ c c'
  globals : w.linked globals globals (.refl String)
  globalScope : w.left.IsScope Store.globals

theorem rel_imp {α β : Type} {r r' : α → β → Prop} {x : Option α} {y : Option β}
    (h : Option.Rel r x y) (imp : ∀ a b, r a b → r' a b) : Option.Rel r' x y := by
  cases h with
  | none => exact .none
  | some linked => exact .some (imp _ _ linked)

variable {ρ : Equiv.Perm String} {c c' : Cell} {v v' : Value}

theorem CellLinked.mono (h : CellLinked T w ρ c c') (grows : w.Grows w') :
    CellLinked T w' ρ c c' := by
  cases h with
  | scope all => exact .scope fun name => rel_imp (all name) fun _ _ v => v.mono grows
  | «instance» all => exact .instance fun name => rel_imp (all name) fun _ _ v => v.mono grows
  | identity => exact .identity

theorem CellLinked.define (h : CellLinked T w ρ c c') (linked : ValueLinked T w v v')
    (name : String) : CellLinked T w ρ (c.define name v) (c'.define (ρ name) v') := by
  cases h with
  | scope all =>
      refine .scope fun other => ?_
      rw [Bindings.get?_set, Bindings.get?_set]
      by_cases same : other = name
      · rw [if_pos same, if_pos (congrArg ρ same)]
        exact .some linked
      · rw [if_neg same, if_neg fun eq => same (ρ.injective eq)]
        exact all other
  | «instance» all => exact .instance all
  | identity => exact .identity

theorem CellLinked.setField (h : CellLinked T w ρ c c') (linked : ValueLinked T w v v')
    (name : String) : CellLinked T w ρ (c.setField name v) (c'.setField name v') := by
  cases h with
  | scope all => exact .scope all
  | «instance» all =>
      refine .instance fun other => ?_
      rw [Bindings.get?_set, Bindings.get?_set]
      split
      · exact .some linked
      · exact all other
  | identity => exact .identity

namespace Consistent

variable (h : w.Consistent T)
include h

theorem binding (linked : w.linked a b ρ) (name : String) :
    Option.Rel (ValueLinked T w) ((w.left.bindings a).get? name)
      ((w.right.bindings b).get? (ρ name)) := by
  obtain ⟨c, c', hc, hc', alike⟩ := h.cells linked
  cases alike with
  | scope all =>
      rw [bindings_of_cell hc, bindings_of_cell hc']
      exact all name
  | «instance» | identity =>
      simp only [bindings, hc, hc']
      exact .none

theorem field (linked : w.linked a b ρ) (name : String) :
    Option.Rel (ValueLinked T w) ((w.left.fields a).get? name)
      ((w.right.fields b).get? name) := by
  obtain ⟨c, c', hc, hc', alike⟩ := h.cells linked
  cases alike with
  | «instance» all =>
      rw [fields_of_cell hc, fields_of_cell hc']
      exact all name
  | scope | identity =>
      simp only [fields, hc, hc']
      exact .none

theorem contains (linked : w.linked a b ρ) (name : String) :
    (w.right.bindings b).contains (ρ name) = (w.left.bindings a).contains name := by
  have alike := h.binding linked name
  unfold Bindings.contains
  generalize (w.left.bindings a).get? name = x at *
  generalize (w.right.bindings b).get? (ρ name) = y at *
  cases alike <;> rfl

theorem getAt (chain : w.Chain Γ a b) {d d' : Nat} {names : List String} (place : Γ.At d d' ρ names)
    (mem : name ∈ names) (line : Nat) :
    ∃ v v', w.left.getAt a d name line = .ok v ∧ w.right.getAt b d' (ρ name) line = .ok v' ∧
      ValueLinked T w v v' := by
  obtain ⟨x, y, hx, hy, linked, bound⟩ := chain.ancestors place
  have alike := h.binding linked name
  have bound := bound name mem
  unfold Bindings.contains at bound
  unfold Store.getAt
  rw [hx, hy, Option.bind_some, Option.bind_some]
  generalize (w.left.bindings x).get? name = found at *
  generalize (w.right.bindings y).get? (ρ name) = found' at *
  cases alike with
  | none => cases bound
  | some alike => exact ⟨_, _, rfl, rfl, alike⟩

end Consistent

theorem ValueLinked.truthy (h : ValueLinked T w v v') : v'.truthy = v.truthy := by
  cases h <;> rfl

theorem ClassLinked.same_name {c c' : ClassObject} (h : ClassLinked T w c c') :
    c'.name = c.name := by
  cases h with
  | cons layer _ => exact layer.name

theorem CodeLinked.arity {inner outer : ScopePairs} {c c' : Closure}
    (h : CodeLinked T w inner outer c c') : c'.decl.arity = c.decl.arity := by
  have code := h.code
  generalize c.decl = f, c'.decl = f' at *
  obtain ⟨ρ, called, -⟩ := code
  have length := congrArg List.length called
  simpa [FunctionDecl.arity] using length

theorem lookup_linked {P : Closure → Closure → Prop} {ms ms' : List (String × Closure)}
    (h : List.Forall₂ (fun m m' => m'.1 = m.1 ∧ P m.2 m'.2) ms ms') (name : String) :
    Option.Rel P (ms.lookup name) (ms'.lookup name) := by
  induction h with
  | nil => exact .none
  | @cons m m' ms ms' first _ ih =>
      rw [List.lookup_cons, List.lookup_cons, first.1]
      split
      · exact .some first.2
      · exact ih

theorem ClassLinked.method? {c c' : ClassObject} (h : ClassLinked T w c c') (name : String) :
    Option.Rel (MethodLinked T w) (c.method? name) (c'.method? name) := by
  unfold ClassObject.method?
  unfold ClassLinked at h
  generalize c.layers = layers, c'.layers = layers' at h
  induction h with
  | nil => exact .none
  | @cons l l' ls ls' first _ ih =>
      have own := lookup_linked first.methods name
      rw [List.findSome?_cons, List.findSome?_cons]
      generalize l.methods.lookup name = found at *
      generalize l'.methods.lookup name = found' at *
      cases own with
      | some linked => exact .some linked
      | none => exact ih

theorem ClassLinked.arity {c c' : ClassObject} (h : ClassLinked T w c c') : c'.arity = c.arity := by
  have initializer := h.method? ClassObject.initializerName
  unfold ClassObject.arity
  generalize c.method? _ = found at *
  generalize c'.method? _ = found' at *
  cases initializer with
  | none => rfl
  | some method =>
      obtain ⟨Γ, linked⟩ := method
      exact linked.arity

theorem ValueLinked.arity? (h : ValueLinked T w v v') : v'.arity? = v.arity? := by
  cases h with
  | function _ code | bound _ code =>
      obtain ⟨Γ, linked, -⟩ := code
      exact congrArg some linked.arity
  | «class» linked => exact congrArg some linked.arity
  | _ => rfl

theorem CodeLinked.same_name {inner outer : ScopePairs} {c c' : Closure}
    (h : CodeLinked T w inner outer c c') : c'.name = c.name :=
  congrArg Token.lexeme h.code.same_name

theorem ValueLinked.display (h : ValueLinked T w v v') : v'.display = v.display := by
  cases h with
  | function _ code | bound _ code =>
      obtain ⟨Γ, linked, -⟩ := code
      rw [Value.display, linked.same_name, Value.display]
  | «class» linked | «instance» _ linked => rw [Value.display, linked.same_name, Value.display]
  | _ => rfl

theorem Consistent.beq (h : w.Consistent T) {a' b' : Address} {ρ' : Equiv.Perm String}
    (one : w.linked a b ρ) (other : w.linked a' b' ρ') : (b == b') = (a == a') := by
  rw [Bool.eq_iff_iff, beq_iff_eq, beq_iff_eq]
  exact (h.unique one other).1.symm

theorem ValueLinked.equal (h : w.Consistent T) {u u' : Value} (hv : ValueLinked T w v v')
    (hu : ValueLinked T w u u') : v'.equal u' = v.equal u := by
  cases hv with
  | function one | bound one | «instance» one =>
      cases hu with
      | function other | bound other | «instance» other =>
          first | rfl | exact h.beq one other
      | _ => rfl
  | «class» one =>
      cases hu with
      | «class» other =>
          cases one with
          | cons one =>
              cases other with
              | cons other => exact h.beq one.id other.id
      | _ => rfl
  | _ => cases hu <;> rfl

end World

end ClassScript
