import ClassScript.Proofs.Binding.Guarded
import ClassScript.Proofs.Store.Marking

namespace ClassScript.Store

open Binding

/-- The chain of scopes up to the global one, which is left out, has as many links as the stack, and
each of them binds the names of its entry. -/
inductive ScopesAgree (s : Store) : Address → Scopes → Prop
  | globals : ScopesAgree s globals []
  | scope {a p names scopes} : s.parent? a = some p →
      (∀ name ∈ names, (s.bindings a).contains name = true) → ScopesAgree s p scopes →
      ScopesAgree s a (names :: scopes)

variable {s t : Store} {a p root : Address} {scopes : Scopes} {name : String}
  {names : List String} {value : Value}

theorem ScopesAgree.mono (h : s.ScopesAgree a scopes) (grows : s.Grows t) :
    t.ScopesAgree a scopes := by
  induction h with
  | globals => exact .globals
  | scope hp hn _ ih =>
      exact .scope (grows.ext.parent? hp) (fun name mem => grows.names _ name (hn name mem)) ih

theorem ScopesAgree.declare (h : s.ScopesAgree a scopes)
    (bound : (s.bindings a).contains name = true) : s.ScopesAgree a (declare name scopes) := by
  cases h with
  | globals => exact .globals
  | scope hp hn rest =>
      refine .scope hp (fun other mem => ?_) rest
      rcases List.mem_cons.mp mem with rfl | mem
      · exact bound
      · exact hn other mem

theorem ScopesAgree.of_declare (h : s.ScopesAgree a (Binding.declare name scopes)) :
    s.ScopesAgree a scopes := by
  cases scopes with
  | nil => exact h
  | cons names rest =>
      cases h with
      | scope hp hn inner =>
          exact .scope hp (fun other mem => hn other (List.mem_cons_of_mem _ mem)) inner

theorem ScopesAgree.of_scopesAfter {stmt : Stmt}
    (h : s.ScopesAgree a (scopesAfter scopes stmt)) : s.ScopesAgree a scopes := by
  cases stmt with
  | varDecl name _ => exact h.of_declare
  | funDecl decl => exact h.of_declare
  | classDecl decl => exact h.of_declare
  | _ => exact h

theorem ScopesAgree.outside (h : s.ScopesAgree a (names :: scopes)) (hp : s.parent? a = some p) :
    s.ScopesAgree p scopes := by
  cases h with
  | scope hq _ rest =>
      rw [hp] at hq
      cases hq
      exact rest

theorem ScopesAgree.holder (h : s.ScopesAgree a scopes) {d : Nat}
    (found : scopes[d]? = some names) :
    ∃ holder, s.ancestor? a d = some holder ∧
      ∀ name ∈ names, (s.bindings holder).contains name = true := by
  induction h generalizing d with
  | globals => cases found
  | @scope a p first rest hp hn _ ih =>
      cases d with
      | zero =>
          cases found
          exact ⟨a, rfl, hn⟩
      | succ d =>
          obtain ⟨holder, hh, bound⟩ := ih found
          refine ⟨holder, ?_, bound⟩
          rw [ancestor?, hp]
          exact hh

theorem ScopesAgree.getAt (h : s.ScopesAgree a scopes) {d : Nat}
    (found : scopes[d]? = some names) (mem : name ∈ names) (line : Nat) :
    ∃ value, s.getAt a d name line = .ok value := by
  obtain ⟨holder, hh, bound⟩ := h.holder found
  obtain ⟨value, hv⟩ := Bindings.get?_of_contains (bound name mem)
  refine ⟨value, ?_⟩
  unfold Store.getAt
  simp [hh, hv]

theorem ScopesAgree.targetAt (h : s.ScopesAgree a scopes) {d : Nat}
    (found : scopes[d]? = some names) (mem : name ∈ names) (line : Nat) :
    ∃ holder, s.targetAt a d name line = .ok holder := by
  obtain ⟨holder, hh, bound⟩ := h.holder found
  refine ⟨holder, ?_⟩
  unfold Store.targetAt
  simp [hh, bound name mem]

theorem names_of_distance? {d : Nat} (h : distance? name scopes = some d) :
    ∃ names, scopes[d]? = some names ∧ name ∈ names := by
  obtain ⟨lt, contains, -⟩ := List.findIdx?_eq_some_iff_getElem.mp h
  exact ⟨scopes[d], List.getElem?_eq_getElem lt, List.contains_iff_mem.mp contains⟩

theorem ScopesAgree.collect (sound : s.Sound) (hr : s.ScopeListed root)
    (h : s.ScopesAgree a scopes) (marked : a ∈ s.marked root) :
    (s.collect root).ScopesAgree a scopes := by
  induction h with
  | globals => exact .globals
  | @scope a p names rest hp hn _ ih =>
      refine .scope ((extends_collect s root).parent? hp) (fun name mem => ?_)
        (ih (sound.marked_parent hr marked hp))
      rw [bindings_collect_of_marked marked]
      exact hn name mem

end ClassScript.Store
