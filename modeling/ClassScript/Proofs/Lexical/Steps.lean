import ClassScript.Proofs.Binding.Recorded
import ClassScript.Proofs.Lexical.Code
import ClassScript.Proofs.Run.Sound

namespace ClassScript

open Binding Store

abbrev Machine.Placed (visited : Set (Scopes × Expr)) (m : Machine) : Prop :=
  Stored (ValuePlaced visited) m.store

structure Machine.Intact (visited : Set (Scopes × Expr)) (m : Machine) : Prop where
  sound : m.Sound
  placed : m.Placed visited
  recorded : Recorded visited m.distances

structure Machine.Located (visited : Set (Scopes × Expr)) (scopes : Scopes) (m : Machine) : Prop
    extends m.Intact visited where
  agree : m.store.ScopesAgree m.environment scopes

def Store.SignalPlaced (visited : Set (Scopes × Expr)) (s : Store) : Signal → Prop
  | .return value _ => ValuePlaced visited s value
  | _ => True

structure Store.Owned (visited : Set (Scopes × Expr)) (s : Store) (value : Value) : Prop where
  listed : s.ValueListed value
  placed : ValuePlaced visited s value

structure Store.ClosureOwned (visited : Set (Scopes × Expr)) (s : Store) (closure : Closure) :
    Prop where
  listed : s.ScopeListed closure.scope
  placed : ClosurePlaced visited s closure

variable {visited : Set (Scopes × Expr)} {scopes : Scopes} {m n : Machine} {s t : Store}
  {value : Value} {closure : Closure} {host : Host} {line : Nat}

theorem Value.Plain.placed (h : value.Plain) (s : Store) : ValuePlaced visited s value := by
  cases value <;> trivial

theorem Store.Owned.mono (h : s.Owned visited value) (grows : s.Grows t) : t.Owned visited value :=
  ⟨h.listed.mono grows, valuePlaced_lasting _ _ _ grows h.placed⟩

theorem Store.ClosureOwned.mono (h : s.ClosureOwned visited closure) (grows : s.Grows t) :
    t.ClosureOwned visited closure :=
  ⟨h.listed.mono grows, h.placed.mono grows⟩

theorem Machine.Intact.passes (h : m.Intact visited) (hn : m.Passes n)
    (placed : n.Placed visited) : n.Intact visited where
  sound := hn.sound
  placed := placed
  recorded := by
    rw [hn.distances]
    exact h.recorded

theorem Machine.Located.keeps (h : m.Located visited scopes) (hn : m.Keeps n)
    (placed : n.Placed visited) : n.Located visited scopes where
  toIntact := h.toIntact.passes hn.toPasses placed
  agree := by
    rw [hn.environment]
    exact h.agree.mono hn.growth

namespace Run

open Machine

variable {α β : Type}

abbrev PlacedWith (visited : Set (Scopes × Expr)) (part : Run α) (m : Machine)
    (placed : Store → α → Prop) : Prop :=
  Ends part m (fun a n => n.Placed visited ∧ placed n.store a) fun _ n => n.Placed visited

theorem PassesWith.thenPlaced {part : Run α} {rest : α → Run β} {listed placed : Store → α → Prop}
    {placed' : Store → β → Prop} (h : PassesWith part m listed)
    (hp : PlacedWith visited part m placed)
    (next : ∀ a n, m.Passes n → n.Placed visited → listed n.store a → placed n.store a →
      PlacedWith visited (rest a) n placed') : PlacedWith visited (part >>= rest) m placed' := by
  apply ends_bind.mpr
  apply (h.and hp).imp
  · intro a n hn
    exact next a n hn.1.1 hn.2.1 hn.1.2 hn.2.2
  · intro _ n hn
    exact hn.2

theorem KeepsWith.thenPlaced {part : Run α} {rest : α → Run β} {listed placed : Store → α → Prop}
    {placed' : Store → β → Prop} (h : KeepsWith part m listed)
    (hp : PlacedWith visited part m placed)
    (next : ∀ a n, m.Keeps n → n.Placed visited → listed n.store a → placed n.store a →
      PlacedWith visited (rest a) n placed') : PlacedWith visited (part >>= rest) m placed' := by
  apply ends_bind.mpr
  apply (h.and hp).imp
  · intro a n hn
    exact next a n hn.1.1 hn.2.1 hn.1.2 hn.2.2
  · intro _ n hn
    exact hn.2

theorem PlacedWith.discard {part : Run α} {placed : Store → α → Prop}
    (h : PlacedWith visited part m placed) : PlacedWith visited (discard part) m anything :=
  ends_discard.mpr (h.imp (fun _ _ hn => ⟨hn.1, trivial⟩) fun _ _ hn => hn)

theorem placed_pure {placed : Store → α → Prop} {a : α} (h : m.Placed visited)
    (ha : placed m.store a) : PlacedWith visited (pure a) m placed := ⟨h, ha⟩

theorem placed_fail {placed : Store → α → Prop} {fault : RuntimeFault} (h : m.Placed visited) :
    PlacedWith visited (fail fault line : Run α) m placed := h

theorem placed_ofExcept {placed : Store → α → Prop} {r : Except RuntimeError α}
    (h : m.Placed visited) (hr : ∀ a, r = .ok a → placed m.store a) :
    PlacedWith visited (ofExcept r) m placed :=
  ends_ofExcept.mpr ⟨fun a ha => ⟨h, hr a ha⟩, fun _ _ => h⟩

theorem placed_lookup (h : m.Sound) (hp : m.Placed visited) (o : Occurrence) (name : String) :
    PlacedWith visited (lookup o name) m (ValuePlaced visited) := by
  unfold PlacedWith Ends lookup
  cases hd : m.distances[o.id]? with
  | none =>
      dsimp only
      cases found : m.store.get Store.globals name o.token.line with
      | ok value => exact ⟨hp, hp.get h.store (scopeListed_globals _) found⟩
      | error e => exact hp
  | some distance =>
      dsimp only
      cases found : m.store.getAt m.environment distance name o.token.line with
      | ok value => exact ⟨hp, hp.getAt h.store h.environment found⟩
      | error e => exact hp

theorem placed_define (h : m.Located visited scopes) (name : String)
    (hv : ValuePlaced visited m.store value) :
    PlacedWith visited (define name value) m fun s _ =>
      s.ScopesAgree m.environment (declare name scopes) :=
  ⟨h.placed.define valuePlaced_lasting hv,
    h.agree.define h.sound.store h.sound.environment name value⟩

theorem placed_assign (hp : m.Placed visited) (o : Occurrence)
    (hv : ValuePlaced visited m.store value) :
    PlacedWith visited (assign o value) m anything := by
  have stored (holder : Address) :
      Stored (ValuePlaced visited) (m.store.define holder o.token.lexeme value) :=
    hp.define valuePlaced_lasting hv
  unfold PlacedWith Ends assign
  cases hd : m.distances[o.id]? with
  | none =>
      dsimp only
      cases found : m.store.target Store.globals o.token.lexeme o.token.line with
      | ok holder => exact ⟨stored holder, trivial⟩
      | error e => exact hp
  | some distance =>
      dsimp only
      cases found : m.store.targetAt m.environment distance o.token.lexeme o.token.line with
      | ok holder => exact ⟨stored holder, trivial⟩
      | error e => exact hp

theorem placed_newInstance (hp : m.Placed visited) : PlacedWith visited newInstance m anything :=
  ⟨hp.newInstance valuePlaced_lasting, trivial⟩

theorem placed_setField (hp : m.Placed visited) (id : Address) (name : String)
    (hv : ValuePlaced visited m.store value) :
    PlacedWith visited (setField id name value) m anything :=
  ⟨hp.setField valuePlaced_lasting hv, trivial⟩

theorem placed_bindMethod (hp : m.Placed visited) {method : Closure} {receiver : Value}
    (hm : MethodPlaced visited m.store method) (hr : ValuePlaced visited m.store receiver) :
    PlacedWith visited (bindMethod method receiver) m fun s c =>
      c.decl = method.decl ∧ ClosurePlaced visited s c :=
  ⟨hp.bindMethod valuePlaced_lasting method hr, rfl, hm.bindMethod receiver⟩

theorem placed_boundMethod (hp : m.Placed visited) {method : Closure} {receiver : Value}
    (hm : MethodPlaced visited m.store method) (hr : ValuePlaced visited m.store receiver) :
    PlacedWith visited (boundMethod method receiver) m (ValuePlaced visited) :=
  ⟨hp.boundMethod valuePlaced_lasting method hr, hm.boundMethod receiver⟩

theorem placed_readProperty (hp : m.Placed visited) {id : Address} {object : ClassObject}
    (name : String) (hv : m.store.Owned visited (.instance id object)) :
    PlacedWith visited (readProperty id object name line) m (ValuePlaced visited) := by
  unfold PlacedWith Ends readProperty Store.property?
  cases field : (m.store.fields id).get? name with
  | some value => exact ⟨hp, hp.field_get? hv.listed.1 field⟩
  | none =>
      cases found : object.method? name with
      | some method =>
          exact placed_boundMethod hp (ClassPlaced.method? hv.placed found) hv.placed
      | none => exact hp

theorem placed_superMethod (h : m.Sound) (hp : m.Placed visited) (keyword : Occurrence)
    (method : Token) : PlacedWith visited (superMethod keyword method) m (ValuePlaced visited) := by
  have owned (n : Nat) (name : String) (v : Value)
      (hv : m.store.getAt m.environment n name keyword.token.line = .ok v) :
      m.store.Owned visited v :=
    ⟨h.store.getAt_listed h.environment hv, hp.getAt h.store h.environment hv⟩
  unfold superMethod PlacedWith
  rw [ends_bind, ends_get]
  cases m.distances[keyword.id]? with
  | none => exact placed_fail hp
  | some distance =>
      dsimp only
      rw [ends_bind, ends_ofExcept]
      refine ⟨fun superclass hs => ?_, fun _ _ => hp⟩
      rw [ends_bind, ends_ofExcept]
      refine ⟨fun receiver hr => ?_, fun _ _ => hp⟩
      have above := owned _ _ _ hs
      split
      · split
        · rename_i found
          exact placed_boundMethod hp (ClassPlaced.method? above.placed found)
            (owned _ _ _ hr).placed
        · exact placed_fail hp
      · exact placed_fail hp

theorem placed_print (hp : m.Placed visited) (value : Value) :
    PlacedWith visited (print value) m anything := ⟨hp, trivial⟩

theorem placed_readClock (hp : m.Placed visited) (host : Host) :
    PlacedWith visited (readClock host) m (ValuePlaced visited) := ⟨hp, trivial⟩

theorem placed_start (hp : m.Placed visited) (host : Host) :
    PlacedWith visited (start host line) m anything := by
  apply ends_start.mpr
  split
  · exact hp
  · exact ⟨hp, trivial⟩

theorem located_collectIfDue (h : m.Located visited scopes) (host : Host) :
    Ends (collectIfDue host) m
      (fun _ n => n.Located visited scopes ∧ n.environment = m.environment) fun _ _ => False := by
  have sound := passes_collectIfDue h.sound host
  apply ends_collectIfDue.mpr
  unfold PassesWith at sound
  rw [ends_collectIfDue] at sound
  split
  · rename_i due
    rw [if_pos due] at sound
    have root := h.sound.environment
    refine ⟨⟨h.toIntact.passes sound.1 (h.placed.collect h.sound.store root), ?_⟩, rfl⟩
    exact h.agree.collect h.sound.store root (h.sound.store.marked_root root)
  · exact ⟨h, rfl⟩

theorem placed_checkDepth (hp : m.Placed visited) :
    PlacedWith visited (checkDepth host line) m anything := by
  unfold PlacedWith checkDepth
  cases host.maxDepth with
  | none => exact ⟨hp, trivial⟩
  | some limit =>
      simp only [ends_bind, ends_get]
      split
      · exact placed_fail hp
      · exact ⟨hp, trivial⟩

theorem placed_callScope (hp : m.Placed visited) {args : List Value} {outer : Scopes}
    (agree : m.store.ScopesAgree closure.scope outer) (ha : ∀ v ∈ args, m.store.Owned visited v)
    (same : args.length = closure.decl.arity) :
    PlacedWith visited (callScope closure args) m fun s scope =>
      s.ScopesAgree scope ((closure.decl.params.map Token.lexeme).reverse :: outer) := by
  have grows := grows_newScope m.store closure.scope
  refine ⟨?_, agree.newScope_defineAll (same.trans (List.length_map _).symm)⟩
  apply (hp.newScope valuePlaced_lasting closure.scope).defineAll valuePlaced_lasting
  intro entry mem
  exact ((ha _ (List.of_mem_zip mem).2).mono grows).placed

theorem placed_callResult (h : m.Sound) (hp : m.Placed visited)
    (hc : m.store.ScopeListed closure.scope) (hv : ValuePlaced visited m.store value) :
    PlacedWith visited (callResult closure line value) m (ValuePlaced visited) := by
  unfold PlacedWith callResult
  split
  · rw [ends_bind, ends_get]
    exact placed_ofExcept hp fun v found => hp.getAt h.store hc found
  · exact placed_pure hp hv

theorem placed_checkReturn (hp : m.Placed visited) (keyword : Token) (value : Option Expr) :
    PlacedWith visited (checkReturn keyword value) m anything := by
  unfold PlacedWith checkReturn
  rw [ends_bind, ends_get]
  cases m.frame.kind with
  | script => exact placed_fail hp
  | function => exact ⟨hp, trivial⟩
  | initializer =>
      dsimp only
      split
      · exact placed_fail hp
      · exact ⟨hp, trivial⟩

theorem placed_leaveLoop (hp : m.Placed visited) (exit : LoopExit) {signal : Signal}
    {post : Store → Signal → Prop} (hs : post m.store signal) :
    PlacedWith visited (leaveLoop exit line signal) m post := by
  unfold PlacedWith leaveLoop
  rw [ends_bind, ends_get]
  split
  · exact placed_fail hp
  · exact placed_pure hp hs

theorem placed_declareFunction (h : m.Located visited scopes) (decl : FunctionDecl Stmt)
    (within : Within visited (functionVisits (declare decl.name.lexeme scopes) decl)) :
    PlacedWith visited (declareFunction decl) m fun s _ =>
      s.ScopesAgree m.environment (declare decl.name.lexeme scopes) := by
  have grows := grows_newIdentity m.store
  have agree := (h.agree.mono grows).define h.sound.store.newIdentity
    (h.sound.environment.mono grows) decl.name.lexeme (m.store.newFunction decl m.environment).1
  exact ⟨(h.placed.newIdentity valuePlaced_lasting).define_after valuePlaced_lasting
    ⟨_, agree, within⟩, agree⟩

theorem placed_superclassOf (h : m.Sound) (hp : m.Placed visited) (decl : ClassDecl Stmt) :
    PlacedWith visited (superclassOf decl) m fun s superclass =>
      superclass.isSome = decl.superclass.isSome ∧
        ∀ object ∈ superclass, ClassPlaced visited s object := by
  unfold superclassOf
  cases decl.superclass with
  | none => exact placed_pure hp ⟨rfl, fun _ mem => by cases mem⟩
  | some parent =>
      dsimp only
      split
      · exact placed_fail hp
      · apply (keeps_lookup h parent _).thenPlaced (placed_lookup h hp parent _)
        intro value n _ hnp _ hv
        split
        · refine placed_pure hnp ⟨rfl, fun object mem => ?_⟩
          cases mem
          exact hv
        · exact placed_fail hnp

def HoldsMethods (a : Address) (superclass : Option ClassObject) (s : Store) (scope : Address) :
    Prop :=
  match superclass with
  | none => scope = a
  | some _ => s.parent? scope = some a ∧ (s.bindings scope).contains superclassName = true

theorem HoldsMethods.agree {a scope : Address} {superclass : Option ClassObject}
    (h : HoldsMethods a superclass s scope) (grows : s.Grows t) (agree : t.ScopesAgree a scopes) :
    t.ScopesAgree scope (if superclass.isSome then ["super"] :: scopes else scopes) := by
  cases superclass with
  | none =>
      obtain rfl : scope = a := h
      exact agree
  | some object =>
      refine .scope (grows.ext.parent? h.1) (fun name mem => ?_) agree
      rw [List.mem_singleton.mp mem]
      exact grows.names _ _ h.2

theorem placed_methodScope (hp : m.Placed visited) {superclass : Option ClassObject}
    (hs : ∀ object ∈ superclass, ClassPlaced visited m.store object) :
    PlacedWith visited (methodScope superclass) m (HoldsMethods m.environment superclass) := by
  unfold methodScope PlacedWith
  rw [ends_bind, ends_get]
  cases superclass with
  | none => exact placed_pure hp rfl
  | some object =>
      have grows := grows_define (m.store.newScope m.environment).2
        (m.store.newScope m.environment).1 superclassName (.class object)
      refine ⟨?_, grows.ext.parent? (parent?_newScope _ _), contains_define_newScope _ _ _ _⟩
      apply (hp.newScope valuePlaced_lasting m.environment).define valuePlaced_lasting
      exact (hs object rfl).mono (grows_newScope _ _)

theorem within_classVisits {decl : ClassDecl Stmt} (h : Within visited (classVisits scopes decl)) :
    Within visited (methodsVisits (["this"] :: if decl.superclass.isSome then
      ["super"] :: declare decl.name.lexeme scopes else declare decl.name.lexeme scopes)
      decl.methods) := by
  obtain ⟨name, superclass, methods⟩ := decl
  cases superclass with
  | none => exact h
  | some parent => exact (within_cons.mp h).2

theorem placed_declareClass (h : m.Located visited scopes) (decl : ClassDecl Stmt)
    (within : Within visited (classVisits scopes decl)) :
    PlacedWith visited (declareClass decl) m fun s _ =>
      s.ScopesAgree m.environment (declare decl.name.lexeme scopes) := by
  apply (keeps_superclassOf h.sound decl).thenPlaced (placed_superclassOf h.sound h.placed decl)
  intro superclass n hn hnp listed above
  apply (keeps_methodScope hn.sound listed).thenPlaced (placed_methodScope hnp above.2)
  intro scope o ho hop _ holds
  have env : o.environment = m.environment := ho.environment.trans hn.environment
  have grows := grows_newIdentity o.store
  have bound := (h.agree.mono ((hn.growth.trans ho.growth).trans grows)).define
    ho.sound.store.newIdentity (env ▸ ho.sound.environment.mono grows) decl.name.lexeme
    (o.store.newClass decl.name.lexeme superclass (decl.methods.map (methodEntry scope))).1
  have grown := grows.trans (grows_define o.store.newIdentity.2 m.environment decl.name.lexeme
    (o.store.newClass decl.name.lexeme superclass (decl.methods.map (methodEntry scope))).1)
  have methods := (hn.environment ▸ holds).agree grown bound
  rw [above.1] at methods
  have classes : ∀ object ∈ superclass, ClassPlaced visited _ object := fun object mem =>
    (above.2 object mem).mono (ho.growth.trans grown)
  have value := newClass_placed (s := o.store) decl.name.lexeme methods
    (within_classVisits within) classes
  unfold PlacedWith Ends
  simp only [bind, EStateM.bind, newClass, define, env]
  exact ⟨(hop.newIdentity valuePlaced_lasting).define_after valuePlaced_lasting value, bound⟩

end Run

end ClassScript
