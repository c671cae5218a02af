import ClassScript.Proofs.Collection.Alike
import ClassScript.Proofs.Run.Sound

namespace ClassScript

/-- Two hosts that differ at most in when they collect. -/
structure Host.AgreesWith (left right : Host) : Prop where
  maxDepth : left.maxDepth = right.maxDepth
  interrupts : left.interrupts = right.interrupts
  time : left.time = right.time

inductive Machine.Alike : Machine → Machine → Prop
  | intro {m : Machine} {t : Store} : m.store.Alike t → Store.BothScopes m.store t m.environment →
      Alike m { m with store := t }

namespace Machine

variable {m n : Machine}

theorem Alike.store (h : m.Alike n) : m.store.Alike n.store := by
  cases h
  assumption

theorem Alike.left (h : m.Alike n) : m.Sound := by
  cases h with
  | intro alike scope => exact ⟨alike.left, scope.1⟩

theorem Alike.right (h : m.Alike n) : n.Sound := by
  cases h with
  | intro alike scope => exact ⟨alike.right, scope.2⟩

theorem Sound.alike_self (h : m.Sound) : m.Alike m :=
  .intro h.store.alike_self ⟨h.environment, h.environment⟩

end Machine

namespace Run

open Store (BothScopes BothValues)

variable {α β : Type} {m n m' n' : Machine} {left right : Host} {fuel line : Nat} {value : Value}

inductive SameEnd : EStateM.Result Halt Machine α → EStateM.Result Halt Machine α → Prop
  | ok {a m n} : m.Alike n → SameEnd (.ok a m) (.ok a n)
  | error {e m n} : m.Alike n → SameEnd (.error e m) (.error e n)

def Pairs (p q : Run α) (m n : Machine) : Prop := SameEnd (p m) (q n)

theorem Pairs.then {p q : Run α} {f g : α → Run β} {Q R : α → Machine → Prop}
    {E F : Halt → Machine → Prop} (h : Pairs p q m n) (hp : Ends p m Q E) (hq : Ends q n R F)
    (next : ∀ a m' n', m'.Alike n' → Q a m' → R a n' → Pairs (f a) (g a) m' n') :
    Pairs (p >>= f) (q >>= g) m n := by
  unfold Pairs Ends at *
  simp only [bind, EStateM.bind]
  generalize p m = x at *
  generalize q n = y at *
  cases h with
  | ok alike => exact next _ _ _ alike hp hq
  | error alike => exact .error alike

theorem Pairs.discard {p q : Run α} (h : Pairs p q m n) :
    Pairs (discard p) (discard q) m n := by
  unfold Pairs at *
  simp only [Functor.discard, Functor.mapConst, EStateM.map, Function.comp]
  generalize p m = x at *
  generalize q n = y at *
  cases h with
  | ok alike => exact .ok alike
  | error alike => exact .error alike

theorem pairs_pure (h : m.Alike n) (a : α) : Pairs (pure a) (pure a) m n := .ok h

theorem pairs_throw (h : m.Alike n) (e : Halt) : Pairs (throw e : Run α) (throw e) m n := .error h

theorem pairs_fail (h : m.Alike n) (fault : RuntimeFault) :
    Pairs (fail fault line : Run α) (fail fault line) m n := .error h

theorem pairs_ofExcept (h : m.Alike n) (r : Except RuntimeError α) :
    Pairs (ofExcept r) (ofExcept r) m n := by
  cases r with
  | ok a => exact .ok h
  | error e => exact .error h

theorem pairs_get_then {f g : Machine → Run α} (h : Pairs (f m) (g n) m n) :
    Pairs (get >>= f) (get >>= g) m n := h

theorem pairs_ofExcept_then {r : Except RuntimeError α} {f g : α → Run β} (h : m.Alike n)
    (next : ∀ a, r = .ok a → Pairs (f a) (g a) m n) :
    Pairs (ofExcept r >>= f) (ofExcept r >>= g) m n := by
  cases r with
  | ok a => exact next a rfl
  | error e => exact .error h

/-! ## Single steps -/

theorem pairs_newScope (h : m.Alike n) {parent : Address}
    (hp : BothScopes m.store n.store parent) :
    Pairs (newScope parent) (newScope parent) m n := by
  obtain ⟨store, env⟩ := h
  unfold Pairs newScope
  simp only [Store.fst_newScope, store.size]
  exact .ok (.intro (store.newScope hp) (env.mono (Store.grows_newScope _ _)
    (Store.grows_newScope _ _)))

theorem pairs_newInstance (h : m.Alike n) : Pairs newInstance newInstance m n := by
  obtain ⟨store, env⟩ := h
  unfold Pairs newInstance
  simp only [Store.fst_newInstance, store.size]
  exact .ok (.intro store.newInstance (env.mono (Store.grows_newInstance _)
    (Store.grows_newInstance _)))

theorem pairs_newFunction (h : m.Alike n) (decl : FunctionDecl Stmt) (scope : Address) :
    Pairs (newFunction decl scope) (newFunction decl scope) m n := by
  obtain ⟨store, env⟩ := h
  unfold Pairs newFunction Store.newFunction
  simp only [Store.fst_newIdentity, store.size]
  exact .ok (.intro store.newIdentity (env.mono (Store.grows_newIdentity _)
    (Store.grows_newIdentity _)))

theorem pairs_newClass (h : m.Alike n) (name : String) (superclass : Option ClassObject)
    (methods : List (String × Closure)) :
    Pairs (newClass name superclass methods) (newClass name superclass methods) m n := by
  obtain ⟨store, env⟩ := h
  unfold Pairs newClass Store.newClass
  simp only [Store.fst_newIdentity, store.size]
  exact .ok (.intro store.newIdentity (env.mono (Store.grows_newIdentity _)
    (Store.grows_newIdentity _)))

theorem pairs_defineIn (h : m.Alike n) (scope : Address) (name : String)
    (hv : BothValues m.store n.store value) :
    Pairs (defineIn scope name value) (defineIn scope name value) m n := by
  obtain ⟨store, env⟩ := h
  exact .ok (.intro (store.define hv) (env.mono (Store.grows_define _ _ _ _)
    (Store.grows_define _ _ _ _)))

theorem pairs_define (h : m.Alike n) (name : String) (hv : BothValues m.store n.store value) :
    Pairs (define name value) (define name value) m n := by
  obtain ⟨store, env⟩ := h
  exact .ok (.intro (store.define hv) (env.mono (Store.grows_define _ _ _ _)
    (Store.grows_define _ _ _ _)))

theorem pairs_defineAllIn (h : m.Alike n) (scope : Address) {entries : List (String × Value)}
    (hv : ∀ entry ∈ entries, BothValues m.store n.store entry.2) :
    Pairs (defineAllIn scope entries) (defineAllIn scope entries) m n := by
  obtain ⟨store, env⟩ := h
  exact .ok (.intro (store.defineAll hv) (env.mono (Store.grows_defineAll _ _ _)
    (Store.grows_defineAll _ _ _)))

theorem pairs_setField (h : m.Alike n) (id : Address) (name : String)
    (hv : BothValues m.store n.store value) :
    Pairs (setField id name value) (setField id name value) m n := by
  obtain ⟨store, env⟩ := h
  exact .ok (.intro (store.setField hv) (env.mono (Store.grows_setField _ _ _ _)
    (Store.grows_setField _ _ _ _)))

theorem pairs_lookup (h : m.Alike n) (o : Occurrence) (name : String) :
    Pairs (lookup o name) (lookup o name) m n := by
  have alike := h
  obtain ⟨store, env⟩ := h
  unfold Pairs lookup
  cases m.distances[o.id]? with
  | none =>
      dsimp only
      rw [← store.get Store.bothScopes_globals]
      cases m.store.get Store.globals name o.token.line with
      | ok value => exact .ok alike
      | error e => exact .error alike
  | some distance =>
      dsimp only
      rw [← store.getAt env]
      cases m.store.getAt m.environment distance name o.token.line with
      | ok value => exact .ok alike
      | error e => exact .error alike

theorem pairs_assign (h : m.Alike n) (o : Occurrence) (hv : BothValues m.store n.store value) :
    Pairs (assign o value) (assign o value) m n := by
  have alike := h
  have stored (holder : Address) := pairs_defineIn h holder o.token.lexeme hv
  obtain ⟨store, env⟩ := h
  unfold Pairs assign
  cases m.distances[o.id]? with
  | none =>
      dsimp only
      rw [← store.target Store.bothScopes_globals]
      cases m.store.target Store.globals o.token.lexeme o.token.line with
      | ok holder => exact stored holder
      | error e => exact .error alike
  | some distance =>
      dsimp only
      rw [← store.targetAt env]
      cases m.store.targetAt m.environment distance o.token.lexeme o.token.line with
      | ok holder => exact stored holder
      | error e => exact .error alike

theorem pairs_bindMethod (h : m.Alike n) {method : Closure}
    (hm : BothScopes m.store n.store method.scope) (hv : BothValues m.store n.store value) :
    Pairs (bindMethod method value) (bindMethod method value) m n := by
  obtain ⟨store, env⟩ := h
  unfold Pairs bindMethod
  simp only [← store.fst_bindMethod]
  exact .ok (.intro (store.bindMethod hm hv) (env.mono (Store.grows_bindMethod _ _ _)
    (Store.grows_bindMethod _ _ _)))

theorem pairs_boundMethod (h : m.Alike n) {method : Closure}
    (hm : BothScopes m.store n.store method.scope) (hv : BothValues m.store n.store value) :
    Pairs (boundMethod method value) (boundMethod method value) m n := by
  obtain ⟨store, env⟩ := h
  unfold Pairs boundMethod
  simp only [← store.fst_boundMethod hm hv]
  exact .ok (.intro (store.boundMethod hm hv) (env.mono (Store.grows_boundMethod _ _ _)
    (Store.grows_boundMethod _ _ _)))

theorem bothScopes_method {s t : Store} {object : ClassObject} {name : String} {method : Closure}
    (hv : BothValues s t (.class object)) (found : object.method? name = some method) :
    BothScopes s t method.scope :=
  ⟨hv.1 _ (Store.method?_scope_mem found), hv.2 _ (Store.method?_scope_mem found)⟩

theorem bothValues_class {s t : Store} {id : Address} {object : ClassObject}
    (hv : BothValues s t (.instance id object)) : BothValues s t (.class object) :=
  ⟨hv.1.2, hv.2.2⟩

theorem pairs_readProperty (h : m.Alike n) {id : Address} {object : ClassObject} (name : String)
    (hv : BothValues m.store n.store (.instance id object)) :
    Pairs (readProperty id object name line) (readProperty id object name line) m n := by
  have alike := h
  have method (closure : Closure) (found : object.method? name = some closure) :=
    pairs_boundMethod h (bothScopes_method (bothValues_class hv) found) hv
  obtain ⟨store, env⟩ := h
  unfold Pairs readProperty
  dsimp only
  rw [← store.property? hv.1.1 hv.2.1]
  cases found : m.store.property? id object name with
  | none => exact .error alike
  | some property =>
      cases property with
      | field value => exact .ok alike
      | method closure =>
          refine method closure ?_
          unfold Store.property? at found
          split at found
          · cases found
          · obtain ⟨other, eq, same⟩ := Option.map_eq_some_iff.mp found
            cases same
            exact eq

theorem pairs_print (h : m.Alike n) (value : Value) : Pairs (print value) (print value) m n := by
  obtain ⟨store, env⟩ := h
  exact .ok (.intro store env)

theorem pairs_readClock (h : m.Alike n) (agree : left.AgreesWith right) :
    Pairs (readClock left) (readClock right) m n := by
  obtain ⟨store, env⟩ := h
  unfold Pairs readClock
  rw [agree.time]
  exact .ok (.intro store env)

theorem pairs_start (h : m.Alike n) (agree : left.AgreesWith right) :
    Pairs (start left line) (start right line) m n := by
  obtain ⟨store, env⟩ := h
  unfold Pairs start
  dsimp only
  rw [agree.interrupts]
  split
  · exact .error (.intro store env)
  · exact .ok (.intro store env)

theorem pairs_collectIfDue (h : m.Alike n) :
    Pairs (collectIfDue left) (collectIfDue right) m n := by
  obtain ⟨store, env⟩ := h
  rename_i t
  have kept {s : Store} (sound : s.Sound) (listed : s.ScopeListed m.environment) :
      (s.collect m.environment).ScopeListed m.environment :=
    (sound.scopeListed_collect listed).mpr ⟨listed, sound.marked_root listed⟩
  have first := store.collect_left env.1
  unfold Pairs collectIfDue
  dsimp only
  split <;> split
  · have both := first.collect_right env.2
    exact .ok (.intro both ⟨kept store.left env.1, kept store.right env.2⟩)
  · exact .ok (.intro first ⟨kept store.left env.1, env.2⟩)
  · exact .ok (.intro (store.collect_right env.2) ⟨env.1, kept store.right env.2⟩)
  · exact .ok (.intro store env)

/-! ## Surroundings -/

theorem pairs_inScope {scope : Address} {p q : Run α}
    (h : Pairs p q { m with environment := scope } { n with environment := scope })
    (same : n.environment = m.environment)
    (hm : Ends (inScope scope p) m (fun _ m => m.Sound) fun _ m => m.Sound)
    (hn : Ends (inScope scope q) n (fun _ n => n.Sound) fun _ n => n.Sound) :
    Pairs (inScope scope p) (inScope scope q) m n := by
  unfold Pairs Ends inScope at *
  dsimp only at *
  generalize p { m with environment := scope } = x at *
  generalize q { n with environment := scope } = y at *
  rw [same] at hn ⊢
  cases h with
  | ok alike =>
      obtain ⟨store, env⟩ := alike
      exact .ok (.intro store ⟨hm.environment, hn.environment⟩)
  | error alike =>
      obtain ⟨store, env⟩ := alike
      exact .error (.intro store ⟨hm.environment, hn.environment⟩)

theorem pairs_inNewScope {p q : Run Signal} (h : m.Alike n)
    (body : ∀ m' n' : Machine, m'.Alike n' → Pairs p q m' n')
    (hp : ∀ o : Machine, o.Sound → PassesWith p o Store.SignalListed)
    (hq : ∀ o : Machine, o.Sound → PassesWith q o Store.SignalListed) :
    Pairs (do inScope (← newScope (← get).environment) p)
      (do inScope (← newScope (← get).environment) q) m n := by
  have first := ends_newScope.mp (ends_bind.mp (passes_inScope h.left hp))
  have second := ends_newScope.mp (ends_bind.mp (passes_inScope h.right hq))
  obtain ⟨store, env⟩ := h
  rename_i t
  have fresh : (t.newScope m.environment).1 = (m.store.newScope m.environment).1 := store.size.symm
  have scope : BothScopes (m.store.newScope m.environment).2 (t.newScope m.environment).2
      (m.store.newScope m.environment).1 :=
    ⟨Store.newScope_listed _ _, fresh ▸ Store.newScope_listed t m.environment⟩
  show Pairs (inScope (m.store.newScope m.environment).1 p)
    (inScope (t.newScope m.environment).1 q)
    { m with store := (m.store.newScope m.environment).2 }
    { m with store := (t.newScope m.environment).2 }
  have opened := Machine.Alike.intro
    (m := { m with
      store := (m.store.newScope m.environment).2
      environment := (m.store.newScope m.environment).1 }) (store.newScope env) scope
  rw [fresh]
  refine pairs_inScope (body _ _ opened) rfl ?_ ?_
  · exact first.imp (fun _ _ ended => ended.1.sound) fun _ _ ended => ended.sound
  · rw [← fresh]
    exact second.imp (fun _ _ ended => ended.1.sound) fun _ _ ended => ended.sound

theorem pairs_inLoop {p q : Run α} (h : m.Alike n)
    (body : ∀ m' n' : Machine, m'.Alike n' → Pairs p q m' n') :
    Pairs (inLoop p) (inLoop q) m n := by
  obtain ⟨store, env⟩ := h
  rename_i t
  have inner := body _ _ (Machine.Alike.intro
    (m := { m with frame := { m.frame with loopDepth := m.frame.loopDepth + 1 } }) store env)
  unfold Pairs inLoop at *
  dsimp only at *
  generalize p _ = x at *
  generalize q _ = y at *
  cases inner with
  | ok alike =>
      obtain ⟨store, env⟩ := alike
      exact .ok (.intro store env)
  | error alike =>
      obtain ⟨store, env⟩ := alike
      exact .error (.intro store env)

theorem pairs_inCall {kind : FrameKind} {scope : Address} {p q : Run Signal} (h : m.Alike n)
    (hs : BothScopes m.store n.store scope)
    (body : ∀ m' n' : Machine, m'.Alike n' → Pairs p q m' n')
    (hm : KeepsWith (inCall kind scope p) m Store.SignalListed)
    (hn : KeepsWith (inCall kind scope q) n Store.SignalListed) :
    Pairs (inCall kind scope p) (inCall kind scope q) m n := by
  obtain ⟨store, env⟩ := h
  rename_i t
  have inner := body _ _ (Machine.Alike.intro
    (m := { m with
      environment := scope, frame := ⟨kind, 0⟩, callDepth := m.callDepth + 1 }) store hs)
  unfold Pairs KeepsWith Ends inCall at *
  dsimp only at *
  generalize p _ = x at *
  generalize q _ = y at *
  cases inner with
  | ok alike =>
      obtain ⟨store, env⟩ := alike
      exact .ok (.intro store ⟨hm.1.sound.environment, hn.1.sound.environment⟩)
  | error alike =>
      obtain ⟨store, env⟩ := alike
      exact .error (.intro store ⟨hm.sound.environment, hn.sound.environment⟩)

/-! ## Compound steps -/

theorem pairs_superMethod (h : m.Alike n) (keyword : Occurrence) (method : Token) :
    Pairs (superMethod keyword method) (superMethod keyword method) m n := by
  have alike := h
  obtain ⟨store, env⟩ := h
  rename_i t
  have both {d : Nat} {name : String} {v : Value}
      (found : m.store.getAt m.environment d name keyword.token.line = .ok v) :
      BothValues m.store t v :=
    ⟨store.left.getAt_listed env.1 found,
      store.right.getAt_listed env.2 ((store.getAt env).symm.trans found)⟩
  unfold superMethod
  refine pairs_get_then ?_
  dsimp only
  cases m.distances[keyword.id]? with
  | none => exact pairs_fail alike _
  | some distance =>
      dsimp only
      rw [← store.getAt env, ← store.getAt env]
      refine pairs_ofExcept_then alike fun superclass hs => ?_
      refine pairs_ofExcept_then alike fun receiver hr => ?_
      split
      · split
        · rename_i found
          exact pairs_boundMethod alike (bothScopes_method (both hs) found) (both hr)
        · exact pairs_fail alike _
      · exact pairs_fail alike _

theorem pairs_checkDepth (h : m.Alike n) (agree : left.AgreesWith right) :
    Pairs (checkDepth left line) (checkDepth right line) m n := by
  have alike := h
  obtain ⟨store, env⟩ := h
  unfold checkDepth
  rw [agree.maxDepth]
  cases right.maxDepth with
  | none => exact pairs_pure alike ()
  | some limit =>
      refine pairs_get_then ?_
      split
      · exact pairs_fail alike _
      · exact pairs_pure alike ()

theorem pairs_callScope (h : m.Alike n) {closure : Closure} {args : List Value}
    (hc : BothScopes m.store n.store closure.scope)
    (ha : ∀ v ∈ args, BothValues m.store n.store v) :
    Pairs (callScope closure args) (callScope closure args) m n := by
  unfold callScope
  refine (pairs_newScope h hc).then (keeps_newScope h.left hc.1) (keeps_newScope h.right hc.2)
    fun scope m' n' h' hm hn => ?_
  have entries : ∀ entry ∈ (closure.decl.params.map Token.lexeme).zip args,
      BothValues m'.store n'.store entry.2 :=
    fun entry mem => (ha _ (List.of_mem_zip mem).2).mono hm.1.growth hn.1.growth
  have defined := pairs_defineAllIn h' scope entries
  obtain ⟨store, env⟩ := h'
  cases defined with
  | ok alike => exact pairs_pure alike scope

theorem pairs_callResult (h : m.Alike n) {closure : Closure}
    (hc : BothScopes m.store n.store closure.scope) (value : Value) :
    Pairs (callResult closure line value) (callResult closure line value) m n := by
  unfold callResult
  split
  · refine pairs_get_then ?_
    rw [h.store.getAt hc]
    exact pairs_ofExcept h _
  · exact pairs_pure h value

theorem pairs_superclassOf (h : m.Alike n) (decl : ClassDecl Stmt) :
    Pairs (superclassOf decl) (superclassOf decl) m n := by
  unfold superclassOf
  cases decl.superclass with
  | none => exact pairs_pure h none
  | some parent =>
      dsimp only
      split
      · exact pairs_fail h _
      · refine (pairs_lookup h parent _).then (keeps_lookup h.left parent _)
          (keeps_lookup h.right parent _) fun value m' n' h' _ _ => ?_
        split
        · exact pairs_pure h' _
        · exact pairs_fail h' _

theorem pairs_methodScope (h : m.Alike n) {superclass : Option ClassObject}
    (hs : ∀ object ∈ superclass, BothValues m.store n.store (.class object)) :
    Pairs (methodScope superclass) (methodScope superclass) m n := by
  have alike := h
  obtain ⟨store, env⟩ := h
  unfold methodScope
  refine pairs_get_then ?_
  cases superclass with
  | none => exact pairs_pure alike m.environment
  | some object =>
      refine (pairs_newScope alike env).then (keeps_newScope alike.left env.1)
        (keeps_newScope alike.right env.2) fun scope m' n' h' hm hn => ?_
      have listed := (hs object rfl).mono hm.1.growth hn.1.growth
      exact (pairs_defineIn h' scope _ listed).then (keeps_defineIn h'.left scope _ listed.1)
        (keeps_defineIn h'.right scope _ listed.2) fun _ _ _ h'' _ _ => pairs_pure h'' scope

theorem pairs_declareClass (h : m.Alike n) (decl : ClassDecl Stmt) :
    Pairs (declareClass decl) (declareClass decl) m n := by
  unfold declareClass
  refine (pairs_superclassOf h decl).then (keeps_superclassOf h.left decl)
    (keeps_superclassOf h.right decl) fun superclass m' n' h' hm hn => ?_
  have classes : ∀ object ∈ superclass, BothValues m'.store n'.store (.class object) :=
    fun object mem => ⟨hm.2 object mem, hn.2 object mem⟩
  refine (pairs_methodScope h' classes).then (keeps_methodScope h'.left hm.2)
    (keeps_methodScope h'.right hn.2) fun scope m'' n'' h'' hm' hn' => ?_
  have methods {s : Store} (hs : s.ScopeListed scope) :
      ∀ c ∈ decl.methods.map (Store.methodEntry scope), s.ScopeListed c.2.scope := by
    intro c mem
    obtain ⟨method, -, rfl⟩ := List.mem_map.mp mem
    exact hs
  refine (pairs_newClass h'' _ _ _).then
    (keeps_newClass h''.left _ (methods hm'.2) fun object mem =>
      (hm.2 object mem).mono hm'.1.growth)
    (keeps_newClass h''.right _ (methods hn'.2) fun object mem =>
      (hn.2 object mem).mono hn'.1.growth)
    fun value _ _ last left right => ?_
  exact pairs_define last _ ⟨left.2, right.2⟩

theorem pairs_declareFunction (h : m.Alike n) (decl : FunctionDecl Stmt) :
    Pairs (declareFunction decl) (declareFunction decl) m n := by
  have alike := h
  obtain ⟨store, env⟩ := h
  unfold declareFunction
  refine pairs_get_then ?_
  refine (pairs_newFunction alike decl _).then (keeps_newFunction alike.left decl env.1)
    (keeps_newFunction alike.right decl env.2) fun value _ _ last left right => ?_
  exact pairs_define last _ ⟨left.2, right.2⟩

theorem pairs_checkReturn (h : m.Alike n) (keyword : Token) (value : Option Expr) :
    Pairs (checkReturn keyword value) (checkReturn keyword value) m n := by
  have alike := h
  obtain ⟨store, env⟩ := h
  unfold checkReturn
  refine pairs_get_then ?_
  dsimp only
  cases m.frame.kind with
  | script => exact pairs_fail alike _
  | function => exact pairs_pure alike ()
  | initializer =>
      dsimp only
      split
      · exact pairs_fail alike _
      · exact pairs_pure alike ()

theorem pairs_leaveLoop (h : m.Alike n) (exit : LoopExit) (signal : Signal) :
    Pairs (leaveLoop exit line signal) (leaveLoop exit line signal) m n := by
  have alike := h
  obtain ⟨store, env⟩ := h
  unfold leaveLoop
  refine pairs_get_then ?_
  split
  · exact pairs_fail alike _
  · exact pairs_pure alike signal

end Run

end ClassScript
