import ClassScript.Proofs.Lexical.Code
import ClassScript.Proofs.Similar.Worlds

namespace ClassScript.World

open Store

variable {T : Twins} {w w' : World} {s t : Store} {P : World → Prop} {Γ : ScopePairs}
  {a b p q : Address} {ρ : Equiv.Perm String} {c c' : Cell} {v v' : Value} {name name' : String}

def Reaches (T : Twins) (w : World) (s t : Store) (P : World → Prop) : Prop :=
  ∃ w', w.Grows w' ∧ w'.Consistent T ∧ w'.left = s ∧ w'.right = t ∧ P w'

theorem Reaches.then {s' t' : Store} {Q : World → Prop} (h : w.Reaches T s t P)
    (next : ∀ w', w.Grows w' → w'.Consistent T → w'.left = s → w'.right = t → P w' →
      w'.Reaches T s' t' Q) : w.Reaches T s' t' Q := by
  obtain ⟨w', grows, consistent, left, right, holds⟩ := h
  obtain ⟨w'', grows', rest⟩ := next w' grows consistent left right holds
  exact ⟨w'', grows.trans grows', rest⟩

theorem Reaches.imp {Q : World → Prop} (h : w.Reaches T s t P)
    (imp : ∀ w', w.Grows w' → w'.Consistent T → P w' → Q w') : w.Reaches T s t Q := by
  obtain ⟨w', grows, consistent, left, right, holds⟩ := h
  exact ⟨w', grows, consistent, left, right, imp w' grows consistent holds⟩

def link (w : World) (s t : Store) (ρ : Equiv.Perm String) : World :=
  ⟨s, t, fun a b σ => w.linked a b σ ∨ a = w.left.cells.size ∧ b = w.right.cells.size ∧ σ = ρ⟩

theorem Consistent.lt (h : w.Consistent T) (linked : w.linked a b ρ) :
    a < w.left.cells.size ∧ b < w.right.cells.size := by
  obtain ⟨c, c', hc, hc', -⟩ := h.cells linked
  exact ⟨(Array.getElem?_eq_some_iff.mp hc).1, (Array.getElem?_eq_some_iff.mp hc').1⟩

theorem reaches_link (h : w.Consistent T) (hs : w.left.Grows s) (ht : w.right.Grows t)
    (left : s.cells = w.left.cells.push c) (right : t.cells = w.right.cells.push c')
    (alike : CellLinked T (w.link s t ρ) ρ c c') :
    w.Reaches T s t fun w' => w'.linked w.left.cells.size w.right.cells.size ρ := by
  have grows : w.Grows (w.link s t ρ) := ⟨hs, ht, .inl⟩
  refine ⟨w.link s t ρ, grows, ⟨?_, ?_, .inl h.globals, hs.ext.isScope h.globalScope⟩, rfl, rfl,
    .inr ⟨rfl, rfl, rfl⟩⟩
  · rintro x y σ x' y' σ' (old | ⟨rfl, rfl, rfl⟩) (old' | ⟨rfl, rfl, rfl⟩)
    · exact h.unique old old'
    · obtain ⟨lt, lt'⟩ := h.lt old
      exact ⟨iff_of_false (Nat.ne_of_lt lt) (Nat.ne_of_lt lt'),
        fun eq => absurd eq (Nat.ne_of_lt lt)⟩
    · obtain ⟨lt, lt'⟩ := h.lt old'
      exact ⟨iff_of_false (Nat.ne_of_gt lt) (Nat.ne_of_gt lt'),
        fun eq => absurd eq (Nat.ne_of_gt lt)⟩
    · exact ⟨⟨fun _ => rfl, fun _ => rfl⟩, fun _ => rfl⟩
  · rintro x y σ (old | ⟨rfl, rfl, rfl⟩)
    · obtain ⟨d, d', hd, hd', linked⟩ := h.cells old
      refine ⟨d, d', ?_, ?_, linked.mono grows⟩
      · change s.cells[x]? = some d
        rw [left, Array.getElem?_push, if_neg (ne_size_of_cell hd), hd]
      · change t.cells[y]? = some d'
        rw [right, Array.getElem?_push, if_neg (ne_size_of_cell hd'), hd']
    · refine ⟨c, c', ?_, ?_, alike⟩
      · change s.cells[w.left.cells.size]? = some c
        rw [left, Array.getElem?_push, if_pos rfl]
      · change t.cells[w.right.cells.size]? = some c'
        rw [right, Array.getElem?_push, if_pos rfl]

theorem reaches_newCells (h : w.Consistent T) (p q : Address) (ρ : Equiv.Perm String) :
    w.Reaches T (w.left.newScope p).2 (w.right.newScope q).2 fun w' =>
      w'.linked w.left.cells.size w.right.cells.size ρ :=
  reaches_link h (grows_newScope _ _) (grows_newScope _ _) rfl rfl (.scope fun _ => .none)

theorem reaches_newScope (h : w.Consistent T) (chain : w.Chain Γ p q) (ρ : Equiv.Perm String) :
    w.Reaches T (w.left.newScope p).2 (w.right.newScope q).2 fun w' =>
      w'.linked w.left.cells.size w.right.cells.size ρ ∧
      w'.Chain (.both ρ [] :: Γ) w.left.cells.size w.right.cells.size := by
  obtain ⟨w', grows, consistent, left, right, linked⟩ := reaches_newCells h p q ρ
  refine ⟨w', grows, consistent, left, right, linked, .both linked ?_ ?_ nofun (chain.mono grows)⟩
  · rw [left]
    exact parent?_newScope w.left p
  · rw [right]
    exact parent?_newScope w.right q

theorem reaches_newInstance (h : w.Consistent T) :
    w.Reaches T w.left.newInstance.2 w.right.newInstance.2 fun w' =>
      w'.linked w.left.cells.size w.right.cells.size (.refl String) :=
  reaches_link h (grows_newInstance _) (grows_newInstance _) rfl rfl (.instance fun _ => .none)

theorem reaches_newIdentity (h : w.Consistent T) :
    w.Reaches T w.left.newIdentity.2 w.right.newIdentity.2 fun w' =>
      w'.linked w.left.cells.size w.right.cells.size (.refl String) :=
  reaches_link h (grows_newIdentity _) (grows_newIdentity _) rfl rfl .identity

theorem reaches_newScope_left (h : w.Consistent T) (chain : w.Chain Γ a b) :
    w.Reaches T (w.left.newScope a).2 w.right fun w' =>
      w'.Chain (.left :: Γ) w.left.cells.size b := by
  have grows : w.Grows { w with left := (w.left.newScope a).2 } :=
    ⟨grows_newScope _ _, .refl _, id⟩
  refine ⟨_, grows, ⟨h.unique, fun linked => ?_, h.globals, grows.left.ext.isScope h.globalScope⟩,
    rfl, rfl, .left (parent?_newScope w.left a) (chain.mono grows)⟩
  obtain ⟨c, c', hc, hc', alike⟩ := h.cells linked
  exact ⟨c, c', by rw [cells_newScope, if_neg (ne_size_of_cell hc), hc], hc', alike.mono grows⟩

theorem reaches_newScope_right (h : w.Consistent T) (chain : w.Chain Γ a b) :
    w.Reaches T w.left (w.right.newScope b).2 fun w' =>
      w'.Chain (.right :: Γ) a w.right.cells.size := by
  have grows : w.Grows { w with right := (w.right.newScope b).2 } :=
    ⟨.refl _, grows_newScope _ _, id⟩
  refine ⟨_, grows, ⟨h.unique, fun linked => ?_, h.globals, h.globalScope⟩, rfl, rfl,
    .right (parent?_newScope w.right b) (chain.mono grows)⟩
  obtain ⟨c, c', hc, hc', alike⟩ := h.cells linked
  exact ⟨c, c', hc, by rw [cells_newScope, if_neg (ne_size_of_cell hc'), hc'], alike.mono grows⟩

theorem reaches_modify (h : w.Consistent T) (linked : w.linked a b ρ) {f f' : Cell → Cell}
    (hs : w.left.Grows s) (ht : w.right.Grows t)
    (left : ∀ x, s.cells[x]? = if a = x then (w.left.cells[x]?).map f else w.left.cells[x]?)
    (right : ∀ y, t.cells[y]? = if b = y then (w.right.cells[y]?).map f' else w.right.cells[y]?)
    (keep : ∀ w', w.Grows w' → w'.left = s → ∀ c c', CellLinked T w' ρ c c' →
      CellLinked T w' ρ (f c) (f' c')) : w.Reaches T s t fun _ => True := by
  let w' : World := ⟨s, t, w.linked⟩
  have grows : w.Grows w' := ⟨hs, ht, id⟩
  refine ⟨w', grows, ⟨h.unique, fun {x y σ} old => ?_, h.globals, hs.ext.isScope h.globalScope⟩,
    rfl, rfl, trivial⟩
  obtain ⟨c, c', hc, hc', cells⟩ := h.cells old
  obtain ⟨same, renamed⟩ := h.unique linked old
  have cells := cells.mono grows
  change ∃ c c', s.cells[x]? = some c ∧ t.cells[y]? = some c' ∧ _
  rw [left, right, hc, hc']
  by_cases eq : a = x
  · rw [if_pos eq, if_pos (same.mp eq)]
    rw [← renamed eq] at cells ⊢
    exact ⟨_, _, rfl, rfl, keep w' grows rfl c c' cells⟩
  · rw [if_neg eq, if_neg fun eq' => eq (same.mpr eq')]
    exact ⟨c, c', rfl, rfl, cells⟩

theorem reaches_define (h : w.Consistent T) (linked : w.linked a b ρ) (name : String)
    (alike : ∀ w', w.Grows w' → w'.left = w.left.define a name v → ValueLinked T w' v v') :
    w.Reaches T (w.left.define a name v) (w.right.define b (ρ name) v') fun _ => True :=
  reaches_modify h linked (grows_define _ _ _ _) (grows_define _ _ _ _)
    (fun x => cells_define _ _ x _ _) (fun y => cells_define _ _ y _ _)
    fun w' grows left _ _ cells => cells.define (alike w' grows left) name

theorem reaches_setField (h : w.Consistent T) (linked : w.linked a b ρ)
    (alike : ValueLinked T w v v') (name : String) :
    w.Reaches T (w.left.setField a name v) (w.right.setField b name v') fun _ => True :=
  reaches_modify h linked (grows_setField _ _ _ _) (grows_setField _ _ _ _)
    (fun x => cells_setField _ _ x _ _) (fun y => cells_setField _ _ y _ _)
    fun _ grows _ _ _ cells => cells.setField (alike.mono grows) name

theorem contains_define_self (scope : s.IsScope a) (name : String) (v : Value) :
    ((s.define a name v).bindings a).contains name = true := by
  obtain ⟨p, bs, hc⟩ := scope
  rw [bindings_define_of_cell hc]
  exact Bindings.contains_set_self _ _ _

theorem Chain.linked (chain : w.Chain Γ a b) (h : w.Consistent T)
    (declares : Γ.Declares name name') :
    ∃ ρ, w.linked a b ρ ∧ name' = ρ name ∧ w.left.IsScope a := by
  cases chain with
  | globals => exact ⟨_, h.globals, declares, h.globalScope⟩
  | both linked hp =>
      obtain ⟨bs, hc⟩ := cell_of_parent? hp
      exact ⟨_, linked, declares, _, bs, hc⟩
  | left | right => exact declares.elim

theorem reaches_declare (h : w.Consistent T) (chain : w.Chain Γ a b)
    (declares : Γ.Declares name name') (v v' : Value)
    (alike : ∀ w', w.Grows w' → w'.Chain (Γ.declare name) a b → ValueLinked T w' v v') :
    w.Reaches T (w.left.define a name v) (w.right.define b name' v') fun w' =>
      w'.Chain (Γ.declare name) a b := by
  obtain ⟨ρ, linked, rfl, scope⟩ := chain.linked h declares
  have declared {w' : World} (grows : w.Grows w') (left : w'.left = w.left.define a name v) :
      w'.Chain (Γ.declare name) a b := by
    apply (chain.mono grows).declare
    rw [left]
    exact contains_define_self scope name v
  have reached := reaches_define h linked name fun w' grows left =>
    alike w' grows (declared grows left)
  obtain ⟨w', grows, consistent, left, right, -⟩ := reached
  exact ⟨w', grows, consistent, left, right, declared grows left⟩

theorem reaches_defineAll (h : w.Consistent T) (linked : w.linked a b ρ) (names : List String)
    {vs vs' : List Value} (alike : List.Forall₂ (ValueLinked T w) vs vs') :
    w.Reaches T (w.left.defineAll a (names.zip vs)) (w.right.defineAll b ((names.map ρ).zip vs'))
      fun _ => True := by
  induction names generalizing w vs vs' with
  | nil => exact ⟨w, .refl w, h, rfl, rfl, trivial⟩
  | cons name names ih =>
      cases alike with
      | nil => exact ⟨w, .refl w, h, rfl, rfl, trivial⟩
      | cons first rest =>
          apply (reaches_define h linked name fun w' grows _ => first.mono grows).then
          intro w' grows consistent left right _
          have others := ih consistent (grows.linked linked) (rest.imp fun _ _ v => v.mono grows)
          rw [left, right] at others
          exact others

theorem reaches_callScope (h : w.Consistent T) (chain : w.Chain Γ p q) (ρ : Equiv.Perm String)
    (names : List String) {vs vs' : List Value} (alike : List.Forall₂ (ValueLinked T w) vs vs')
    (length : vs.length = names.length) :
    w.Reaches T ((w.left.newScope p).2.defineAll w.left.cells.size (names.zip vs))
      ((w.right.newScope q).2.defineAll w.right.cells.size ((names.map ρ).zip vs'))
      fun w' => w'.Chain (.both ρ names.reverse :: Γ) w.left.cells.size w.right.cells.size := by
  apply (reaches_newScope h chain ρ).then
  intro w' grows consistent left right ⟨linked, inner⟩
  have filled := reaches_defineAll consistent linked names (alike.imp fun _ _ v => v.mono grows)
  rw [left, right] at filled
  obtain ⟨w'', grows', consistent', left', right', -⟩ := filled
  refine ⟨w'', grows', consistent', left', right', (inner.mono grows').binds fun name mem => ?_⟩
  have created := cells_newScope w.left p w.left.cells.size
  rw [if_pos rfl] at created
  rw [left']
  apply contains_defineAll created
  rw [List.map_fst_zip length.ge]
  exact List.mem_reverse.mp mem

theorem reaches_bindMethod (h : w.Consistent T) {m m' : Closure} (method : MethodLinked T w m m')
    (receiver : ValueLinked T w v v') :
    w.Reaches T (w.left.bindMethod m v).2 (w.right.bindMethod m' v').2 fun w' =>
      Callable T w' (w.left.bindMethod m v).1 (w.right.bindMethod m' v').1 := by
  obtain ⟨Γ, initializer, chain, code⟩ := method
  apply (reaches_newScope h chain (.refl String)).then
  intro w' grows consistent left right ⟨linked, inner⟩
  have defined := reaches_define consistent linked receiverName fun _ grows' _ =>
    receiver.mono (grows.trans grows')
  rw [left, right] at defined
  obtain ⟨w'', grows', consistent', left', right', -⟩ := defined
  refine ⟨w'', grows', consistent', left', right', _, ⟨initializer, ?_, code⟩, fun _ => ⟨Γ, rfl⟩⟩
  refine (inner.mono grows').binds fun name mem => ?_
  rw [List.mem_singleton.mp mem, left']
  exact contains_define_newScope w.left m.scope receiverName v

theorem reaches_boundMethod (h : w.Consistent T) {m m' : Closure} (method : MethodLinked T w m m')
    (receiver : ValueLinked T w v v') :
    w.Reaches T (w.left.boundMethod m v).2 (w.right.boundMethod m' v').2 fun w' =>
      ValueLinked T w' (w.left.boundMethod m v).1 (w.right.boundMethod m' v').1 := by
  apply (reaches_bindMethod h method receiver).then
  intro w' _ consistent left right callable
  have created := reaches_newIdentity consistent
  rw [left, right] at created
  exact created.imp fun w'' grows' _ linked => .bound linked (callable.mono grows')

theorem reaches_declareFunction (h : w.Consistent T) (chain : w.Chain Γ a b)
    {f f' : FunctionDecl Stmt} (declares : Γ.Declares f.name.lexeme f.name.lexeme)
    (code : T.Function (Γ.declare f.name.lexeme) f f') :
    w.Reaches T
      ((w.left.newFunction f a).2.define a f.name.lexeme (w.left.newFunction f a).1)
      ((w.right.newFunction f' b).2.define b f'.name.lexeme (w.right.newFunction f' b).1)
      fun w' => w'.Chain (Γ.declare f.name.lexeme) a b := by
  apply (reaches_newIdentity h).then
  intro w' grows consistent left right linked
  have declared := reaches_declare consistent (chain.mono grows) declares
    (w.left.newFunction f a).1 (w.right.newFunction f' b).1
    fun w'' grows' inner => .function (grows'.linked linked) ⟨_, ⟨rfl, inner, code⟩, nofun⟩
  rw [left, right] at declared
  rw [code.same_name]
  exact declared

theorem forall₂_lastOfEach {P : Closure → Closure → Prop} {ms ms' : List (String × Closure)}
    (h : List.Forall₂ (fun m m' => m'.1 = m.1 ∧ P m.2 m'.2) ms ms') :
    List.Forall₂ (fun m m' => m'.1 = m.1 ∧ P m.2 m'.2) (lastOfEach ms) (lastOfEach ms') := by
  induction h with
  | nil => exact .nil
  | @cons m m' ms ms' first rest ih =>
      have again : ms'.any (·.1 == m'.1) = ms.any (·.1 == m.1) := by
        rw [first.1]
        clear ih
        induction rest with
        | nil => rfl
        | cons one _ ih => rw [List.any_cons, List.any_cons, ih, one.1]
      rw [lastOfEach, lastOfEach, again]
      split
      · exact ih
      · exact .cons first ih

theorem methodEntries_linked {ms ms' : List (FunctionDecl Stmt)}
    (methods : T.Methods (.single "this" :: Γ) ms ms') (home : w.Chain Γ p q) :
    List.Forall₂ (fun m m' => m'.1 = m.1 ∧ MethodLinked T w m.2 m'.2)
      (ms.map (methodEntry p)) (ms'.map (methodEntry q)) := by
  induction ms generalizing ms' with
  | nil =>
      cases methods
      exact .nil
  | cons m ms ih =>
      cases methods with
      | cons code rest =>
          refine .cons ⟨?_, Γ, ?_, home, code⟩ (ih rest)
          · exact congrArg Token.lexeme code.same_name
          · simp only [methodEntry, code.same_name]

theorem reaches_superScope (h : w.Consistent T) {c c' : ClassObject} (object : ClassLinked T w c c')
    (p q : Address) :
    w.Reaches T ((w.left.newScope p).2.define w.left.cells.size superclassName (.class c))
      ((w.right.newScope q).2.define w.right.cells.size superclassName (.class c'))
      fun w' => ∀ w'' Δ, w'.Grows w'' → w''.Chain Δ p q →
        w''.Chain (.single "super" :: Δ) w.left.cells.size w.right.cells.size := by
  apply (reaches_newCells h p q (.refl String)).then
  intro w' grows consistent left right linked
  have defined := reaches_define consistent linked superclassName fun _ grows' _ =>
    (ValueLinked.class object).mono (grows.trans grows')
  rw [left, right] at defined
  obtain ⟨w'', grows', consistent', left', right', -⟩ := defined
  refine ⟨w'', grows', consistent', left', right', fun w₃ Δ grows₃ outer => ?_⟩
  refine .both (grows₃.linked (grows'.linked linked)) ?_ ?_ ?_ outer
  · apply grows₃.left.ext.parent?
    rw [left']
    exact parent?_newScope_define w.left p _ _
  · apply grows₃.right.ext.parent?
    rw [right']
    exact parent?_newScope_define w.right q _ _
  · intro name mem
    rw [List.mem_singleton.mp mem]
    apply grows₃.left.names
    rw [left']
    exact contains_define_newScope w.left p superclassName _

theorem reaches_declareClass (h : w.Consistent T) (chain : w.Chain Γ a b) {k : ScopePairs}
    {c c' : Option ClassObject} {ms ms' : List (FunctionDecl Stmt)}
    (declares : Γ.Declares name name)
    (methods : T.Methods (.single "this" :: (k ++ Γ.declare name)) ms ms')
    (home : ∀ w' Δ, w.Grows w' → w'.Chain Δ a b → w'.Chain (k ++ Δ) p q)
    (above : Option.Rel (ClassLinked T w) c c') :
    w.Reaches T
      ((w.left.newClass name c (ms.map (methodEntry p))).2.define a name
        (w.left.newClass name c (ms.map (methodEntry p))).1)
      ((w.right.newClass name c' (ms'.map (methodEntry q))).2.define b name
        (w.right.newClass name c' (ms'.map (methodEntry q))).1)
      fun w' => w'.Chain (Γ.declare name) a b := by
  apply (reaches_newIdentity h).then
  intro w' grows consistent left right linked
  have declared := reaches_declare consistent (chain.mono grows) declares
    (w.left.newClass name c (ms.map (methodEntry p))).1
    (w.right.newClass name c' (ms'.map (methodEntry q))).1
    fun w'' grows' inner => .class (.cons ⟨grows'.linked linked, rfl,
      forall₂_lastOfEach (methodEntries_linked methods (home w'' _ (grows.trans grows') inner))⟩ ?_)
  · rw [left, right] at declared
    exact declared
  · cases above with
    | none => exact .nil
    | some above => exact above.mono (grows.trans grows')

end ClassScript.World
