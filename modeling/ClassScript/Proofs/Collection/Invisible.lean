import ClassScript.Proofs.Collection.Pairs
import ClassScript.Proofs.Session.Reached

namespace ClassScript

namespace Run

open Store (BothScopes BothValues)

variable {m n m' n' : Machine} {left right : Host} {fuel line : Nat}

def BothListed (s t : Store) (values : List Value) : Prop := ∀ v ∈ values, BothValues s t v

structure PairsWith (left right : Host) (fuel : Nat) : Prop where
  eval : ∀ e {m n}, m.Alike n → Pairs (eval left fuel e) (eval right fuel e) m n
  evalAll : ∀ es {m n}, m.Alike n → Pairs (evalAll left fuel es) (evalAll right fuel es) m n
  call : ∀ f args line {m n}, m.Alike n → BothValues m.store n.store f →
    BothListed m.store n.store args →
    Pairs (call left fuel f args line) (call right fuel f args line) m n
  invoke : ∀ c args line {m n}, m.Alike n → BothScopes m.store n.store c.scope →
    BothListed m.store n.store args →
    Pairs (invoke left fuel c args line) (invoke right fuel c args line) m n
  exec : ∀ s {m n}, m.Alike n → Pairs (exec left fuel s) (exec right fuel s) m n
  execAll : ∀ ss {m n}, m.Alike n → Pairs (execAll left fuel ss) (execAll right fuel ss) m n
  execLoop : ∀ condition body increment {m n}, m.Alike n →
    Pairs (execLoop left fuel condition body increment)
      (execLoop right fuel condition body increment) m n

theorem pairs_eval_then {β : Type} (ih : PairsWith left right fuel) (e : Expr)
    (h : m.Alike n) {f g : Value → Run β}
    (next : ∀ v m' n', m'.Alike n' → m.Keeps m' → n.Keeps n' → BothValues m'.store n'.store v →
      Pairs (f v) (g v) m' n') :
    Pairs (eval left fuel e >>= f) (eval right fuel e >>= g) m n :=
  (ih.eval e h).then ((soundWith left fuel).eval e h.left) ((soundWith right fuel).eval e h.right)
    fun v m' n' h' hm hn => next v m' n' h' hm.1 hn.1 ⟨hm.2, hn.2⟩

theorem pairs_evalAll_then {β : Type} (ih : PairsWith left right fuel) (es : List Expr)
    (h : m.Alike n) {f g : List Value → Run β}
    (next : ∀ vs m' n', m'.Alike n' → m.Keeps m' → n.Keeps n' → BothListed m'.store n'.store vs →
      Pairs (f vs) (g vs) m' n') :
    Pairs (evalAll left fuel es >>= f) (evalAll right fuel es >>= g) m n :=
  (ih.evalAll es h).then ((soundWith left fuel).evalAll es h.left)
    ((soundWith right fuel).evalAll es h.right)
    fun vs m' n' h' hm hn => next vs m' n' h' hm.1 hn.1 fun v mem => ⟨hm.2 v mem, hn.2 v mem⟩

theorem pairs_exec_then {β : Type} (ih : PairsWith left right fuel) (s : Stmt)
    (h : m.Alike n) {f g : Signal → Run β}
    (next : ∀ signal m' n', m'.Alike n' → Pairs (f signal) (g signal) m' n') :
    Pairs (exec left fuel s >>= f) (exec right fuel s >>= g) m n :=
  (ih.exec s h).then ((soundWith left fuel).exec s h.left) ((soundWith right fuel).exec s h.right)
    fun signal m' n' h' _ _ => next signal m' n' h'

theorem BothListed.mono {s t s' t' : Store} {values : List Value} (hs : s.Grows s')
    (ht : t.Grows t') (h : BothListed s t values) : BothListed s' t' values :=
  fun v mem => (h v mem).mono hs ht

theorem pairs_eval (ih : PairsWith left right fuel) (e : Expr) (h : m.Alike n) :
    Pairs (eval left (fuel + 1) e) (eval right (fuel + 1) e) m n := by
  cases e with
  | literal value line => exact pairs_pure h value.value
  | grouping inner => exact ih.eval inner h
  | var name => exact pairs_lookup h name _
  | assign name value =>
      refine pairs_eval_then ih value h fun v m' n' h' _ _ hv => ?_
      exact (pairs_assign h' name hv).then (keeps_assign h'.left name hv.1)
        (keeps_assign h'.right name hv.2) fun _ _ _ last _ _ => pairs_pure last v
  | logical left operator right =>
      refine pairs_eval_then ih left h fun l m' n' h' _ _ _ => ?_
      split
      · exact pairs_pure h' l
      · exact ih.eval right h'
  | binary left operator right =>
      refine pairs_eval_then ih left h fun l m' n' h' _ _ _ => ?_
      refine pairs_eval_then ih right h' fun r _ _ last _ _ _ => ?_
      exact pairs_ofExcept last _
  | unary operator operand =>
      refine pairs_eval_then ih operand h fun v _ _ last _ _ _ => ?_
      exact pairs_ofExcept last _
  | call callee paren arguments =>
      refine pairs_eval_then ih callee h fun f m' n' h' _ _ hf => ?_
      refine pairs_evalAll_then ih arguments h' fun args _ _ last hm hn hargs => ?_
      exact ih.call f args _ last (hf.mono hm.growth hn.growth) hargs
  | get object name =>
      refine pairs_eval_then ih object h fun v m' n' h' _ _ hv => ?_
      split
      · exact pairs_readProperty h' _ hv
      · exact pairs_fail h' _
  | set object name value =>
      refine pairs_eval_then ih object h fun target m' n' h' _ _ _ => ?_
      split
      · refine pairs_eval_then ih value h' fun v m'' n'' h'' _ _ hv => ?_
        exact (pairs_setField h'' _ _ hv).then (keeps_setField h''.left _ _ hv.1)
          (keeps_setField h''.right _ _ hv.2) fun _ _ _ last _ _ => pairs_pure last v
      · exact pairs_fail h' _
  | this keyword => exact pairs_lookup h keyword _
  | super keyword method => exact pairs_superMethod h keyword method

theorem pairs_evalAll (ih : PairsWith left right fuel) (es : List Expr) (h : m.Alike n) :
    Pairs (evalAll left (fuel + 1) es) (evalAll right (fuel + 1) es) m n := by
  cases es with
  | nil => exact pairs_pure h []
  | cons e rest =>
      refine pairs_eval_then ih e h fun v m' n' h' _ _ _ => ?_
      exact pairs_evalAll_then ih rest h' fun vs _ _ last _ _ _ => pairs_pure last (v :: vs)

theorem pairs_call (agree : left.AgreesWith right) (ih : PairsWith left right fuel) {f : Value}
    {args : List Value} (h : m.Alike n) (hf : BothValues m.store n.store f)
    (ha : BothListed m.store n.store args) :
    Pairs (call left (fuel + 1) f args line) (call right (fuel + 1) f args line) m n := by
  simp only [call]
  cases f.arity? with
  | none => exact pairs_fail h _
  | some arity =>
      dsimp only
      split
      · exact pairs_fail h _
      cases f with
      | function id closure => exact ih.invoke closure args line h hf ha
      | bound id closure => exact ih.invoke closure args line h hf ha
      | «class» object =>
          refine (pairs_newInstance h).then (keeps_newInstance h.left) (keeps_newInstance h.right)
            fun id m' n' h' hm hn => ?_
          have scopes : BothValues m'.store n'.store (.class object) :=
            hf.mono hm.1.growth hn.1.growth
          have receiver : BothValues m'.store n'.store (.instance id object) :=
            ⟨⟨hm.2, scopes.1⟩, ⟨hn.2, scopes.2⟩⟩
          split
          · rename_i init found
            have hinit := bothScopes_method scopes found
            refine (pairs_bindMethod h' hinit receiver).then
              (keeps_bindMethod h'.left hinit.1 receiver.1)
              (keeps_bindMethod h'.right hinit.2 receiver.2) fun closure m'' n'' h'' hm' hn' => ?_
            have hc : BothScopes m''.store n''.store closure.scope := ⟨hm'.2, hn'.2⟩
            have hargs := (ha.mono hm.1.growth hn.1.growth).mono hm'.1.growth hn'.1.growth
            exact (ih.invoke closure args line h'' hc hargs).discard.then
              ((soundWith left fuel).invoke closure args line h''.left hc.1
                fun v mem => (hargs v mem).1).discard
              ((soundWith right fuel).invoke closure args line h''.right hc.2
                fun v mem => (hargs v mem).2).discard
              fun _ _ _ last _ _ => pairs_pure last _
          · exact pairs_pure h' _
      | _ => exact pairs_readClock h agree

theorem pairs_invoke (agree : left.AgreesWith right) (ih : PairsWith left right fuel) {c : Closure}
    {args : List Value} (h : m.Alike n) (hc : BothScopes m.store n.store c.scope)
    (ha : BothListed m.store n.store args) :
    Pairs (invoke left (fuel + 1) c args line) (invoke right (fuel + 1) c args line) m n := by
  rw [invoke, invoke]
  refine (pairs_checkDepth h agree).then (keeps_checkDepth h.left) (keeps_checkDepth h.right)
    fun _ m' n' h' hm hn => ?_
  have hc := hc.mono hm.1.growth hn.1.growth
  have ha := ha.mono hm.1.growth hn.1.growth
  refine (pairs_callScope h' hc ha).then (keeps_callScope h'.left hc.1 fun v mem => (ha v mem).1)
    (keeps_callScope h'.right hc.2 fun v mem => (ha v mem).2) fun scope m'' n'' h'' hm hn => ?_
  have hc := hc.mono hm.1.growth hn.1.growth
  have calls (host : Host) {o : Machine} (ho : o.Sound) (hs : o.store.ScopeListed scope) :=
    keeps_inCall ho (if c.isInitializer then .initializer else .function) hs
      fun q hq => (soundWith host fuel).execAll c.decl.body hq
  have first := calls left h''.left hm.2
  have second := calls right h''.right hn.2
  refine (pairs_inCall h'' ⟨hm.2, hn.2⟩ (fun _ _ => ih.execAll c.decl.body) first second).then
    first second fun signal _ _ last hm hn => ?_
  have hc := hc.mono hm.1.growth hn.1.growth
  cases signal with
  | normal => exact pairs_callResult last hc .nil
  | «return» value line => exact pairs_callResult last hc value
  | «break» line => exact pairs_fail last _
  | «continue» line => exact pairs_fail last _

theorem pairs_statement (agree : left.AgreesWith right) (h : m.Alike n) {p q : Run Signal}
    (part : ∀ m' n' : Machine, m'.Alike n' → Pairs p q m' n') :
    Pairs (do start left line; collectIfDue left; p) (do start right line; collectIfDue right; q)
      m n := by
  refine (pairs_start h agree).then (keeps_start h.left left) (keeps_start h.right right)
    fun _ _ _ h' _ _ => ?_
  exact (pairs_collectIfDue h').then (passes_collectIfDue h'.left left)
    (passes_collectIfDue h'.right right) fun _ m' n' last _ _ => part m' n' last

theorem pairs_exec (agree : left.AgreesWith right) (ih : PairsWith left right fuel) (s : Stmt)
    (h : m.Alike n) : Pairs (exec left (fuel + 1) s) (exec right (fuel + 1) s) m n := by
  cases s with
  | expression e =>
      refine pairs_statement agree h fun m' n' h' => ?_
      exact (ih.eval e h').discard.then ((soundWith left fuel).eval e h'.left).discard
        ((soundWith right fuel).eval e h'.right).discard fun _ _ _ last _ _ => pairs_pure last _
  | print e =>
      refine pairs_statement agree h fun m' n' h' => ?_
      refine pairs_eval_then ih e h' fun v _ _ h'' _ _ _ => ?_
      exact (pairs_print h'' v).then (keeps_print h''.left v) (keeps_print h''.right v)
        fun _ _ _ last _ _ => pairs_pure last _
  | varDecl name initializer =>
      refine pairs_statement agree h fun m' n' h' => ?_
      cases initializer with
      | none =>
          have listed : BothValues m'.store n'.store .nil := ⟨trivial, trivial⟩
          exact (pairs_define h' _ listed).then (keeps_define h'.left _ listed.1)
            (keeps_define h'.right _ listed.2) fun _ _ _ last _ _ => pairs_pure last _
      | some e =>
          refine pairs_eval_then ih e h' fun v m'' n'' h'' _ _ hv => ?_
          exact (pairs_define h'' _ hv).then (keeps_define h''.left _ hv.1)
            (keeps_define h''.right _ hv.2) fun _ _ _ last _ _ => pairs_pure last _
  | block body line =>
      refine pairs_statement agree h fun m' n' h' => ?_
      exact pairs_inNewScope h' (fun _ _ => ih.execAll body)
        (fun _ => (soundWith left fuel).execAll body) fun _ => (soundWith right fuel).execAll body
  | branch condition thenBranch elseBranch =>
      refine pairs_statement agree h fun m' n' h' => ?_
      refine pairs_eval_then ih condition h' fun v _ _ last _ _ _ => ?_
      split
      · exact ih.exec thenBranch last
      · cases elseBranch with
        | none => exact pairs_pure last _
        | some other => exact ih.exec other last
  | loop condition body increment =>
      refine pairs_statement agree h fun m' n' h' => ?_
      exact pairs_inLoop h' fun _ _ => ih.execLoop condition body increment
  | funDecl decl =>
      refine pairs_statement agree h fun m' n' h' => ?_
      exact (pairs_declareFunction h' decl).then (keeps_declareFunction h'.left decl)
        (keeps_declareFunction h'.right decl) fun _ _ _ last _ _ => pairs_pure last _
  | classDecl decl =>
      refine pairs_statement agree h fun m' n' h' => ?_
      exact (pairs_declareClass h' decl).then (keeps_declareClass h'.left decl)
        (keeps_declareClass h'.right decl) fun _ _ _ last _ _ => pairs_pure last _
  | «return» keyword value =>
      refine pairs_statement agree h fun m' n' h' => ?_
      refine (pairs_checkReturn h' keyword value).then (keeps_checkReturn h'.left keyword value)
        (keeps_checkReturn h'.right keyword value) fun _ _ _ h'' _ _ => ?_
      cases value with
      | none => exact pairs_pure h'' _
      | some e => exact pairs_eval_then ih e h'' fun v _ _ last _ _ _ => pairs_pure last _
  | «break» keyword =>
      exact pairs_statement agree h fun m' n' h' => pairs_leaveLoop h' _ _
  | «continue» keyword =>
      exact pairs_statement agree h fun m' n' h' => pairs_leaveLoop h' _ _

theorem pairs_execAll (ih : PairsWith left right fuel) (ss : List Stmt) (h : m.Alike n) :
    Pairs (execAll left (fuel + 1) ss) (execAll right (fuel + 1) ss) m n := by
  cases ss with
  | nil => exact pairs_pure h _
  | cons s rest =>
      refine pairs_exec_then ih s h fun signal _ _ last => ?_
      split
      · exact ih.execAll rest last
      · exact pairs_pure last _

theorem pairs_execLoop (ih : PairsWith left right fuel) (condition : Expr) (body : Stmt)
    (increment : Option Expr) (h : m.Alike n) :
    Pairs (execLoop left (fuel + 1) condition body increment)
      (execLoop right (fuel + 1) condition body increment) m n := by
  refine pairs_eval_then ih condition h fun v m' n' h' _ _ _ => ?_
  split
  · refine pairs_exec_then ih body h' fun signal m'' n'' h'' => ?_
    split
    · exact pairs_pure h'' _
    · exact pairs_pure h'' _
    · cases increment with
      | none => exact ih.execLoop condition body none h''
      | some e =>
          exact (ih.eval e h'').discard.then ((soundWith left fuel).eval e h''.left).discard
            ((soundWith right fuel).eval e h''.right).discard
            fun _ _ _ last _ _ => ih.execLoop condition body (some e) last
  · exact pairs_pure h' _

theorem pairsWith (agree : left.AgreesWith right) (fuel : Nat) : PairsWith left right fuel := by
  induction fuel with
  | zero => constructor <;> intros <;> exact pairs_throw ‹_› _
  | succ fuel ih =>
      exact {
        eval := fun e _ _ => pairs_eval ih e
        evalAll := fun es _ _ => pairs_evalAll ih es
        call := fun _ _ _ _ _ => pairs_call agree ih
        invoke := fun _ _ _ _ _ => pairs_invoke agree ih
        exec := fun s _ _ => pairs_exec agree ih s
        execAll := fun ss _ _ => pairs_execAll ih ss
        execLoop := fun c b i _ _ => pairs_execLoop ih c b i }

theorem pairs_program (agree : left.AgreesWith right) (fuel : Nat) (statements : List Stmt)
    (h : m.Alike n) :
    Pairs (program left fuel statements) (program right fuel statements) m n := by
  induction statements generalizing m n with
  | nil => exact pairs_pure h ()
  | cons s rest ih =>
      refine pairs_exec_then (pairsWith agree fuel) s h fun signal _ _ last => ?_
      cases signal with
      | normal => exact ih last
      | «break» line => exact pairs_fail last _
      | «continue» line => exact pairs_fail last _
      | «return» value line => exact pairs_fail last _

end Run

namespace Machine

variable {m n : Machine} {left right : Host}

theorem Alike.output (h : m.Alike n) : m.output = n.output := by
  cases h
  rfl

theorem Alike.started (h : m.Alike n) : m.started = n.started := by
  cases h
  rfl

theorem alike_analyse (h : m.Alike n) (program : List Stmt) :
    (m.analyse program).1 = (n.analyse program).1 ∧
      (m.analyse program).2.Alike (n.analyse program).2 := by
  obtain ⟨store, env⟩ := h
  unfold analyse
  dsimp only
  split
  · exact ⟨rfl, .intro store env⟩
  · exact ⟨rfl, .intro store env⟩

theorem alike_collect (h : m.Alike n) :
    ({ m with store := m.store.collect m.environment } : Machine).Alike
      { n with store := n.store.collect n.environment } := by
  have first := h.left
  have second := h.right
  obtain ⟨store, env⟩ := h
  refine .intro ((store.collect_left env.1).collect_right env.2) ⟨?_, ?_⟩
  · exact (first.store.scopeListed_collect env.1).mpr ⟨env.1, first.store.marked_root env.1⟩
  · exact (second.store.scopeListed_collect env.2).mpr ⟨env.2, second.store.marked_root env.2⟩

theorem alike_runAnalysed (agree : left.AgreesWith right) (h : m.Alike n) (fuel : Nat)
    (program : List Stmt) :
    (m.runAnalysed left fuel program).1 = (n.runAnalysed right fuel program).1 ∧
      (m.runAnalysed left fuel program).2.Alike (n.runAnalysed right fuel program).2 := by
  have ends := Run.pairs_program agree fuel program h
  unfold Run.Pairs at ends
  unfold runAnalysed perform
  generalize Run.program left fuel program m = x at *
  generalize Run.program right fuel program n = y at *
  cases ends with
  | ok alike => exact ⟨rfl, alike_collect alike⟩
  | error alike => exact ⟨rfl, alike_collect alike⟩

theorem alike_interpret (agree : left.AgreesWith right) (h : m.Alike n) (fuel : Nat)
    (program : List Stmt) :
    (m.interpret left fuel program).1 = (n.interpret right fuel program).1 ∧
      (m.interpret left fuel program).2.Alike (n.interpret right fuel program).2 := by
  obtain ⟨same, analysed⟩ := alike_analyse h program
  unfold interpret
  revert same analysed
  generalize m.analyse program = x
  generalize n.analyse program = y
  obtain ⟨x, m'⟩ := x
  obtain ⟨y, n'⟩ := y
  rintro (rfl : x = y) (analysed : m'.Alike n')
  cases x with
  | error e => exact ⟨rfl, analysed⟩
  | ok =>
      have run := alike_runAnalysed agree analysed fuel program
      revert run
      dsimp only
      generalize m'.runAnalysed left fuel program = x
      generalize n'.runAnalysed right fuel program = y
      obtain ⟨x, m''⟩ := x
      obtain ⟨y, n''⟩ := y
      rintro ⟨rfl : x = y, run : m''.Alike n''⟩
      cases x with
      | ok => exact ⟨rfl, run⟩
      | error halt => exact ⟨rfl, run⟩

end Machine

/-- Between the steps of a session the state is sound, and from every sound state the runs of a
program under two policies of collecting print the same lines, end with the same result or fault,
and start, and so ask the host at, the same number of statements. -/
theorem Session.collections_invisible :
    (∀ s : Session, s.Reachable → s.machine.Sound) ∧
      ∀ m : Machine, m.Sound →
        ∀ (host : Host) (first second : Nat → Store → Bool) (fuel : Nat) (program : List Stmt),
          let one := m.interpret { host with collects := first } fuel program
          let other := m.interpret { host with collects := second } fuel program
          one.1 = other.1 ∧ one.2.output = other.2.output ∧ one.2.started = other.2.started := by
  refine ⟨fun s reachable => reachable.atRest.sound,
    fun m sound host first second fuel program => ?_⟩
  have agree : ({ host with collects := first } : Host).AgreesWith
      { host with collects := second } :=
    ⟨rfl, rfl, rfl⟩
  obtain ⟨result, alike⟩ := Machine.alike_interpret agree sound.alike_self fuel program
  exact ⟨result, alike.output, alike.started⟩

theorem Session.collections_invisible_never_always :
    Machine.initial.Sound ∧ ∀ (host : Host) (fuel : Nat) (program : List Stmt),
      (Machine.initial.interpret { host with collects := fun _ _ => false } fuel program).1 =
        (Machine.initial.interpret { host with collects := fun _ _ => true } fuel program).1 := by
  have sound : Machine.initial.Sound := Machine.atRest_initial.sound
  exact ⟨sound, fun host fuel program =>
    (collections_invisible.2 Machine.initial sound host (fun _ _ => false) (fun _ _ => true) fuel
      program).1⟩

end ClassScript
