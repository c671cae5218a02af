import ClassScript.Proofs.Grammar.Printed
import ClassScript.Proofs.Lexical.Occurrences
import ClassScript.Proofs.Session.Composition
import ClassScript.Proofs.Store.Stored

/-!
# Evaluating and printing

On a fresh machine there are no functions and no classes of a program, so that the evaluation of an
expression prints nothing, and it depends neither on the identities in the tree nor on how many
statements were started (`mirrorsWith`). The analysis of a print statement records nothing, as there
is no scope around it (`walkExpr_outside`). So an expression that is evaluated and a program that
prints it come to the same.
-/

namespace ClassScript

open Binding

def Value.Native (v : Value) : Prop := v.Plain ∨ v = .clock

namespace Machine

structure Bare (m : Machine) : Prop where
  native : ∀ a, ∀ entry ∈ (m.store.bindings a).entries, entry.2.Native
  unknown : ∀ id : Nat, m.distances[id]? = none
  silent : m.output = #[]

def counting (m : Machine) (started : Nat) : Machine := { m with started }

variable {m : Machine} {a : Address} {name : String} {value : Value}

theorem Bare.define (h : m.Bare) (a : Address) (name : String) (native : value.Native) :
    ({ m with store := m.store.define a name value } : Machine).Bare where
  native b entry mem := by
    rcases Store.mem_bindings_define mem with same | old
    · exact same ▸ native
    · exact h.native b entry old
  unknown := h.unknown
  silent := h.silent

theorem Bare.get? (h : m.Bare) (found : (m.store.bindings a).get? name = some value) :
    value.Native := h.native a _ (Bindings.mem_entries_of_get? found)

theorem Bare.counting (h : m.Bare) (k : Nat) : (m.counting k).Bare :=
  ⟨h.native, h.unknown, h.silent⟩

theorem store_counting (m : Machine) (k : Nat) : (m.counting k).store = m.store := rfl

theorem Bare.scopeOf (h : m.Bare) (o : Occurrence) : m.scopeOf o = some Store.globals := by
  rw [Machine.scopeOf, h.unknown]

theorem bare_initial : initial.Bare where
  native a entry mem := by
    rcases Store.mem_bindings_define mem with same | old
    · exact .inr same
    · cases a <;> cases old
  unknown _ := Std.TreeMap.getElem?_emptyc
  silent := rfl

end Machine

namespace Run

open Store

variable {α β : Type} {Q : α → Prop} {R : β → Prop} {p q : Run α} {f g : α → Run β} {host : Host}

def Mirrors (Q : α → Prop) (p q : Run α) : Prop :=
  ∀ (m : Machine) (k : Nat), m.Bare →
    Ends p m (fun a n => n.Bare ∧ Q a ∧ q (m.counting k) = .ok a (n.counting k))
      fun e n => n.Bare ∧ q (m.counting k) = .error e (n.counting k)

theorem Mirrors.bind (h : Mirrors Q p q) (next : ∀ a, Q a → Mirrors R (f a) (g a)) :
    Mirrors R (p >>= f) (q >>= g) := by
  intro m k bare
  apply ends_bind.mpr
  apply (h m k bare).imp
  · rintro a n ⟨bare, holds, run⟩
    rw [bind_ok run]
    exact next a holds n k bare
  · rintro e n ⟨bare, run⟩
    exact ⟨bare, bind_error run⟩

theorem mirrors_pure {a : α} (holds : Q a) : Mirrors Q (pure a) (pure a) :=
  fun _ _ bare => ⟨bare, holds, rfl⟩

theorem mirrors_throw (e : Halt) : Mirrors Q (throw e) (throw e) := fun _ _ bare => ⟨bare, rfl⟩

theorem mirrors_ofExcept {r : Except RuntimeError α} (holds : ∀ a, r = .ok a → Q a) :
    Mirrors Q (ofExcept r) (ofExcept r) := by
  cases r with
  | ok a => exact mirrors_pure (holds a rfl)
  | error e => exact mirrors_throw (.fault e)

theorem mirrors_lookup (o : Occurrence) (name : String) :
    Mirrors Value.Native (lookup o name) (lookup o.unnumbered name) := by
  intro m k bare
  unfold Ends
  rw [lookup_eq, lookup_eq, bare.scopeOf, (bare.counting k).scopeOf]
  simp only [Option.bind_some, Machine.store_counting]
  cases found : (m.store.bindings globals).get? name with
  | some value => exact ⟨bare, bare.get? found, rfl⟩
  | none => exact ⟨bare, rfl⟩

theorem mirrors_assign (o : Occurrence) {v : Value} (native : v.Native) :
    Mirrors (fun _ => True) (assign o v) (assign o.unnumbered v) := by
  intro m k bare
  have same : o.unnumbered.token = o.token := rfl
  unfold Ends
  rw [assign_eq, assign_eq, bare.scopeOf, (bare.counting k).scopeOf, same]
  simp only [Option.filter_some, Machine.store_counting]
  cases (m.store.bindings globals).contains o.token.lexeme with
  | true => exact ⟨bare.define _ _ native, trivial, rfl⟩
  | false => exact ⟨bare, rfl⟩

theorem superMethod_of_unknown {m : Machine} {o : Occurrence} (unknown : m.distances[o.id]? = none)
    (method : Token) :
    superMethod o method m = .error (.fault ⟨.superOutsideClass, o.token.line⟩) m := by
  unfold superMethod
  rw [get_bind, unknown]
  rfl

theorem mirrors_superMethod (o : Occurrence) (method : Token) :
    Mirrors Value.Native (superMethod o method) (superMethod o.unnumbered method) := by
  intro m k bare
  unfold Ends
  rw [superMethod_of_unknown (bare.unknown _), superMethod_of_unknown ((bare.counting k).unknown _)]
  exact ⟨bare, rfl⟩

theorem mirrors_readClock (host : Host) :
    Mirrors Value.Native (readClock host) (readClock host) :=
  fun _ _ bare => ⟨⟨bare.native, bare.unknown, bare.silent⟩, .inl trivial, rfl⟩

structure MirrorsWith (host : Host) (fuel : Nat) : Prop where
  eval : ∀ e : Expr, Mirrors Value.Native (eval host fuel e) (eval host fuel e.unnumbered)
  evalAll : ∀ es, Mirrors (fun _ => True) (evalAll host fuel es)
    (evalAll host fuel (exprsUnnumbered es))
  call : ∀ f args line, f.Native → Mirrors Value.Native (call host fuel f args line)
    (call host fuel f args line)

variable {fuel : Nat}

theorem mirrors_call (host : Host) (fuel : Nat) {f : Value} (args : List Value) (line : Nat)
    (native : f.Native) : Mirrors Value.Native (call host (fuel + 1) f args line)
      (call host (fuel + 1) f args line) := by
  unfold Run.call
  rcases native with plain | rfl
  · have none : f.arity? = Option.none := by
      cases f <;> first | rfl | exact plain.elim
    rw [none]
    exact mirrors_throw _
  · dsimp only [Value.arity?]
    split
    · exact mirrors_throw _
    · exact mirrors_readClock host

theorem mirrors_eval (ih : MirrorsWith host fuel) (e : Expr) :
    Mirrors Value.Native (eval host (fuel + 1) e) (eval host (fuel + 1) e.unnumbered) := by
  cases e with
  | literal value line => exact mirrors_pure (.inl value.plain_value)
  | grouping inner => exact ih.eval inner
  | var name => exact mirrors_lookup name _
  | assign name value =>
      refine (ih.eval value).bind fun v native => ?_
      exact (mirrors_assign name native).bind fun _ _ => mirrors_pure native
  | logical left operator right =>
      refine (ih.eval left).bind fun l native => ?_
      split
      · exact mirrors_pure native
      · exact ih.eval right
  | binary left operator right =>
      refine (ih.eval left).bind fun l _ => (ih.eval right).bind fun r _ => ?_
      exact mirrors_ofExcept fun v same => .inl (Operator.plain_binary same)
  | unary operator operand =>
      refine (ih.eval operand).bind fun v _ => ?_
      exact mirrors_ofExcept fun v same => .inl (Operator.plain_unary same)
  | call callee paren arguments =>
      refine (ih.eval callee).bind fun f native => (ih.evalAll arguments).bind fun args _ => ?_
      exact ih.call f args paren.line native
  | get object name =>
      refine (ih.eval object).bind fun v native => ?_
      split
      · rcases native with plain | same
        · exact plain.elim
        · cases same
      · exact mirrors_throw _
  | set object name value =>
      refine (ih.eval object).bind fun v native => ?_
      split
      · rcases native with plain | same
        · exact plain.elim
        · cases same
      · exact mirrors_throw _
  | this keyword => exact mirrors_lookup keyword _
  | super keyword method => exact mirrors_superMethod keyword method

theorem mirrors_evalAll (ih : MirrorsWith host fuel) (es : List Expr) :
    Mirrors (fun _ => True) (evalAll host (fuel + 1) es)
      (evalAll host (fuel + 1) (exprsUnnumbered es)) := by
  cases es with
  | nil => exact mirrors_pure trivial
  | cons e es =>
      refine (ih.eval e).bind fun v _ => (ih.evalAll es).bind fun vs _ => ?_
      exact mirrors_pure trivial

theorem mirrorsWith (host : Host) (fuel : Nat) : MirrorsWith host fuel := by
  induction fuel with
  | zero =>
      exact ⟨fun _ => mirrors_throw _, fun _ => mirrors_throw _, fun _ _ _ _ => mirrors_throw _⟩
  | succ fuel ih =>
      exact ⟨mirrors_eval ih, mirrors_evalAll ih,
        fun f args line native => mirrors_call host fuel args line native⟩

end Run

/-! ## The analysis of a print statement -/

namespace Binding

def NoKeyword (t : Token) : Prop := t.kind ≠ .kwThis ∧ t.kind ≠ .kwSuper

mutual

theorem walkExpr_outside (d : Distances) : (e : Expr) →
    Within (formed NoKeyword) (exprVisits [] e) → walkExpr .noClass [] e d = .ok () d
  | .literal _ _, _ => rfl
  | .var _, _ => rfl
  | .grouping inner, h | .unary _ inner, h | .get inner _, h =>
      walkExpr_outside d inner (within_cons.mp h).2
  | .assign name value, h => by
      rw [walkExpr, bind_ok (walkExpr_outside d value (within_cons.mp h).2)]
      rfl
  | .logical left _ right, h | .binary left _ right, h | .set right _ left, h => by
      have both := within_append.mp (within_cons.mp h).2
      rw [walkExpr, bind_ok (walkExpr_outside d left both.1)]
      exact walkExpr_outside d right both.2
  | .call callee _ arguments, h => by
      have both := within_append.mp (within_cons.mp h).2
      rw [walkExpr, bind_ok (walkExpr_outside d callee both.1)]
      exact walkExprs_outside d arguments both.2
  | .this _, h => absurd (within_cons.mp h).1.2 (within_cons.mp h).1.1.1
  | .super _ _, h => absurd (within_cons.mp h).1.2 (within_cons.mp h).1.1.2

theorem walkExprs_outside (d : Distances) : (es : List Expr) →
    Within (formed NoKeyword) (exprsVisits [] es) → walkExprs .noClass [] es d = .ok () d
  | [], _ => rfl
  | e :: es, h => by
      have both := within_append.mp h
      rw [walkExprs, bind_ok (walkExpr_outside d e both.1)]
      exact walkExprs_outside d es both.2

end

end Binding

namespace Machine

variable {e e' : Expr} {host : Host} {fuel : Nat}

theorem analyse_print (ordinary : Within (formed NoKeyword) (exprVisits [] e)) :
    initial.analyse [.print e] = (.ok (), initial) := by
  have walked : walkProgram [.print e] initial.distances = .ok () initial.distances :=
    bind_ok (walkExpr_outside _ e ordinary)
  rw [analyse_of_walk walked]
  rfl

theorem eval_renumbered (same : e'.unnumbered = e.unnumbered) (host : Host) (fuel : Nat) :
    Ends (Run.eval host fuel e) initial
      (fun v _ => ∃ n, n.output = #[] ∧ Run.eval host fuel e' (initial.counting 1) = .ok v n)
      fun halt _ => ∃ n, n.output = #[] ∧
        Run.eval host fuel e' (initial.counting 1) = .error halt n := by
  have first := (Run.mirrorsWith host fuel).eval e initial 1 bare_initial
  have second := (Run.mirrorsWith host fuel).eval e' _ 1 (bare_initial.counting 1)
  have again : (initial.counting 1).counting 1 = initial.counting 1 := rfl
  rw [same, again] at second
  unfold Ends at *
  generalize Run.eval host fuel e initial = x at *
  generalize Run.eval host fuel e' (initial.counting 1) = y at *
  cases x with
  | ok v n =>
      rw [first.2.2] at second
      cases y with
      | ok v' n' => exact ⟨n', second.1.silent, by rw [(EStateM.Result.ok.inj second.2.2).1]⟩
      | error halt n' => cases second.2
  | error halt n =>
      rw [first.2] at second
      cases y with
      | ok v' n' => cases second.2.2
      | error halt' n' => exact ⟨n', second.1.silent, by rw [(EStateM.Result.error.inj second.2).1]⟩

theorem exec_print (time : Nat → Float) (fuel : Nat) (e : Expr) :
    Run.exec (.standard time) (fuel + 1) (.print e) initial =
      (do Run.print (← Run.eval (.standard time) fuel e); return Signal.normal : Run Signal)
        (initial.counting 1) := by
  have started : Run.start (.standard time) (Stmt.print e).line initial =
      .ok () (initial.counting 1) := rfl
  have kept : Run.collectIfDue (.standard time) (initial.counting 1) =
      .ok () (initial.counting 1) := rfl
  rw [Run.exec, bind_ok started, bind_ok kept]

theorem interpret_print (same : e'.unnumbered = e.unnumbered)
    (ordinary : Within (formed NoKeyword) (exprVisits [] e')) (time : Nat → Float) (fuel : Nat) :
    let ended := initial.interpret (.standard time) (fuel + 1) [.print e']
    Ends (Run.eval (.standard time) fuel e) initial
      (fun v _ => ended.1 = .ok () ∧ ended.2.output = #[v.display])
      fun halt _ => ended.1 = .error halt.diagnostic ∧ ended.2.output = #[] := by
  intro ended
  have analysed := analyse_print ordinary
  have run : ended = concluded (Run.program (.standard time) (fuel + 1) [.print e'] initial) := by
    rw [show ended = _ from interpret_eq_concluded (by rw [analysed]), analysed]
  apply (eval_renumbered same (.standard time) fuel).imp
  · rintro v _ ⟨n, silent, evaluated⟩
    have printed : Run.exec (.standard time) (fuel + 1) (.print e') initial =
        .ok .normal { n with output := n.output.push v.display } := by
      rw [exec_print, bind_ok evaluated]
      rfl
    rw [run, Run.program, bind_ok printed, silent]
    exact ⟨rfl, rfl⟩
  · rintro halt _ ⟨n, silent, evaluated⟩
    have failed : Run.exec (.standard time) (fuel + 1) (.print e') initial = .error halt n := by
      rw [exec_print, bind_error evaluated]
    rw [run, Run.program, bind_error failed]
    exact ⟨rfl, silent⟩

theorem perform_ok {α : Type} {part : Run α} {m : Machine} {a : α} :
    (m.perform part).1 = .ok a ↔ ∃ n, part m = .ok a n := by
  unfold perform
  cases part m <;> simp

theorem perform_fault {α : Type} {part : Run α} {m : Machine} {err : RuntimeError} :
    (m.perform part).1 = .error (.fault err) ↔ ∃ n, part m = .error (.fault err) n := by
  unfold perform
  cases part m <;> simp

theorem fault_of_diagnostic {halt : Halt} {err : RuntimeError}
    (same : halt.diagnostic = .runtime err) : halt = .fault err := by
  cases halt with
  | fault e => cases same; rfl
  | outOfFuel => cases same

theorem evaluate_iff_print (same : e'.unnumbered = e.unnumbered)
    (ordinary : Within (formed NoKeyword) (exprVisits [] e')) (time : Nat → Float) :
    let host := Host.standard time
    (∀ text, (∃ fuel v, (initial.perform (Run.eval host fuel e)).1 = .ok v ∧ v.display = text) ↔
      ∃ fuel, (initial.interpret host fuel [.print e']).1 = .ok () ∧
        (initial.interpret host fuel [.print e']).2.output = #[text]) ∧
    ∀ err, (∃ fuel, (initial.perform (Run.eval host fuel e)).1 = .error (.fault err)) ↔
      ∃ fuel, (initial.interpret host fuel [.print e']).1 = .error (.runtime err) ∧
        (initial.interpret host fuel [.print e']).2.output = #[] := by
  intro host
  have comes := interpret_print same ordinary time
  -- Without any fuel the program does not even start.
  have fueled {fuel : Nat}
      (ended : (initial.interpret host fuel [.print e']).1 ≠ .error .outOfFuel) :
      ∃ f, fuel = f + 1 := by
    cases fuel with
    | zero =>
        refine absurd ?_ ended
        rw [interpret_eq_concluded (by rw [analyse_print ordinary])]
        rfl
    | succ f => exact ⟨f, rfl⟩
  refine ⟨fun text => ⟨?_, ?_⟩, fun err => ⟨?_, ?_⟩⟩
  · rintro ⟨fuel, v, value, rfl⟩
    obtain ⟨n, run⟩ := perform_ok.mp value
    exact ⟨fuel + 1, (ends_ok_iff run).mp (comes fuel)⟩
  · rintro ⟨fuel, done, printed⟩
    obtain ⟨fuel, rfl⟩ := fueled (by rw [done]; nofun)
    have comes := comes fuel
    unfold Ends at comes
    cases run : Run.eval host fuel e initial with
    | ok v n =>
        rw [run] at comes
        have shown : #[v.display] = #[text] := comes.2.symm.trans printed
        exact ⟨fuel, v, perform_ok.mpr ⟨n, run⟩, by simpa using shown⟩
    | error halt n =>
        rw [run] at comes
        cases comes.1.symm.trans done
  · rintro ⟨fuel, failed⟩
    obtain ⟨n, run⟩ := perform_fault.mp failed
    have comes := comes fuel
    unfold Ends at comes
    rw [run] at comes
    exact ⟨fuel + 1, comes⟩
  · rintro ⟨fuel, failed, -⟩
    obtain ⟨fuel, rfl⟩ := fueled (by rw [failed]; nofun)
    have comes := comes fuel
    unfold Ends at comes
    cases run : Run.eval host fuel e initial with
    | ok v n =>
        rw [run] at comes
        cases comes.1.symm.trans failed
    | error halt n =>
        rw [run] at comes
        obtain rfl := fault_of_diagnostic (Except.error.inj (comes.1.symm.trans failed))
        exact ⟨fuel, perform_fault.mpr ⟨n, run⟩⟩

theorem ordinary_print {keyword semicolon : Token} {tokens : List Token} {firstId : Nat}
    (hk : keyword.kind = .kwPrint) (hs : semicolon.kind = .semicolon)
    (ordinary : ∀ t ∈ tokens, NoKeyword t)
    (parsed : (parseProgram firstId (keyword :: (tokens ++ [semicolon]))).result =
      .ok [.print e]) : Within (formed NoKeyword) (exprVisits [] e) := by
  have all : ∀ t ∈ keyword :: (tokens ++ [semicolon]), NoKeyword t := by
    simp only [List.forall_mem_cons, List.forall_mem_append, NoKeyword, hk, hs]
    exact ⟨⟨nofun, nofun⟩, ordinary, ⟨nofun, nofun⟩, nofun⟩
  exact (within_append.mp (formed_of_parseProgram parsed all [])).1

/-- For tokens without the keywords of classes and without long lists of arguments, the expression
and the statement that prints it are read as the same tree; on fresh machines, what the one
evaluates to is the one line that the other prints, and if the one fails, so does the other, with
the same fault on the same line, and nothing is printed. -/
theorem evaluation_agrees_with_print {keyword semicolon : Token} {tokens : List Token}
    {firstId : Nat} (hk : keyword.kind = .kwPrint) (hs : semicolon.kind = .semicolon)
    (plain : ∀ t ∈ tokens, t.kind ≠ .eof ∧ t.kind ≠ .kwThis ∧ t.kind ≠ .kwSuper)
    (short : ∀ e, (parseExpression firstId tokens).result = .ok e → e.ShortCalls)
    (firstId' : Nat) (time : Nat → Float) :
    let printed := parseProgram firstId' (keyword :: (tokens ++ [semicolon]))
    let host := Host.standard time
    (∀ tree, (∃ e, (parseExpression firstId tokens).result = .ok e ∧ e.unnumbered = tree) ↔
      ∃ e', printed.result = .ok [.print e'] ∧ e'.unnumbered = tree) ∧
    ∀ e e', (parseExpression firstId tokens).result = .ok e →
      printed.result = .ok [.print e'] →
      (∀ text, (∃ fuel v, (initial.perform (Run.eval host fuel e)).1 = .ok v ∧
          v.display = text) ↔
        ∃ fuel, (initial.interpret host fuel [.print e']).1 = .ok () ∧
          (initial.interpret host fuel [.print e']).2.output = #[text]) ∧
      ∀ err, (∃ fuel, (initial.perform (Run.eval host fuel e)).1 = .error (.fault err)) ↔
        ∃ fuel, (initial.interpret host fuel [.print e']).1 = .error (.runtime err) ∧
          (initial.interpret host fuel [.print e']).2.output = #[] := by
  intro printed host
  have noEnd : ∀ t ∈ tokens, t.kind ≠ .eof := fun t mem => (plain t mem).1
  have ordinary : ∀ t ∈ tokens, NoKeyword t := fun t mem => (plain t mem).2
  have parses := Grammar.parse_print_iff hk hs noEnd short firstId'
  refine ⟨parses, fun e e' parsed parsed' => ?_⟩
  obtain ⟨other, parsed'', same⟩ := (parses e'.unnumbered).mpr ⟨e', parsed', rfl⟩
  cases parsed.symm.trans parsed''
  exact evaluate_iff_print same.symm (ordinary_print hk hs ordinary parsed') time

def printWord : Token := ⟨.kwPrint, "print", none, 1⟩

def semicolon : Token := ⟨.semicolon, ";", none, 1⟩

def minus : Token := ⟨.minus, "-", none, 1⟩

def negatedText : List Token := [minus, ⟨.string, "\"a\"", some (.string "a"), 1⟩]

def negated : Expr := .unary minus (.literal (.string "a") 1)

theorem parse_negatedText : (parseExpression 0 negatedText).result = .ok negated := rfl

theorem evaluation_agrees_with_print_negatedText :
    (parseExpression 0 negatedText).result = .ok negated ∧
    (parseProgram 0 (printWord :: (negatedText ++ [semicolon]))).result = .ok [.print negated] ∧
    ∃ fuel, (initial.interpret (.standard fun _ => 0) fuel [.print negated]).1 =
        .error (.runtime ⟨.operandNotNumber, 1⟩) ∧
      (initial.interpret (.standard fun _ => 0) fuel [.print negated]).2.output = #[] := by
  have plain : ∀ t ∈ negatedText, t.kind ≠ .eof ∧ t.kind ≠ .kwThis ∧ t.kind ≠ .kwSuper := by
    simp [negatedText, minus]
  have short : ∀ e, (parseExpression 0 negatedText).result = .ok e → e.ShortCalls := by
    intro e parsed
    cases parse_negatedText.symm.trans parsed
    simp [Expr.ShortCalls, negated, exprVisits, Expr.ShortCall]
  have agrees := @evaluation_agrees_with_print printWord semicolon negatedText 0 rfl rfl plain short
    0 fun _ => 0
  have parsed : (parseProgram 0 (printWord :: (negatedText ++ [semicolon]))).result =
      .ok [.print negated] := rfl
  have faults := (agrees.2 negated negated parse_negatedText parsed).2 ⟨.operandNotNumber, 1⟩
  exact ⟨parse_negatedText, parsed, faults.mp ⟨2, rfl⟩⟩

end Machine

end ClassScript
