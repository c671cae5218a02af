import ClassScript.Proofs.Similar.OnePlace

namespace ClassScript

open Binding

/-- A statement that is no declaration, and a block that contains nothing else. -/
inductive InBlock : Stmt → Stmt → Prop
  | intro {s} (line : Nat) : s.isDeclaration = false → InBlock s (.block [s] line)

/-- A program in which one statement, at any depth, is put into a block. -/
abbrev OneInBlock : List Stmt → List Stmt → Prop := OneInStmts InBlock fun _ _ => False

theorem fitting_inBlock (others : List String) (V : Set (Scopes × Expr)) :
    Fitting InBlock (fun _ _ => False) True others V where
  stmt same h replaced := by
    cases replaced with
    | intro line plain =>
        exact .wrapRight line trivial (similarPlain_self (.right same) _ (h.inBlock plain))
  function _ _ never := never.elim

namespace Machine

variable {firstId : Nat} {tokens : List Token} {program program' : List Stmt}

/-- An extra empty scope changes nothing. If one statement that declares nothing is put into a block
of its own, then the program that comes of it is accepted, and without interruption each of the two
programs goes as far as the other: if the run of one ends, then so does that of the other one, with
the same result or fault, and with the same lines printed; if it does not, then whatever it prints
the other one prints too. A run has to get at most three times as much fuel as the other one. -/
theorem extra_scope_invisible (spelled : ∀ t ∈ tokens, t.Spelled)
    (parsed : (parseProgram firstId tokens).result = .ok program)
    (accepted : (initial.analyse program).1 = .ok ()) (one : OneInBlock program program')
    (host : Host) (quiet : ∀ n, host.interrupts n = false) :
    (initial.analyse program').1 = .ok () ∧ ∀ fuel fuel', 3 * fuel ≤ fuel' →
      GoesAsFar (initial.interpret host fuel program) (initial.interpret host fuel' program') ∧
      GoesAsFar (initial.interpret host fuel program') (initial.interpret host fuel' program) :=
  (interpret_replaced (fitting_inBlock [] Set.univ) spelled parsed accepted one host quiet).2

def scopedName : Token := ⟨.identifier, "a", none, 1⟩

def scopedTokens : List Token :=
  [⟨.leftBrace, "\x7b", none, 1⟩, ⟨.kwVar, "var", none, 1⟩, scopedName,
    ⟨.semicolon, ";", none, 1⟩, ⟨.kwPrint, "print", none, 1⟩, scopedName,
    ⟨.semicolon, ";", none, 1⟩, ⟨.rightBrace, "\x7d", none, 1⟩, .endOfInput 1]

def scopedProgram : List Stmt :=
  [.block [.varDecl scopedName none, .print (.var ⟨0, scopedName⟩)] 1]

def scopedTwice : List Stmt :=
  [.block [.varDecl scopedName none, .block [.print (.var ⟨0, scopedName⟩)] 1] 1]

theorem extra_scope_invisible_scopedProgram :
    let host := Host.standard fun _ => 0
    (parseProgram 0 scopedTokens).result = .ok scopedProgram ∧
      OneInBlock scopedProgram scopedTwice ∧
      (initial.interpret host 9 scopedProgram).1 = .ok () ∧
      (initial.interpret host 27 scopedTwice).1 = .ok () ∧
      (initial.interpret host 27 scopedTwice).2.output =
        (initial.interpret host 9 scopedProgram).2.output := by
  intro host
  have parsed : (parseProgram 0 scopedTokens).result = .ok scopedProgram := rfl
  have accepted : (initial.analyse scopedProgram).1 = .ok () := rfl
  have one : OneInBlock scopedProgram scopedTwice :=
    .first _ (.block 1 (.later _ (.first _ (.here (.intro 1 rfl)))))
  have ended : (initial.interpret host 9 scopedProgram).1 = .ok () := by
    have ran : (initial.interpret host 9 scopedProgram).1.isOk = true := by decide +kernel
    generalize (initial.interpret host 9 scopedProgram).1 = result at ran
    cases result with
    | ok => rfl
    | error => cases ran
  obtain ⟨-, goesAsFar⟩ :=
    extra_scope_invisible (by decide) parsed accepted one host fun _ => rfl
  have finished : (initial.interpret host 9 scopedProgram).1 ≠ .error .outOfFuel := by
    rw [ended]
    intro eq
    cases eq
  obtain ⟨result, output⟩ := (goesAsFar 9 27 (by decide)).1.ends finished
  exact ⟨parsed, one, ended, result.trans ended, output⟩

end Machine

end ClassScript
