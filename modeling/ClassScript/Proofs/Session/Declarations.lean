import Mathlib
import ClassScript.Proofs.Run.Bodies
import ClassScript.Proofs.Run.Leaves
import ClassScript.Proofs.Session.Orderly

namespace ClassScript

open Store

inductive BodyOf (program : List Stmt) : List Stmt → Prop
  | program : BodyOf program program
  | function {body loops decl} : BodyOf program body → StandsIn body loops (.funDecl decl) →
      BodyOf program decl.body
  | method {body loops decl m} : BodyOf program body → StandsIn body loops (.classDecl decl) →
      m ∈ decl.methods → BodyOf program m.body

def Stmt.PartOf (program : List Stmt) (s : Stmt) : Prop :=
  ∃ body loops, BodyOf program body ∧ StandsIn body loops s

variable {program code : List Stmt} {s : Stmt} {loops : Nat}

theorem ProperStmts.of_mem {ss : List Stmt} (h : ProperStmts ss) (mem : s ∈ ss) : s.Proper := by
  induction ss with
  | nil => cases mem
  | cons first rest ih =>
      rcases List.mem_cons.mp mem with rfl | mem
      · exact h.1
      · exact ih h.2 mem

theorem ProperFunction.body {f : FunctionDecl Stmt} (h : ProperFunction f) :
    ProperStmts f.body := by
  cases f
  exact h

theorem ProperMethods.of_mem {ms : List (FunctionDecl Stmt)} {m : FunctionDecl Stmt}
    (h : ProperMethods ms) (mem : m ∈ ms) : ProperStmts m.body := by
  induction ms with
  | nil => cases mem
  | cons first rest ih =>
      rcases List.mem_cons.mp mem with rfl | mem
      · exact h.1.body
      · exact ih h.2 mem

theorem ProperClass.methods {decl : ClassDecl Stmt} (h : ProperClass decl) :
    ProperMethods decl.methods := by
  cases decl
  exact h

theorem StandsIn.proper (h : StandsIn code loops s) (proper : ProperStmts code) : s.Proper := by
  induction h with
  | own mem => exact proper.of_mem mem
  | block _ mem ih => exact ProperStmts.of_mem ih mem
  | thenBranch _ ih => exact ih.1.2
  | elseBranch _ ih => exact ih.2.2
  | loop _ ih => exact ih.2

theorem BodyOf.proper (h : BodyOf program code) (proper : ProperStmts program) :
    ProperStmts code := by
  induction h with
  | program => exact proper
  | function _ stands ih => exact ProperFunction.body (stands.proper ih)
  | method _ stands mem ih => exact (ProperClass.methods (stands.proper ih)).of_mem mem

namespace Machine

variable {m : Machine} {host : Host} {fuel : Nat}

/-- The statements that a program gets done, none if the analysis rejects it. -/
def completed (m : Machine) (host : Host) (fuel : Nat) (program : List Stmt) : List Stmt :=
  match m.analyse program with
  | (.error _, _) => []
  | (.ok _, m) => Run.completed host fuel program m

theorem completed_rejected {e : BindingError} (rejected : (m.analyse program).1 = .error e) :
    m.completed host fuel program = [] := by
  unfold completed
  split
  · rfl
  · rename_i eq
    rw [eq] at rejected
    cases rejected

theorem completed_accepted (accepted : (m.analyse program).1 = .ok ()) :
    m.completed host fuel program = Run.completed host fuel program (m.analyse program).2 := by
  unfold completed
  split
  · rename_i eq
    rw [eq] at accepted
    cases accepted
  · rename_i eq
    rw [eq]

theorem completed_prefix (program : List Stmt) : m.completed host fuel program <+: program := by
  cases accepted : (m.analyse program).1 with
  | error e =>
      rw [completed_rejected accepted]
      exact List.nil_prefix
  | ok =>
      rw [completed_accepted accepted]
      exact Run.completed_prefix _ _

theorem names_analyse (m : Machine) (program : List Stmt) (a : Address) :
    (m.analyse program).2.store.names a = m.store.names a := by
  obtain ⟨distances, eq⟩ := analyse_eq m program
  rw [eq]

theorem names_interpret (rest : m.AtRest) (h : m.Orderly) (proper : ProperStmts program) :
    (m.interpret host fuel program).2.store.names globals =
      m.store.names globals ∪ declaredNames (m.completed host fuel program) := by
  cases accepted : (m.analyse program).1 with
  | error e =>
      rw [interpret_rejected accepted, completed_rejected accepted, names_analyse,
        Run.declaredNames_nil, Set.union_empty]
  | ok =>
      have started := rest.analyse program
      have ended := started.afterProgram host fuel program
      have names := of_perform (Run.names_program host fuel proper (h.analyse program))
      rw [started.environment, names_analyse] at names
      have kept := ended.sound.store.marked_globals ended.sound.environment
      rw [interpret_accepted accepted, completed_accepted accepted]
      exact (names_congr (bindings_collect_of_marked kept)).trans names

end Machine

namespace Session

open Run

/-- A statement of a program that is read, executed at any moment of a step: however it ends, all
scopes that are still held have the names they had. Only the scope around the statement got the name
of a declaration that was done. Expressions leave all names as they are, and assignments bind none.
After a program the global names are those before and those of the declarations that it got done. -/
theorem declarations_stay {s : Session} (reachable : s.Reachable) (host : Host) (fuel : Nat)
    {firstId : Nat} {tokens : List Token} {program : List Stmt}
    (parsed : (parseProgram firstId tokens).result = .ok program) :
    (∀ p ∈ s.machine.during host, ∀ statement : Stmt, statement.PartOf program →
      Ends (exec host fuel statement) p.machine
        (fun signal n => p.machine.Leaves n
          {name | signal = .normal ∧ statement.declaredName? = some name})
        fun _ n => p.machine.Leaves n ∅) ∧
    (∀ p ∈ s.machine.during host, ∀ e, Ends (eval host fuel e) p.machine
      (fun _ n => p.machine.LeavesAll n) fun _ n => p.machine.LeavesAll n) ∧
    (∀ m o value, Ends (assign o value) m
      (fun _ n => ∀ a, n.store.names a = m.store.names a) fun _ n => n = m) ∧
    (s.machine.interpret host fuel program).2.store.names globals =
      s.machine.store.names globals ∪ declaredNames (s.machine.completed host fuel program) := by
  have orderly := reachable.orderly
  have proper := properStmts_of_parseProgram parsed
  refine ⟨fun p mem statement part => ?_, fun p mem e => ?_, fun m o value => ?_, ?_⟩
  · obtain ⟨body, loops, bodyOf, stands⟩ := part
    exact leaves_exec host fuel (stands.proper (bodyOf.proper proper)) (orderly.during mem).toOrderly
  · exact leaves_eval host fuel e (orderly.during mem).toOrderly
  · exact leaves_assign o value m
  · exact Machine.names_interpret reachable.atRest orderly proper

def brokenName (text : String) : Token := ⟨.identifier, text, none, 1⟩

def brokenTokens : List Token :=
  let paren : List Token := [⟨.leftParen, "(", none, 1⟩, ⟨.rightParen, ")", none, 1⟩]
  let semicolon : Token := ⟨.semicolon, ";", none, 1⟩
  [⟨.kwVar, "var", none, 1⟩, brokenName "x", semicolon,
    ⟨.kwFun, "fun", none, 1⟩, brokenName "f"] ++ paren ++ [⟨.leftBrace, "\x7b", none, 1⟩,
      ⟨.kwVar, "var", none, 1⟩, brokenName "z", ⟨.equal, "=", none, 1⟩, brokenName "y", semicolon,
    ⟨.rightBrace, "\x7d", none, 1⟩,
    brokenName "f"] ++ paren ++ [semicolon,
    ⟨.kwVar, "var", none, 1⟩, brokenName "y", semicolon, ⟨.eof, "", none, 1⟩]

def brokenProgram : List Stmt :=
  [.varDecl (brokenName "x") none,
    .funDecl ⟨brokenName "f", [], [.varDecl (brokenName "z") (some (.var ⟨0, brokenName "y"⟩))]⟩,
    .expression (.call (.var ⟨1, brokenName "f"⟩) ⟨.rightParen, ")", none, 1⟩ []),
    .varDecl (brokenName "y") none]

theorem declarations_stay_brokenProgram :
    let host := Host.standard fun _ => 0
    (parseProgram 0 brokenTokens).result = .ok brokenProgram ∧
      (initial.machine.interpret host 9 brokenProgram).1.isOk = false ∧
      (initial.machine.interpret host 9 brokenProgram).2.store.names globals =
        initial.machine.store.names globals ∪ {"x", "f"} := by
  intro host
  have parsed : (parseProgram 0 brokenTokens).result = .ok brokenProgram := by cbv
  have failed : (initial.machine.interpret host 9 brokenProgram).1.isOk = false := by
    decide +kernel
  have done : (initial.machine.completed host 9 brokenProgram).length = 2 := by decide +kernel
  have completed : initial.machine.completed host 9 brokenProgram = brokenProgram.take 2 := by
    rw [← done]
    exact List.prefix_iff_eq_take.mp (Machine.completed_prefix _)
  have declared : declaredNames (brokenProgram.take 2) = {"x", "f"} := by
    ext name
    simp [declaredNames, brokenProgram, Stmt.declaredName?, brokenName, eq_comm]
  obtain ⟨-, -, -, names⟩ := declarations_stay reachable_initial host 9 parsed
  rw [completed, declared] at names
  exact ⟨parsed, failed, names⟩

end Session

end ClassScript
