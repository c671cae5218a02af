import ClassScript.Proofs.Lexical.Moments
import ClassScript.Proofs.Run.Restored

namespace ClassScript.Run

open Binding Store Machine

variable {α β : Type} {host : Host} {fuel line : Nat} {m n : Machine} {s t : Store}
  {p q : Moment}

theorem Restores.returns {part : Run α} {a : α} (h : Restores part) (run : part m = .ok a n) :
    m.Returns n := (ends_ok_iff run).mp (h m)

theorem returns_eval {e : Expr} {v : Value} (run : eval host fuel e m = .ok v n) : m.Returns n :=
  ((restoresWith host fuel).eval e).returns run

theorem returns_evalAll {es : List Expr} {vs : List Value}
    (run : evalAll host fuel es m = .ok vs n) : m.Returns n :=
  ((restoresWith host fuel).evalAll es).returns run

theorem returns_exec {s : Stmt} {signal : Signal} (run : exec host fuel s m = .ok signal n) :
    m.Returns n := ((restoresWith host fuel).exec s).returns run

theorem restores_begin (host : Host) (s : Stmt) :
    Restores (do start host s.line; collectIfDue host) :=
  (restores_start host s.line).bind fun _ => restores_collectIfDue host

theorem returns_begins {s : Stmt} (begins : Begins host s m n) : m.Returns n :=
  (restores_begin host s).returns begins

theorem checkDepth_ok (run : checkDepth host line m = .ok () n) :
    n = m ∧ ∀ limit, host.maxDepth = some limit → m.callDepth < limit := by
  have ends : Ends (checkDepth host line) m
      (fun _ n => n = m ∧ ∀ limit, host.maxDepth = some limit → m.callDepth < limit)
      fun _ _ => True := by
    unfold checkDepth
    cases host.maxDepth with
    | none => exact ⟨rfl, fun _ some => by cases some⟩
    | some limit =>
        apply ends_bind.mpr
        apply ends_get.mpr
        split
        · trivial
        · rename_i below
          exact ⟨rfl, fun _ some => by cases some; omega⟩
  exact (ends_ok_iff run).mp ends

def Task.OpensScope : Task → Prop
  | .invoke _ _ _ => True
  | .exec (.block _ _) => True
  | _ => False

def callEntries (closure : Closure) (args : List Value) : List (String × Value) :=
  (closure.decl.params.map Token.lexeme).zip args

inductive Opens (host : Host) (n : Machine) : Task → Moment → Prop
  | goOn {before fuel task} : ¬ before.OpensScope → Opens host n before ⟨fuel, task, n⟩
  | block {fuel body line} : Opens host n (.exec (.block body line)) ⟨fuel, .execAll body,
      { n with store := (n.store.newScope n.environment).2, environment := n.store.cells.size }⟩
  | loop {before fuel task} : ¬ before.OpensScope → Opens host n before ⟨fuel, task, n.insideLoop⟩
  | call {fuel closure args line kind} :
      (∀ limit, host.maxDepth = some limit → n.callDepth < limit) →
      Opens host n (.invoke closure args line) ⟨fuel, .execAll closure.decl.body,
        { n.insideCall kind with
          store := (n.store.newScope closure.scope).2.defineAll n.store.cells.size
            (callEntries closure args)
          environment := n.store.cells.size }⟩

theorem opens_of_enters (enters : Enters host p q) :
    ∃ n, p.machine.Returns n ∧ Opens host n p.task q := by
  cases enters with
  | grouping | var | assigned | logicalLeft | binaryLeft | unary | callee | get | setObject | this
  | super | firstExpr | function | bound | firstStmt | firstOfProgram | loopCondition =>
      exact ⟨_, .refl _, .goOn id⟩
  | assign run | logicalRight run | binaryRight run | arguments run | setValue run
  | otherExprs run => exact ⟨_, returns_eval run, .goOn id⟩
  | call callee arguments =>
      exact ⟨_, (returns_eval callee).trans (returns_evalAll arguments), .goOn id⟩
  | «initializer» _ created _ bound =>
      have fresh := restores_newInstance.returns created
      exact ⟨_, fresh.trans ((restores_bindMethod _ _).returns bound), .goOn id⟩
  | callBody depth created =>
      obtain ⟨rfl, below⟩ := checkDepth_ok depth
      cases created
      exact ⟨_, .refl _, .call below⟩
  | expression begins | print begins | varDecl begins | branchCondition begins
  | superclass begins => exact ⟨_, returns_begins begins, .goOn id⟩
  | block begins created =>
      cases created
      exact ⟨_, returns_begins begins, .block⟩
  | thenBranch begins condition | elseBranch begins condition =>
      exact ⟨_, (returns_begins begins).trans (returns_eval condition), .goOn id⟩
  | loop begins => exact ⟨_, returns_begins begins, .loop id⟩
  | returned begins checked =>
      have inner := (restores_checkReturn _ _).returns checked
      exact ⟨_, (returns_begins begins).trans inner, .goOn id⟩
  | otherStmts run | restOfProgram run => exact ⟨_, returns_exec run, .goOn id⟩
  | loopBody condition => exact ⟨_, returns_eval condition, .goOn id⟩
  | increment condition _ body | again condition _ body =>
      exact ⟨_, (returns_eval condition).trans (returns_exec body), .goOn id⟩
  | incremented condition _ body _ increment =>
      have once := (returns_eval condition).trans (returns_exec body)
      exact ⟨_, once.trans (returns_eval increment), .goOn id⟩

theorem Opens.advances {task : Task} (opens : Opens host n task q) : n.Advances q.machine := by
  cases opens with
  | goOn | loop => exact ⟨.refl _, Nat.le_refl _⟩
  | block => exact ⟨extends_newScope _ _, Nat.le_refl _⟩
  | call =>
      exact ⟨(extends_newScope _ _).trans (extends_defineAll _ _ _), Nat.le_refl _⟩

theorem Opens.distances {task : Task} (opens : Opens host n task q) :
    q.machine.distances = n.distances := by
  cases opens <;> rfl

theorem advances_of_enters (enters : Enters host p q) : p.machine.Advances q.machine := by
  obtain ⟨n, returns, opens⟩ := opens_of_enters enters
  exact returns.advances.trans opens.advances

theorem advances_of_moments (run : Relation.ReflTransGen (Enters host) p q) :
    p.machine.Advances q.machine := by
  induction run with
  | refl => exact .refl _
  | tail _ enters ih => exact ih.trans (advances_of_enters enters)

theorem extends_of_enters (enters : Enters host p q) :
    p.machine.store.Extends q.machine.store := (advances_of_enters enters).1

theorem extends_of_moments (run : Relation.ReflTransGen (Enters host) p q) :
    p.machine.store.Extends q.machine.store := (advances_of_moments run).1

theorem distances_of_moments (run : Relation.ReflTransGen (Enters host) p q) :
    q.machine.distances = p.machine.distances := by
  induction run with
  | refl => rfl
  | tail _ enters ih =>
      obtain ⟨n, returns, opens⟩ := opens_of_enters enters
      exact (opens.distances.trans returns.distances).trans ih

end ClassScript.Run
