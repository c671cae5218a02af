import Mathlib
import ClassScript.Proofs.Binding.Legal
import ClassScript.Proofs.Grammar.Nodes
import ClassScript.Proofs.Session.Reached

namespace ClassScript

open Binding

/-- What is said of a keyword out of its place, and the line it is reported at. -/
inductive Complaint : Setting × Mention → String → Nat → Prop
  | this (keyword : Occurrence) : Complaint (.outside, .this keyword)
      "Can't use 'this' outside of a class." keyword.token.line
  | super (keyword : Occurrence) : Complaint (.outside, .super keyword)
      "Can't use 'super' outside of a class." keyword.token.line
  | noSuperclass (keyword : Occurrence) {decl : ClassDecl Stmt} {depth : Nat} :
      decl.superclass = none → Complaint (.method decl depth, .super keyword)
        "Can't use 'super' in a class with no superclass." keyword.token.line

variable {x : Setting × Mention} {e : BindingError} {program : List Stmt}

theorem complaint_of_misuse (formed : x.2.Formed Token.Worded) (misuse : misuse? x = some e) :
    Complaint x e.fault.message e.line := by
  obtain ⟨setting, mention⟩ := x
  cases mention with
  | binder name => cases setting <;> cases misuse
  | var o => cases setting <;> cases misuse
  | this keyword =>
      cases setting with
      | outside =>
          cases misuse
          simp only [BindingFault.message, formed.1.this formed.2]
          exact .this keyword
      | method decl depth => cases misuse
  | super keyword =>
      cases setting with
      | outside =>
          cases misuse
          simp only [BindingFault.message, formed.1.super formed.2]
          exact .super keyword
      | method decl depth =>
          cases sub : decl.superclass with
          | some parent => simp [misuse?, sub] at misuse
          | none =>
              obtain rfl : ⟨.noSuperclass, keyword.token.line⟩ = e := by
                simpa [misuse?, sub] using misuse
              exact .noSuperclass keyword sub

namespace Machine

theorem analyse_judges (m : Machine) (program : List Stmt) :
    (m.analyse program).1 =
      ((stmtsMentions .outside program).findSome? misuse?).elim (.ok ()) .error := by
  have judged := judges_program program m.distances
  unfold Ends at judged
  unfold analyse
  cases walked : walkProgram program m.distances with
  | ok _ d =>
      rw [walked] at judged
      simp only [judged, Option.elim_none]
  | error e d =>
      rw [walked] at judged
      simp only [judged, Option.elim_some]

theorem interpret_misused {m : Machine} (host : Host) (fuel : Nat)
    (h : (m.analyse program).1 = .error e) :
    ∃ distances, m.interpret host fuel program = (.error (.binding e), { m with distances }) := by
  obtain ⟨distances, same⟩ := analyse_eq m program
  exact ⟨distances, by rw [interpret_eq_rejected h, same]⟩

end Machine

namespace Session

/-- Of a program that is read, the analysis accepts exactly the legal uses of keywords, whatever the
machine knows already. Otherwise it reports the first misuse in the order in which it meets them,
and the program does nothing: the machine has recorded some distances, and that is all. -/
theorem keywords_judged (host : Host) {s : Session} {source : String}
    (read : (s.parse source).1 = .ok program) :
    (∀ m : Machine, (m.analyse program).1 = .ok () ↔
      ∀ x ∈ stmtsMentions .outside program, Legal x) ∧
    ∀ before x after, stmtsMentions .outside program = before ++ x :: after →
      (∀ y ∈ before, Legal y) → ¬ Legal x →
      ∃ e : BindingError, Complaint x e.fault.message e.line ∧
        (∀ (m : Machine) (fuel : Nat), (m.analyse program).1 = .error e ∧ ∃ distances,
          m.interpret host fuel program = (.error (.binding e), { m with distances })) ∧
        ∃ distances, s.run host source =
          ([.binding e], ⟨{ s.machine with distances }, (s.parse source).2.nextId⟩) := by
  obtain ⟨tokens, lexed, parsed, whole⟩ := parse_ok read
  refine ⟨fun m => ?_, fun before x after eq legal illegal => ?_⟩
  · rw [m.analyse_judges]
    constructor
    · intro accepted y mem
      cases first : (stmtsMentions .outside program).findSome? misuse? with
      | none => exact (misuse?_eq_none_iff y).mp (List.findSome?_eq_none_iff.mp first y mem)
      | some e =>
          rw [first] at accepted
          cases accepted
    · intro legal
      have none := List.findSome?_eq_none_iff.mpr fun y mem =>
        (misuse?_eq_none_iff y).mpr (legal y mem)
      rw [none, Option.elim_none]
  · obtain ⟨e, misuse⟩ := Option.ne_none_iff_exists'.mp (mt (misuse?_eq_none_iff x).mp illegal)
    have first : (stmtsMentions .outside program).findSome? misuse? = some e :=
      List.findSome?_eq_some_iff.mpr ⟨before, x, after, eq, misuse, fun y mem =>
        (misuse?_eq_none_iff y).mpr (legal y mem)⟩
    -- The tokens come from a text, so the keyword has the spelling that the message shows.
    have formed : Within (formedMentions Token.Worded) (stmtsMentions .outside program) :=
      formedMentions_stmts program (formed_of_parseProgram parsed (worded_lex lexed) [])
    have rejected (m : Machine) : (m.analyse program).1 = .error e := by
      rw [m.analyse_judges, first, Option.elim_some]
    refine ⟨e, complaint_of_misuse (formed x (eq ▸ by simp)) misuse,
      fun m fuel => ⟨rejected m, m.interpret_misused host fuel (rejected m)⟩, ?_⟩
    obtain ⟨distances, run⟩ := s.machine.interpret_misused host ampleFuel (rejected s.machine)
    refine ⟨distances, ?_⟩
    unfold Session.run
    simp only [whole, run]

def deadSource : String := "class A { m() { return this; } }\nif (false) super.m;"

def deadHost : Host := Host.standard fun _ => 0

def deadThis : Token := ⟨.kwThis, "this", none, 1⟩

def deadSuper : Token := ⟨.kwSuper, "super", none, 2⟩

def deadMethod : FunctionDecl Stmt :=
  ⟨⟨.identifier, "m", none, 1⟩, [],
    [.return ⟨.kwReturn, "return", none, 1⟩ (some (.this ⟨0, deadThis⟩))]⟩

def deadClass : ClassDecl Stmt := ⟨⟨.identifier, "A", none, 1⟩, none, [deadMethod]⟩

def deadProgram : List Stmt :=
  [.classDecl deadClass, .branch (.literal (.bool false) 2)
    (.expression (.super ⟨1, deadSuper⟩ ⟨.identifier, "m", none, 2⟩)) none]

theorem parse_deadSource :
    initial.parse deadSource = (.ok deadProgram, { initial with nextId := 2 }) := by
  cbv

theorem keywords_judged_deadProgram : (initial.parse deadSource).1 = .ok deadProgram ∧
    ∃ (e : BindingError) (distances : Distances),
      e.fault.message = "Can't use 'super' outside of a class." ∧ e.line = 2 ∧
      initial.run deadHost deadSource =
        ([.binding e], ⟨{ initial.machine with distances }, 2⟩) := by
  have read : (initial.parse deadSource).1 = .ok deadProgram := by rw [parse_deadSource]
  have legal : ∀ y ∈ [(Setting.outside, Mention.binder "A"),
      (.method deadClass 1, .this ⟨0, deadThis⟩)], Legal y := by
    intro y mem
    fin_cases mem
    · trivial
    · exact ⟨deadClass, 1, rfl⟩
  have illegal : ¬ Legal (.outside, .super ⟨1, deadSuper⟩) := by
    rintro ⟨decl, depth, eq, -⟩
    cases eq
  obtain ⟨-, reports⟩ := keywords_judged deadHost read
  obtain ⟨e, complaint, -, distances, run⟩ := reports _ _ [] rfl legal illegal
  obtain ⟨message, line⟩ : e.fault.message = "Can't use 'super' outside of a class." ∧
      e.line = 2 := by
    generalize e.fault.message = message at complaint ⊢
    generalize e.line = line at complaint ⊢
    cases complaint
    exact ⟨rfl, rfl⟩
  rw [parse_deadSource] at run
  exact ⟨read, e, distances, message, line, run⟩

end Session

end ClassScript
