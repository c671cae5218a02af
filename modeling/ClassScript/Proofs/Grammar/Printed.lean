import ClassScript.Proofs.Grammar.Nodes
import ClassScript.Proofs.Grammar.Words
import ClassScript.Proofs.Parser.Concatenation

namespace ClassScript

open Binding

def Expr.ShortCall : Expr → Prop
  | .call _ _ arguments => arguments.length ≤ Parser.maxListLength
  | _ => True

/-- No call in the tree has more arguments than a list may have. -/
def Expr.ShortCalls (e : Expr) : Prop := ∀ visit ∈ exprVisits [] e, visit.2.ShortCall

theorem length_exprsUnnumbered (es : List Expr) : (exprsUnnumbered es).length = es.length := by
  induction es with
  | nil => rfl
  | cons e es ih => rw [exprsUnnumbered, List.length_cons, List.length_cons, ih]

theorem Expr.shortCall_unnumbered (e : Expr) : e.unnumbered.ShortCall ↔ e.ShortCall := by
  cases e with
  | call callee paren arguments =>
      rw [Expr.unnumbered, ShortCall, ShortCall, length_exprsUnnumbered]
  | _ => exact Iff.rfl

theorem Expr.shortCalls_unnumbered (e : Expr) : e.unnumbered.ShortCalls ↔ e.ShortCalls := by
  simp only [ShortCalls, exprVisits_unnumbered, List.forall_mem_map, unnumberedVisit,
    shortCall_unnumbered]

namespace Grammar

open ClassScript.Parser (written_of_noEnd)

variable {limited : Bool} {b a : List Token}

def shortCalls : Set (Scopes × Expr) := {visit | visit.2.ShortCall}

def Symbol.Short : (X : Symbol) → X.Tree → Prop
  | arguments, es => Within shortCalls (exprsVisits [] es)
  | expression, e | level _, e | levelRest _ _, e | call, e | callRest _, e | primary, e =>
    Within shortCalls (exprVisits [] e)

def Symbol.ShortLeft : Symbol → Prop
  | levelRest _ left | callRest left => Within shortCalls (exprVisits [] left)
  | _ => True

theorem short_node {l : Level} {left right : Expr} {operator : Token}
    (h : Within shortCalls (exprVisits [] (l.node left operator right))) :
    Within shortCalls (exprVisits [] left) ∧ Within shortCalls (exprVisits [] right) := by
  cases l <;> exact within_append.mp (within_cons.mp h).2

theorem limited_of_derives {X : Symbol} {tree : X.Tree} (h : Derives limited X b a tree)
    (short : X.Short tree) : Derives true X b a tree ∧ X.ShortLeft := by
  induction h with
  | assign hn he _ ih => exact ⟨.assign hn he (ih (within_cons.mp short).2).1, trivial⟩
  | set _ hd hn he _ ih ih' =>
      have both := within_append.mp (within_cons.mp short).2
      exact ⟨.set (ih both.2).1 hd hn he (ih' both.1).1, trivial⟩
  | noAssignment _ ih => exact ⟨.noAssignment (ih short).1, trivial⟩
  | level next _ _ ih ih' =>
      have rest := ih' short
      exact ⟨.level next (ih rest.2).1 rest.1, trivial⟩
  | levelEnd => exact ⟨.levelEnd, short⟩
  | levelOperator next ho _ _ ih ih' =>
      have rest := ih' short
      have both := short_node rest.2
      exact ⟨.levelOperator next ho (ih both.2).1 rest.1, both.1⟩
  | unary ho _ ih => exact ⟨.unary ho (ih (within_cons.mp short).2).1, trivial⟩
  | noOperator _ ih => exact ⟨.noOperator (ih short).1, trivial⟩
  | call _ _ ih ih' =>
      have rest := ih' short
      exact ⟨.call (ih rest.2).1 rest.1, trivial⟩
  | callEnd => exact ⟨.callEnd, short⟩
  | callEmpty hp hc _ ih =>
      have rest := ih short
      exact ⟨.callEmpty hp hc rest.1, (within_append.mp (within_cons.mp rest.2).2).1⟩
  | callArguments hp hc _ _ _ ih ih' =>
      have rest := ih' short
      have node := within_cons.mp rest.2
      have both := within_append.mp node.2
      exact ⟨.callArguments hp hc (ih both.2).1 (fun _ => node.1) rest.1, both.1⟩
  | callProperty hd hn _ ih =>
      have rest := ih short
      exact ⟨.callProperty hd hn rest.1, (within_cons.mp rest.2).2⟩
  | argument _ ih => exact ⟨.argument (ih (within_append.mp short).1).1, trivial⟩
  | arguments _ hc _ ih ih' =>
      have both := within_append.mp short
      exact ⟨.arguments (ih both.1).1 hc (ih' both.2).1, trivial⟩
  | literal kind value => exact ⟨.literal kind value, trivial⟩
  | true kind => exact ⟨.true kind, trivial⟩
  | false kind => exact ⟨.false kind, trivial⟩
  | nil kind => exact ⟨.nil kind, trivial⟩
  | this kind => exact ⟨.this kind, trivial⟩
  | identifier kind => exact ⟨.identifier kind, trivial⟩
  | grouping hp _ hc ih => exact ⟨.grouping hp (ih (within_cons.mp short).2).1 hc, trivial⟩
  | super ht hd hm => exact ⟨.super ht hd hm, trivial⟩

theorem derives_limited {e : Expr} (short : e.ShortCalls) :
    Derives true .expression b a e ↔ Derives false .expression b a e :=
  ⟨unlimited_of_derives, fun h => (limited_of_derives h short).1⟩

theorem exists_printed {closed : Bool} {s : Stmt} {e : Expr}
    (h : DerivesStmt (.statement closed) b a s) (eq : s = .print e) :
    ∃ keyword c semicolon, b = keyword :: c ∧ Derives true .expression c (semicolon :: a) e := by
  cases h with
  | printStmt _ h _ =>
      cases eq
      exact ⟨_, _, _, rfl, h⟩
  | exprStmt h =>
      cases h
      cases eq
  | forStmt =>
      unfold forTree at eq
      split at eq <;> cases eq
  | _ => cases eq

theorem print_derives {keyword semicolon : Token} {tokens : List Token} {e : Expr}
    (hk : keyword.kind = .kwPrint) (hs : semicolon.kind = .semicolon) :
    DerivesStmt .declarations (keyword :: (tokens ++ [semicolon])) [] [Stmt.print e] ↔
      Derives true .expression tokens [] e := by
  constructor
  · intro h
    generalize behind : tokens ++ [semicolon] = c at h
    cases h with
    | declarations first rest =>
        cases rest
        cases first with
        | varDecl h => cases h
        | statement h =>
            obtain ⟨keyword', d, semicolon', same, derives⟩ := exists_printed h rfl
            obtain ⟨w, rfl, everywhere⟩ := derives.word
            obtain ⟨rfl, -⟩ := List.append_inj' (behind.trans (List.cons.inj same).2) rfl
            have alone := everywhere []
            rwa [List.append_nil] at alone
  · intro h
    obtain ⟨w, same, derives⟩ := h.word
    rw [List.append_nil] at same
    subst same
    exact .declarations (.statement (.printStmt hk (derives [semicolon]) hs)) .noDeclaration

theorem printed_of_unnumbered {program : List Stmt} {tree : Expr}
    (eq : stmtsUnnumbered program = [.print tree]) :
    ∃ e, program = [.print e] ∧ e.unnumbered = tree := by
  match program, eq with
  | [s], eq =>
      cases s with
      | print e => exact ⟨e, rfl, Stmt.print.inj (List.cons.inj eq).1⟩
      | _ => cases (List.cons.inj eq).1
  | _ :: _ :: _, eq => cases (List.cons.inj eq).2

theorem parse_print_iff {keyword semicolon : Token} {tokens : List Token} {firstId : Nat}
    (hk : keyword.kind = .kwPrint) (hs : semicolon.kind = .semicolon)
    (noEnd : ∀ t ∈ tokens, t.kind ≠ .eof)
    (short : ∀ e, (parseExpression firstId tokens).result = .ok e → e.ShortCalls)
    (firstId' : Nat) (tree : Expr) :
    (∃ e, (parseExpression firstId tokens).result = .ok e ∧ e.unnumbered = tree) ↔
      ∃ e, (parseProgram firstId' (keyword :: (tokens ++ [semicolon]))).result = .ok [.print e] ∧
        e.unnumbered = tree := by
  have noEnd' : ∀ t ∈ keyword :: (tokens ++ [semicolon]), t.kind ≠ .eof := by
    simp only [List.forall_mem_cons, List.forall_mem_append, hk, hs]
    exact ⟨nofun, noEnd, nofun, nofun⟩
  have print := (parses_iff_derives firstId' (keyword :: (tokens ++ [semicolon]))).1 [.print tree]
  rw [written_of_noEnd noEnd', print_derives hk hs] at print
  have expression := (parses_iff_derives firstId tokens).2 tree
  rw [written_of_noEnd noEnd] at expression
  constructor
  · rintro ⟨e, parsed, rfl⟩
    have derives := expression.mpr ⟨e, parsed, rfl⟩
    have short := (Expr.shortCalls_unnumbered e).mpr (short e parsed)
    obtain ⟨program, parsed', same⟩ := print.mp ((derives_limited short).mpr derives)
    obtain ⟨e', rfl, same'⟩ := printed_of_unnumbered same
    exact ⟨e', parsed', same'⟩
  · rintro ⟨e', parsed', rfl⟩
    have derives := print.mpr ⟨_, parsed', rfl⟩
    exact expression.mp (unlimited_of_derives derives)

end Grammar

end ClassScript
