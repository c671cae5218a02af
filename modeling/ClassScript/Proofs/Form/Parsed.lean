import ClassScript.Proofs.Form.Scanned
import ClassScript.Proofs.Grammar.Literals

namespace ClassScript

open Form

abbrev Expr.Plain (e : Expr) : Prop := ∀ l ∈ e.literals, l.Plain

abbrev Stmt.Plain (s : Stmt) : Prop := ∀ l ∈ s.literals, l.Plain

variable {e : Expr} {es : List Expr} {s : Stmt} {ss : List Stmt} {m : FunctionDecl Stmt}
  {ms : List (FunctionDecl Stmt)}

theorem subset_gathered {α β : Type} {part : α → List β} {all : List α → List β}
    (gathers : ∀ x xs, all (x :: xs) = part x ++ all xs) {x : α} {xs : List α} (mem : x ∈ xs) :
    part x ⊆ all xs := by
  induction xs with
  | nil => cases mem
  | cons y ys ih =>
      rw [gathers]
      rcases List.mem_cons.mp mem with rfl | mem
      · exact List.subset_append_left _ _
      · exact List.Subset.trans (ih mem) (List.subset_append_right _ _)

theorem literals_subset_exprs (mem : e ∈ es) : e.literals ⊆ exprsLiterals es :=
  subset_gathered (fun _ _ => rfl) mem

theorem literals_subset_stmts (mem : s ∈ ss) : s.literals ⊆ stmtsLiterals ss :=
  subset_gathered (fun _ _ => rfl) mem

theorem literals_subset_methods (mem : m ∈ ms) : functionLiterals m ⊆ methodsLiterals ms :=
  subset_gathered (fun _ _ => rfl) mem

namespace Grammar

variable {limited : Bool} {b a : List Token}

abbrev ExprsReadBack (es : List Expr) : Prop := ∀ e ∈ es, e.Plain → e.ReadBack

def Symbol.ReadBack : (X : Symbol) → X.Tree → Prop
  | levelRest _ left, e | callRest left, e =>
    Expr.Plain e → Expr.Plain left ∧ (Expr.ReadBack left → Expr.ReadBack e)
  | arguments, es => ExprsReadBack es
  | expression, e | level _, e | call, e | primary, e => Expr.Plain e → Expr.ReadBack e

theorem plain_node {l : Level} {left right : Expr} {operator : Token}
    (plain : (l.node left operator right).Plain) : left.Plain ∧ right.Plain := by
  cases l <;> exact List.forall_mem_append.mp plain

theorem readBack_node {l next : Level} {left right : Expr} {operator : Token}
    (hn : l.next = some next) (kind : l.operators operator.kind = true) (scanned : operator.Scanned)
    (hl : left.ReadBack) (hr : right.ReadBack) : (l.node left operator right).ReadBack := by
  have written : operator.kind ∉ unwritten := by
    intro mem
    simp only [unwritten, List.mem_cons, List.not_mem_nil, or_false] at mem
    rcases mem with other | other | other <;> rw [other] at kind <;> cases l <;> cases kind
  have legible := scanned.legible written
  cases l with
  | or | and =>
      simp only [Level.operators, beq_iff_eq] at kind
      exact readBack_logical legible (by simp [kind, logicalOperators]) hl hr
  | equality | comparison | term | factor =>
      simp only [Level.operators, Bool.or_eq_true, beq_iff_eq] at kind
      refine readBack_binary legible ?_ hl hr
      simp only [binaryOperators, List.mem_cons]
      tauto
  | unary => cases hn

theorem Derives.all {P : Token → Prop} {X : Symbol} {tree : X.Tree}
    (h : Derives limited X b a tree) (all : ∀ t ∈ b, P t) : ∀ t ∈ a, P t := (h.formed all).1

theorem Derives.readBack {X : Symbol} {tree : X.Tree} (h : Derives limited X b a tree)
    (all : ∀ t ∈ b, t.Scanned) : X.ReadBack tree := by
  -- Behind each part the tokens are scanned too, and the parts of a plain tree are plain.
  induction h with
  | assign kind _ _ value =>
      rw [List.forall_mem_cons, List.forall_mem_cons] at all
      exact fun plain => readBack_assign (all.1.isName kind) (value all.2.2 plain)
  | set front _ kind _ _ object value =>
      intro plain
      have parts := List.forall_mem_append.mp plain
      have rest := front.all all
      simp only [List.forall_mem_cons] at rest
      exact readBack_set (object all parts.1) (rest.2.1.isName kind) (value rest.2.2.2 parts.2)
  | noAssignment _ inner | noOperator _ inner => exact inner all
  | level _ front _ first rest =>
      intro plain
      obtain ⟨plainFirst, whole⟩ := rest (front.all all) plain
      exact whole (first all plainFirst)
  | levelEnd | callEnd => exact fun plain => ⟨plain, id⟩
  | levelOperator next kind operand _ right rest =>
      rw [List.forall_mem_cons] at all
      intro plain
      obtain ⟨plainNode, whole⟩ := rest (operand.all all.2) plain
      have parts := plain_node plainNode
      exact ⟨parts.1, fun left =>
        whole (readBack_node next kind all.1 left (right all.2 parts.2))⟩
  | @unary operator _ _ _ kind _ operand =>
      rw [List.forall_mem_cons] at all
      have known : operator.kind ∈ unaryOperators := by
        simpa only [unaryOperators, List.mem_cons, List.not_mem_nil, or_false] using kind
      have written : operator.kind ∉ unwritten := by
        rcases kind with kind | kind <;> rw [kind] <;> decide
      exact fun plain => readBack_unary (all.1.legible written) known (operand all.2 plain)
  | call front _ first rest =>
      intro plain
      obtain ⟨plainFirst, whole⟩ := rest (front.all all) plain
      exact whole (first all plainFirst)
  | callEmpty _ close _ rest =>
      simp only [List.forall_mem_cons] at all
      intro plain
      obtain ⟨plainCall, whole⟩ := rest all.2.2 plain
      refine ⟨(List.forall_mem_append.mp plainCall).1, fun left => ?_⟩
      exact whole (readBack_call left (all.2.1.fixed close (by decide) (by decide))
        (List.forall_mem_nil _))
  | callArguments _ close inside _ _ arguments rest =>
      rw [List.forall_mem_cons] at all
      have behind := inside.all all.2
      rw [List.forall_mem_cons] at behind
      intro plain
      obtain ⟨plainCall, whole⟩ := rest behind.2 plain
      have parts := List.forall_mem_append.mp plainCall
      refine ⟨parts.1, fun left => whole (readBack_call left
        (behind.1.fixed close (by decide) (by decide)) fun e mem => ?_)⟩
      exact arguments all.2 e mem fun l own => parts.2 l (literals_subset_exprs mem own)
  | callProperty _ kind _ rest =>
      simp only [List.forall_mem_cons] at all
      intro plain
      obtain ⟨plainGet, whole⟩ := rest all.2.2 plain
      exact ⟨plainGet, fun left => whole (readBack_get left (all.2.1.isName kind))⟩
  | argument _ inner =>
      intro e mem
      rw [List.mem_singleton.mp mem]
      exact inner all
  | arguments front _ _ first rest =>
      have behind := front.all all
      rw [List.forall_mem_cons] at behind
      intro e mem
      rcases List.mem_cons.mp mem with rfl | mem
      · exact first all
      · exact rest behind.2 e mem
  | literal kind found =>
      rw [List.forall_mem_cons] at all
      exact fun plain => all.1.readBack_literal kind found (plain _ List.mem_cons_self)
  | true | false => exact fun _ => readBack_bool _
  | nil => exact fun _ => readBack_nil
  | this kind =>
      rw [List.forall_mem_cons] at all
      exact fun _ => readBack_this (all.1.fixed kind (by decide) (by decide))
  | identifier kind =>
      rw [List.forall_mem_cons] at all
      exact fun _ => readBack_var (all.1.isName kind)
  | grouping _ _ _ inner =>
      rw [List.forall_mem_cons] at all
      exact fun plain => readBack_grouping (inner all.2 plain)
  | super keyword _ kind =>
      simp only [List.forall_mem_cons] at all
      exact fun _ => readBack_super (all.1.fixed keyword (by decide) (by decide))
        (all.2.2.1.isName kind)

abbrev StmtsReadBack (ss : List Stmt) : Prop := ∀ s ∈ ss, s.Plain → s.ReadBack

abbrev FunctionReadBack (f : FunctionDecl Stmt) : Prop :=
  (∀ l ∈ functionLiterals f, l.Plain) → f.ReadBack

abbrev FunctionsReadBack (fs : List (FunctionDecl Stmt)) : Prop := ∀ f ∈ fs, FunctionReadBack f

abbrev OptionReadBack (e : Option Expr) : Prop :=
  (∀ l ∈ optionalLiterals e, l.Plain) → ∀ e' ∈ e, e'.ReadBack

def StmtSymbol.ReadBack : (X : StmtSymbol) → X.Tree → Prop
  | declarations, ss => StmtsReadBack ss
  | functions, fs => FunctionsReadBack fs
  | function, f => FunctionReadBack f
  | declaration, s | statement _, s => Stmt.Plain s → Stmt.ReadBack s

variable {s body : Stmt} {first : Option Stmt} {condition increment value : Option Expr}
  {keyword : Token} {names : List Token} {parent : Option Occurrence}

theorem StmtsReadBack.of_plain {ss : List Stmt} (h : StmtsReadBack ss)
    (plain : ∀ l ∈ stmtsLiterals ss, l.Plain) : ∀ s ∈ ss, s.ReadBack :=
  fun s mem => h s mem fun l own => plain l (literals_subset_stmts mem own)

theorem Optionally.readBack (h : Optionally b a value) (all : ∀ t ∈ b, t.Scanned) :
    OptionReadBack value := by
  cases h with
  | none => exact fun _ => nofun
  | some h =>
      intro plain e' mem
      rw [← Option.mem_some.mp mem]
      exact h.readBack all plain

theorem Parameters.isName (h : Parameters b a names) (all : ∀ t ∈ b, t.Scanned) :
    ∀ p ∈ names, p.IsName := by
  induction h with
  | last kind =>
      rw [List.forall_mem_cons] at all
      exact List.forall_mem_singleton.mpr (all.1.isName kind)
  | more kind _ _ ih =>
      simp only [List.forall_mem_cons] at all
      exact List.forall_mem_cons.mpr ⟨all.1.isName kind, ih all.2.2⟩

theorem ParameterList.isName (h : ParameterList b a names) (all : ∀ t ∈ b, t.Scanned) :
    ∀ p ∈ names, p.IsName := by
  cases h with
  | none => exact nofun
  | some h => exact h.isName all

theorem Superclass.readBack_class {name : Token} {methods : List (FunctionDecl Stmt)}
    (h : Superclass b a parent) (all : ∀ t ∈ b, t.Scanned) (hn : name.IsName)
    (hm : ∀ m ∈ methods, m.ReadBack) : (Stmt.classDecl ⟨name, parent, methods⟩).ReadBack := by
  cases h with
  | none => exact ClassScript.readBack_class hn hm
  | some _ kind =>
      simp only [List.forall_mem_cons] at all
      exact readBack_subclass hn (all.2.1.isName kind) hm

theorem VarDecl.readBack (h : VarDecl b a s) (all : ∀ t ∈ b, t.Scanned) (plain : s.Plain) :
    s.ReadBack := by
  cases h with
  | plain _ kind _ =>
      simp only [List.forall_mem_cons] at all
      exact readBack_varDecl (all.2.1.isName kind) nofun
  | initialized _ kind _ h _ =>
      simp only [List.forall_mem_cons] at all
      refine readBack_varDecl (all.2.1.isName kind) fun e mem => ?_
      rw [← Option.mem_some.mp mem]
      exact h.readBack all.2.2.2 plain

theorem ExprStmt.readBack (h : ExprStmt b a s) (all : ∀ t ∈ b, t.Scanned) (plain : s.Plain) :
    s.ReadBack := by
  cases h with
  | mk h _ => exact readBack_expression (h.readBack all plain)

theorem ForFirst.readBack (h : ForFirst b a first) (all : ∀ t ∈ b, t.Scanned) :
    ∀ s ∈ first, s.Plain → s.ReadBack := by
  cases h with
  | varDecl h => exact fun s mem => Option.mem_some.mp mem ▸ h.readBack all
  | exprStmt h => exact fun s mem => Option.mem_some.mp mem ▸ h.readBack all
  | none => exact nofun

theorem readBack_forTree (hf : ∀ s ∈ first, s.Plain → s.ReadBack) (hc : OptionReadBack condition)
    (hb : body.Plain → body.ReadBack) (hi : OptionReadBack increment)
    (plain : (forTree keyword first condition body increment).Plain) :
    (forTree keyword first condition body increment).ReadBack := by
  let loop : Stmt := .loop (condition.getD (.literal (.bool true) keyword.line)) body increment
  have inner (plain : loop.Plain) : loop.ReadBack := by
    obtain ⟨test, rest⟩ := List.forall_mem_append.mp plain
    obtain ⟨round, last⟩ := List.forall_mem_append.mp rest
    refine readBack_loop ?_ (hb round) (hi last)
    cases condition with
    | none => exact readBack_bool true
    | some e => exact hc test e rfl
  cases first with
  | none => exact inner plain
  | some s =>
      have both : StmtsReadBack [s, loop] := by
        refine List.forall_mem_cons.mpr ⟨hf s rfl, ?_⟩
        exact List.forall_mem_singleton.mpr inner
      exact readBack_block (both.of_plain plain)

theorem DerivesStmt.readBack {X : StmtSymbol} {tree : X.Tree} (h : DerivesStmt X b a tree)
    (all : ∀ t ∈ b, t.Scanned) : X.ReadBack tree := by
  induction h with
  | noDeclaration | noFunction => exact nofun
  | declarations front _ first rest | functions front _ first rest =>
      exact List.forall_mem_cons.mpr ⟨first all, rest (front.formed all).1⟩
  | classDecl _ kind parent _ _ _ methods =>
      simp only [List.forall_mem_cons] at all
      have start := parent.all all.2.2
      rw [List.forall_mem_cons] at start
      intro plain
      refine parent.readBack_class all.2.2 (all.2.1.isName kind) fun m mem => ?_
      exact methods start.2 m mem fun l own => plain l (literals_subset_methods mem own)
  | funDecl _ _ function =>
      rw [List.forall_mem_cons] at all
      exact fun plain => readBack_funDecl (function all.2 plain)
  | varDecl h => exact h.readBack all
  | exprStmt h => exact h.readBack all
  | statement _ inner => exact inner all
  | function kind _ params _ _ _ _ body =>
      simp only [List.forall_mem_cons] at all
      have start := params.all all.2.2
      simp only [List.forall_mem_cons] at start
      intro plain
      exact ⟨all.1.isName kind, params.isName all.2.2, (body start.2.2).of_plain plain⟩
  | forStmt _ _ first condition _ increment _ _ body =>
      simp only [List.forall_mem_cons] at all
      have start := (first.formed all.2.2).1
      have test := (condition.formed start).1
      rw [List.forall_mem_cons] at test
      have counter := (increment.formed test.2).1
      rw [List.forall_mem_cons] at counter
      exact readBack_forTree (first.readBack all.2.2) (condition.readBack start) (body counter.2)
        (increment.readBack test.2)
  | ifStmt _ _ condition _ _ thenBranch =>
      simp only [List.forall_mem_cons] at all
      have test := condition.all all.2.2
      rw [List.forall_mem_cons] at test
      intro plain
      obtain ⟨plainTest, plainRest⟩ := List.forall_mem_append.mp plain
      have plainThen := (List.forall_mem_append.mp plainRest).1
      exact readBack_if (condition.readBack all.2.2 plainTest) (thenBranch test.2 plainThen)
  | ifElse _ _ condition _ front _ _ thenBranch elseBranch =>
      simp only [List.forall_mem_cons] at all
      have test := condition.all all.2.2
      rw [List.forall_mem_cons] at test
      have other := (front.formed test.2).1
      rw [List.forall_mem_cons] at other
      intro plain
      obtain ⟨plainTest, plainRest⟩ := List.forall_mem_append.mp plain
      obtain ⟨plainThen, plainElse⟩ := List.forall_mem_append.mp plainRest
      exact readBack_ifElse (condition.readBack all.2.2 plainTest) (thenBranch test.2 plainThen)
        (elseBranch other.2 plainElse)
  | printStmt _ e =>
      rw [List.forall_mem_cons] at all
      exact fun plain => readBack_print (e.readBack all.2 plain)
  | returnStmt kind value =>
      rw [List.forall_mem_cons] at all
      exact fun plain => readBack_return (all.1.fixed kind (by decide) (by decide))
        (value.readBack all.2 plain)
  | whileStmt _ _ condition _ _ body =>
      simp only [List.forall_mem_cons] at all
      have test := condition.all all.2.2
      rw [List.forall_mem_cons] at test
      intro plain
      obtain ⟨plainTest, plainRest⟩ := List.forall_mem_append.mp plain
      have plainBody := (List.forall_mem_append.mp plainRest).1
      exact readBack_loop (condition.readBack all.2.2 plainTest) (body test.2 plainBody) nofun
  | breakStmt kind =>
      simp only [List.forall_mem_cons] at all
      exact fun _ => readBack_break (all.1.fixed kind (by decide) (by decide))
  | continueStmt kind =>
      simp only [List.forall_mem_cons] at all
      exact fun _ => readBack_continue (all.1.fixed kind (by decide) (by decide))
  | block _ _ _ body =>
      rw [List.forall_mem_cons] at all
      exact fun plain => readBack_block ((body all.2).of_plain plain)

end Grammar

theorem scanned_written {source : String} {tokens : List Token} (h : lex source = .ok tokens) :
    ∀ t ∈ Grammar.written tokens, t.Scanned := by
  intro t mem
  have kind := List.mem_takeWhile_imp mem
  rcases readFrom_scanFrom (mem_of_mapM_id h (List.takeWhile_subset _ mem)) with
    ⟨line, rfl⟩ | scanned
  · cases kind
  · exact scanned

/-- Parsing a source text returns the statement as one of a program. -/
def Stmt.Returned (s : Stmt) : Prop :=
  ∃ (source : String) (tokens : List Token) (firstId : Nat) (program : List Stmt),
    lex source = .ok tokens ∧ (parseProgram firstId tokens).result = .ok program ∧ s ∈ program

def Expr.Returned (e : Expr) : Prop :=
  ∃ (source : String) (tokens : List Token) (firstId : Nat),
    lex source = .ok tokens ∧ (parseExpression firstId tokens).result = .ok e

theorem mem_stmtsUnnumbered (mem : s ∈ ss) : s.unnumbered ∈ stmtsUnnumbered ss := by
  induction ss with
  | nil => cases mem
  | cons s' ss ih =>
      rcases List.mem_cons.mp mem with rfl | mem
      · exact List.mem_cons_self
      · exact List.mem_cons_of_mem _ (ih mem)

theorem Stmt.Returned.readBack (h : s.Returned) (plain : s.Plain) : s.unnumbered.ReadBack := by
  obtain ⟨source, tokens, firstId, program, scanned, parsed, mem⟩ := h
  have derives := Grammar.derives_of_parseProgram parsed
  refine derives.readBack (scanned_written scanned) _ (mem_stmtsUnnumbered mem) ?_
  rw [Stmt.Plain, stmtLiterals_unnumbered]
  exact plain

theorem Expr.Returned.readBack (h : e.Returned) (plain : e.Plain) : e.unnumbered.ReadBack := by
  obtain ⟨source, tokens, firstId, scanned, parsed⟩ := h
  have derives := Grammar.derives_of_parseExpression parsed
  refine derives.readBack (scanned_written scanned) ?_
  rw [Expr.Plain, literals_unnumbered]
  exact plain

theorem eq_of_text {α : Type} {read : Form → Option α} {f g : Form} {x y : α} (hf : f.Readable)
    (hg : g.Readable) (hx : read f = some x) (hy : read g = some y) (same : f.text = g.text) :
    x = y := by
  obtain rfl := text_injective hf hg same
  exact Option.some.inj (hx.symm.trans hy)

theorem unlined_of_render {e e' : Expr} (h : e.unnumbered.ReadBack) (h' : e'.unnumbered.ReadBack)
    (same : e.render = e'.render) : e.unnumbered.unlined = e'.unnumbered.unlined := by
  apply eq_of_text h.readable h'.readable h.read h'.read
  rw [form_unnumbered, form_unnumbered, text_form, text_form, same]

theorem unlined_of_stmtRender {s s' : Stmt} (h : s.unnumbered.ReadBack)
    (h' : s'.unnumbered.ReadBack) (same : s.render = s'.render) :
    s.unnumbered.unlined = s'.unnumbered.unlined := by
  apply eq_of_text h.readable h'.readable h.read h'.read
  rw [stmtForm_unnumbered, stmtForm_unnumbered, text_stmtForm, text_stmtForm, same]

/-- Statements and expressions that are returned for source texts, without strings and with finite
numbers, are equal up to identities and lines if they are printed alike. -/
theorem printed_forms_determine_trees :
    (∀ s s' : Stmt, s.Returned → s'.Returned → s.Plain → s'.Plain → s.render = s'.render →
      s.unnumbered.unlined = s'.unnumbered.unlined) ∧
    ∀ e e' : Expr, e.Returned → e'.Returned → e.Plain → e'.Plain → e.render = e'.render →
      e.unnumbered.unlined = e'.unnumbered.unlined := by
  constructor
  · intro s s' returned returned' plain plain' same
    exact unlined_of_stmtRender (returned.readBack plain) (returned'.readBack plain') same
  · intro e e' returned returned' plain plain' same
    exact unlined_of_render (returned.readBack plain) (returned'.readBack plain') same

def negatedDifference (id line last : Nat) : Expr :=
  .binary (.var ⟨id, ⟨.identifier, "a", none, line⟩⟩) ⟨.minus, "-", none, line⟩
    (.unary ⟨.minus, "-", none, last⟩ (.var ⟨id + 1, ⟨.identifier, "b", none, last⟩⟩))

theorem printed_forms_determine_trees_difference :
    ((Stmt.expression (negatedDifference 0 1 1)).Returned ∧
      (Stmt.expression (negatedDifference 7 1 2)).Returned ∧
      (Stmt.expression (negatedDifference 0 1 1)).unnumbered.unlined =
        (Stmt.expression (negatedDifference 7 1 2)).unnumbered.unlined) ∧
    (negatedDifference 0 1 1).Returned ∧ (negatedDifference 7 1 2).Returned ∧
      (negatedDifference 0 1 1).unnumbered.unlined =
        (negatedDifference 7 1 2).unnumbered.unlined := by
  obtain ⟨statements, expressions⟩ := printed_forms_determine_trees
  constructor
  · have first : (Stmt.expression (negatedDifference 0 1 1)).Returned :=
      ⟨"a--b;", _, 0, [.expression (negatedDifference 0 1 1)], by cbv, by cbv, List.mem_cons_self⟩
    have second : (Stmt.expression (negatedDifference 7 1 2)).Returned :=
      ⟨"a -\n- b ;", _, 7, [.expression (negatedDifference 7 1 2)], by cbv, by cbv,
        List.mem_cons_self⟩
    exact ⟨first, second, statements _ _ first second (List.forall_mem_nil _)
      (List.forall_mem_nil _) rfl⟩
  · have first : (negatedDifference 0 1 1).Returned := ⟨"a--b", _, 0, by cbv, by cbv⟩
    have second : (negatedDifference 7 1 2).Returned := ⟨"a -\n- b", _, 7, by cbv, by cbv⟩
    exact ⟨first, second, expressions _ _ first second (List.forall_mem_nil _)
      (List.forall_mem_nil _) rfl⟩

end ClassScript
