import ClassScript.Proofs.Grammar.Printed
import ClassScript.Proofs.Parser.Concatenation
import ClassScript.Proofs.Parser.EntryFaults
import ClassScript.Proofs.Parser.Reports

namespace ClassScript

namespace Parser

open Grammar

variable {α β : Type} {p : Parser α} {b c a b' : List Token} {lists lists' : List EntryList}
  {faults faults' : List ParseError} {t : Token} {bound k : Nat}

/-! ## Windows of faults -/

theorem FaultsOf.cons (h : FaultsOf lists b a faults) (t : Token) :
    FaultsOf lists (t :: b) a faults := h.widen (List.suffix_cons t b)

theorem FaultsOf.past (h : FaultsOf lists b c faults) (suffix : a <:+ c) :
    FaultsOf lists b a faults := by
  have both := h.append (faultsOf_nil suffix)
  rwa [List.append_nil, List.append_nil] at both

theorem FaultsOf.between (h : FaultsOf lists b (t :: c) faults) (h' : FaultsOf lists' c a faults') :
    FaultsOf (lists ++ lists') b a (faults ++ faults') := h.append (h'.cons t)

/-! ## Parsers of parts with lists -/

def ReportsLists (p : Parser α) (b a : List Token) (lists : List EntryList) : Prop :=
  ∃ faults, FaultsOf lists b a faults ∧ Reports p b a faults

theorem reportsLists_of_runs (h : ∀ s : State, s.tokens = b → s.stop.kind = .eof →
      Ends p s (fun _ t => t.tokens = a ∧ t.stop = s.stop ∧
        ∃ faults, t.recorded = s.recorded ++ faults ∧ FaultsOf lists b a faults)
      fun _ _ => False) : ReportsLists p b a lists := by
  obtain ⟨faults, of⟩ : ∃ faults, FaultsOf lists b a faults := by
    have run := h ⟨b, Token.endOfInput 1, 0, []⟩ rfl rfl
    unfold Ends at run
    split at run
    · obtain ⟨-, -, faults, -, of⟩ := run
      exact ⟨faults, of⟩
    · exact run.elim
  refine ⟨faults, of, fun s tokens stop => ?_⟩
  apply Ends.imp (h s tokens stop)
  · rintro x t ⟨left, same, faults', recorded, of'⟩
    exact ⟨left, same, by rw [recorded, of.unique of']⟩
  · exact fun _ _ fails => fails

theorem reportsLists_of_accepts {P : α → Prop} {widthOf : α → Nat}
    (listsOf : α → List Token → List EntryList) (accepted : Accepts false p b a P)
    (yields : ∀ s, s.stop.kind = .eof → Yields p s fun x t =>
      s.Reads t (widthOf x) (listsOf x s.tokens))
    (same : ∀ x, P x → listsOf x b = lists) : ReportsLists p b a lists := by
  apply reportsLists_of_runs
  intro s tokens stop
  apply Ends.imp ((accepted s tokens).and (yields s stop))
  · rintro x t ⟨⟨left, tree, -⟩, reads⟩
    obtain ⟨faults, recorded, of⟩ := reads.recorded
    rw [tokens, left, same x tree] at of
    exact ⟨left, reads.stop, faults, recorded, of⟩
  · exact fun _ _ fails => fails.1

theorem reportsLists_expression (h : ExpressionLists b a lists) (short : b.length ≤ bound)
    (ends : startsWith continuesExpression a = false) :
    ReportsLists (expression bound) b a lists := by
  cases h with
  | mk derives =>
      apply reportsLists_of_accepts Expr.lists (accepts_expression derives short ends)
        (yields_expression bound)
      rintro e rfl
      rw [e.lists_unnumbered]

theorem reportsLists_optionalExpression {without : TokenKind} (h : OptionalLists b (t :: a) lists)
    (kind : t.kind = without) (starts : startsExpression without = false)
    (ends : continuesExpression without = false) (short : b.length ≤ bound) :
    ReportsLists (optionalExpression bound without) b (t :: a) lists := by
  cases h with
  | none =>
      refine ⟨[], faultsOf_nil (List.suffix_refl _), Reports.seen ?_⟩
      rw [startsWith_cons, kind, beq_self_eq_true]
      exact reports_pure none
  | some h =>
      obtain ⟨faults, of, reports⟩ := reportsLists_expression h short (ends_of_kind kind ends)
      refine ⟨faults, of, Reports.seen ?_⟩
      rw [expression_ne_stop starts h.starts]
      exact reports.last fun e => reports_pure (some e)

theorem reportsLists_parameters {close : Token} (h : ParameterLists b (close :: a) lists)
    (isClose : close.kind = .rightParen) (short : b.length ≤ bound) :
    ∃ faults, FaultsOf lists b (close :: a) faults ∧
      ReportsParameters bound b (close :: a) faults := by
  cases h with
  | none => exact ⟨[], faultsOf_nil (List.suffix_refl _), .inl ⟨rfl, rfl⟩⟩
  | some h =>
      let listsOf (names tokens : List Token) : List EntryList :=
        [⟨.parameters, entriesFrom (names.map fun _ => 1) tokens⟩]
      obtain ⟨faults, of, reports⟩ := reportsLists_of_accepts listsOf
        (accepts_parameters 0 bound h isClose nofun short)
        (fun _ stop => yields_parameters bound stop) fun names same => by rw [same]
      exact ⟨faults, of, .inr ⟨notParen_of_parameters h, reports⟩⟩

/-! ## Simple statements -/

theorem reportsLists_varDeclaration (h : VarDeclLists b a lists) :
    ∃ keyword rest, b = keyword :: rest ∧ keyword.kind = .kwVar ∧
      ∀ bound, rest.length ≤ bound → ReportsLists (varDeclaration bound) rest a lists := by
  cases h with
  | @plain keyword name semicolon a isVar isName isSemicolon =>
      refine ⟨keyword, _, rfl, isVar, fun bound _ => ⟨[], faultsOf_nil ?_, ?_⟩⟩
      · exact (List.suffix_cons _ _).trans (List.suffix_cons _ _)
      · apply (reports_expect isName).next
        intro _
        apply Reports.missed
        · exact (reports_skip isSemicolon).next fun _ => reports_pure _
        · simp [isSemicolon]
  | @initialized keyword name equals semicolon b a lists isVar isName isEqual value isSemicolon =>
      refine ⟨keyword, _, rfl, isVar, fun bound short => ?_⟩
      simp only [List.length_cons] at short
      have enough : b.length ≤ bound := Nat.le_of_succ_le (Nat.le_of_succ_le short)
      obtain ⟨faults, of, reports⟩ :=
        reportsLists_expression value enough (ends_of_kind isSemicolon rfl)
      refine ⟨faults, ((of.past (List.suffix_cons _ _)).cons equals).cons name, ?_⟩
      apply (reports_expect isName).next
      intro _
      apply Reports.found _ (by simp [isEqual])
      have initializer : Reports (some <$> expression bound) b (semicolon :: a) faults :=
        reports.map
      exact initializer.last fun _ => (reports_skip isSemicolon).next fun _ => reports_pure _

theorem reportsLists_expressionStatement (h : ExprStmtLists b a lists) (short : b.length ≤ bound) :
    ReportsLists (expressionStatement bound) b a lists := by
  cases h with
  | mk value isSemicolon =>
      obtain ⟨faults, of, reports⟩ :=
        reportsLists_expression value short (ends_of_kind isSemicolon rfl)
      refine ⟨faults, of.past (List.suffix_cons _ _), ?_⟩
      exact reports.last fun _ => (reports_skip isSemicolon).next fun _ => reports_pure _

theorem reportsLists_forInitializer (h : ForFirstLists b a lists) (short : b.length ≤ bound) :
    ReportsLists (forInitializer bound) b a lists := by
  cases h with
  | varDecl h =>
      obtain ⟨keyword, rest, rfl, isVar, reads⟩ := reportsLists_varDeclaration h
      obtain ⟨faults, of, reports⟩ := reads bound (Nat.le_of_succ_le short)
      refine ⟨faults, of.cons keyword, Reports.found ?_ (by simp [isVar])⟩
      have notSemicolon : (keyword.kind == .semicolon) = false := by simp [isVar]
      simp only [notSemicolon]
      exact reports.last fun _ => reports_pure _
  | exprStmt h =>
      obtain ⟨faults, of, reports⟩ := reportsLists_expressionStatement h short
      refine ⟨faults, of, Reports.missed (reports.last fun _ => reports_pure _) ?_⟩
      apply startsWith_disjoint _ h.starts
      intro k hk
      cases k <;> first | rfl | cases hk
  | none isSemicolon =>
      refine ⟨[], faultsOf_nil (List.suffix_cons _ _), Reports.found ?_ (by simp [isSemicolon])⟩
      simp only [isSemicolon, beq_self_eq_true, if_true]
      exact reports_pure _

/-! ## Derivations -/

def ReportedLists (lists : List EntryList) : StmtSymbol → List Token → List Token → Prop
  | .declarations, b, a => ∀ stops bound k, b.length ≤ bound → b.length ≤ k →
    (∀ kind, stops kind = true → startsDeclaration kind = false) → stops .kwElse = false →
      endsList stops a = true → ReportsLists (many stops (declaration bound) k) b a lists
  | .declaration, b, a => ∀ bound, b.length ≤ bound → startsWith (· == .kwElse) a = false →
    ReportsLists (declaration bound) b a lists
  | .functions, b, a => ∀ bound k, b.length ≤ bound → b.length ≤ k →
    endsList (· == .rightBrace) a = true →
      ReportsLists (many (· == .rightBrace) (callable .method (bound + 1) (declaration bound)) k)
        b a lists
  | .function, b, a => ∀ kind bound, b.length ≤ bound →
    ReportsLists (callable kind (bound + 1) (declaration bound)) b a lists
  | .statement closed, b, a => ∀ bound, b.length ≤ bound →
    (closed = false → startsWith (· == .kwElse) a = false) →
      ReportsLists (statement bound) b a lists

theorem noElse_of_derivesLists {stops : TokenKind → Bool}
    (h : DerivesLists .declarations b a lists) (other : stops .kwElse = false)
    (ends : endsList stops a = true) : startsWith (· == .kwElse) b = false := by
  obtain rfl | starts := h.starts
  · exact else_of_ends other ends
  · exact else_of_begins starts

theorem reports_many_none {item : Parser α} {stops : TokenKind → Bool}
    (ends : endsList stops a = true) : Reports (many stops item k) a a [] := by
  cases k with
  | zero => exact reports_pure []
  | succ k =>
      apply (reports_pure []).of_run
      rintro s rfl
      rw [many_succ, if_pos ends]

theorem reportedLists_body {close : Token} (h : ReportedLists lists .declarations b (close :: a))
    (isClose : close.kind = .rightBrace) (short : b.length ≤ bound) (shortK : b.length ≤ k) :
    ReportsLists (many (· == .rightBrace) (declaration bound) k) b (close :: a) lists := by
  apply h _ bound k short shortK
  · intro kind hkind
    rw [beq_iff_eq.mp hkind]
    rfl
  · rfl
  · simp [endsList, isClose]

theorem reportedLists_keyword {keyword : Token} {k : TokenKind} {closed : Bool}
    (kind : keyword.kind = k) (opens : opensStatement k = true)
    (h : ∀ bound, b.length ≤ bound → (closed = false → startsWith (· == .kwElse) a = false) →
      ReportsLists (keywordStatement keyword (bound + 1) (declaration bound) (statement bound)) b a
        lists) :
    ReportedLists lists (.statement closed) (keyword :: b) a := by
  intro bound short nearest
  simp only [List.length_cons] at short
  obtain ⟨bound, rfl⟩ := Nat.exists_eq_add_one.mpr (Nat.zero_lt_of_lt short)
  obtain ⟨faults, of, reports⟩ := h bound (Nat.le_of_succ_le_succ short) nearest
  exact ⟨faults, of.cons keyword, Reports.found reports (by rw [kind, opens])⟩

theorem reportedLists_declaration {keyword : Token}
    (wanted : (keyword.kind == .kwClass || keyword.kind == .kwFun || keyword.kind == .kwVar) = true)
    (h : ∀ bound, b.length ≤ bound → ReportsLists (match keyword.kind with
      | .kwClass => classDeclaration (bound + 1) (declaration bound)
      | .kwFun => .funDecl <$> callable .function (bound + 1) (declaration bound)
      | _ => varDeclaration (bound + 1)) b a lists) :
    ReportedLists lists .declaration (keyword :: b) a := by
  intro bound short _
  simp only [List.length_cons] at short
  obtain ⟨bound, rfl⟩ := Nat.exists_eq_add_one.mpr (Nat.zero_lt_of_lt short)
  obtain ⟨faults, of, reports⟩ := h bound (Nat.le_of_succ_le_succ short)
  exact ⟨faults, of.cons keyword, reports_recovering (Reports.found reports wanted)⟩

theorem superclass_suffix {superclass : Option Occurrence} (h : Superclass b a superclass) :
    a <:+ b := by
  cases h with
  | none => exact List.suffix_refl _
  | some => exact (List.suffix_cons _ _).trans (List.suffix_cons _ _)

theorem reported_of_derivesLists {X : StmtSymbol} (h : DerivesLists X b a lists) :
    ReportedLists lists X b a := by
  -- A part reports the lists in it, and what is put together from parts reports theirs in order,
  -- since the tokens of the parts come in order.
  induction h with
  | noDeclaration =>
      intro stops bound k _ _ _ _ ends
      exact ⟨[], faultsOf_nil (List.suffix_refl _), reports_many_none ends⟩
  | declarations first rest ihFirst ihRest =>
      intro stops bound k short shortK disjoint other ends
      have shorter := first.shorter
      simp only [StmtSymbol.least] at shorter
      obtain ⟨k, rfl⟩ := Nat.exists_eq_add_one.mpr
        (Nat.zero_lt_of_lt (Nat.lt_of_lt_of_le shorter shortK))
      obtain ⟨faults, of, reports⟩ := ihFirst bound short (noElse_of_derivesLists rest other ends)
      obtain ⟨faults', of', reports'⟩ :=
        ihRest stops bound k (by omega) (by omega) disjoint other ends
      exact ⟨faults ++ faults', of.append of',
        reports_many_more (goesOn_of_begins disjoint first.starts) reports reports'⟩
  | classDecl kind isName superclass isStart _ isClose ih =>
      apply reportedLists_declaration (by simp [kind])
      intro bound short
      have shorter := superclass.shorter
      simp only [List.length_cons] at short shorter
      simp only [kind]
      obtain ⟨faults, of, reports⟩ :=
        ih bound (bound + 1) (by omega) (by omega) (by simp [endsList, isClose])
      refine ⟨faults, ?_, reports_classDeclaration isName superclass isStart isClose reports⟩
      exact ((of.past (List.suffix_cons _ _)).cons _ |>.widen (superclass_suffix superclass)).cons _
  | funDecl kind _ ih =>
      apply reportedLists_declaration (by simp [kind])
      intro bound short
      simp only [kind]
      obtain ⟨faults, of, reports⟩ := ih .function bound short
      exact ⟨faults, of, reports.map⟩
  | varDecl h =>
      obtain ⟨keyword, rest, rfl, kind, reads⟩ := reportsLists_varDeclaration h
      apply reportedLists_declaration (by simp [kind])
      intro bound short
      simp only [kind]
      exact reads (bound + 1) (Nat.le_succ_of_le short)
  | statement h ih =>
      intro bound short nearest
      have shorter := h.shorter
      simp only [StmtSymbol.least] at shorter
      obtain ⟨bound, rfl⟩ := Nat.exists_eq_add_one.mpr
        (Nat.zero_lt_of_lt (Nat.lt_of_lt_of_le shorter short))
      obtain ⟨faults, of, reports⟩ := ih (bound + 1) short fun _ => nearest
      exact ⟨faults, of, reports_recovering (Reports.missed reports
        (startsWith_disjoint noKeyword_of_statement h.starts))⟩
  | noFunction =>
      intro bound k _ _ ends
      exact ⟨[], faultsOf_nil (List.suffix_refl _), reports_many_none ends⟩
  | functions first rest ihFirst ihRest =>
      intro bound k short shortK ends
      have shorter := first.shorter
      simp only [StmtSymbol.least] at shorter
      obtain ⟨k, rfl⟩ := Nat.exists_eq_add_one.mpr
        (Nat.zero_lt_of_lt (Nat.lt_of_lt_of_le shorter shortK))
      obtain ⟨faults, of, reports⟩ := ihFirst .method bound short
      obtain ⟨faults', of', reports'⟩ := ihRest bound k (by omega) (by omega) ends
      exact ⟨faults ++ faults', of.append of',
        reports_many_more (goesOn_of_begins brace_startsFunction first.starts) reports reports'⟩
  | @function _ _ _ _ _ b c a _ _ isName isParen params isClose isStart _ isStop ih =>
      intro kind bound short
      have shorter := params.shorter
      simp only [List.length_cons] at short shorter
      have enough : b.length ≤ bound + 1 := by omega
      have inner : c.length ≤ bound := by omega
      obtain ⟨faults, of, list⟩ := reportsLists_parameters params isClose enough
      obtain ⟨faults', of', body⟩ := reportedLists_body ih isStop inner (Nat.le_succ_of_le inner)
      refine ⟨faults ++ faults', ?_,
        reports_callable kind isName isParen list isClose isStart isStop body⟩
      exact ((of.between ((of'.past (List.suffix_cons _ _)).cons _)).cons _).cons _
  | exprStmt h =>
      intro bound short _
      obtain ⟨bound, rfl⟩ :=
        Nat.exists_eq_add_one.mpr (Nat.zero_lt_of_lt (Nat.lt_of_lt_of_le h.shorter short))
      obtain ⟨faults, of, reports⟩ := reportsLists_expressionStatement h short
      exact ⟨faults, of, Reports.missed reports
        (startsWith_disjoint noKeyword_of_expression h.starts)⟩
  | @forStmt _ _ _ _ _ b c d e a _ _ _ _ kind isParen first condition isSemicolon increment isClose
      _ ih =>
      apply reportedLists_keyword kind rfl
      intro bound short nearest
      have shorterFirst := first.shorter
      have shorterCondition := condition.shorter
      have shorterIncrement := increment.shorter
      simp only [List.length_cons] at short shorterCondition shorterIncrement
      simp only [keywordStatement, kind]
      have enough : b.length ≤ bound + 1 := by omega
      have enoughCondition : c.length ≤ bound + 1 := by omega
      have enoughIncrement : d.length ≤ bound + 1 := by omega
      obtain ⟨_, ofFirst, first⟩ := reportsLists_forInitializer first enough
      obtain ⟨_, ofCondition, condition⟩ :=
        reportsLists_optionalExpression condition isSemicolon rfl rfl enoughCondition
      obtain ⟨_, ofIncrement, increment⟩ :=
        reportsLists_optionalExpression increment isClose rfl rfl enoughIncrement
      obtain ⟨_, of, body⟩ := ih bound (by omega) nearest
      refine ⟨_, ?_,
        reports_forStatement isParen first condition isSemicolon increment isClose body⟩
      exact (ofFirst.append (ofCondition.between (ofIncrement.between of))).cons _
  | @ifStmt _ _ _ b _ _ _ _ kind isParen condition isClose _ ih =>
      apply reportedLists_keyword kind rfl
      intro bound short nearest
      have shorter := condition.shorter
      simp only [List.length_cons] at short shorter
      simp only [keywordStatement, kind]
      have enough : b.length ≤ bound + 1 := by omega
      obtain ⟨_, ofCondition, condition⟩ :=
        reportsLists_expression condition enough (ends_of_kind isClose rfl)
      obtain ⟨faults, of, reports⟩ := ih bound (by omega) nearest
      refine ⟨_, ?_, reports_ifStatement isParen condition isClose reports (nearest rfl)⟩
      exact (ofCondition.between of).cons _
  | @ifElse _ _ _ _ _ b _ _ _ _ _ _ kind isParen condition isClose thenBranch isElse _ ihThen
      ihElse =>
      apply reportedLists_keyword kind rfl
      intro bound short nearest
      have shorter := condition.shorter
      have shorterThen := thenBranch.shorter
      simp only [StmtSymbol.least, List.length_cons] at short shorter shorterThen
      simp only [keywordStatement, kind]
      have enough : b.length ≤ bound + 1 := by omega
      obtain ⟨_, ofCondition, condition⟩ :=
        reportsLists_expression condition enough (ends_of_kind isClose rfl)
      obtain ⟨faults, of, reports⟩ := ihThen bound (by omega) (by simp)
      obtain ⟨faults', of', reports'⟩ := ihElse bound (by omega) nearest
      refine ⟨_, ?_, reports_ifElse isParen condition isClose isElse reports reports'⟩
      exact (ofCondition.between (of.between of')).cons _
  | printStmt kind value isSemicolon =>
      apply reportedLists_keyword kind rfl
      intro bound short _
      simp only [keywordStatement, kind]
      obtain ⟨faults, of, reports⟩ :=
        reportsLists_expression value (Nat.le_succ_of_le short) (ends_of_kind isSemicolon rfl)
      refine ⟨faults, of.past (List.suffix_cons _ _), ?_⟩
      exact reports.last fun _ => (reports_skip isSemicolon).next fun _ => reports_pure _
  | returnStmt kind value isSemicolon =>
      apply reportedLists_keyword kind rfl
      intro bound short _
      simp only [keywordStatement, kind]
      obtain ⟨faults, of, reports⟩ :=
        reportsLists_optionalExpression value isSemicolon rfl rfl (Nat.le_succ_of_le short)
      refine ⟨faults, of.past (List.suffix_cons _ _), ?_⟩
      exact reports.last fun _ => (reports_skip isSemicolon).next fun _ => reports_pure _
  | @whileStmt _ _ _ _ b _ _ _ _ kind isParen condition isClose _ ih =>
      apply reportedLists_keyword kind rfl
      intro bound short nearest
      have shorter := condition.shorter
      simp only [List.length_cons] at short shorter
      simp only [keywordStatement, kind]
      have enough : b.length ≤ bound + 1 := by omega
      obtain ⟨_, ofCondition, condition⟩ :=
        reportsLists_expression condition enough (ends_of_kind isClose rfl)
      obtain ⟨faults, of, reports⟩ := ih bound (by omega) nearest
      refine ⟨_, ?_, reports_whileStatement isParen condition isClose reports⟩
      exact (ofCondition.between of).cons _
  | breakStmt kind isSemicolon | continueStmt kind isSemicolon =>
      apply reportedLists_keyword kind rfl
      intro bound short _
      simp only [keywordStatement, kind]
      refine ⟨[], faultsOf_nil (List.suffix_cons _ _), ?_⟩
      exact (reports_skip isSemicolon).next fun _ => reports_pure _
  | block kind _ isClose ih =>
      apply reportedLists_keyword kind rfl
      intro bound short _
      simp only [keywordStatement, kind]
      obtain ⟨faults, of, reports⟩ :=
        reportedLists_body ih isClose short (Nat.le_succ_of_le short)
      refine ⟨faults, of.past (List.suffix_cons _ _), ?_⟩
      exact (reports_block isClose reports).last fun _ => reports_pure _

end Parser

/-! ## Programs -/

open ClassScript.Parser ClassScript.Grammar

theorem reports_program {tokens : List Token} {lists : List EntryList}
    (h : DerivesLists .declarations (written tokens) [] lists) (firstId : Nat) :
    ∃ faults p, FaultsOf lists (written tokens) [] faults ∧
      (parseProgram firstId tokens).result = if faults.isEmpty then .ok p else .error faults := by
  have noStop : ∀ kind, (fun _ : TokenKind => false) kind = true → startsDeclaration kind = false :=
    nofun
  have length := Nat.le_refl (written tokens).length
  obtain ⟨faults, of, reports⟩ :=
    reported_of_derivesLists h (fun _ => false) _ _ length length noStop rfl rfl
  have run := reports (State.start firstId tokens) rfl (start_stop firstId tokens)
  unfold Ends at run
  split at run
  · rename_i found t ended
    obtain ⟨-, -, recorded⟩ := run
    have recorded : t.recorded = faults := recorded
    refine ⟨faults, found.filterMap id, of, ?_⟩
    rw [parseProgram_of_many ended, recorded]
  · exact run.elim

theorem nil_iff_short {lists : List EntryList} {b a : List Token} {faults : List ParseError}
    (h : FaultsOf lists b a faults) : faults = [] ↔ ∀ l ∈ lists, l.entries.length ≤ 255 := by
  obtain ⟨order, perm, -, -, rfl⟩ := h.ordered
  have filter : lists.filter EntryList.isLong = [] ↔ ∀ l ∈ lists, l.entries.length ≤ 255 := by
    simp only [List.filter_eq_nil_iff, EntryList.isLong, decide_eq_true_eq, Nat.not_lt]
    exact Iff.rfl
  rw [← filter, List.map_eq_nil_iff]
  constructor
  · rintro rfl
    exact perm.symm.eq_nil
  · intro none
    rw [none] at perm
    exact perm.eq_nil

theorem parses_iff_short {tokens : List Token} {lists : List EntryList}
    (h : DerivesLists .declarations (written tokens) [] lists) (firstId : Nat) :
    (∃ p, (parseProgram firstId tokens).result = .ok p) ↔
      ∀ l ∈ lists, l.entries.length ≤ 255 := by
  obtain ⟨faults, p, of, result⟩ := reports_program h firstId
  rw [← nil_iff_short of, result, ← List.isEmpty_iff]
  split
  · rename_i clean
    exact ⟨fun _ => clean, fun _ => ⟨p, rfl⟩⟩
  · rename_i faulty
    exact ⟨nofun, fun clean => absurd clean faulty⟩

theorem derives_iff_short (tokens : List Token) :
    (∃ tree, DerivesStmt .declarations (written tokens) [] tree) ↔
      ∃ lists, DerivesLists .declarations (written tokens) [] lists ∧
        ∀ l ∈ lists, l.entries.length ≤ 255 := by
  constructor
  · rintro ⟨tree, h⟩
    obtain ⟨lists, h'⟩ := derivesLists_of_derives h
    obtain ⟨p, parsed, -⟩ := parseProgram_of_derives h 0
    exact ⟨lists, h', (parses_iff_short h' 0).mp ⟨p, parsed⟩⟩
  · rintro ⟨lists, h, short⟩
    obtain ⟨p, parsed⟩ := (parses_iff_short h 0).mpr short
    exact ⟨_, derives_of_parseProgram parsed⟩

/-! ## The statement -/

/-- Lists of any length are read. Each long one is reported once, where the first entry starts that
is one too many, and the reports come in the order of these places; nothing else is reported. An
expression has its tree whatever lists are in it. -/
theorem longLists_reported (firstId : Nat) (tokens : List Token) :
    (∀ lists, DerivesLists .declarations (written tokens) [] lists →
      ((∃ p, (parseProgram firstId tokens).result = .ok p) ↔
        ∀ l ∈ lists, l.entries.length ≤ 255) ∧
      ∀ faults, (parseProgram firstId tokens).result = .error faults →
        ∃ order : List EntryList, order.Perm (lists.filter EntryList.isLong) ∧
          order.Pairwise (fun l l' => l'.excess.length < l.excess.length) ∧
          (∀ l ∈ order, l.excess ≠ [] ∧ l.excess <:+ written tokens ∧
            l.report.fault.message = l.kind.complaint) ∧
          faults = order.map EntryList.report) ∧
    ∀ tree, Derives false .expression (written tokens) [] tree →
      ∃ e, (parseExpression firstId tokens).result = .ok e ∧ e.unnumbered = tree := by
  refine ⟨fun lists h => ⟨parses_iff_short h firstId, fun faults failed => ?_⟩,
    fun tree h => parseExpression_of_derives h firstId⟩
  obtain ⟨faults', p, of, result⟩ := reports_program h firstId
  rw [result] at failed
  split at failed
  · cases failed
  · cases failed
    obtain ⟨order, perm, sorted, places, eq⟩ := of.ordered
    refine ⟨order, perm, sorted, fun l mem => ⟨?_, (places l mem).1, l.report_message⟩, eq⟩
    exact List.ne_nil_of_length_pos (places l mem).2

/-! A function with 256 parameters and a call with 256 arguments, each on a line of its own. -/

def commaSeparated : List Token → List Token
  | [] => []
  | [name] => [name]
  | name :: names => name :: ⟨.comma, ",", none, name.line⟩ :: commaSeparated names

theorem parameters_commaSeparated (names : List Token) (a : List Token) (some : names ≠ [])
    (isName : ∀ name ∈ names, name.kind = .identifier) :
    Parameters (commaSeparated names ++ a) a names := by
  induction names with
  | nil => exact absurd rfl some
  | cons name names ih =>
      have first := isName name List.mem_cons_self
      cases names with
      | nil => exact .last first
      | cons next names =>
          have rest := ih (List.cons_ne_nil _ _) fun x mem => isName x (List.mem_cons_of_mem _ mem)
          exact .more first rfl rest

theorem derives_commaSeparated (names : List Token) (a : List Token) (some : names ≠ [])
    (isName : ∀ name ∈ names, name.kind = .identifier) :
    Derives false .arguments (commaSeparated names ++ a) a
      (names.map fun name => .var ⟨0, name⟩) := by
  induction names with
  | nil => exact absurd rfl some
  | cons name names ih =>
      have first := isName name List.mem_cons_self
      cases names with
      | nil => exact .argument (derives_primary (.identifier first))
      | cons next names =>
          have rest := ih (List.cons_ne_nil _ _) fun x mem => isName x (List.mem_cons_of_mem _ mem)
          exact .arguments (derives_primary (.identifier first)) rfl rest

theorem heads_commaSeparated (names a : List Token) :
    (entriesFrom (names.map fun _ => 1) (commaSeparated names ++ a)).map List.head? =
      names.map some := by
  induction names with
  | nil => rfl
  | cons name names ih =>
      cases names with
      | nil => rfl
      | cons next names => exact congrArg (some name :: ·) ih

def lineNames : List Token := (List.range 256).map fun i => ⟨.identifier, "p", none, i + 1⟩

def emptyBody : List Token :=
  [⟨.rightParen, ")", none, 256⟩, ⟨.leftBrace, "\x7b", none, 257⟩, ⟨.rightBrace, "\x7d", none, 257⟩]

def manyParameters : List Token :=
  ⟨.kwFun, "fun", none, 1⟩ :: ⟨.identifier, "f", none, 1⟩ :: ⟨.leftParen, "(", none, 1⟩ ::
    (commaSeparated lineNames ++ emptyBody)

def lineNamesList : EntryList :=
  ⟨.parameters, entriesFrom (lineNames.map fun _ => 1) (commaSeparated lineNames ++ emptyBody)⟩

def argumentsEnd : Token := ⟨.rightParen, ")", none, 257⟩

def manyArguments : List Token :=
  ⟨.identifier, "f", none, 1⟩ :: ⟨.leftParen, "(", none, 1⟩ ::
    (commaSeparated lineNames ++ [argumentsEnd])

def manyArgumentsTree : Expr :=
  .call (.var ⟨0, ⟨.identifier, "f", none, 1⟩⟩) argumentsEnd (lineNames.map fun t => .var ⟨0, t⟩)

theorem lineNames_kind : ∀ name ∈ lineNames, name.kind = .identifier := by
  intro name mem
  obtain ⟨i, -, rfl⟩ := List.mem_map.mp mem
  rfl

theorem derives_manyParameters :
    DerivesLists .declarations manyParameters [] [lineNamesList] := by
  have names := parameters_commaSeparated lineNames emptyBody (List.cons_ne_nil _ _) lineNames_kind
  exact .declarations
    (.funDecl rfl (.function rfl rfl (.some names) rfl rfl .noDeclaration rfl)) .noDeclaration

theorem derives_manyArguments : Derives false .expression manyArguments [] manyArgumentsTree := by
  have names := derives_commaSeparated lineNames [argumentsEnd] (List.cons_ne_nil _ _)
    lineNames_kind
  exact derives_unary (.noOperator (.call (.identifier rfl)
    (.callArguments rfl rfl names nofun .callEnd)))

theorem length_lineNamesList : lineNamesList.entries.length = 256 := by
  simp only [lineNamesList, length_entriesFrom, List.length_map, lineNames, List.length_range]

theorem report_lineNamesList : lineNamesList.report = ⟨.tooManyParameters, 256⟩ := by
  have last : lineNames[255]? = some ⟨.identifier, "p", none, 256⟩ := by simp [lineNames]
  have heads := congrArg (·[255]?) (heads_commaSeparated lineNames emptyBody)
  simp only [List.getElem?_map, last, Option.map_some, Option.map_eq_some_iff] at heads
  obtain ⟨entry, found, head⟩ := heads
  have excess : lineNamesList.excess = entry := by
    rw [EntryList.excess, List.getD_eq_getElem?_getD, lineNamesList, maxListLength, found,
      Option.getD_some]
  rw [EntryList.report, excess, head]
  rfl

theorem longLists_reported_tooLong :
    (parseProgram 0 manyParameters).result = .error [⟨.tooManyParameters, 256⟩] ∧
      ∃ e, (parseExpression 0 manyArguments).result = .ok e ∧ e.unnumbered = manyArgumentsTree := by
  have noEnd : ∀ t ∈ manyParameters, t.kind ≠ .eof := by decide +kernel
  have noEnd' : ∀ t ∈ manyArguments, t.kind ≠ .eof := by decide +kernel
  have derives := derives_manyParameters
  rw [← written_of_noEnd noEnd] at derives
  have derives' := derives_manyArguments
  rw [← written_of_noEnd noEnd'] at derives'
  refine ⟨?_, (longLists_reported 0 manyArguments).2 _ derives'⟩
  obtain ⟨ok, failed⟩ := (longLists_reported 0 manyParameters).1 _ derives
  cases result : (parseProgram 0 manyParameters).result with
  | ok p =>
      have short := ok.mp ⟨p, result⟩ lineNamesList (List.mem_singleton_self _)
      rw [length_lineNamesList] at short
      omega
  | error faults =>
      obtain ⟨order, perm, -, -, rfl⟩ := failed faults result
      have long : lineNamesList.isLong = true := by
        rw [EntryList.isLong, length_lineNamesList]
        rfl
      rw [List.filter_cons_of_pos long, List.filter_nil] at perm
      rw [List.perm_singleton.mp perm, List.map_singleton, report_lineNamesList]

end ClassScript
