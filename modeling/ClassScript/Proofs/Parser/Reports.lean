import ClassScript.Proofs.Grammar.CompleteStatements
import ClassScript.Proofs.Grammar.Damaged
import ClassScript.Proofs.Parser.CarriedStatements

namespace ClassScript.Parser

open Grammar

variable {α β : Type} {p : Parser α} {q : α → Parser β} {b c a rest : List Token}
  {faults faults' partFaults : List ParseError} {t : Token} {wanted : TokenKind → Bool}

/-- The parser succeeds in front of the tokens `b`, leaves `a`, and adds these faults to the recorded
ones. -/
def Reports (p : Parser α) (b a : List Token) (faults : List ParseError) : Prop :=
  ∀ s : State, s.tokens = b → s.stop.kind = .eof →
    Ends p s (fun _ t => t.tokens = a ∧ t.stop = s.stop ∧ t.recorded = s.recorded ++ faults)
      fun _ _ => False

theorem Reports.then (h : Reports p b c faults) (next : ∀ x, Reports (q x) c a faults') :
    Reports (p >>= q) b a (faults ++ faults') := by
  intro s tokens stop
  apply ends_bind.mpr
  apply Ends.imp (h s tokens stop)
  · rintro x t ⟨tokens, same, recorded⟩
    apply Ends.imp (next x t tokens (same ▸ stop))
    · rintro y u ⟨tokens, same', recorded'⟩
      refine ⟨tokens, same'.trans same, ?_⟩
      rw [recorded', recorded, List.append_assoc]
    · exact fun _ _ fails => fails
  · exact fun _ _ fails => fails

theorem Reports.next (h : Reports p b c []) (next : ∀ x, Reports (q x) c a faults) :
    Reports (p >>= q) b a faults := h.then next

theorem Reports.last (h : Reports p b c faults) (next : ∀ x, Reports (q x) c a []) :
    Reports (p >>= q) b a faults := by
  have both := h.then next
  rwa [List.append_nil] at both

theorem reports_pure (x : α) : Reports (pure x) a a [] :=
  fun _ tokens _ => ⟨tokens, rfl, (List.append_nil _).symm⟩

theorem Reports.map {f : α → β} (h : Reports p b a faults) : Reports (f <$> p) b a faults :=
  fun s tokens stop => ends_map.mpr (h s tokens stop)

theorem Reports.of_run {p' : Parser α} (h : Reports p b a faults)
    (same : ∀ s : State, s.tokens = b → p' s = p s) : Reports p' b a faults := by
  intro s tokens stop
  unfold Ends
  rw [same s tokens]
  exact h s tokens stop

theorem reports_of_accepts {P : α → Prop} {only : TokenKind → Bool} {m : Mode}
    {f : Surroundings → α → α} (accepted : Accepts true p b a P)
    (carries : ∀ (w : Surroundings) (s : State), s.tokens = b → s.stop.kind = .eof →
      w.behind = [] → Carries w only m (f w) p p s) : Reports p b a [] := by
  intro s tokens stop
  let w : Surroundings := ⟨0, s.recorded, [], s.stop, stop⟩
  let clean : State := { s with recorded := [] }
  have placed : w.place clean = s := by
    simp only [Surroundings.place, w, clean, List.append_nil, Nat.add_zero]
  have run := (accepted clean tokens).and (carries w clean tokens stop rfl)
  unfold Ends at run ⊢
  cases ended : p clean with
  | error e t =>
      rw [ended] at run
      exact run.1.elim
  | ok x t =>
      rw [ended] at run
      obtain ⟨⟨left, -, faultless⟩, takes, -, carried⟩ := run
      have carried := carried (.inr (.inr ⟨rfl, takes.stop.symm⟩))
      rw [placed] at carried
      rw [carried]
      refine ⟨?_, rfl, ?_⟩
      · simp only [Surroundings.place, w, List.append_nil, left]
      · simp only [Surroundings.place, w, faultless (fun _ => rfl) rfl]

/-! ## Single steps -/

theorem Reports.found {q : Option Token → Parser α} (h : Reports (q (some t)) rest a faults)
    (fits : wanted t.kind = true) : Reports (accept? wanted >>= q) (t :: rest) a faults := by
  intro s tokens stop
  apply ends_bind.mpr
  exact (ends_ok_iff (accept?_found tokens fits)).mpr (h _ rfl stop)

theorem Reports.missed {q : Option Token → Parser α} (h : Reports (q none) b a faults)
    (other : startsWith wanted b = false) : Reports (accept? wanted >>= q) b a faults := by
  intro s tokens stop
  apply ends_bind.mpr
  exact (ends_ok_iff (accept?_missed (tokens ▸ other))).mpr (h s tokens stop)

theorem Reports.seen {q : Bool → Parser α} {kind : TokenKind}
    (h : Reports (q (startsWith (· == kind) b)) b a faults) :
    Reports (sees kind >>= q) b a faults := by
  intro s tokens stop
  apply ends_bind.mpr
  exact (ends_ok_iff (sees_eq kind s)).mpr (tokens ▸ h s tokens stop)

theorem reports_expect {what : Expectation} (kind : t.kind = what.kind) :
    Reports (expect what) (t :: a) a [] :=
  Reports.found (reports_pure t) (by simp [kind])

theorem reports_skip {what : Expectation} (kind : t.kind = what.kind) :
    Reports (discard (expect what)) (t :: a) a [] := (reports_expect kind).map

/-! ## Parts without faults -/

section

variable {bound : Nat}

theorem fits_of_nothing {w : Surroundings} {s : State} (tokens : s.tokens = b)
    (nothing : w.behind = []) (short : b.length ≤ bound) : w.Fits bound bound s := by
  constructor
  · rwa [tokens]
  · rwa [nothing, tokens]

theorem noElse_of_nothing {w : Surroundings} (nothing : w.behind = []) :
    startsWith (· == .kwElse) w.behind = false := by
  rw [nothing]
  rfl

theorem reports_expression {e : Expr} (h : Derives true .expression b a e) (short : b.length ≤ bound)
    (ends : startsWith continuesExpression a = false) : Reports (expression bound) b a [] :=
  reports_of_accepts (accepts_expression h short ends) fun _ _ tokens stop nothing =>
    carries_expression bound bound stop (fits_of_nothing tokens nothing short)

theorem reports_optionalExpression {e : Option Expr} {without : TokenKind}
    (h : Optionally b (t :: a) e) (kind : t.kind = without)
    (starts : startsExpression without = false) (ends : continuesExpression without = false)
    (short : b.length ≤ bound) : Reports (optionalExpression bound without) b (t :: a) [] :=
  reports_of_accepts (accepts_optionalExpression h kind starts ends short)
    fun _ _ tokens stop nothing =>
      carries_optionalExpression without stop (fits_of_nothing tokens nothing short)

theorem reports_forInitializer {first : Option Stmt} (h : ForFirst b a first)
    (short : b.length ≤ bound) : Reports (forInitializer bound) b a [] :=
  reports_of_accepts (accepts_forInitializer h short) fun _ _ tokens stop nothing =>
    carries_forInitializer stop (fits_of_nothing tokens nothing short)

theorem reports_superclass? {superclass : Option Occurrence} (h : Superclass b (t :: a) superclass)
    (isStart : t.kind = .leftBrace) : Reports superclass? b (t :: a) [] :=
  reports_of_accepts (accepts_superclass? h isStart) fun _ _ _ _ _ => carries_superclass?

def ReportsParameters (bound : Nat) (b a : List Token) (faults : List ParseError) : Prop :=
  b = a ∧ faults = [] ∨ startsWith (· == .rightParen) b = false ∧
    Reports (commaList .tooManyParameters (expect .parameterName) bound 0) b a faults

theorem notParen_of_parameters {names : List Token} (h : Parameters b a names) :
    startsWith (· == .rightParen) b = false := by
  apply startsWith_disjoint _ h.starts
  intro k hk
  rw [beq_iff_eq.mp hk]
  rfl

theorem reports_parameters {names : List Token} (h : ParameterList b (t :: a) names)
    (isClose : t.kind = .rightParen) (short : b.length ≤ bound) :
    ReportsParameters bound b (t :: a) [] := by
  cases h with
  | none => exact .inl ⟨rfl, rfl⟩
  | some list limit =>
      refine .inr ⟨notParen_of_parameters list, ?_⟩
      exact reports_of_accepts (f := fun _ => List.map id)
        (accepts_parameters 0 bound list isClose (fun _ => by rw [Nat.zero_add]; exact limit) short)
        fun _ _ tokens stop nothing =>
          carries_parameters 0 stop (fits_of_nothing tokens nothing short)

end

/-! ## Damaged parts -/

section

variable {declaration : Parser (Option Stmt)} {statement : Parser Stmt} {bound : Nat}

theorem reports_block {stop : Token} (isStop : stop.kind = .rightBrace)
    (h : Reports (many (· == .rightBrace) declaration bound) b (stop :: a) faults) :
    Reports (block bound declaration) b a faults :=
  h.last fun _ => (reports_skip isStop).next fun _ => reports_pure _

theorem reports_callable {name paren close start stop : Token} (kind : CallableKind)
    (isName : name.kind = .identifier) (isParen : paren.kind = .leftParen)
    (list : ReportsParameters bound b (close :: start :: c) partFaults)
    (isClose : close.kind = .rightParen) (isStart : start.kind = .leftBrace)
    (isStop : stop.kind = .rightBrace)
    (h : Reports (many (· == .rightBrace) declaration bound) c (stop :: a) faults) :
    Reports (callable kind bound declaration) (name :: paren :: b) a (partFaults ++ faults) := by
  apply (reports_expect isName).next
  intro name
  apply (reports_skip isParen).next
  intro _
  have body (params : List Token) : Reports (do
      discard <| expect .paramsEnd
      discard <| expect (.callableBodyStart kind)
      return FunctionDecl.mk name params (← block bound declaration))
      (close :: start :: c) a faults := by
    apply (reports_skip isClose).next
    intro _
    apply (reports_skip isStart).next
    intro _
    exact (reports_block isStop h).last fun _ => reports_pure _
  apply Reports.seen
  rcases list with ⟨rfl, rfl⟩ | ⟨isOpen, list⟩
  · rw [startsWith_cons, isClose]
    exact body []
  · rw [isOpen]
    exact list.then body

theorem reports_classDeclaration {superclass : Option Occurrence} {name start close : Token}
    (isName : name.kind = .identifier) (hsuperclass : Superclass b (start :: c) superclass)
    (isStart : start.kind = .leftBrace) (isClose : close.kind = .rightBrace)
    (h : Reports (many (· == .rightBrace) (callable .method bound declaration) bound) c
      (close :: a) faults) :
    Reports (classDeclaration bound declaration) (name :: b) a faults := by
  apply (reports_expect isName).next
  intro _
  apply (reports_superclass? hsuperclass isStart).next
  intro _
  apply (reports_skip isStart).next
  intro _
  exact h.last fun _ => (reports_skip isClose).next fun _ => reports_pure _

theorem reports_forStatement {keyword paren semicolon close : Token} {d e : List Token}
    {condition increment : List ParseError} (isParen : paren.kind = .leftParen)
    (hfirst : Reports (forInitializer bound) b c partFaults)
    (hcondition : Reports (optionalExpression bound .semicolon) c (semicolon :: d) condition)
    (isSemicolon : semicolon.kind = .semicolon)
    (hincrement : Reports (optionalExpression bound .rightParen) d (close :: e) increment)
    (isClose : close.kind = .rightParen) (h : Reports statement e a faults) :
    Reports (forStatement keyword bound statement) (paren :: b) a
      (partFaults ++ (condition ++ (increment ++ faults))) := by
  apply (reports_skip isParen).next
  intro _
  apply hfirst.then
  intro first'
  apply hcondition.then
  intro _
  apply (reports_skip isSemicolon).next
  intro _
  apply hincrement.then
  intro _
  apply (reports_skip isClose).next
  intro _
  apply h.last
  intro _
  cases first' <;> exact reports_pure _

section

variable {paren close : Token} (isParen : paren.kind = .leftParen)
  (hcondition : Reports (expression bound) b (close :: c) partFaults)
  (isClose : close.kind = .rightParen)

include isParen hcondition isClose

theorem reports_ifStatement (h : Reports statement c a faults)
    (nearest : startsWith (· == .kwElse) a = false) :
    Reports (ifStatement bound statement) (paren :: b) a (partFaults ++ faults) := by
  apply (reports_skip isParen).next
  intro _
  apply hcondition.then
  intro _
  apply (reports_skip isClose).next
  intro _
  apply h.last
  intro _
  exact Reports.missed (reports_pure _) nearest

theorem reports_ifElse {other : Token} {d : List Token} (isElse : other.kind = .kwElse)
    (hthen : Reports statement c (other :: d) faults) (helse : Reports statement d a faults') :
    Reports (ifStatement bound statement) (paren :: b) a (partFaults ++ (faults ++ faults')) := by
  apply (reports_skip isParen).next
  intro _
  apply hcondition.then
  intro _
  apply (reports_skip isClose).next
  intro _
  apply hthen.then
  intro _
  exact Reports.found (helse.last fun _ => reports_pure _) (by simp [isElse])

theorem reports_whileStatement (h : Reports statement c a faults) :
    Reports (whileStatement bound statement) (paren :: b) a (partFaults ++ faults) := by
  apply (reports_skip isParen).next
  intro _
  apply hcondition.then
  intro _
  apply (reports_skip isClose).next
  intro _
  exact h.last fun _ => reports_pure _

end

theorem reports_recovering {p : Parser Stmt} (h : Reports p b a faults) :
    Reports (recovering p) b a faults := by
  intro s tokens stop
  have run := h s tokens stop
  unfold Ends recovering at *
  generalize p s = result at *
  cases result with
  | ok x t => exact run
  | error e t => exact run.elim

end

/-! ## Lists of declarations -/

theorem reports_many_more {item : Parser α} {stops : TokenKind → Bool} {bound : Nat}
    (goesOn : endsList stops b = false) (h : Reports item b c faults)
    (rest : Reports (many stops item bound) c a faults') :
    Reports (many stops item (bound + 1)) b a (faults ++ faults') := by
  apply Reports.of_run (p := do return (← item) :: (← many stops item bound))
  · exact h.then fun x => rest.last fun xs => reports_pure (x :: xs)
  · rintro s rfl
    rw [many_succ, goesOn]
    rfl

/-! ## Damaged programs -/

def ReportedStmt (faults : List ParseError) (b : List Token) : StmtSymbol → Prop
  | .declarations => ∀ stops bound k a, (b ++ a).length ≤ bound → (b ++ a).length ≤ k →
    (∀ kind, stops kind = true → kind = .rightBrace) → endsList stops a = true →
      Reports (many stops (declaration bound) k) (b ++ a) a faults
  | .declaration => ∀ bound a, (b ++ a).length ≤ bound → startsWith (· == .kwElse) a = false →
    Reports (declaration bound) (b ++ a) a faults
  | .functions => ∀ bound k a, (b ++ a).length ≤ bound → (b ++ a).length ≤ k →
    endsList (· == .rightBrace) a = true →
      Reports (many (· == .rightBrace) (callable .method (bound + 1) (declaration bound)) k)
        (b ++ a) a faults
  | .function => ∀ kind bound a, (b ++ a).length ≤ bound →
    Reports (callable kind (bound + 1) (declaration bound)) (b ++ a) a faults
  | .statement closed => ∀ bound a, (b ++ a).length ≤ bound →
    (closed = false → startsWith (· == .kwElse) a = false) →
      Reports (statement bound) (b ++ a) a faults

theorem reported_of_derives {X : StmtSymbol} {tree : X.Tree} (h : DerivesStmt X b [] tree) :
    ReportedStmt [] b X := by
  have accepted (a : List Token) := (h.word.anywhere a).accepted
  cases X with
  | declarations =>
      intro stops bound k a short shortK brace ends
      have disjoint (kind : TokenKind) (stop : stops kind = true) :
          startsDeclaration kind = false := by
        rw [brace kind stop]
        rfl
      have other : stops .kwElse = false := by
        by_contra stop
        cases brace _ (Bool.not_eq_false _ |>.mp stop)
      exact reports_of_accepts (accepted a stops bound k short shortK disjoint other ends)
        fun w s tokens stop nothing => carries_declarations (noElse_of_nothing nothing) stop
          (fits_of_nothing tokens nothing short) stops (fits_of_nothing tokens nothing shortK)
  | declaration =>
      intro bound a short nearest
      refine reports_of_accepts (accepted a bound short nearest) fun w s tokens stop nothing =>
        (carries_nested (noElse_of_nothing nothing) bound bound stop
          (fits_of_nothing tokens nothing short)).2 ?_
      have longer := h.shorter
      simp only [StmtSymbol.least, List.length_nil] at longer
      rw [tokens]
      exact List.append_ne_nil_of_left_ne_nil (List.ne_nil_of_length_pos (by omega)) a
  | functions =>
      intro bound k a short shortK ends
      exact reports_of_accepts (accepted a bound k short shortK ends)
        fun w s tokens stop nothing => carries_methods (noElse_of_nothing nothing) stop
          (fits_of_nothing tokens nothing short) _ (fits_of_nothing tokens nothing shortK)
  | function =>
      intro kind bound a short
      exact reports_of_accepts (accepted a kind bound short)
        fun w s tokens stop nothing => carries_method (noElse_of_nothing nothing) stop
          (fits_of_nothing tokens nothing short) kind
  | statement closed =>
      intro bound a short nearest
      exact reports_of_accepts (accepted a bound short nearest) fun w s tokens stop nothing =>
        (carries_nested (noElse_of_nothing nothing) bound bound stop
          (fits_of_nothing tokens nothing short)).1

theorem reported_body {close : Token} {bound k : Nat} (h : ReportedStmt faults b .declarations)
    (isClose : close.kind = .rightBrace) (short : (b ++ close :: a).length ≤ bound)
    (shortK : (b ++ close :: a).length ≤ k) :
    Reports (many (· == .rightBrace) (declaration bound) k) (b ++ close :: a) (close :: a) faults := by
  apply h _ bound k _ short shortK
  · exact fun kind hkind => beq_iff_eq.mp hkind
  · simp [endsList, isClose]

theorem reported_keyword {keyword : Token} {k : TokenKind} {closed : Bool}
    (kind : keyword.kind = k) (opens : opensStatement k = true)
    (h : ∀ bound a, (b ++ a).length ≤ bound →
      (closed = false → startsWith (· == .kwElse) a = false) →
        Reports (keywordStatement keyword (bound + 1) (declaration bound) (statement bound)) (b ++ a) a
          faults) :
    ReportedStmt faults (keyword :: b) (.statement closed) := by
  intro bound a short nearest
  simp only [List.cons_append, List.length_cons] at short
  obtain ⟨bound, rfl⟩ := Nat.exists_eq_add_one.mpr (Nat.zero_lt_of_lt short)
  exact Reports.found (h bound a (Nat.le_of_succ_le_succ short) nearest) (by rw [kind, opens])

theorem reported_declaration {keyword : Token}
    (wanted : (keyword.kind == .kwClass || keyword.kind == .kwFun || keyword.kind == .kwVar) = true)
    (h : ∀ bound a, (b ++ a).length ≤ bound → Reports (match keyword.kind with
      | .kwClass => classDeclaration (bound + 1) (declaration bound)
      | .kwFun => .funDecl <$> callable .function (bound + 1) (declaration bound)
      | _ => varDeclaration (bound + 1)) (b ++ a) a faults) :
    ReportedStmt faults (keyword :: b) .declaration := by
  intro bound a short _
  simp only [List.cons_append, List.length_cons] at short
  obtain ⟨bound, rfl⟩ := Nat.exists_eq_add_one.mpr (Nat.zero_lt_of_lt short)
  exact reports_recovering (Reports.found (h bound a (Nat.le_of_succ_le_succ short)) wanted)

theorem goesOn_of_opens {stops : TokenKind → Bool}
    (brace : ∀ kind, stops kind = true → kind = .rightBrace)
    (h : startsWith opensDamaged b = true) (a : List Token) : endsList stops (b ++ a) = false := by
  refine goesOn_of_begins (fun kind stop => ?_) (startsWith_append a h)
  rw [brace kind stop]
  rfl

theorem noElse_of_opens (h : b = [] ∨ startsWith opensDamaged b = true)
    (nearest : startsWith (· == .kwElse) a = false) : startsWith (· == .kwElse) (b ++ a) = false := by
  rcases h with rfl | opens
  · exact nearest
  · apply startsWith_disjoint _ (startsWith_append a opens)
    intro k hk
    cases k <;> first | rfl | cases hk

theorem length_pos_of_opens (h : startsWith opensDamaged b = true) : 0 < b.length := by
  cases b with
  | nil => cases h
  | cons t rest => exact Nat.succ_pos _

theorem reported_declarations (first : ReportedStmt faults b .declaration)
    (opens : startsWith opensDamaged b = true) (rest : ReportedStmt faults' c .declarations)
    (opens' : c = [] ∨ startsWith opensDamaged c = true) :
    ReportedStmt (faults ++ faults') (b ++ c) .declarations := by
  intro stops bound k a short shortK brace ends
  rw [List.append_assoc] at short shortK ⊢
  have positive := length_pos_of_opens opens
  have other : stops .kwElse = false := by
    by_contra stop
    cases brace _ (Bool.not_eq_false _ |>.mp stop)
  have nearest := noElse_of_opens opens' (else_of_ends other ends)
  have shorter := short
  rw [List.length_append] at shortK shorter
  obtain ⟨k, rfl⟩ := Nat.exists_eq_add_one.mpr (show 0 < k by omega)
  exact reports_many_more (goesOn_of_opens brace opens _) (first bound _ short nearest)
    (rest stops bound k a (by omega) (by omega) brace ends)

theorem reported_of_damaged {X : StmtSymbol} {b b' : List Token} {chunks : List (List Token)}
    (faultsOf : List Token → List ParseError)
    (chunk : ∀ c, Chunk c → ReportedStmt (faultsOf c) c .declaration)
    (h : Damaged X b b' chunks) : ReportedStmt (chunks.flatMap faultsOf) b' X := by
  induction h with
  | intact h => exact reported_of_derives h
  | @replaced b c s _ _ isChunk =>
      rw [List.flatMap_singleton]
      exact chunk c isChunk
  | declarations first rest ih ih' =>
      rw [List.flatMap_append]
      exact reported_declarations ih first.opens ih' rest.opens
  | classDecl hk hn superclass hs _ hc ih =>
      apply reported_declaration (by simp [hk])
      intro bound a short
      simp only [hk]
      simp only [List.cons_append, List.append_assoc, List.nil_append, List.length_cons,
        List.length_append] at short ⊢
      refine reports_classDeclaration hn (superclass.word.anywhere _) hs hc
        (ih bound (bound + 1) _ ?_ ?_ ?_)
      · simp only [List.length_append, List.length_cons]
        omega
      · simp only [List.length_append, List.length_cons]
        omega
      · simp [endsList, hc]
  | funDecl hk _ ih =>
      apply reported_declaration (by simp [hk])
      intro bound a short
      simp only [hk]
      exact (ih .function bound a short).map
  | statement inner ih =>
      intro bound a short nearest
      have positive := length_pos_of_opens inner.opens
      have shorter := short
      rw [List.length_append] at shorter
      obtain ⟨bound, rfl⟩ := Nat.exists_eq_add_one.mpr (show 0 < bound by omega)
      exact reports_recovering (Reports.missed (ih (bound + 1) a short fun _ => nearest)
        (startsWith_disjoint noKeyword_of_statement (startsWith_append a inner.startsStmt)))
  | @functions b b' c c' chunks chunks' first rest ih ih' =>
      intro bound k a short shortK ends
      rw [List.flatMap_append, List.append_assoc]
      rw [List.append_assoc] at short shortK
      have opens := first.opens
      have positive := length_pos_of_opens opens
      rw [List.length_append] at shortK
      obtain ⟨k, rfl⟩ := Nat.exists_eq_add_one.mpr (show 0 < k by omega)
      have shorter := short
      rw [List.length_append] at shorter
      exact reports_many_more (goesOn_of_opens (fun _ => beq_iff_eq.mp) opens _)
        (ih .method bound _ short) (ih' bound k a (by omega) (by omega) ends)
  | function hn hp params hc hs _ ht ih =>
      intro kind bound a short
      simp only [List.cons_append, List.append_assoc, List.nil_append, List.length_cons] at short ⊢
      simp only [List.length_append, List.length_cons] at short
      refine reports_callable kind hn hp (reports_parameters (params.word.anywhere _) hc ?_) hc hs
        ht (reported_body ih ht ?_ ?_)
      all_goals
        simp only [List.length_append, List.length_cons]
        omega
  | forStmt hk hp first condition hs increment hc _ ih =>
      apply reported_keyword hk rfl
      intro bound a short nearest
      simp only [keywordStatement, hk]
      simp only [List.cons_append, List.append_assoc, List.length_cons, List.length_append]
        at short ⊢
      refine reports_forStatement hp (reports_forInitializer (first.word.anywhere _) ?_)
        (reports_optionalExpression (condition.word.anywhere _) hs rfl rfl ?_) hs
        (reports_optionalExpression (increment.word.anywhere _) hc rfl rfl ?_) hc
        (ih bound a ?_ nearest)
      all_goals
        simp only [List.length_append, List.length_cons]
        omega
  | ifStmt hk hp condition hc _ ih =>
      apply reported_keyword hk rfl
      intro bound a short nearest
      simp only [keywordStatement, hk]
      simp only [List.cons_append, List.append_assoc, List.length_cons, List.length_append]
        at short ⊢
      refine reports_ifStatement hp
        (reports_expression (condition.word.anywhere _) ?_ (ends_of_kind hc rfl)) hc
        (ih bound a ?_ nearest) (nearest rfl)
      all_goals
        simp only [List.length_append, List.length_cons]
        omega
  | ifElse hk hp condition hc _ ho _ ih ih' =>
      rw [List.flatMap_append]
      apply reported_keyword hk rfl
      intro bound a short nearest
      simp only [keywordStatement, hk]
      simp only [List.cons_append, List.append_assoc, List.length_cons, List.length_append]
        at short ⊢
      refine reports_ifElse hp
        (reports_expression (condition.word.anywhere _) ?_ (ends_of_kind hc rfl)) hc ho
        (ih bound _ ?_ (by simp)) (ih' bound a ?_ nearest)
      all_goals
        simp only [List.length_append, List.length_cons]
        omega
  | whileStmt hk hp condition hc _ ih =>
      apply reported_keyword hk rfl
      intro bound a short nearest
      simp only [keywordStatement, hk]
      simp only [List.cons_append, List.append_assoc, List.length_cons, List.length_append]
        at short ⊢
      refine reports_whileStatement hp
        (reports_expression (condition.word.anywhere _) ?_ (ends_of_kind hc rfl)) hc
        (ih bound a ?_ nearest)
      all_goals
        simp only [List.length_append, List.length_cons]
        omega
  | block hs _ ht ih =>
      apply reported_keyword hs rfl
      intro bound a short nearest
      simp only [keywordStatement, hs]
      simp only [List.append_assoc, List.cons_append, List.nil_append] at short ⊢
      exact (reports_block ht (reported_body ih ht short (Nat.le_succ_of_le short))).last
        fun _ => reports_pure _

end ClassScript.Parser
