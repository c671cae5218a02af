import ClassScript.Proofs.Grammar.CompleteExpressions
import ClassScript.Proofs.Parser.Carried

namespace ClassScript.Parser

open Grammar

variable {w : Surroundings} {s : State} {nested nested' operand operand' : Parser Expr}

def inExpression : TokenKind → Bool
  | .leftBrace | .rightBrace | .semicolon | .kwBreak | .kwClass | .kwContinue | .kwElse | .kwFun
  | .kwFor | .kwIf | .kwPrint | .kwReturn | .kwVar | .kwWhile | .eof => false
  | _ => true

abbrev CarriesExpr (w : Surroundings) (m : Mode) (p p' : Parser Expr) (s : State) : Prop :=
  Carries w inExpression m (Expr.shifted w.ids) p p' s

def Nested (w : Surroundings) (n : Nat) (nested nested' : Parser Expr) : Prop :=
  ∀ s, s.stop.kind = .eof → s.tokens.length < n → CarriesExpr w ⟨true, false⟩ nested nested' s

theorem stuck_primary (nested : Parser Expr) : Stuck (primary nested) := by
  intro s tokens stop
  have front : s.front = s.stop := by simp [State.front, tokens]
  have run : peek s = .ok s.stop s := by rw [← front]; rfl
  unfold primary
  rw [bind_ok run]
  simp only [stop]

theorem carries_occurrence {t : Token} (node : Occurrence → Expr)
    (shifted : ∀ o, (node o).shifted w.ids = node (o.shifted w.ids)) :
    CarriesExpr w ⟨false, true⟩ (do return node ⟨← freshId, t⟩) (do return node ⟨← freshId, t⟩) s := by
  apply Carries.at
  · apply carries_freshId.then
    exact fun i _ _ _ => carries_return (shifted ⟨i, t⟩).symm
  · rfl

theorem carries_primary {n : Nat} (h : Nested w n nested nested') (stop : s.stop.kind = .eof)
    (short : s.tokens.length ≤ n) :
    CarriesExpr w ⟨true, true⟩ (primary nested) (primary nested') s := by
  cases tokens : s.tokens with
  | nil => exact carries_stuck (stuck_primary nested) (stuck_primary nested') tokens stop
  | cons t rest =>
      have run : peek s = .ok t s := by simp [peek, State.front, tokens]
      have run' : peek (w.place s) = .ok t (w.place s) := by
        simp [peek, State.front, Surroundings.place, tokens]
      refine Carries.after (m := ⟨true, true⟩) run (.refl s) ?_ .inl id fun _ _ _ => run'
      rw [tokens, List.length_cons] at short
      have advances (kind : inExpression t.kind = true) :
          Carries w inExpression ⟨true, true⟩ id advance advance s := carries_advance tokens kind
      have constant (value : Literal) (kind : inExpression t.kind = true) :
          CarriesExpr w ⟨true, true⟩ (do advance; return .literal value t.line)
            (do advance; return .literal value t.line) s := by
        apply Carries.at
        · apply (advances kind).then
          exact fun _ _ _ _ => carries_pure (Expr.literal value t.line)
        · rfl
      split
      case h_1 kind | h_2 kind | h_3 kind => exact constant _ (by rw [kind]; rfl)
      case h_4 kind | h_5 kind =>
        apply Carries.at
        · apply (advances (by rw [kind]; rfl)).then (n := ⟨false, true⟩)
          intro _ u _ _
          cases t.literal with
          | some value => exact carries_pure (Expr.literal value t.line)
          | none => exact (carries_throw ⟨.missingLiteral, t.line⟩).at rfl
        · rfl
      case h_6 kind =>
        apply Carries.at
        · apply (advances (by rw [kind]; rfl)).then
          exact fun _ _ _ _ => carries_occurrence .this fun _ => rfl
        · rfl
      case h_7 kind =>
        apply Carries.at
        · apply (advances (by rw [kind]; rfl)).then
          intro _ _ _ _
          apply (carries_skip .superDot rfl).then
          intro _ _ _ _
          apply (carries_expect .superMethodName rfl).then
          exact fun method _ _ _ => carries_occurrence (.super · method) fun _ => rfl
        · rfl
      case h_8 kind =>
        apply Carries.at
        · apply (advances (by rw [kind]; rfl)).then
          exact fun _ _ _ _ => carries_occurrence .var fun _ => rfl
        · rfl
      case h_9 kind =>
        apply Carries.at
        · apply (advances (by rw [kind]; rfl)).then
          intro _ u hsu fewer
          have fewer := fewer rfl
          rw [tokens, List.length_cons] at fewer
          apply (h u (hsu.stop ▸ stop) (by omega)).then
          intro inner _ _ _
          apply (carries_skip .groupEnd rfl).then
          exact fun _ _ _ _ => carries_pure (Expr.grouping inner)
        · rfl
      case h_10 => exact carries_noExpression

theorem carries_arguments {n : Nat} (h : Nested w n nested nested') (k k' : Nat)
    (stop : s.stop.kind = .eof) (short : s.tokens.length < n) (fits : w.Fits k k' s) :
    Carries w inExpression ⟨false, false⟩ (exprsShifted w.ids) (arguments k nested)
      (arguments k' nested') s := by
  have same : exprsShifted w.ids = List.map (Expr.shifted w.ids) := funext (exprsShifted_eq w.ids)
  rw [same]
  apply carries_sees (m := ⟨false, false⟩) (n := ⟨true, false⟩)
  · exact fun _ => (carries_pure []).at rfl
  · exact fun _ => carries_commaList rfl .tooManyArguments h k k' 0 stop short fits
  · exact nofun

theorem callChain_end (nested : Parser Expr) (k : Nat) (e : Expr) (tokens : s.tokens = []) :
    callChain nested k e s = .ok e s := by
  cases k with
  | zero => rfl
  | succ k =>
      unfold callChain
      rw [bind_ok (accept?_end _ tokens)]
      rfl

theorem carries_callChain_end (k k' : Nat) (e : Expr) (tokens : s.tokens = []) :
    CarriesExpr w ⟨false, false⟩ (callChain nested k e) (callChain nested' k' (e.shifted w.ids))
      s := by
  apply carries_done (callChain_end nested k e tokens)
  exact fun hidden => callChain_end nested' k' _ (hidden.nothing tokens)

theorem carries_callChain {n : Nat} (h : Nested w n nested nested') (k k' : Nat) (e : Expr)
    (stop : s.stop.kind = .eof) (short : s.tokens.length ≤ n) (fits : w.Fits k k' s) :
    CarriesExpr w ⟨false, false⟩ (callChain nested k e) (callChain nested' k' (e.shifted w.ids))
      s := by
  induction k generalizing k' e s with
  | zero =>
      exact carries_callChain_end 0 k' e fits.empty
  | succ k ih =>
      cases k' with
      | zero => exact carries_callChain_end (k + 1) 0 e fits.empty'
      | succ k' =>
          unfold callChain
          apply Carries.at
          · apply carries_accept? (m := ⟨false, false⟩)
            · intro kind wanted
              cases kind <;> first | rfl | cases wanted
            · intro token rest tokens wanted
              have fewer : rest.length < s.tokens.length := by simp [tokens]
              have fits : w.Fits k k' { s with tokens := rest } := fits.fewer fewer
              have below : rest.length < n := Nat.lt_of_lt_of_le fewer short
              dsimp only
              split
              · apply Carries.at
                · apply (carries_arguments (s := { s with tokens := rest }) h k k' stop below fits).then
                  intro args t ht _
                  apply (carries_expect .argumentsEnd rfl).then
                  intro paren u hu _
                  have both := ht.trans hu
                  exact ih k' (.call e paren args) (both.stop ▸ stop)
                    (Nat.le_trans both.length_le (Nat.le_of_lt below)) (fits.takes both)
                · rfl
              · apply Carries.at
                · apply (carries_expect .propertyName rfl).then
                  intro name t ht _
                  exact ih k' (.get e name) (ht.stop ▸ stop)
                    (Nat.le_trans ht.length_le (Nat.le_of_lt below)) (fits.takes ht)
                · rfl
            · exact fun _ => (carries_pure e).at (n := ⟨false, false⟩) rfl
            · exact nofun
          · rfl

theorem stuck_call (k : Nat) (nested : Parser Expr) : Stuck (call k nested) :=
  (stuck_primary nested).then _

theorem carries_call {n : Nat} (h : Nested w n nested nested') (k k' : Nat)
    (stop : s.stop.kind = .eof) (short : s.tokens.length ≤ n) (fits : w.Fits k k' s) :
    CarriesExpr w ⟨true, false⟩ (call k nested) (call k' nested') s := by
  apply Carries.at
  · apply (carries_primary h stop short).then
    intro e t ht _
    exact carries_callChain h k k' e (ht.stop ▸ stop) (Nat.le_trans ht.length_le short)
      (fits.takes ht)
  · rfl

structure Operand (w : Surroundings) (n : Nat) (operand operand' : Parser Expr) : Prop where
  stuck : Stuck operand
  stuck' : Stuck operand'
  carries : ∀ s, s.stop.kind = .eof → s.tokens.length ≤ n →
    CarriesExpr w ⟨true, false⟩ operand operand' s

theorem stuck_unary (h : Stuck operand) (k : Nat) : Stuck (unary operand k) := by
  cases k with
  | zero => exact h
  | succ k => exact Stuck.missed h _

theorem carries_unary {n : Nat} (h : Operand w n operand operand') (k k' : Nat)
    (stop : s.stop.kind = .eof) (short : s.tokens.length ≤ n) (fits : w.Fits k k' s) :
    CarriesExpr w ⟨true, false⟩ (unary operand k) (unary operand' k') s := by
  induction k generalizing k' s with
  | zero =>
      exact carries_stuck (stuck_unary h.stuck 0) (stuck_unary h.stuck' k')
        fits.empty stop
  | succ k ih =>
      cases k' with
      | zero =>
          exact carries_stuck (stuck_unary h.stuck (k + 1)) (stuck_unary h.stuck' 0) fits.empty' stop
      | succ k' =>
          apply carries_accept? (m := ⟨true, false⟩) (n := ⟨true, false⟩)
          · intro kind wanted
            cases kind <;> first | rfl | cases wanted
          · intro token rest tokens _
            have fewer : rest.length < s.tokens.length := by simp [tokens]
            apply Carries.at
            · apply (ih (s := { s with tokens := rest }) k' stop
                (Nat.le_trans (Nat.le_of_lt fewer) short) (fits.fewer fewer)).then
              exact fun e _ _ _ => carries_pure (Expr.unary token e)
            · rfl
          · exact fun _ => h.carries s stop short
          · exact nofun

theorem leftChain_end (node : Expr → Token → Expr → Expr) (operators : TokenKind → Bool)
    (operand : Parser Expr) (k : Nat) (e : Expr) (tokens : s.tokens = []) :
    leftChain node operators operand k e s = .ok e s := by
  cases k with
  | zero => rfl
  | succ k =>
      unfold leftChain
      rw [bind_ok (accept?_end _ tokens)]
      rfl

section

variable {node : Expr → Token → Expr → Expr} {operators : TokenKind → Bool}

theorem carries_leftChain_end (k k' : Nat) (e : Expr) (tokens : s.tokens = []) :
    CarriesExpr w ⟨false, false⟩ (leftChain node operators operand k e)
      (leftChain node operators operand' k' (e.shifted w.ids)) s := by
  apply carries_done (leftChain_end node operators operand k e tokens)
  exact fun hidden => leftChain_end node operators operand' k' _ (hidden.nothing tokens)

theorem carries_leftChain {n : Nat} (h : Operand w n operand operand')
    (shifted : ∀ l t r, (node l t r).shifted w.ids = node (l.shifted w.ids) t (r.shifted w.ids))
    (kinds : ∀ k, operators k = true → inExpression k = true) (k k' : Nat) (e : Expr)
    (stop : s.stop.kind = .eof) (short : s.tokens.length ≤ n) (fits : w.Fits k k' s) :
    CarriesExpr w ⟨false, false⟩ (leftChain node operators operand k e)
      (leftChain node operators operand' k' (e.shifted w.ids)) s := by
  induction k generalizing k' e s with
  | zero =>
      exact carries_leftChain_end 0 k' e
        fits.empty
  | succ k ih =>
      cases k' with
      | zero => exact carries_leftChain_end (k + 1) 0 e fits.empty'
      | succ k' =>
          unfold leftChain
          apply Carries.at
          · apply carries_accept? (m := ⟨true, false⟩) kinds
            · intro token rest tokens wanted
              have fewer : rest.length < s.tokens.length := by simp [tokens]
              have below := Nat.le_trans (Nat.le_of_lt fewer) short
              have fits : w.Fits k k' { s with tokens := rest } := fits.fewer fewer
              apply Carries.at
              · apply (h.carries { s with tokens := rest } stop below).then
                intro right t ht _
                rw [← shifted]
                exact ih k' (node e token right) (ht.stop ▸ stop) (Nat.le_trans ht.length_le below)
                  (fits.takes ht)
              · rfl
            · exact fun _ => (carries_pure e).at (n := ⟨false, false⟩) rfl
            · exact nofun
          · rfl

theorem operand_level {n : Nat} (h : Operand w n operand operand')
    (shifted : ∀ l t r, (node l t r).shifted w.ids = node (l.shifted w.ids) t (r.shifted w.ids))
    (kinds : ∀ k, operators k = true → inExpression k = true) {k k' : Nat} (alone : n ≤ k)
    (placed : n + w.behind.length ≤ k') :
    Operand w n (level node operators k operand) (level node operators k' operand') where
  stuck := h.stuck.then _
  stuck' := h.stuck'.then _
  carries s stop short := by
    apply Carries.at
    · apply (h.carries s stop short).then
      intro e t ht _
      have below := Nat.le_trans ht.length_le short
      exact carries_leftChain h shifted kinds k k' e (ht.stop ▸ stop) below
        ⟨Nat.le_trans below alone, Nat.le_trans (Nat.add_le_add_right below _) placed⟩
    · rfl

end

theorem operand_unary {n : Nat} (h : Nested w n nested nested') {k k' : Nat} (alone : n ≤ k)
    (placed : n + w.behind.length ≤ k') :
    Operand w n (unary (call k nested) k) (unary (call k' nested') k') := by
  have fits (s : State) (short : s.tokens.length ≤ n) : w.Fits k k' s :=
    ⟨by omega, by omega⟩
  have call : Operand w n (call k nested) (call k' nested') :=
    ⟨stuck_call k nested, stuck_call k' nested', fun s stop short =>
      carries_call h k k' stop short (fits s short)⟩
  exact ⟨stuck_unary call.stuck k, stuck_unary call.stuck' k', fun s stop short =>
    carries_unary call k k' stop short (fits s short)⟩

theorem inExpression_operators (l : Level) (kind : TokenKind) (operator : l.operators kind = true) :
    inExpression kind = true := by
  cases l <;> cases kind <;> first | rfl | cases operator

theorem node_shifted (l : Level) (i : Nat) (left : Expr) (operator : Token) (right : Expr) :
    (l.node left operator right).shifted i = l.node (left.shifted i) operator (right.shifted i) := by
  cases l <;> rfl

theorem operand_atLevel {n : Nat} (h : Nested w n nested nested') {k k' : Nat} (alone : n ≤ k)
    (placed : n + w.behind.length ≤ k') (l : Level) :
    Operand w n (l.parser k nested k) (l.parser k' nested' k') := by
  have above {l next : Level} (eq : l.next = some next)
      (h : Operand w n (next.parser k nested k) (next.parser k' nested' k')) :
      Operand w n (l.parser k nested k) (l.parser k' nested' k') := by
    rw [parser_of_next eq, parser_of_next eq]
    exact operand_level h (node_shifted l w.ids) (inExpression_operators l) alone placed
  have unary : Operand w n (Level.unary.parser k nested k) (Level.unary.parser k' nested' k') :=
    operand_unary h alone placed
  have factor := above (l := .factor) rfl unary
  have term := above (l := .term) rfl factor
  have comparison := above (l := .comparison) rfl term
  have equality := above (l := .equality) rfl comparison
  have and := above (l := .and) rfl equality
  have or := above (l := .or) rfl and
  cases l <;> assumption

theorem carries_target (target value : Expr) (equals : Token) :
    CarriesExpr w ⟨false, true⟩
      (match target with
      | .var name => return .assign ⟨← freshId, name.token⟩ value
      | .get object name => return .set object name value
      | _ => throw ⟨.invalidAssignmentTarget, equals.line⟩)
      (match target.shifted w.ids with
      | .var name => return .assign ⟨← freshId, name.token⟩ (value.shifted w.ids)
      | .get object name => return .set object name (value.shifted w.ids)
      | _ => throw ⟨.invalidAssignmentTarget, equals.line⟩) s := by
  cases target with
  | var name =>
      apply Carries.at
      · apply carries_freshId.then
        exact fun i _ _ _ => carries_pure (Expr.assign ⟨i, name.token⟩ value)
      · rfl
  | get object name => exact carries_pure (Expr.set object name value)
  | _ => exact (carries_throw ⟨.invalidAssignmentTarget, equals.line⟩).at rfl

theorem carries_assignment {n : Nat} (h : Nested w n nested nested') {k k' : Nat} (alone : n ≤ k)
    (placed : n + w.behind.length ≤ k') (stop : s.stop.kind = .eof) (short : s.tokens.length ≤ n) :
    CarriesExpr w ⟨true, false⟩ (assignment k nested) (assignment k' nested') s := by
  apply Carries.at
  · apply ((operand_atLevel h alone placed .or).carries s stop short).then
    intro target t hst fewer
    have fewer := fewer rfl
    apply carries_accept? (m := ⟨true, false⟩)
    · intro kind wanted
      rw [beq_iff_eq.mp wanted]
      rfl
    · intro equals rest tokens _
      rw [tokens, List.length_cons] at fewer
      apply Carries.at
      · apply (h { t with tokens := rest } (hst.stop ▸ stop) (by simp only; omega)).then
        exact fun value _ _ _ => carries_target target value equals
      · rfl
    · exact fun _ => (carries_pure target).at (n := ⟨false, false⟩) rfl
    · exact nofun
  · rfl

theorem stuck_assignment (k : Nat) (nested : Parser Expr) : Stuck (assignment k nested) := by
  have unary : Stuck (unary (call k nested) k) := stuck_unary (stuck_call k nested) k
  exact ((((((unary.then _).then _).then _).then _).then _).then _).then _

theorem stuck_expression (k : Nat) : Stuck (expression k) := by
  cases k with
  | zero => exact stuck_noExpression
  | succ k => exact stuck_assignment (k + 1) (expression k)

theorem carries_expression (k k' : Nat) {s : State} (stop : s.stop.kind = .eof)
    (fits : w.Fits k k' s) : CarriesExpr w ⟨true, false⟩ (expression k) (expression k') s := by
  induction k generalizing k' s with
  | zero =>
      exact carries_stuck (stuck_expression 0) (stuck_expression k')
        fits.empty stop
  | succ k ih =>
      cases k' with
      | zero =>
          exact carries_stuck (stuck_expression (k + 1)) (stuck_expression 0) fits.empty' stop
      | succ k' =>
          have nested : Nested w s.tokens.length (expression k) (expression k') :=
            fun t stop' fewer => ih k' stop' (fits.fewer fewer)
          exact carries_assignment nested fits.alone fits.placed stop (Nat.le_refl _)

end ClassScript.Parser
