import ClassScript.Proofs.Grammar.EntryLists
import ClassScript.Proofs.Grammar.Words

namespace ClassScript

/-- Statements that a semicolon ends. -/
def Stmt.isSimple : Stmt → Bool
  | .varDecl .. | .expression _ | .print _ | .return .. | .break _ | .continue _ => true
  | _ => false

namespace Grammar

open ClassScript.Parser

/-- Tokens that may stand in the place of a simple statement. Keywords that start a statement come
first or not at all, and the statement has no further ones inside. -/
structure Chunk (tokens : List Token) : Prop where
  ends : ∃ body semicolon, tokens = body ++ [semicolon] ∧ semicolon.kind = .semicolon ∧
    ∀ t ∈ body, t.kind ≠ .semicolon
  noEnd : ∀ t ∈ tokens, t.kind ≠ .eof
  noBrace : ∀ t ∈ tokens, t.kind ≠ .leftBrace ∧ t.kind ≠ .rightBrace
  noElse : startsWith (· == .kwElse) tokens = false
  first : ∀ t ∈ tokens.head?, startsStatement t.kind = true →
    t.kind ∈ [TokenKind.kwVar, .kwPrint, .kwReturn, .kwBreak, .kwContinue]
  later : ∀ t ∈ tokens.tail, startsStatement t.kind = false

/-- The tokens of `damaged` are a word of the symbol in which simple statements that stand directly in
a list of declarations have been replaced by chunks. -/
inductive Damaged : (X : StmtSymbol) → (original damaged : List Token) →
    (chunks : List (List Token)) → Prop
  | intact {X b} {tree : X.Tree} : DerivesStmt X b [] tree → Damaged X b b []
  | replaced {b chunk s} : DerivesStmt .declaration b [] s → Stmt.isSimple s = true → Chunk chunk →
      Damaged .declaration b chunk [chunk]
  | declarations {b b' c c' chunks chunks'} : Damaged .declaration b b' chunks →
      Damaged .declarations c c' chunks' →
      Damaged .declarations (b ++ c) (b' ++ c') (chunks ++ chunks')
  | classDecl {keyword name start close parent superclass b b' chunks} : keyword.kind = .kwClass →
      name.kind = .identifier → Superclass parent [] superclass → start.kind = .leftBrace →
      Damaged .functions b b' chunks → close.kind = .rightBrace →
      Damaged .declaration (keyword :: name :: (parent ++ start :: (b ++ [close])))
        (keyword :: name :: (parent ++ start :: (b' ++ [close]))) chunks
  | funDecl {keyword b b' chunks} : keyword.kind = .kwFun → Damaged .function b b' chunks →
      Damaged .declaration (keyword :: b) (keyword :: b') chunks
  | statement {b b' chunks} : Damaged (.statement false) b b' chunks →
      Damaged .declaration b b' chunks
  | functions {b b' c c' chunks chunks'} : Damaged .function b b' chunks →
      Damaged .functions c c' chunks' →
      Damaged .functions (b ++ c) (b' ++ c') (chunks ++ chunks')
  | function {name paren close start stop list params b b' chunks} : name.kind = .identifier →
      paren.kind = .leftParen → ParameterList list [] params → close.kind = .rightParen →
      start.kind = .leftBrace → Damaged .declarations b b' chunks → stop.kind = .rightBrace →
      Damaged .function (name :: paren :: (list ++ close :: start :: (b ++ [stop])))
        (name :: paren :: (list ++ close :: start :: (b' ++ [stop]))) chunks
  | forStmt {closed keyword paren semicolon close f c i first condition increment b b' chunks} :
      keyword.kind = .kwFor → paren.kind = .leftParen → ForFirst f [] first →
      Optionally c [] condition → semicolon.kind = .semicolon → Optionally i [] increment →
      close.kind = .rightParen → Damaged (.statement closed) b b' chunks →
      Damaged (.statement closed) (keyword :: paren :: (f ++ (c ++ semicolon :: (i ++ close :: b))))
        (keyword :: paren :: (f ++ (c ++ semicolon :: (i ++ close :: b')))) chunks
  | ifStmt {keyword paren close c condition b b' chunks} : keyword.kind = .kwIf →
      paren.kind = .leftParen → Derives true .expression c [] condition →
      close.kind = .rightParen → Damaged (.statement false) b b' chunks →
      Damaged (.statement false) (keyword :: paren :: (c ++ close :: b))
        (keyword :: paren :: (c ++ close :: b')) chunks
  | ifElse {closed keyword paren close other c condition b b' d d' chunks chunks'} :
      keyword.kind = .kwIf → paren.kind = .leftParen → Derives true .expression c [] condition →
      close.kind = .rightParen → Damaged (.statement true) b b' chunks → other.kind = .kwElse →
      Damaged (.statement closed) d d' chunks' →
      Damaged (.statement closed) (keyword :: paren :: (c ++ close :: (b ++ other :: d)))
        (keyword :: paren :: (c ++ close :: (b' ++ other :: d'))) (chunks ++ chunks')
  | whileStmt {closed keyword paren close c condition b b' chunks} : keyword.kind = .kwWhile →
      paren.kind = .leftParen → Derives true .expression c [] condition →
      close.kind = .rightParen → Damaged (.statement closed) b b' chunks →
      Damaged (.statement closed) (keyword :: paren :: (c ++ close :: b))
        (keyword :: paren :: (c ++ close :: b')) chunks
  | block {closed start stop b b' chunks} : start.kind = .leftBrace →
      Damaged .declarations b b' chunks → stop.kind = .rightBrace →
      Damaged (.statement closed) (start :: (b ++ [stop])) (start :: (b' ++ [stop])) chunks

variable {X : StmtSymbol} {b b' w : List Token} {chunks : List (List Token)}

theorem Word.anywhere {τ : Type} {D : List Token → List Token → τ → Prop} {tree : τ}
    (h : Word D w [] tree) (a : List Token) : D (w ++ a) a tree := by
  obtain ⟨w, rfl, derives⟩ := h
  rw [List.append_nil]
  exact derives a

theorem Damaged.derives (h : Damaged X b b' chunks) : ∃ tree, DerivesStmt X b [] tree := by
  induction h with
  | intact h => exact ⟨_, h⟩
  | replaced h _ _ => exact ⟨_, h⟩
  | declarations _ _ ih ih' =>
      obtain ⟨s, first⟩ := ih
      obtain ⟨ss, rest⟩ := ih'
      exact ⟨_, .declarations (first.word.anywhere _) rest⟩
  | classDecl hk hn superclass hs _ hc ih =>
      obtain ⟨methods, inner⟩ := ih
      exact ⟨_, .classDecl hk hn (superclass.word.anywhere _) hs (inner.word.anywhere _) hc⟩
  | funDecl hk _ ih =>
      obtain ⟨f, inner⟩ := ih
      exact ⟨_, .funDecl hk inner⟩
  | statement _ ih =>
      obtain ⟨s, inner⟩ := ih
      exact ⟨_, .statement inner⟩
  | functions _ _ ih ih' =>
      obtain ⟨f, first⟩ := ih
      obtain ⟨fs, rest⟩ := ih'
      exact ⟨_, .functions (first.word.anywhere _) rest⟩
  | function hn hp params hc hs _ ht ih =>
      obtain ⟨body, inner⟩ := ih
      exact ⟨_, .function hn hp (params.word.anywhere _) hc hs (inner.word.anywhere _) ht⟩
  | forStmt hk hp first condition hs increment hc _ ih =>
      obtain ⟨body, inner⟩ := ih
      exact ⟨_, .forStmt hk hp (first.word.anywhere _) (condition.word.anywhere _) hs
        (increment.word.anywhere _) hc inner⟩
  | ifStmt hk hp condition hc _ ih =>
      obtain ⟨s, inner⟩ := ih
      exact ⟨_, .ifStmt hk hp (condition.word.anywhere _) hc inner⟩
  | ifElse hk hp condition hc _ ho _ ih ih' =>
      obtain ⟨s, inner⟩ := ih
      obtain ⟨s', other⟩ := ih'
      exact ⟨_, .ifElse hk hp (condition.word.anywhere _) hc (inner.word.anywhere _) ho other⟩
  | whileStmt hk hp condition hc _ ih =>
      obtain ⟨s, inner⟩ := ih
      exact ⟨_, .whileStmt hk hp (condition.word.anywhere _) hc inner⟩
  | block hs _ ht ih =>
      obtain ⟨body, inner⟩ := ih
      exact ⟨_, .block hs (inner.word.anywhere _) ht⟩

theorem Damaged.chunk (h : Damaged X b b' chunks) : ∀ c ∈ chunks, Chunk c := by
  induction h with
  | intact => exact nofun
  | replaced _ _ chunk => exact List.forall_mem_singleton.mpr chunk
  | declarations _ _ ih ih' | functions _ _ ih ih' => exact List.forall_mem_append.mpr ⟨ih, ih'⟩
  | ifElse _ _ _ _ _ _ _ ih ih' => exact List.forall_mem_append.mpr ⟨ih, ih'⟩
  | classDecl _ _ _ _ _ _ ih | funDecl _ _ ih | statement _ ih | function _ _ _ _ _ _ _ ih
  | forStmt _ _ _ _ _ _ _ _ ih | ifStmt _ _ _ _ _ ih | whileStmt _ _ _ _ _ ih
  | block _ _ _ ih => exact ih

def opensDamaged (k : TokenKind) : Bool := k != .rightBrace && k != .kwElse

def StmtSymbol.OpensDamaged (X : StmtSymbol) (b : List Token) : Prop :=
  match X with
  | declarations | functions => b = [] ∨ startsWith opensDamaged b = true
  | _ => startsWith opensDamaged b = true

theorem opensDamaged_of_declaration (h : startsWith startsDeclaration b = true) :
    startsWith opensDamaged b = true := by
  apply startsWith_of_imp _ h
  intro k starts
  cases k <;> first | rfl | cases starts

theorem opensDamaged_of_function (h : startsWith startsFunction b = true) :
    startsWith opensDamaged b = true := by
  apply startsWith_of_imp _ h
  intro k starts
  cases k <;> first | rfl | cases starts

theorem Chunk.opens (h : Chunk b) : startsWith opensDamaged b = true := by
  obtain ⟨body, semicolon, eq, -, -⟩ := h.ends
  cases b with
  | nil => simp at eq
  | cons t rest =>
      have other := h.noElse
      rw [startsWith_cons] at other ⊢
      simp [opensDamaged, (h.noBrace t List.mem_cons_self).2, bne, other]

theorem startsWith_append {kinds : TokenKind → Bool} (a : List Token)
    (h : startsWith kinds b = true) : startsWith kinds (b ++ a) = true := by
  cases b with
  | nil => cases h
  | cons t rest => exact h

theorem Damaged.opens (h : Damaged X b b' chunks) : X.OpensDamaged b' := by
  induction h with
  | @intact X b tree h =>
      have starts := h.starts
      cases X with
      | declarations => exact starts.imp id opensDamaged_of_declaration
      | declaration => exact opensDamaged_of_declaration starts
      | functions => exact starts.imp id opensDamaged_of_function
      | function => exact opensDamaged_of_function starts
      | statement =>
          exact opensDamaged_of_declaration (startsWith_of_imp startsDeclaration_of_stmt starts)
  | replaced _ _ chunk => exact Chunk.opens chunk
  | declarations _ _ ih => exact .inr (startsWith_append _ ih)
  | functions _ _ ih => exact .inr (startsWith_append _ ih)
  | statement _ ih => exact ih
  | classDecl hk | funDecl hk | function hk | forStmt hk | ifStmt hk | ifElse hk | whileStmt hk
  | block hk => exact startsWith_of_kind hk rfl

theorem Damaged.startsStmt {closed : Bool} (h : Damaged (.statement closed) b b' chunks) :
    startsWith startsStmt b' = true := by
  cases h with
  | intact h => exact h.starts
  | forStmt hk | ifStmt hk | ifElse hk | whileStmt hk | block hk => exact startsWith_of_kind hk rfl

end Grammar

end ClassScript
