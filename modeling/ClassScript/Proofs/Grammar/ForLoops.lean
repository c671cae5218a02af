import ClassScript.Proofs.Grammar.Exact
import ClassScript.Proofs.Grammar.Words
import ClassScript.Proofs.Similar.Programs

/-!
# What a `for` loop is written out as

    for (first; condition; increment) body
    { first while (condition) { body increment; } }

The tokens of the first statement derive with the tree `forTree`, and those of the second one, with
the tree `writtenOut` (`ForLoop.derives`, `ForLoop.derives_writtenOut`). Each `for` loop that derives
is one of these (`exists_forLoop`).
-/

namespace ClassScript.Grammar

/-- The tree of a `for` loop that is written out. A condition that is left out is `true`. -/
def writtenOut (line inner outer : Nat) (first : Option Stmt) (condition : Option Expr)
    (body : Stmt) (increment : Option Expr) : Stmt :=
  .block (first.toList ++ [.loop (condition.getD (.literal (.bool true) line))
    (.block (body :: increments increment) inner) none]) outer

theorem writtenOut_unnumbered (line inner outer : Nat) (first : Option Stmt)
    (condition : Option Expr) (body : Stmt) (increment : Option Expr) :
    (writtenOut line inner outer first condition body increment).unnumbered =
      writtenOut line inner outer (first.map Stmt.unnumbered) (condition.map Expr.unnumbered)
        body.unnumbered (increment.map Expr.unnumbered) := by
  cases first <;> cases condition <;> cases increment <;> rfl

structure Brackets where
  outer : Token
  loop : Token
  left : Token
  yes : Token
  right : Token
  inner : Token
  semicolon : Token
  innerEnd : Token
  outerEnd : Token
  outer_kind : outer.kind = .leftBrace
  loop_kind : loop.kind = .kwWhile
  left_kind : left.kind = .leftParen
  yes_kind : yes.kind = .kwTrue
  right_kind : right.kind = .rightParen
  inner_kind : inner.kind = .leftBrace
  semicolon_kind : semicolon.kind = .semicolon
  innerEnd_kind : innerEnd.kind = .rightBrace
  outerEnd_kind : outerEnd.kind = .rightBrace

/-- The tokens of a part, if it is not left out: they have its tree in front of any rest. -/
inductive Part {τ : Type} (D : List Token → List Token → τ → Prop) :
    Option (List Token) → Option τ → Prop
  | absent : Part D none none
  | present {w x} : (∀ rest, D (w ++ rest) rest x) → Part D (some w) (some x)

/-- A `for` loop as it is written: its tokens, and the trees of its parts. -/
structure ForLoop where
  keyword : Token
  left : Token
  opening : List Token
  firstTokens : Option (List Token)
  testTokens : Option (List Token)
  semicolon : Token
  counterTokens : Option (List Token)
  right : Token
  bodyTokens : List Token
  first : Option Stmt
  test : Option Expr
  counter : Option Expr
  body : Stmt
  keyword_kind : keyword.kind = .kwFor
  left_kind : left.kind = .leftParen
  semicolon_kind : semicolon.kind = .semicolon
  right_kind : right.kind = .rightParen
  opening_eq : ∀ w ∈ firstTokens, opening = w
  opening_kind : firstTokens = none → opening.map Token.kind = [.semicolon]
  first_part : Part (fun b a s => VarDecl b a s ∨ ExprStmt b a s) firstTokens first
  test_part : Part (Derives true .expression) testTokens test
  counter_part : Part (Derives true .expression) counterTokens counter
  body_word : ∀ rest, DerivesStmt (.statement false) (bodyTokens ++ rest) rest body

namespace ForLoop

def tokens (l : ForLoop) : List Token :=
  l.keyword :: l.left :: l.opening ++ l.testTokens.getD [] ++
    l.semicolon :: l.counterTokens.getD [] ++ l.right :: l.bodyTokens

def tree (l : ForLoop) : Stmt := forTree l.keyword l.first l.test l.body l.counter

/-- The tokens of the loop when it is written out. What is left out of the loop is left out here
too, but for the condition, which becomes `true`. -/
def tokensOut (l : ForLoop) (t : Brackets) : List Token :=
  t.outer :: l.firstTokens.getD [] ++ t.loop :: t.left :: l.testTokens.getD [t.yes] ++
    t.right :: t.inner :: l.bodyTokens ++ l.counterTokens.elim [] (· ++ [t.semicolon]) ++
      [t.innerEnd, t.outerEnd]

def treeOut (l : ForLoop) (t : Brackets) : Stmt :=
  writtenOut t.yes.line t.inner.line t.outer.line l.first l.test l.body l.counter

end ForLoop

variable {closed limited : Bool} {keyword : Token} {b a w : List Token}
  {f c i : Option (List Token)} {first : Option Stmt} {test counter : Option Expr} {s : Stmt}
  {e : Expr}

def StmtSymbol.Unclosed (X : StmtSymbol) (b a : List Token) (tree : X.Tree) : Prop :=
  match X with
  | .statement _ => DerivesStmt (.statement false) b a tree
  | _ => True

theorem DerivesStmt.unclosed {X : StmtSymbol} {tree : X.Tree} (h : DerivesStmt X b a tree) :
    X.Unclosed b a tree := by
  induction h with
  | exprStmt h => exact .exprStmt h
  | forStmt hk hp first test hs counter hc _ ih => exact .forStmt hk hp first test hs counter hc ih
  | ifStmt hk hp test hc h => exact .ifStmt hk hp test hc h
  | ifElse hk hp test hc h ho _ _ ih => exact .ifElse hk hp test hc h ho ih
  | printStmt hk h hs => exact .printStmt hk h hs
  | returnStmt hk h hs => exact .returnStmt hk h hs
  | whileStmt hk hp test hc _ ih => exact .whileStmt hk hp test hc ih
  | breakStmt hk hs => exact .breakStmt hk hs
  | continueStmt hk hs => exact .continueStmt hk hs
  | block hs h ht => exact .block hs h ht
  | _ => trivial

theorem Part.optionally (h : Part (Derives true .expression) c test) (rest : List Token) :
    Optionally (c.getD [] ++ rest) rest test := by
  cases h with
  | absent => exact .none
  | present h => exact .some (h rest)

theorem ForLoop.derives_first (l : ForLoop) (rest : List Token) :
    ForFirst (l.opening ++ rest) rest l.first := by
  have part := l.first_part
  have opening := l.opening_eq
  have kinds := l.opening_kind
  generalize l.first = first at part
  generalize l.firstTokens = f at part opening kinds
  cases part with
  | absent =>
      obtain ⟨semicolon, eq, kind⟩ := List.map_eq_singleton_iff.mp (kinds rfl)
      rw [eq]
      exact .none kind
  | present h =>
      rw [opening _ rfl]
      rcases h rest with h | h
      · exact .varDecl h
      · exact .exprStmt h

theorem ForLoop.derives (l : ForLoop) (rest : List Token) :
    DerivesStmt (.statement false) (l.tokens ++ rest) rest l.tree := by
  simpa [tokens] using .forStmt l.keyword_kind l.left_kind (l.derives_first _)
    (l.test_part.optionally _) l.semicolon_kind (l.counter_part.optionally _) l.right_kind
    (l.body_word rest)

theorem ForFirst.part (h : ForFirst b a first) : ∃ opening f, b = opening ++ a ∧
    (∀ w ∈ f, opening = w) ∧ (f = Option.none → opening.map Token.kind = [.semicolon]) ∧
    Part (fun b a s => VarDecl b a s ∨ ExprStmt b a s) f first := by
  cases h with
  | varDecl h =>
      obtain ⟨w, rfl, derives⟩ := h.word
      exact ⟨w, some w, rfl, fun _ mem => Option.some.inj mem, nofun,
        .present fun rest => .inl (derives rest)⟩
  | exprStmt h =>
      obtain ⟨w, rfl, derives⟩ := h.word
      exact ⟨w, some w, rfl, fun _ mem => Option.some.inj mem, nofun,
        .present fun rest => .inr (derives rest)⟩
  | @none semicolon a kind =>
      exact ⟨[semicolon], Option.none, rfl, nofun, fun _ => by rw [List.map_singleton, kind],
        .absent⟩

theorem Optionally.part (h : Optionally b a test) :
    ∃ c, b = Option.getD c [] ++ a ∧ Part (Derives true .expression) c test := by
  cases h with
  | none => exact ⟨_, rfl, .absent⟩
  | some h =>
      obtain ⟨w, rfl, derives⟩ := h.word
      exact ⟨_, rfl, .present derives⟩

theorem exists_forLoop (kind : keyword.kind = .kwFor)
    (h : DerivesStmt (.statement closed) (keyword :: b) a s) :
    ∃ l : ForLoop, keyword :: b = l.tokens ++ a ∧ s = l.tree := by
  cases h with
  | @forStmt _ _ left semicolon right _ _ _ _ _ first test counter body hk hl h h' hs h'' hr inner =>
      obtain ⟨opening, f, rfl, eq, kinds, firsts⟩ := h.part
      obtain ⟨c, rfl, tests⟩ := h'.part
      obtain ⟨i, rfl, counters⟩ := h''.part
      obtain ⟨w, rfl, bodies⟩ := inner.unclosed.word
      refine ⟨⟨keyword, left, opening, f, c, semicolon, i, right, w, first, test, counter, body,
        hk, hl, hs, hr, eq, kinds, firsts, tests, counters, bodies⟩, ?_, rfl⟩
      simp [ForLoop.tokens]
  | exprStmt h =>
      have starts := h.starts
      rw [startsWith_cons, kind] at starts
      cases starts
  | ifStmt other | ifElse other | printStmt other | returnStmt other | whileStmt other
  | breakStmt other | continueStmt other | block other =>
      rw [kind] at other
      cases other

section

variable (t : Brackets) (rest : List Token)

theorem derives_condition (h : Part (Derives true .expression) c test) :
    Derives true .expression (c.getD [t.yes] ++ rest) rest
      (test.getD (.literal (.bool true) t.yes.line)) := by
  cases h with
  | absent => exact derives_primary (.true t.yes_kind)
  | present h => exact h rest

theorem derives_increments (h : Part (Derives true .expression) i counter) :
    DerivesStmt .declarations (i.elim [] (· ++ [t.semicolon]) ++ rest) rest
      (increments counter) := by
  cases h with
  | absent => exact .noDeclaration
  | @present w e h =>
      have counted : ExprStmt (w ++ t.semicolon :: rest) rest (.expression e) :=
        .mk (h (t.semicolon :: rest)) t.semicolon_kind
      rw [Option.elim, List.append_assoc]
      exact .declarations (.statement (.exprStmt counted)) .noDeclaration

theorem derives_behind {tail : List Token} {loop : Stmt}
    (h : Part (fun b a s => VarDecl b a s ∨ ExprStmt b a s) f first)
    (h' : DerivesStmt .declarations tail rest [loop]) :
    DerivesStmt .declarations (f.getD [] ++ tail) rest (first.toList ++ [loop]) := by
  cases h with
  | absent => exact h'
  | present h =>
      rcases h tail with h | h
      · exact .declarations (.varDecl h) h'
      · exact .declarations (.statement (.exprStmt h)) h'

theorem ForLoop.derives_writtenOut (l : ForLoop) :
    DerivesStmt (.statement false) (l.tokensOut t ++ rest) rest (l.treeOut t) := by
  have block : DerivesStmt (.statement false) _ (t.outerEnd :: rest) _ :=
    .block t.inner_kind (.declarations (.statement (l.body_word _))
      (derives_increments t _ l.counter_part)) t.innerEnd_kind
  have loop : DerivesStmt .declarations _ (t.outerEnd :: rest) _ :=
    .declarations (.statement (.whileStmt t.loop_kind t.left_kind
      (derives_condition t _ l.test_part) t.right_kind block)) .noDeclaration
  have outer : DerivesStmt (.statement false) _ rest _ :=
    .block t.outer_kind (derives_behind _ l.first_part loop) t.outerEnd_kind
  simpa [tokensOut, treeOut, writtenOut] using outer

end

/-- The parser builds the statement from these tokens alone, but for the identities of occurrences,
which depend on what stands in front. -/
def Builds (tokens : List Token) (s : Stmt) : Prop :=
  ∃ firstId s', (parseProgram firstId tokens).result = .ok [s'] ∧ s'.unnumbered = s.unnumbered

theorem written_of_word {X : StmtSymbol} {tree : X.Tree} (h : DerivesStmt X w [] tree) :
    written w = w := by
  refine List.takeWhile_eq_self_iff.mpr fun t mem => ?_
  rw [bne_iff_ne]
  exact fun kind => List.not_mem_nil (h.endBehind t mem kind)

theorem builds_iff {tree : Stmt} (h : DerivesStmt (.statement false) w [] tree) :
    Builds w s ↔ s.unnumbered = tree := by
  have all : DerivesStmt .declarations (written w) [] [tree] := by
    rw [written_of_word h]
    exact .declarations (.statement h) .noDeclaration
  constructor
  · rintro ⟨firstId, s', parsed, eq⟩
    obtain ⟨same, -⟩ := List.cons.inj ((derives_of_parseProgram parsed).unique all)
    exact eq.symm.trans same
  · intro eq
    obtain ⟨p, parsed, same⟩ := parseProgram_of_derives all 0
    match p with
    | [s'] => exact ⟨0, s', parsed, (List.cons.inj same).1.trans eq.symm⟩
    | [] | _ :: _ :: _ => cases same

theorem ForLoop.builds_iff (l : ForLoop) : Builds l.tokens s ↔ s.unnumbered = l.tree := by
  have h := l.derives []
  rw [List.append_nil] at h
  exact Grammar.builds_iff h

theorem ForLoop.builds_writtenOut_iff (l : ForLoop) (t : Brackets) :
    Builds (l.tokensOut t) s ↔ s.unnumbered = l.treeOut t := by
  have h := l.derives_writtenOut t []
  rw [List.append_nil] at h
  exact Grammar.builds_iff h

end ClassScript.Grammar
