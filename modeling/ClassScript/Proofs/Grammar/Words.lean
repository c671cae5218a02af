import ClassScript.Proofs.Grammar.Statements

namespace ClassScript.Grammar

variable {τ : Type} {limited : Bool} {b a : List Token}

/-- The tokens of `b` up to `a` are a word, which has this tree in front of any rest. -/
def Word (D : List Token → List Token → τ → Prop) (b a : List Token) (tree : τ) : Prop :=
  ∃ w, b = w ++ a ∧ ∀ rest, D (w ++ rest) rest tree

section

variable {D D' D'' : List Token → List Token → τ → Prop} {σ ρ : Type}
  {E : List Token → List Token → σ → Prop} {F : List Token → List Token → ρ → Prop}
  {x : τ} {y : σ} {z : ρ} {c : List Token}

theorem word_tokens (w : List Token) (h : ∀ rest, D (w ++ rest) rest x) : Word D (w ++ a) a x :=
  ⟨w, rfl, h⟩

theorem Word.behind (front : List Token) (h : Word E b a y)
    (rule : ∀ {b a}, E b a y → D (front ++ b) a x) : Word D (front ++ b) a x := by
  obtain ⟨w, rfl, derives⟩ := h
  refine ⟨front ++ w, (List.append_assoc ..).symm, fun rest => ?_⟩
  rw [List.append_assoc]
  exact rule (derives rest)

theorem Word.between (front back : List Token) (h : Word E b (back ++ a) y)
    (rule : ∀ {b a}, E b (back ++ a) y → D (front ++ b) a x) : Word D (front ++ b) a x := by
  obtain ⟨w, rfl, derives⟩ := h
  refine ⟨front ++ w ++ back, by simp only [List.append_assoc], fun rest => ?_⟩
  rw [List.append_assoc, List.append_assoc]
  exact rule (derives (back ++ rest))

theorem Word.both (front middle : List Token) (h : Word E b (middle ++ c) y) (h' : Word F c a z)
    (rule : ∀ {b c a}, E b (middle ++ c) y → F c a z → D (front ++ b) a x) :
    Word D (front ++ b) a x := by
  obtain ⟨w, rfl, first⟩ := h
  obtain ⟨v, rfl, second⟩ := h'
  refine ⟨front ++ w ++ middle ++ v, by simp only [List.append_assoc], fun rest => ?_⟩
  simp only [List.append_assoc]
  exact rule (first (middle ++ (v ++ rest))) (second rest)

end

theorem Derives.word {X : Symbol} {tree : X.Tree} (h : Derives limited X b a tree) :
    Word (Derives limited X) b a tree := by
  induction h with
  | @assign name equals b a value hn he _ ih => exact ih.behind [name, equals] (.assign hn he)
  | @set b dot name equals c a object value _ hd hn he _ ih ih' =>
      exact ih.both [] [dot, name, equals] ih' fun h h' => .set h hd hn he h'
  | noAssignment _ ih => exact ih.behind [] .noAssignment
  | level next _ _ ih ih' => exact ih.both [] [] ih' (.level next)
  | levelEnd => exact word_tokens [] fun _ => .levelEnd
  | @levelOperator l next operator left b c a right e hl ho _ _ ih ih' =>
      exact ih.both [operator] [] ih' (.levelOperator hl ho)
  | @unary operator b a operand ho _ ih => exact ih.behind [operator] (.unary ho)
  | noOperator _ ih => exact ih.behind [] .noOperator
  | call _ _ ih ih' => exact ih.both [] [] ih' .call
  | callEnd => exact word_tokens [] fun _ => .callEnd
  | @callEmpty left paren close b a e hp hc _ ih => exact ih.behind [paren, close] (.callEmpty hp hc)
  | @callArguments left paren close b c a e args hp hc _ short _ ih ih' =>
      exact ih.both [paren] [close] ih' fun h h' => .callArguments hp hc h short h'
  | @callProperty left dot name b a e hd hn _ ih => exact ih.behind [dot, name] (.callProperty hd hn)
  | argument _ ih => exact ih.behind [] .argument
  | @arguments comma b c a e es _ hc _ ih ih' =>
      exact ih.both [] [comma] ih' fun h h' => .arguments h hc h'
  | @literal t a value kind hv => exact word_tokens [t] fun _ => .literal kind hv
  | @true t a kind => exact word_tokens [t] fun _ => .true kind
  | @false t a kind => exact word_tokens [t] fun _ => .false kind
  | @nil t a kind => exact word_tokens [t] fun _ => .nil kind
  | @this t a kind => exact word_tokens [t] fun _ => .this kind
  | @identifier t a kind => exact word_tokens [t] fun _ => .identifier kind
  | @grouping paren close b a e hp _ hc ih =>
      exact ih.between [paren] [close] fun h => .grouping hp h hc
  | @super t dot method a ht hd hm => exact word_tokens [t, dot, method] fun _ => .super ht hd hm

theorem Optionally.word {e : Option Expr} (h : Optionally b a e) : Word Optionally b a e := by
  cases h with
  | none => exact word_tokens [] fun _ => .none
  | some h => exact h.word.behind [] .some

theorem Parameters.word {names : List Token} (h : Parameters b a names) :
    Word Parameters b a names := by
  induction h with
  | @last name a hn => exact word_tokens [name] fun _ => .last hn
  | @more name comma b a names hn hc _ ih => exact ih.behind [name, comma] (.more hn hc)

theorem ParameterList.word {names : List Token} (h : ParameterList b a names) :
    Word ParameterList b a names := by
  cases h with
  | none => exact word_tokens [] fun _ => .none
  | some h short => exact h.word.behind [] fun h => .some h short

theorem Superclass.word {parent : Option Occurrence} (h : Superclass b a parent) :
    Word Superclass b a parent := by
  cases h with
  | none => exact word_tokens [] fun _ => .none
  | @some less name a hl hn => exact word_tokens [less, name] fun _ => .some hl hn

theorem VarDecl.word {s : Stmt} (h : VarDecl b a s) : Word VarDecl b a s := by
  cases h with
  | @plain keyword name semicolon a hk hn hs =>
      exact word_tokens [keyword, name, semicolon] fun _ => .plain hk hn hs
  | @initialized keyword name equals semicolon b a e hk hn he h hs =>
      exact h.word.between [keyword, name, equals] [semicolon]
        fun h => .initialized hk hn he h hs

theorem ExprStmt.word {s : Stmt} (h : ExprStmt b a s) : Word ExprStmt b a s := by
  cases h with
  | @mk semicolon b a e h hs => exact h.word.between [] [semicolon] fun h => .mk h hs

theorem ForFirst.word {s : Option Stmt} (h : ForFirst b a s) : Word ForFirst b a s := by
  cases h with
  | varDecl h => exact h.word.behind [] .varDecl
  | exprStmt h => exact h.word.behind [] .exprStmt
  | @none semicolon a hs => exact word_tokens [semicolon] fun _ => .none hs

theorem DerivesStmt.word {X : StmtSymbol} {tree : X.Tree} (h : DerivesStmt X b a tree) :
    Word (DerivesStmt X) b a tree := by
  induction h with
  | noDeclaration => exact word_tokens [] fun _ => .noDeclaration
  | declarations _ _ ih ih' => exact ih.both [] [] ih' .declarations
  | @classDecl keyword name start close b c a parent methods hk hn h hs _ hc ih =>
      obtain ⟨p, rfl, superclass⟩ := h.word
      obtain ⟨w, rfl, derives⟩ := ih
      refine ⟨[keyword, name] ++ p ++ start :: w ++ [close], by simp, fun rest => ?_⟩
      simpa using .classDecl hk hn (superclass _) hs (derives (close :: rest)) hc
  | @funDecl keyword b a f hk _ ih => exact ih.behind [keyword] (.funDecl hk)
  | varDecl h => exact h.word.behind [] .varDecl
  | statement _ ih => exact ih.behind [] .statement
  | noFunction => exact word_tokens [] fun _ => .noFunction
  | functions _ _ ih ih' => exact ih.both [] [] ih' .functions
  | @function name paren close start stop b c a params body hn hp h hc hs _ ht ih =>
      obtain ⟨p, rfl, list⟩ := h.word
      obtain ⟨w, rfl, derives⟩ := ih
      refine ⟨[name, paren] ++ p ++ close :: start :: w ++ [stop], by simp, fun rest => ?_⟩
      simpa using .function hn hp (list _) hc hs (derives (stop :: rest)) ht
  | exprStmt h => exact h.word.behind [] .exprStmt
  | @forStmt closed keyword paren semicolon close b c d e a first condition increment body hk hp
      h h' hs h'' hc _ ih =>
      obtain ⟨f, rfl, firsts⟩ := h.word
      obtain ⟨t, rfl, conditions⟩ := h'.word
      obtain ⟨i, rfl, increments⟩ := h''.word
      obtain ⟨w, rfl, derives⟩ := ih
      refine ⟨[keyword, paren] ++ f ++ t ++ semicolon :: i ++ close :: w, by simp, fun rest => ?_⟩
      simpa using .forStmt hk hp (firsts _) (conditions _) hs (increments _) hc (derives rest)
  | @ifStmt keyword paren close b c a condition thenBranch hk hp h hc _ ih =>
      exact h.word.both [keyword, paren] [close] ih fun h h' => .ifStmt hk hp h hc h'
  | @ifElse closed keyword paren close other b c d a condition thenBranch elseBranch hk hp h hc _ ho
      _ ih ih' =>
      obtain ⟨t, rfl, condition⟩ := h.word
      obtain ⟨w, rfl, derives⟩ := ih
      obtain ⟨v, rfl, derives'⟩ := ih'
      refine ⟨[keyword, paren] ++ t ++ close :: w ++ other :: v, by simp, fun rest => ?_⟩
      simpa using .ifElse hk hp (condition _) hc (derives _) ho (derives' rest)
  | @printStmt closed keyword semicolon b a e hk h hs =>
      exact h.word.between [keyword] [semicolon] fun h => .printStmt hk h hs
  | @returnStmt closed keyword semicolon b a value hk h hs =>
      exact h.word.between [keyword] [semicolon] fun h => .returnStmt hk h hs
  | @whileStmt closed keyword paren close b c a condition body hk hp h hc _ ih =>
      exact h.word.both [keyword, paren] [close] ih fun h h' => .whileStmt hk hp h hc h'
  | @breakStmt closed keyword semicolon a hk hs =>
      exact word_tokens [keyword, semicolon] fun _ => .breakStmt hk hs
  | @continueStmt closed keyword semicolon a hk hs =>
      exact word_tokens [keyword, semicolon] fun _ => .continueStmt hk hs
  | @block closed start stop b a body hs _ ht ih =>
      exact ih.between [start] [stop] fun h => .block hs h ht

def EndBehind (b a : List Token) : Prop := ∀ t ∈ b, t.kind = .eof → t ∈ a

theorem operators_eof (l : Level) : l.operators .eof = false := by
  cases l <;> rfl

theorem Derives.endBehind {X : Symbol} {tree : X.Tree} (h : Derives limited X b a tree) :
    EndBehind b a := by
  unfold EndBehind
  induction h with
  | levelOperator =>
      have := operators_eof
      grind
  | _ => grind

theorem Optionally.endBehind {e : Option Expr} (h : Optionally b a e) : EndBehind b a := by
  cases h with
  | none => exact fun t mem _ => mem
  | some h => exact h.endBehind

theorem Parameters.endBehind {names : List Token} (h : Parameters b a names) : EndBehind b a := by
  unfold EndBehind
  induction h <;> grind

theorem ParameterList.endBehind {names : List Token} (h : ParameterList b a names) :
    EndBehind b a := by
  cases h with
  | none => exact fun t mem _ => mem
  | some h => exact h.endBehind

theorem Superclass.endBehind {parent : Option Occurrence} (h : Superclass b a parent) :
    EndBehind b a := by
  unfold EndBehind
  cases h <;> grind

theorem VarDecl.endBehind {s : Stmt} (h : VarDecl b a s) : EndBehind b a := by
  unfold EndBehind
  cases h with
  | plain => grind
  | initialized _ _ _ h =>
      have := h.endBehind
      grind [EndBehind]

theorem ExprStmt.endBehind {s : Stmt} (h : ExprStmt b a s) : EndBehind b a := by
  cases h with
  | mk h =>
      have := h.endBehind
      grind [EndBehind]

theorem ForFirst.endBehind {s : Option Stmt} (h : ForFirst b a s) : EndBehind b a := by
  cases h with
  | varDecl h => exact h.endBehind
  | exprStmt h => exact h.endBehind
  | none => grind [EndBehind]

theorem DerivesStmt.endBehind {X : StmtSymbol} {tree : X.Tree} (h : DerivesStmt X b a tree) :
    EndBehind b a := by
  unfold EndBehind
  induction h with
  | classDecl _ _ h =>
      have := h.endBehind
      grind [EndBehind]
  | varDecl h => exact h.endBehind
  | function _ _ h =>
      have := h.endBehind
      simp only [EndBehind, List.mem_cons] at *
      grind
  | exprStmt h => exact h.endBehind
  | forStmt _ _ h h' _ h'' =>
      have := h.endBehind
      have := h'.endBehind
      have := h''.endBehind
      grind [EndBehind]
  | ifStmt _ _ h | ifElse _ _ h | whileStmt _ _ h | printStmt _ h =>
      have := h.endBehind
      grind [EndBehind]
  | returnStmt _ h =>
      have := h.endBehind
      grind [EndBehind]
  | _ => grind

end ClassScript.Grammar
