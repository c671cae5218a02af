import Mathlib.Tactic.Common
import ClassScript.Token.Scan

namespace ClassScript

def Token.Spelled (t : Token) : Prop :=
  t.kind = .identifier → TokenKind.ofWord t.lexeme = .identifier

instance (t : Token) : Decidable t.Spelled :=
  inferInstanceAs (Decidable (t.kind = .identifier → TokenKind.ofWord t.lexeme = .identifier))

theorem Token.Spelled.not_reserved {t : Token} (h : t.Spelled) (kind : t.kind = .identifier) :
    t.lexeme ≠ "this" ∧ t.lexeme ≠ "super" := by
  have word := h kind
  constructor <;> intro eq <;> rw [eq] at word <;> revert word <;> decide

def TokenKind.isWord (kind : TokenKind) : Bool := kind == identifier || keywords.any (·.2 == kind)

def Token.Worded (t : Token) : Prop :=
  t.kind.isWord = true → TokenKind.ofWord t.lexeme = t.kind

theorem Token.Worded.spelled {t : Token} (h : t.Worded) : t.Spelled := by
  intro kind
  rw [h (kind ▸ rfl), kind]

theorem TokenKind.mem_keywords {word : String} {kind : TokenKind} (h : ofWord word = kind)
    (ne : kind ≠ .identifier) : (word, kind) ∈ keywords := by
  cases found : keywords.lookup word with
  | none =>
      rw [ofWord, found] at h
      exact absurd h.symm ne
  | some k =>
      rw [ofWord, found] at h
      obtain rfl : k = kind := h
      obtain ⟨front, behind, eq, -⟩ := List.lookup_eq_some_iff.mp found
      rw [eq]
      exact List.mem_append_right _ List.mem_cons_self

theorem Token.Worded.this {t : Token} (h : t.Worded) (kind : t.kind = .kwThis) :
    t.lexeme = "this" := by
  have listed := TokenKind.mem_keywords ((h (kind ▸ rfl)).trans kind) nofun
  simpa [TokenKind.keywords] using listed

theorem Token.Worded.super {t : Token} (h : t.Worded) (kind : t.kind = .kwSuper) :
    t.lexeme = "super" := by
  have listed := TokenKind.mem_keywords ((h (kind ▸ rfl)).trans kind) nofun
  simpa [TokenKind.keywords] using listed

namespace Scan

def Piece.Worded (first : Char) (piece : Piece) : Prop :=
  ∀ kind literal, piece.meaning = .token kind literal → kind.isWord = true →
    TokenKind.ofWord (String.ofList (first :: piece.tail)) = kind

theorem worded_of_meaning {first : Char} {piece : Piece}
    (h : ∀ kind literal, piece.meaning = .token kind literal → kind.isWord = false) :
    piece.Worded first := by
  intro kind literal eq word
  rw [h kind literal eq] at word
  cases word

theorem worded_single {kind : TokenKind} {rest : List Char} (first : Char)
    (h : kind.isWord = false) : (single kind rest).Worded first :=
  worded_of_meaning fun _ _ eq => by
    cases eq
    exact h

theorem worded_orEqual {long short : TokenKind} {text : List Char} (first : Char)
    (hl : long.isWord = false) (hs : short.isWord = false) :
    (orEqual long short text).Worded first := by
  unfold orEqual
  split
  · exact worded_of_meaning fun _ _ eq => by
      cases eq
      exact hl
  · exact worded_single first hs

theorem worded_slashOrComment {text : List Char} (first : Char) :
    (slashOrComment text).Worded first := by
  unfold slashOrComment
  split
  · exact worded_of_meaning nofun
  · exact worded_single first rfl

theorem worded_stringTail {text : List Char} (first : Char) : (stringTail text).Worded first := by
  apply worded_of_meaning
  unfold stringTail
  intro kind literal eq
  split at eq <;> cases eq
  rfl

theorem worded_numberTail {text : List Char} (first : Char) :
    (numberTail first text).Worded first := by
  apply worded_of_meaning
  unfold numberTail
  intro kind literal eq
  dsimp only at eq
  split at eq
  · split at eq <;> cases eq <;> rfl
  · cases eq
    rfl

theorem worded_wordTail {text : List Char} (first : Char) :
    (wordTail first text).Worded first := by
  intro kind literal eq _
  simp only [wordTail, Meaning.token.injEq] at eq
  exact eq.1

theorem worded_firstPiece (first : Char) (text : List Char) :
    (firstPiece first text).Worded first := by
  unfold firstPiece
  split
  case h_11 | h_12 | h_13 | h_14 => exact worded_orEqual _ rfl rfl
  case h_15 => exact worded_slashOrComment _
  case h_16 | h_17 | h_18 | h_19 => exact worded_of_meaning nofun
  case h_20 => exact worded_stringTail _
  case h_21 =>
      split
      · exact worded_numberTail _
      · split
        · exact worded_wordTail _
        · exact worded_of_meaning nofun
  all_goals exact worded_single _ rfl

end Scan

theorem worded_scanFrom {line : Nat} {text : List Char} {t : Token}
    (h : .ok t ∈ scanFrom line text) : t.Worded := by
  fun_induction scanFrom line text with
  | case1 line =>
      cases List.mem_singleton.mp h
      exact nofun
  | case2 line first text piece line' meaning ih => exact ih h
  | case3 line first text piece line' kind literal meaning ih =>
      rcases List.mem_cons.mp h with eq | h
      · cases eq
        exact Scan.worded_firstPiece first text kind literal meaning
      · exact ih h
  | case4 line first text piece line' fault meaning ih =>
      rcases List.mem_cons.mp h with eq | h
      · cases eq
      · exact ih h

theorem mem_of_mapM_id {ε α : Type} {xs : List (Except ε α)} {ys : List α}
    (h : xs.mapM id = .ok ys) {y : α} (hy : y ∈ ys) : .ok y ∈ xs := by
  induction xs generalizing ys with
  | nil =>
      cases h
      cases hy
  | cons x xs ih =>
      rw [List.mapM_cons] at h
      cases x with
      | error e => cases h
      | ok a =>
          cases rest : xs.mapM id with
          | error e =>
              rw [rest] at h
              cases h
          | ok zs =>
              rw [rest] at h
              cases h
              rcases List.mem_cons.mp hy with rfl | hy
              · exact List.mem_cons_self
              · exact List.mem_cons_of_mem _ (ih rest hy)

theorem worded_lex {source : String} {tokens : List Token} (h : lex source = .ok tokens) :
    ∀ t ∈ tokens, t.Worded := fun _ mem => worded_scanFrom (mem_of_mapM_id h mem)

theorem spelled_lex {source : String} {tokens : List Token} (h : lex source = .ok tokens) :
    ∀ t ∈ tokens, t.Spelled := fun t mem => (worded_lex h t mem).spelled

end ClassScript
