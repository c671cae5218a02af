import ClassScript.Syntax.Printer
import ClassScript.Proofs.Token.Rules

namespace ClassScript

open Scan

inductive Form where
  | word (text : String)
  | list (parts : List Form)

namespace Form

mutual

def text : Form → String
  | word text => text
  | list parts => prefixForm (texts parts)

def texts : List Form → List String
  | [] => []
  | f :: fs => f.text :: texts fs

end

def inWord (c : Char) : Bool := c != ' ' && c != '(' && c != ')'

structure IsWord (text : String) : Prop where
  some : text.toList ≠ []
  only : ∀ c ∈ text.toList, inWord c

inductive Readable : Form → Prop
  | word {text : String} : IsWord text → Readable (word text)
  | list {parts : List Form} : (∀ f ∈ parts, Readable f) → Readable (list parts)

variable {f g : Form} {fs gs parts : List Form} {rest rest' : List Char}

def behind : List Form → List Char
  | [] => [')']
  | f :: fs => ' ' :: (f.text.toList ++ behind fs)

theorem toList_text_nil : (list []).text.toList = ['(', ')'] := rfl

theorem toList_text_cons (f : Form) (fs : List Form) :
    (list (f :: fs)).text.toList = '(' :: (f.text.toList ++ behind fs) := by
  have inner : (String.intercalate " " (texts (f :: fs))).toList ++ [')'] =
      f.text.toList ++ behind fs := by
    induction fs generalizing f with
    | nil => rw [texts, texts, String.intercalate_singleton, behind]
    | cons g gs ih =>
        rw [texts, texts, String.intercalate_cons_cons, ← texts, String.toList_append,
          String.toList_append, List.append_assoc, List.append_assoc, ih, behind]
        rfl
  rw [text, prefixForm, String.toList_append, String.toList_append, List.append_assoc]
  exact congrArg ('(' :: ·) inner

theorem stops_behind (fs : List Form) (rest : List Char) : Stops inWord (behind fs ++ rest) := by
  cases fs with
  | nil =>
      rintro c ⟨⟩
      rfl
  | cons f fs =>
      rintro c ⟨⟩
      rfl

theorem front_list (parts : List Form) :
    ∃ rest, (list parts).text.toList = '(' :: rest := by
  cases parts with
  | nil => exact ⟨_, toList_text_nil⟩
  | cons f fs => exact ⟨_, toList_text_cons f fs⟩

theorem IsWord.front {text : String} (h : IsWord text) :
    ∃ c rest, text.toList = c :: rest ∧ inWord c := by
  obtain ⟨c, rest, eq⟩ := List.exists_cons_of_ne_nil h.some
  exact ⟨c, rest, eq, h.only c (eq ▸ List.mem_cons_self)⟩

theorem IsWord.ne_list {text : String} (h : IsWord text) :
    text.toList ++ rest ≠ (list parts).text.toList ++ rest' := by
  obtain ⟨c, tail, eq, inside⟩ := h.front
  obtain ⟨tail', eq'⟩ := front_list parts
  rw [eq, eq']
  intro same
  obtain ⟨rfl, -⟩ := List.cons.inj same
  cases inside

theorem Readable.ne_close (h : f.Readable) : ')' :: rest ≠ f.text.toList ++ rest' := by
  cases h with
  | word h =>
      obtain ⟨c, tail, eq, inside⟩ := h.front
      rw [text, eq]
      intro same
      obtain ⟨rfl, -⟩ := List.cons.inj same
      cases inside
  | @list parts _ =>
      obtain ⟨tail, eq⟩ := front_list parts
      rw [eq]
      exact fun same => nomatch (List.cons.inj same).1

theorem Readable.nil_ne_cons (h : f.Readable) :
    (Form.list []).text.toList ++ rest ≠ (Form.list (f :: fs)).text.toList ++ rest' := by
  rw [toList_text_nil, toList_text_cons]
  simp only [List.cons_append, List.append_assoc]
  exact fun same => h.ne_close (List.cons.inj same).2

mutual

theorem text_append_inj : (f g : Form) → f.Readable → g.Readable → {rest rest' : List Char} →
    Stops inWord rest → Stops inWord rest' →
    f.text.toList ++ rest = g.text.toList ++ rest' → f = g ∧ rest = rest'
  | word _, word _, .word hf, .word hg, _, _, ends, ends', same => by
      obtain ⟨words, rests⟩ := append_inj_of_stops hf.only hg.only ends ends' same
      exact ⟨congrArg word (String.toList_inj.mp words), rests⟩
  | word _, list _, .word hf, _, _, _, _, _, same => absurd same hf.ne_list
  | list _, word _, _, .word hg, _, _, _, _, same => absurd same.symm hg.ne_list
  | list [], list [], _, _, _, _, _, _, same => ⟨rfl, List.append_cancel_left same⟩
  | list [], list (g :: gs), _, .list hg, _, _, _, _, same =>
      absurd same (hg g List.mem_cons_self).nil_ne_cons
  | list (f :: fs), list [], .list hf, _, _, _, _, _, same =>
      absurd same.symm (hf f List.mem_cons_self).nil_ne_cons
  | list (f :: fs), list (g :: gs), .list hf, .list hg, rest, rest', _, _, same => by
      rw [toList_text_cons, toList_text_cons, List.cons_append, List.cons_append,
        List.append_assoc, List.append_assoc] at same
      rw [List.forall_mem_cons] at hf hg
      obtain ⟨rfl, others⟩ := text_append_inj f g hf.1 hg.1 (stops_behind fs rest)
        (stops_behind gs rest') (List.cons.inj same).2
      obtain ⟨rfl, rests⟩ := behind_append_inj fs gs hf.2 hg.2 others
      exact ⟨rfl, rests⟩

theorem behind_append_inj : (fs gs : List Form) → (∀ f ∈ fs, f.Readable) →
    (∀ g ∈ gs, g.Readable) → {rest rest' : List Char} →
    behind fs ++ rest = behind gs ++ rest' → fs = gs ∧ rest = rest'
  | [], [], _, _, _, _, same => ⟨rfl, (List.cons.inj same).2⟩
  | [], _ :: _, _, _, _, _, same | _ :: _, [], _, _, _, _, same =>
      nomatch (List.cons.inj same).1
  | f :: fs, g :: gs, hf, hg, rest, rest', same => by
      rw [behind, behind, List.cons_append, List.cons_append, List.append_assoc,
        List.append_assoc] at same
      rw [List.forall_mem_cons] at hf hg
      obtain ⟨rfl, others⟩ := text_append_inj f g hf.1 hg.1 (stops_behind fs rest)
        (stops_behind gs rest') (List.cons.inj same).2
      obtain ⟨rfl, rests⟩ := behind_append_inj fs gs hf.2 hg.2 others
      exact ⟨rfl, rests⟩

end

theorem text_injective (hf : f.Readable) (hg : g.Readable) (same : f.text = g.text) : f = g := by
  have ends : Stops inWord [] := nofun
  exact (text_append_inj f g hf hg ends ends (by rw [same])).1

end Form

end ClassScript
