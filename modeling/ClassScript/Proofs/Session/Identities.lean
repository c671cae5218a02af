import Mathlib
import ClassScript.Proofs.Binding.Inserted
import ClassScript.Proofs.Parser.Programs
import ClassScript.Proofs.Run.Order
import ClassScript.Proofs.Session.Reached

namespace ClassScript

open Binding

inductive Request where
  | program (tokens : List Token)
  | expression (tokens : List Token)

/-- A parse with the identities from `first` up to `next`, and what it returned: the statements of a
program, an expression as a statement, or nothing. -/
structure Drawn where
  first : Nat
  next : Nat
  returned : List Stmt

namespace Request

def drawn (firstId : Nat) : Request → Drawn
  | program tokens =>
    let parsed := parseProgram firstId tokens
    ⟨firstId, parsed.nextId, parsed.result.toOption.getD []⟩
  | expression tokens =>
    let parsed := parseExpression firstId tokens
    ⟨firstId, parsed.nextId, (parsed.result.toOption.map Stmt.expression).toList⟩

/-- The parses of a session, each with the counter where the one before has left it. -/
def drawnAll : Nat → List Request → List Drawn
  | _, [] => []
  | firstId, r :: rest => r.drawn firstId :: drawnAll (r.drawn firstId).next rest

end Request

namespace Drawn

def ids (d : Drawn) : List Nat := stmtsIds d.returned

/-- The counter goes on, and the identities are different and from the range that was used up. -/
structure Lawful (d : Drawn) : Prop where
  order : d.first ≤ d.next
  ids : Parser.IdsIn d.first d.next d.ids

end Drawn

variable {firstId : Nat} {requests : List Request} {d p q : Drawn} {m n : Machine} {host : Host}
  {fuel i : Nat} {program : List Stmt}

theorem lawful_drawn (firstId : Nat) (r : Request) : (r.drawn firstId).Lawful := by
  cases r with
  | program tokens =>
      obtain ⟨order, read⟩ := parseProgram_since firstId tokens
      refine ⟨order, ?_⟩
      unfold Drawn.ids Request.drawn
      cases result : (parseProgram firstId tokens).result with
      | error faults =>
          simp only [result]
          exact Parser.idsIn_nil
      | ok program =>
          simp only [result]
          exact (read program result).1
  | expression tokens =>
      obtain ⟨order, read⟩ := parseExpression_since firstId tokens
      refine ⟨order, ?_⟩
      unfold Drawn.ids Request.drawn
      cases result : (parseExpression firstId tokens).result with
      | error fault =>
          simp only [result]
          exact Parser.idsIn_nil
      | ok e =>
          have single : stmtsIds [.expression e] = e.ids := List.append_nil _
          simp only [result]
          exact single ▸ (read e result).1

theorem lawful_drawnAll (firstId : Nat) (requests : List Request) :
    ∀ d ∈ Request.drawnAll firstId requests, d.Lawful := by
  induction requests generalizing firstId with
  | nil => exact nofun
  | cons r rest ih =>
      intro d mem
      rcases List.mem_cons.mp mem with rfl | mem
      · exact lawful_drawn firstId r
      · exact ih _ d mem

theorem first_le_drawnAll (firstId : Nat) (requests : List Request) :
    ∀ d ∈ Request.drawnAll firstId requests, firstId ≤ d.first := by
  induction requests generalizing firstId with
  | nil => exact nofun
  | cons r rest ih =>
      intro d mem
      rcases List.mem_cons.mp mem with rfl | mem
      · cases r <;> exact Nat.le_refl _
      · have start : (r.drawn firstId).first = firstId := by cases r <;> rfl
        calc firstId
            = (r.drawn firstId).first := start.symm
          _ ≤ (r.drawn firstId).next := (lawful_drawn firstId r).order
          _ ≤ d.first := ih _ d mem

theorem pairwise_drawnAll (firstId : Nat) (requests : List Request) :
    (Request.drawnAll firstId requests).Pairwise fun p q => p.next ≤ q.first := by
  induction requests generalizing firstId with
  | nil => exact .nil
  | cons r rest ih => exact .cons (first_le_drawnAll _ rest) (ih _)

theorem disjoint_of_order (hp : p.Lawful) (hq : q.Lawful) (order : p.next ≤ q.first) :
    p.ids.Disjoint q.ids := by
  intro i hi hi'
  have below := (hp.ids.range i hi).2
  have above := (hq.ids.range i hi').1
  omega

theorem nodup_drawnAll (firstId : Nat) (requests : List Request) :
    ((Request.drawnAll firstId requests).flatMap Drawn.ids).Nodup := by
  apply List.nodup_flatMap.mpr
  have lawful := lawful_drawnAll firstId requests
  refine ⟨fun d mem => (lawful d mem).ids.nodup, ?_⟩
  exact (pairwise_drawnAll firstId requests).imp_of_mem fun hp hq order =>
    disjoint_of_order (lawful _ hp) (lawful _ hq) order

theorem disjoint_of_nodup {before after : List Drawn}
    (nodup : ((before ++ d :: after).flatMap Drawn.ids).Nodup) (other : q ∈ before ++ after) :
    d.ids.Disjoint q.ids := by
  have apart := (List.nodup_flatMap.mp nodup).2
  obtain ⟨-, ofAfter, ofBefore⟩ := List.pairwise_append.mp apart
  rcases List.mem_append.mp other with front | behind
  · exact (ofBefore q front d List.mem_cons_self).symm
  · exact (List.pairwise_cons.mp ofAfter).1 q behind

namespace Machine

theorem exists_recorded (program : List Stmt) (i : Nat) : ∃ entry : Option Nat,
    (i ∉ stmtsIds program → entry = none) ∧
      ∀ m : Machine, (m.analyse program).2.distances[i]? = entry.or m.distances[i]? := by
  obtain ⟨entries, fault, own, runs⟩ := inserts_program program
  obtain ⟨entry, last⟩ := exists_entry entries i
  refine ⟨entry, fun other => ?_, fun m => ?_⟩
  · have unknown := last ∅
    rw [inserted_others own other, Std.TreeMap.getElem?_emptyc] at unknown
    cases entry with
    | none => rfl
    | some distance => cases unknown
  · have analysed : (m.analyse program).2.distances = inserted entries m.distances := by
      unfold analyse
      rw [runs]
      cases fault <;> rfl
    rw [analysed, last]

theorem analyse_others (other : i ∉ stmtsIds program) (m : Machine) :
    (m.analyse program).2.distances[i]? = m.distances[i]? := by
  obtain ⟨entry, unknown, recorded⟩ := exists_recorded program i
  rw [recorded, unknown other]
  rfl

theorem analyse_again (same : n.distances[i]? = (m.analyse program).2.distances[i]?) :
    (n.analyse program).2.distances[i]? = (m.analyse program).2.distances[i]? := by
  obtain ⟨entry, -, recorded⟩ := exists_recorded program i
  rw [recorded, same, recorded]
  cases entry <;> rfl

theorem perform_distances {α : Type} {part : Run α} (restores : Run.Restores part) (m : Machine) :
    (m.perform part).2.distances = m.distances :=
  of_perform ((restores m).imp (fun _ _ hn => hn.distances) fun _ _ hn => hn.distances)

theorem interpret_distances (m : Machine) (program : List Stmt) :
    (m.interpret host fuel program).2.distances = (m.analyse program).2.distances := by
  cases accepted : (m.analyse program).1 with
  | error e => rw [interpret_rejected accepted]
  | ok =>
      rw [interpret_accepted accepted]
      exact perform_distances (Run.restores_program host fuel program) _

def interpretAll (host : Host) (fuel : Nat) (m : Machine) (programs : List (List Stmt)) : Machine :=
  programs.foldl (fun m program => (m.interpret host fuel program).2) m

theorem interpretAll_others {programs : List (List Stmt)} (host : Host) (fuel : Nat)
    (others : ∀ program ∈ programs, i ∉ stmtsIds program) (m : Machine) :
    (m.interpretAll host fuel programs).distances[i]? = m.distances[i]? := by
  induction programs generalizing m with
  | nil => rfl
  | cons program rest ih =>
      have behind : (m.interpretAll host fuel (program :: rest)).distances[i]? =
          (m.interpret host fuel program).2.distances[i]? :=
        ih (fun other mem => others other (List.mem_cons_of_mem _ mem)) _
      rw [behind, interpret_distances, analyse_others (others program List.mem_cons_self)]

end Machine

/-- In all that is returned by parses on one counter, occurrences have different identities, each
from the range of its parse. So a program keeps the distances that are recorded for it while others
are analysed and run, and gets the same ones when it is analysed again. -/
theorem occurrences_identified (firstId : Nat) (requests : List Request) :
    let parses := Request.drawnAll firstId requests
    (parses.flatMap Drawn.ids).Nodup ∧
    (∀ d ∈ parses, ∀ i ∈ d.ids, d.first ≤ i ∧ i < d.next) ∧
    ∀ before d after, parses = before ++ d :: after →
      ∀ others ⊆ (before ++ after).map Drawn.returned,
        ∀ (host : Host) (fuel : Nat) (m : Machine), ∀ i ∈ d.ids,
          let analysed := (m.analyse d.returned).2
          let n := analysed.interpretAll host fuel others
          n.distances[i]? = analysed.distances[i]? ∧
            (n.analyse d.returned).2.distances[i]? = analysed.distances[i]? := by
  have nodup := nodup_drawnAll firstId requests
  refine ⟨nodup, fun d mem => (lawful_drawnAll _ _ d mem).ids.range, ?_⟩
  intro before d after split others sub host fuel m i mem
  have apart : ∀ program ∈ others, i ∉ stmtsIds program := by
    intro program inOthers
    obtain ⟨q, other, rfl⟩ := List.mem_map.mp (sub inOthers)
    rw [split] at nodup
    exact disjoint_of_nodup nodup other mem
  have kept := Machine.interpretAll_others host fuel apart (m.analyse d.returned).2
  exact ⟨kept, Machine.analyse_again kept⟩

def markedName : Token := ⟨.identifier, "a", none, 1⟩

def markedTokens : List Token :=
  [⟨.leftBrace, "\x7b", none, 1⟩, ⟨.kwVar, "var", none, 1⟩, markedName, ⟨.semicolon, ";", none, 1⟩,
    ⟨.kwPrint, "print", none, 1⟩, markedName, ⟨.semicolon, ";", none, 1⟩,
    ⟨.rightBrace, "\x7d", none, 1⟩, .endOfInput 1]

def markedProgram (id : Nat) : List Stmt :=
  [.block [.varDecl markedName none, .print (.var ⟨id, markedName⟩)] 1]

theorem occurrences_identified_sameText :
    Request.drawnAll 0 [.program markedTokens,
        .expression [markedName, markedName, .endOfInput 1], .program markedTokens] =
      [⟨0, 1, markedProgram 0⟩, ⟨1, 2, []⟩, ⟨2, 3, markedProgram 2⟩] ∧
    ∀ (host : Host) (fuel : Nat),
      let analysed := (Machine.initial.analyse (markedProgram 0)).2
      let n := analysed.interpretAll host fuel [markedProgram 2, markedProgram 2]
      n.distances[0]? = some 0 ∧ (n.analyse (markedProgram 0)).2.distances[0]? = some 0 := by
  have drawn : Request.drawnAll 0 [.program markedTokens,
      .expression [markedName, markedName, .endOfInput 1], .program markedTokens] =
      [⟨0, 1, markedProgram 0⟩, ⟨1, 2, []⟩, ⟨2, 3, markedProgram 2⟩] := by cbv
  refine ⟨drawn, fun host fuel => ?_⟩
  have recorded : (Machine.initial.analyse (markedProgram 0)).2.distances[0]? = some 0 := rfl
  have kept := (occurrences_identified 0 _).2.2 [] _ _ drawn [markedProgram 2, markedProgram 2]
    (by simp) host fuel Machine.initial 0 (by decide)
  exact recorded ▸ kept

end ClassScript
