import Std.Data.TreeSet
import ClassScript.Store

namespace ClassScript.Store

abbrev Marks := Std.TreeSet Nat

def referencesOf (s : Store) (id : Address) : List Address :=
  match s.cells[id]? with
  | some cell => cell.references
  | none => []

/-- Marks what the pending addresses lead to, at most `bound` of them for the first time. -/
def markFrom (s : Store) : (bound : Nat) → (pending : List Address) → Marks → Marks
  | 0, _, marks => marks
  | bound + 1, pending, marks =>
    match pending.dropWhile marks.contains with
    | [] => marks
    | id :: rest => s.markFrom bound (s.referencesOf id ++ rest) (marks.insert id)

def marked (s : Store) (root : Address) : Marks := s.markFrom s.cells.size [root] ∅

def emptyAll (cells : Array Cell) (ids : Array Address) : Array Cell :=
  ids.foldl (fun cells id => cells.modify id Cell.emptied) cells

/-- Releases every registered scope and instance that cannot be reached from a root. -/
def collect (s : Store) (root : Address) : Store :=
  let marks := s.marked root
  let keptScopes := s.scopes.filter marks.contains
  let keptInstances := s.instances.filter marks.contains
  let released := (s.scopes ++ s.instances).filter (!marks.contains ·)
  { cells := emptyAll s.cells released
    scopes := keptScopes
    instances := keptInstances
    threshold := max firstThreshold (2 * (keptScopes.size + keptInstances.size)) }

def releaseAll (s : Store) (root : Address) : Store :=
  { s with
    cells := emptyAll s.cells ((s.scopes ++ s.instances).push root)
    scopes := #[]
    instances := #[] }

def shouldCollect (s : Store) : Bool := s.threshold ≤ s.scopes.size + s.instances.size

end ClassScript.Store
