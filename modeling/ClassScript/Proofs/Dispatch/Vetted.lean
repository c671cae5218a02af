import ClassScript.Proofs.Dispatch.Moments
import ClassScript.Proofs.Grammar.Nodes
import ClassScript.Proofs.Run.Overflow

namespace ClassScript

open Binding Store

/-- The faults for what no accepted program does. -/
inductive RuntimeFault.Defensive : RuntimeFault → Prop
  | unary (operator : String) : Defensive (.invalidUnary operator)
  | binary (operator : String) : Defensive (.invalidBinary operator)
  | super : Defensive .invalidSuper
  | outside : Defensive .superOutsideClass
  | reserved {name : String} : Reserved name → Defensive (.undefinedVariable name)

namespace RuntimeFault

variable {fault : RuntimeFault}

theorem Defensive.special (h : fault.Defensive) : fault.plain = false := by cases h <;> rfl

theorem Defensive.name {name : String} (h : fault.Defensive)
    (is : fault = .undefinedVariable name) : Reserved name := by
  cases h with
  | reserved reserved =>
      cases is
      exact reserved
  | _ => cases is

end RuntimeFault

namespace Operator

variable {operator : Token} {v l r : Value} {e : RuntimeError} {kind : TokenKind}

def HandlesUnary (kind : TokenKind) : Prop :=
  ∀ operator v e, operator.kind = kind → unary operator v = .error e → ∀ text,
    e.fault ≠ .invalidUnary text

def HandlesBinary (kind : TokenKind) : Prop :=
  ∀ operator l r e, operator.kind = kind → binary operator l r = .error e → ∀ text,
    e.fault ≠ .invalidBinary text

theorem unary_plain (known : operator.kind ∈ unaryOperators)
    (failed : unary operator v = .error e) : e.fault.plain = true := by
  unfold unary at failed
  split at failed
  · split at failed <;> cases failed
    rfl
  · cases failed
  · simp_all [unaryOperators]

theorem numeric_plain {apply : Float → Float → Value}
    (failed : numeric operator l r apply = .error e) : e.fault.plain = true := by
  unfold numeric at failed
  split at failed <;> cases failed
  rfl

theorem binary_plain (known : operator.kind ∈ binaryOperators)
    (failed : binary operator l r = .error e) : e.fault.plain = true := by
  unfold binary at failed
  split at failed
  case h_1 =>
      unfold add at failed
      split at failed <;> cases failed
      rfl
  case h_9 | h_10 => cases failed
  case h_11 => simp_all [binaryOperators]
  all_goals exact numeric_plain failed

theorem handlesUnary_iff : HandlesUnary kind ↔ kind ∈ unaryOperators := by
  constructor
  · intro handles
    by_contra other
    refine handles ⟨kind, "", none, 0⟩ .nil ⟨.invalidUnary "", 0⟩ rfl ?_ "" rfl
    simp only [unaryOperators, List.mem_cons, List.not_mem_nil, or_false, not_or] at other
    unfold unary
    split
    · exact absurd ‹_› other.2
    · exact absurd ‹_› other.1
    · rfl
  · rintro known operator v e rfl failed text is
    have plain := unary_plain known failed
    rw [is] at plain
    cases plain

theorem handlesBinary_iff : HandlesBinary kind ↔ kind ∈ binaryOperators := by
  constructor
  · intro handles
    by_contra other
    refine handles ⟨kind, "", none, 0⟩ .nil .nil ⟨.invalidBinary "", 0⟩ rfl ?_ "" rfl
    unfold binary
    split
    case h_11 => rfl
    all_goals exact absurd (by simp_all [binaryOperators]) other
  · rintro known operator l r e rfl failed text is
    have plain := binary_plain known failed
    rw [is] at plain
    cases plain

end Operator

namespace Run

variable {src : Sources} {setting : Setting} {m n o : Machine} {host : Host} {fuel line : Nat}
  {first p : Moment} {keyword : Occurrence} {method : Token} {e : RuntimeError}
  {printed : Array String}

theorem lookup_receiver (inside : m.Inside src setting)
    (mem : (setting, .this keyword) ∈ src.mentions)
    (known : Known m.distances (setting, .this keyword)) :
    ∃ id object, lookup keyword receiverName m = .ok (.instance id object) m := by
  obtain ⟨d, distance⟩ := Option.isSome_iff_exists.mp known
  obtain ⟨decl, rfl⟩ := inside.charted _ mem _ d rfl distance
  obtain ⟨r, around, receives⟩ := inside.inside
  have found := getAt_of_ancestor? around receives.holds keyword.token.line
  exact ⟨r.id, r.object, by simp only [lookup, distance, found]⟩

/-- The bindings that `super` needs are there: a class, and an instance one scope further in. -/
def SuperBound (m : Machine) (keyword : Occurrence) : Prop :=
  ∃ d object id cls, m.distances[keyword.id]? = some d ∧
    (∀ line, m.store.getAt m.environment d superclassName line = .ok (.class object)) ∧
    ∀ line, m.store.getAt m.environment (d - 1) receiverName line = .ok (.instance id cls)

theorem superBound (inside : m.Inside src setting)
    (mem : (setting, .super keyword) ∈ src.mentions)
    (known : Known m.distances (setting, .super keyword)) : SuperBound m keyword := by
  obtain ⟨d, distance⟩ := Option.isSome_iff_exists.mp known
  obtain ⟨decl, depth, rfl, sub, rfl⟩ := inside.charted _ mem _ d rfl distance
  obtain ⟨r, around, receives⟩ := inside.inside
  obtain ⟨object, holds, -⟩ := receives.super sub
  have outward : m.store.ancestor? m.environment (depth + 1) = some r.home := by
    rw [ancestor?_append around, ancestor?, receives.outside]
    rfl
  exact ⟨depth + 1, object, r.id, r.object, distance, getAt_of_ancestor? outward holds,
    getAt_of_ancestor? around receives.holds⟩

theorem SuperBound.fault (h : SuperBound m keyword)
    (failed : superMethod keyword method m = .error (.fault e) n) :
    e.fault = .undefinedProperty method.lexeme := by
  obtain ⟨d, object, id, cls, distance, above, receiver⟩ := h
  unfold superMethod at failed
  rw [get_bind] at failed
  simp only [distance, above, receiver, ofExcept, pure_bind] at failed
  cases found : object.method? method.lexeme with
  | some method' =>
      rw [found] at failed
      cases failed
  | none =>
      rw [found] at failed
      cases failed
      rfl

theorem callResult_succeeds (follows : Follows host first src) {closure : Closure}
    {args : List Value} {scope : Address} {signal : Signal}
    (reach : Leads host first (fuel + 1) (.invoke closure args line) m)
    (h : AtHome src (.invoke closure args line) m) (depth : checkDepth host line m = .ok () n)
    (created : callScope closure args n = .ok scope o) {q : Machine}
    (run : inCall (if closure.isInitializer then .initializer else .function) scope
      (execAll host fuel closure.decl.body) o = .ok signal q) (value : Value) :
    ∃ v, callResult closure line value q = .ok v q := by
  unfold callResult
  by_cases init : closure.isInitializer = true
  · rw [if_pos init]
    obtain ⟨id, object, holds⟩ := h.2.1.homed.receiver init
    have called := (settles_callScope follows.names depth created h).1
    obtain ⟨setting, inside, within⟩ := atHome_callBody follows.names depth created h
    have body := (homedEval follows fuel).execAll closure.decl.body
      (reach.tail (.callBody depth created)) rfl (fun _ : True => Nat.succ_pos _) inside within
    have steady := ((ends_ok_iff run).mp (homed_inCall body)).1 trivial
    have kept := (called.trans steady).reserved closure.scope receiverName _ (.inl rfl) holds
    refine ⟨.instance id object, ?_⟩
    rw [get_bind, getAt_of_ancestor? rfl kept]
    rfl
  · rw [if_neg init]
    exact ⟨value, rfl⟩

theorem ofExcept_error {α : Type} {r : Except RuntimeError α}
    (failed : ofExcept r m = .error (.fault e) n) : r = .error e := by
  cases r <;> cases failed
  rfl

structure Vetted (host : Host) (first : Moment) (src : Sources) : Prop where
  follows : Follows host first src
  home : AtHome src first.task first.machine
  known : ∀ x ∈ src.mentions, Known first.machine.distances x
  formed : ∀ {p e}, Relation.ReflTransGen (Enters host) first p → p.task = .eval e →
    e.Formed fun _ => True

theorem Vetted.known_at (h : Vetted host first src)
    (run : Relation.ReflTransGen (Enters host) first p) {x : Setting × Mention}
    (mem : x ∈ src.mentions) : Known p.machine.distances x := by
  rw [distances_of_moments run]
  exact h.known x mem

theorem Vetted.not_defensive (h : Vetted host first src)
    (failed : first.Fails host (.fault e) printed) : ¬ e.fault.Defensive := by
  intro defensive
  have special := defensive.special
  obtain ⟨q, run, source⟩ := exists_source (traceable_fault host special printed) failed
  have home := atHome_of_moments h.follows run h.home
  obtain ⟨fuel, task, m⟩ := q
  -- Each place where such a fault can come from is excluded by what is at home there.
  cases source with
  | origin origin =>
      cases origin with
      | call is fails =>
          obtain ⟨n, fails, -⟩ := fails
          cases (checkDepth_error fails).1
          cases defensive
      | statement is fails =>
          obtain ⟨n, fails, -⟩ := fails
          unfold start at fails
          dsimp only at fails
          split at fails <;> cases fails
          cases defensive
  | lookup is fails =>
      cases is
      obtain ⟨n, fails, -⟩ := fails
      have reserved := defensive.name (lookup_fault fails)
      rcases home with ordinary | ⟨rfl, setting, inside, mem⟩
      · exact ordinary reserved
      · obtain ⟨id, object, found⟩ := lookup_receiver inside mem (h.known_at run mem)
        rw [found] at fails
        cases fails
  | assign is fails =>
      cases is
      obtain ⟨n, fails, -⟩ := fails
      exact home (defensive.name (assign_fault fails))
  | superMethod is fails =>
      cases is
      obtain ⟨n, fails, -⟩ := fails
      obtain ⟨setting, inside, mem⟩ := home
      have fault := (superBound inside mem (h.known_at run mem)).fault fails
      rw [fault] at special
      cases special
  | unary is fails =>
      cases is
      obtain ⟨o, fails, -⟩ := fails
      have plain := Operator.unary_plain (h.formed run rfl) (ofExcept_error fails)
      rw [plain] at special
      cases special
  | binary is fails =>
      cases is
      obtain ⟨o, fails, -⟩ := fails
      have plain := Operator.binary_plain (h.formed run rfl) (ofExcept_error fails)
      rw [plain] at special
      cases special
  | @result _ _ _ _ _ _ _ _ _ value is depth created body fails =>
      cases is
      obtain ⟨v, ok⟩ := callResult_succeeds h.follows run home depth created body value
      exact not_fails ok fails

end Run

end ClassScript
