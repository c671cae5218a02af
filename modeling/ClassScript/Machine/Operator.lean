import ClassScript.RuntimeFault
import ClassScript.Value

namespace ClassScript.Operator

def fault {α : Type} (operator : Token) (f : RuntimeFault) : Except RuntimeError α :=
  .error ⟨f, operator.line⟩

def unary (operator : Token) (operand : Value) : Except RuntimeError Value :=
  match operator.kind with
  | .minus =>
    match operand with
    | .number x => .ok (.number (-x))
    | _ => fault operator .operandNotNumber
  | .bang => .ok (.bool !operand.truthy)
  | _ => fault operator (.invalidUnary operator.lexeme)

def add (operator : Token) (left right : Value) : Except RuntimeError Value :=
  match left, right with
  | .number x, .number y => .ok (.number (x + y))
  | .string s, .string t => .ok (.string (s ++ t))
  | _, _ => fault operator .operandsNotAddable

def numeric (operator : Token) (left right : Value) (apply : Float → Float → Value) :
    Except RuntimeError Value :=
  match left, right with
  | .number x, .number y => .ok (apply x y)
  | _, _ => fault operator .operandsNotNumbers

def binary (operator : Token) (left right : Value) : Except RuntimeError Value :=
  match operator.kind with
  | .plus => add operator left right
  | .minus => numeric operator left right fun x y => .number (x - y)
  | .star => numeric operator left right fun x y => .number (x * y)
  | .slash => numeric operator left right fun x y => .number (x / y)
  | .greater => numeric operator left right fun x y => .bool (y < x)
  | .greaterEqual => numeric operator left right fun x y => .bool (y ≤ x)
  | .less => numeric operator left right fun x y => .bool (x < y)
  | .lessEqual => numeric operator left right fun x y => .bool (x ≤ y)
  | .equalEqual => .ok (.bool (left.equal right))
  | .bangEqual => .ok (.bool !left.equal right)
  | _ => fault operator (.invalidBinary operator.lexeme)

/-- Whether the left operand of `or`, or else of `and`, is the result already. -/
def shortCircuits (operator : Token) (left : Value) : Bool :=
  if operator.kind == .kwOr then left.truthy else !left.truthy

end ClassScript.Operator
