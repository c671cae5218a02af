namespace ClassScript.Utf8

inductive Fault where
  | invalid (length index : Nat)
  | incomplete (index : Nat)
deriving Repr, DecidableEq

def Fault.message : Fault → String
  | invalid length index =>
    "invalid utf-8 sequence of " ++ toString length ++ " bytes from index " ++ toString index
  | incomplete index => "incomplete utf-8 byte sequence from index " ++ toString index

structure Pending where
  index : Nat
  read : Nat
  more : Nat
  low : UInt8
  high : UInt8
  bits : Nat

def lead? (index : Nat) (byte : UInt8) : Option Pending :=
  -- The range of the second byte keeps out overlong forms, surrogates and what no code point is.
  let pending (more : Nat) (low high : UInt8) (mask : Nat) : Option Pending :=
    some ⟨index, 1, more, low, high, byte.toNat % mask⟩
  if byte < 0xC2 then none
  else if byte < 0xE0 then pending 0 0x80 0xBF 32
  else if byte = 0xE0 then pending 1 0xA0 0xBF 16
  else if byte = 0xED then pending 1 0x80 0x9F 16
  else if byte < 0xF0 then pending 1 0x80 0xBF 16
  else if byte = 0xF0 then pending 2 0x90 0xBF 8
  else if byte < 0xF4 then pending 2 0x80 0xBF 8
  else if byte = 0xF4 then pending 2 0x80 0x8F 8
  else none

def decodeFrom (index : Nat) : Option Pending → List UInt8 → Except Fault (List Char)
  | none, [] => .ok []
  | some p, [] => .error (.incomplete p.index)
  | none, byte :: bytes =>
    if byte < 0x80 then
      (decodeFrom (index + 1) none bytes).map (Char.ofNat byte.toNat :: ·)
    else
      match lead? index byte with
      | some p => decodeFrom (index + 1) (some p) bytes
      | none => .error (.invalid 1 index)
  | some p, byte :: bytes =>
    if p.low ≤ byte && byte ≤ p.high then
      let bits := 64 * p.bits + byte.toNat % 64
      match p.more with
      | 0 => (decodeFrom (index + 1) none bytes).map (Char.ofNat bits :: ·)
      | more + 1 =>
        decodeFrom (index + 1) (some ⟨p.index, p.read + 1, more, 0x80, 0xBF, bits⟩) bytes
    else .error (.invalid p.read p.index)

def decode (bytes : List UInt8) : Except Fault String :=
  (decodeFrom 0 none bytes).map String.ofList

end ClassScript.Utf8
