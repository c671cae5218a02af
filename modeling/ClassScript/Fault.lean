namespace ClassScript

structure Located (α : Type) where
  fault : α
  line : Nat
deriving Repr, DecidableEq

def reportLine (line : Nat) (message : String) : String :=
  "[line " ++ toString line ++ "] Error: " ++ message

end ClassScript
