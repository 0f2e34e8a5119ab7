namespace MediaRemote

def bound16 : Nat := 65536
def bound31 : Nat := 2147483648
def bound32 : Nat := 4294967296
def bound63 : Nat := 9223372036854775808
def bound64 : Nat := 18446744073709551616

def IsSigned64 (n : Int) : Prop := -(bound63 : Int) ≤ n ∧ n < bound63

instance (n : Int) : Decidable (IsSigned64 n) := by unfold IsSigned64; infer_instance

end MediaRemote
