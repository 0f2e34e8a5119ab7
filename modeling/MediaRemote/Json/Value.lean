import MediaRemote.Binary64
import MediaRemote.Dictionary
import MediaRemote.Width

namespace MediaRemote.Json

/-- Members are kept in the order in which they are written. -/
inductive Value
  | null
  | bool (b : Bool)
  | integer (n : Int)
  | double (x : Binary64)
  | string (s : String)
  | array (items : List Value)
  | object (members : List (String × Value))
  deriving Repr, Inhabited, BEq

/-- Smallest and largest whole numbers that stay integers. -/
def minInteger : Int := -bound63
def maxInteger : Int := bound64 - 1

namespace Value

def isNull : Value → Bool
  | null => true
  | _ => false

def present (v : Value) : Option Value := if v.isNull then none else some v

def member? (v : Value) (key : String) : Option Value :=
  match v with
  | object members => Dictionary.find? key members
  | _ => none

def string? : Value → Option String
  | string s => some s
  | _ => none

def bool? : Value → Option Bool
  | bool b => some b
  | _ => none

def signed? : Value → Option Int
  | integer n => if IsSigned64 n then some n else none
  | _ => none

def below? (bound : Nat) : Value → Option Nat
  | integer n => if 0 ≤ n ∧ n < bound then some n.toNat else none
  | _ => none

def unsigned? : Value → Option Nat := below? bound64

def double? : Value → Option Binary64
  | integer n => some (.ofInt n)
  | double x => some x
  | _ => none

/-- Every object has its keys in strictly increasing order and every integer is in range: the form
in which values are read. -/
inductive Sorted : Value → Prop
  | null : Sorted null
  | bool (b) : Sorted (bool b)
  | integer (n) (range : minInteger ≤ n ∧ n ≤ maxInteger) : Sorted (integer n)
  | double (x) : Sorted (double x)
  | string (s) : Sorted (string s)
  | array (items) (each : ∀ v ∈ items, Sorted v) : Sorted (array items)
  | object (members) (increasing : Dictionary.Increasing members)
      (each : ∀ m ∈ members, Sorted m.2) : Sorted (object members)

end Value
end MediaRemote.Json
