import MediaRemote.Error
import MediaRemote.Width

namespace MediaRemote.Text

inductive IntegerFault
  | empty | invalidDigit | tooLarge | tooSmall
  deriving DecidableEq, Repr

def IntegerFault.message : IntegerFault → String
  | empty => "cannot parse integer from empty string"
  | invalidDigit => "invalid digit found in string"
  | tooLarge => "number too large to fit in target type"
  | tooSmall => "number too small to fit in target type"

def IntegerFault.error (f : IntegerFault) : Error := .invalidArgument f.message

/-- Digits after the number `n`. The first character that is no digit, or the first digit that takes
the number beyond `max`, decides. -/
def digits (max : Nat) (beyond : IntegerFault) (n : Nat) : List Char → Except IntegerFault Nat
  | [] => .ok n
  | c :: rest =>
    if c.isDigit then
      let next := n * 10 + (c.toNat - 48)
      if next ≤ max then digits max beyond next rest else .error beyond
    else .error .invalidDigit

def nonempty (max : Nat) (beyond : IntegerFault) (s : List Char) : Except IntegerFault Nat :=
  if s.isEmpty then .error .invalidDigit else digits max beyond 0 s

def signed (s : String) : Except IntegerFault Int :=
  match s.toList with
  | [] => .error .empty
  | '-' :: rest => (nonempty bound63 .tooSmall rest).map fun n => -(n : Int)
  | '+' :: rest => (nonempty (bound63 - 1) .tooLarge rest).map Int.ofNat
  | rest => (digits (bound63 - 1) .tooLarge 0 rest).map Int.ofNat

def unsigned (s : String) : Except IntegerFault Nat :=
  match s.toList with
  | [] => .error .empty
  | '+' :: rest => nonempty (bound64 - 1) .tooLarge rest
  | rest => digits (bound64 - 1) .tooLarge 0 rest

end MediaRemote.Text
