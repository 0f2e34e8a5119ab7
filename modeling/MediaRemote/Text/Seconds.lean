import MediaRemote.Binary64

namespace MediaRemote.Text

def singleUnit : Nat := 1 <<< 149

/-- The value in single precision that is nearest to `num / den`, as a multiple of the unit. -/
def single (num den : Nat) : Nat :=
  let e := (num * singleUnit / den).log2 - 23
  roundDiv (num * singleUnit) (den <<< e) <<< e

def singleSeconds (milliseconds : Nat) : Nat :=
  single (single (milliseconds / 1000) 1 + single (milliseconds % 1000) 1000) singleUnit

/-- Whole seconds and the rest of a second are rounded apart; the sum has one decimal, a half going
to the even digit. -/
def seconds (milliseconds : Nat) : String :=
  let tenths := roundDiv (10 * singleSeconds milliseconds) singleUnit
  toString (tenths / 10) ++ "." ++ toString (tenths % 10)

end MediaRemote.Text
