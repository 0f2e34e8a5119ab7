namespace MediaRemote.Text

structure Utf8Fault where
  index : Nat
  /-- Length of the wrong sequence; nothing if the bytes merely end too early. -/
  wrong : Option Nat
  deriving DecidableEq, Repr

def Utf8Fault.message (f : Utf8Fault) : String :=
  match f.wrong with
  | some n => "invalid utf-8 sequence of " ++ toString n ++ " bytes from index " ++ toString f.index
  | none => "incomplete utf-8 byte sequence from index " ++ toString f.index

/-- What a leading byte asks for: the bits it gives, and the range of each byte that follows. -/
structure Lead where
  bits : Nat
  ranges : List (Nat × Nat)

def tailRange : Nat × Nat := (0x80, 0xBF)

def lead? (b : Nat) : Option Lead :=
  if b < 0x80 then some ⟨b, []⟩
  else if b < 0xC2 then none
  else if b < 0xE0 then some ⟨b - 0xC0, [tailRange]⟩
  else if b = 0xE0 then some ⟨0, [(0xA0, 0xBF), tailRange]⟩
  else if b = 0xED then some ⟨0xD, [(0x80, 0x9F), tailRange]⟩
  else if b < 0xF0 then some ⟨b - 0xE0, [tailRange, tailRange]⟩
  else if b = 0xF0 then some ⟨0, [(0x90, 0xBF), tailRange, tailRange]⟩
  else if b < 0xF4 then some ⟨b - 0xF0, [tailRange, tailRange, tailRange]⟩
  else if b = 0xF4 then some ⟨4, [(0x80, 0x8F), tailRange, tailRange]⟩
  else none

def tail (n taken : Nat) : List (Nat × Nat) → List UInt8 → Except (Option Nat) (Nat × List UInt8)
  | [], bytes => .ok (n, bytes)
  | _ :: _, [] => .error none
  | (low, high) :: ranges, b :: bytes =>
    if low ≤ b.toNat ∧ b.toNat ≤ high then
      tail (n * 64 + (b.toNat - 0x80)) (taken + 1) ranges bytes
    else .error (some taken)

def decodeFrom : Nat → Nat → List Char → List UInt8 → Except Utf8Fault (List Char)
  | 0, _, acc, _ => .ok acc.reverse
  | _ + 1, _, acc, [] => .ok acc.reverse
  | fuel + 1, index, acc, b :: bytes =>
    match lead? b.toNat with
    | none => .error ⟨index, some 1⟩
    | some l =>
      match tail l.bits 1 l.ranges bytes with
      | .error wrong => .error ⟨index, wrong⟩
      | .ok (n, rest) => decodeFrom fuel (index + 1 + l.ranges.length) (Char.ofNat n :: acc) rest

/-- Strict: no overlong forms, no surrogates, nothing beyond U+10FFFF. -/
def decodeUtf8 (bytes : List UInt8) : Except Utf8Fault String :=
  (decodeFrom (bytes.length + 1) 0 [] bytes).map String.ofList

end MediaRemote.Text
