import MediaRemote.Json.Outcome
import MediaRemote.Json.Value

namespace MediaRemote.Json

def hexValue? (c : Char) : Option Nat :=
  if isDigit c then some (c.toNat - 48)
  else if 'a' ≤ c && c ≤ 'f' then some (c.toNat - 87)
  else if 'A' ≤ c && c ≤ 'F' then some (c.toNat - 55)
  else none

def utf8Length : List Char → Nat
  | [] => 0
  | c :: s => c.utf8Size + utf8Length s

/-- Drops as many whole characters as fit into `n` bytes. -/
def dropBytes : Nat → List Char → List Char
  | _, [] => []
  | n, c :: s => if c.utf8Size ≤ n then dropBytes (n - c.utf8Size) s else c :: s

def hexEscape (s : List Char) : Outcome Nat :=
  if utf8Length (s.take 4) < 4 then .fault .cutShort []
  else
    match (s.take 4).mapM hexValue? with
    | some [a, b, c, d] => .done (((a * 16 + b) * 16 + c) * 16 + d) (s.drop 4)
    | _ => .fault .malformed (dropBytes 4 s)

def isLeadingSurrogate (n : Nat) : Bool := 0xD800 ≤ n && n < 0xDC00
def isTrailingSurrogate (n : Nat) : Bool := 0xDC00 ≤ n && n < 0xE000

def demand (w : Char) (s : List Char) : Outcome Unit :=
  match s with
  | [] => .fault .cutShort []
  | c :: r => if c = w then .done () r else .fault .malformed (stopAfter c r)

/-- What follows `\u`: a code unit, or two that form a surrogate pair. -/
def unicodeEscape (s : List Char) : Outcome Char :=
  (hexEscape s).andThen fun n r =>
    if isTrailingSurrogate n then .fault .malformed r
    else if isLeadingSurrogate n then
      (demand '\\' r).andThen fun _ r => (demand 'u' r).andThen fun _ r =>
        (hexEscape r).andThen fun m r =>
          if isTrailingSurrogate m then
            .done (Char.ofNat ((n - 0xD800) * 0x400 + (m - 0xDC00) + 0x10000)) r
          else .fault .malformed r
    else .done (Char.ofNat n) r

def shortEscape? (c : Char) : Option Char :=
  if c = '"' ∨ c = '\\' ∨ c = '/' then some c
  else if c = 'b' then some (Char.ofNat 8)
  else if c = 'f' then some (Char.ofNat 12)
  else if c = 'n' then some '\n'
  else if c = 'r' then some '\r'
  else if c = 't' then some '\t'
  else none

def escape (unicode : Reader Char) (s : List Char) : Outcome Char :=
  match s with
  | [] => .fault .cutShort []
  | c :: r =>
    if c = 'u' then unicode r
    else
      match shortEscape? c with
      | some d => .done d r
      | none => .fault .malformed (stopAfter c r)

def stringRest (unicode : Reader Char) : Nat → List Char → Reader String
  | 0, _, s => .fault .cutShort s
  | _ + 1, _, [] => .fault .cutShort []
  | fuel + 1, acc, c :: r =>
    if c = '"' then .done (String.ofList acc.reverse) r
    else if c = '\\' then
      match escape unicode r with
      | .done d r => stringRest unicode fuel (d :: acc) r
      | .fault why r => .fault why r
    else if c.toNat < 32 then .fault .malformed r
    else stringRest unicode fuel (c :: acc) r

/-- Takes digits into a significand of at most 64 bits, up to the first that does not fit; gives
the significand and how many were taken. -/
def absorb (significand : Nat) : List Char → Nat × Nat
  | [] => (significand, 0)
  | c :: rest =>
    let next := significand * 10 + digitValue c
    if next < bound64 then
      let (s, taken) := absorb next rest
      (s, taken + 1)
    else (significand, 0)

def signedDouble (negative : Bool) (x : Binary64) : Value :=
  .double (if negative then x.neg else x)

def inRange (negative : Bool) : Option Binary64 → Reader Value
  | some x, s => .done (signedDouble negative x) s
  | none, s => .fault .unfit s

def scaled (negative : Bool) (significand : Nat) (exponent : Int) : Reader Value :=
  inRange negative (Binary64.ofDecimal? significand exponent)

/-- Largest exponent that is read digit by digit. -/
def maxExponent : Nat := bound31 - 1

/-- Digits of an exponent; nothing when they exceed `maxExponent`, the rest starting behind the
digit at which they do. -/
def exponentDigits (e : Nat) : List Char → Option Nat × List Char
  | [] => (some e, [])
  | c :: s =>
    if isDigit c then
      let next := e * 10 + digitValue c
      if next ≤ maxExponent then exponentDigits next s else (none, s)
    else (some e, c :: s)

def exponentPart (negative : Bool) (significand : Nat) (start : Int) : Reader Value := fun s =>
  let (down, s) := match s with
    | '+' :: r => (false, r)
    | '-' :: r => (true, r)
    | r => (false, r)
  match s with
  | [] => .fault .cutShort []
  | c :: r =>
    if isDigit c then
      match exponentDigits (digitValue c) r with
      | (some e, r) => scaled negative significand (if down then start - e else start + e) r
      | (none, r) =>
        if significand ≠ 0 ∧ !down then .fault .unfit r
        else .done (signedDouble negative .zero) (r.dropWhile isDigit)
    else .fault .malformed (stopAfter c r)

def fractionPart (negative : Bool) (significand : Nat) (start : Int) : Reader Value := fun s =>
  let digits := s.takeWhile isDigit
  let r := s.dropWhile isDigit
  if digits.isEmpty then
    if r.isEmpty then .fault .cutShort [] else .fault .malformed r
  else
    let (m, taken) := absorb significand digits
    let e := start - taken
    match r with
    | c :: t => if c = 'e' ∨ c = 'E' then exponentPart negative m e t else scaled negative m e r
    | [] => scaled negative m e []

/-- A whole number without fraction and exponent; minus zero is a double. -/
def whole (negative : Bool) (n : Nat) : Value :=
  if negative then
    if 0 < n ∧ n ≤ bound63 then .integer (-n) else signedDouble true (.ofNat n)
  else .integer n

def magnitude (negative : Bool) : Reader Value := fun s =>
  match s with
  | [] => .fault .cutShort []
  | c :: r =>
    if !isDigit c then .fault .malformed (stopAfter c r)
    else if c = '0' ∧ (r.head?.any isDigit) then .fault .malformed r
    else
      let digits := if c = '0' then [c] else s.takeWhile isDigit
      let r := s.drop digits.length
      let (m, taken) := absorb 0 digits
      let dropped : Int := digits.length - taken
      match r with
      | '.' :: t => fractionPart negative m dropped t
      | d :: t =>
        if d = 'e' ∨ d = 'E' then exponentPart negative m dropped t
        else if dropped = 0 then .done (whole negative m) r else scaled negative m dropped r
      | [] => if dropped = 0 then .done (whole negative m) [] else scaled negative m dropped []

def number : Reader Value := fun s =>
  match s with
  | '-' :: r => magnitude true r
  | r => magnitude false r

def passUnicode (s : List Char) : Outcome Char :=
  (hexEscape s).map fun _ => ' '

def passExponent : Reader Value := fun s =>
  let s := match s with
    | '+' :: r => r
    | '-' :: r => r
    | r => r
  if s.head?.any isDigit then .done .null (s.dropWhile isDigit) else .fault .malformed s

def passFraction : Reader Value := fun s =>
  let r := s.dropWhile isDigit
  if s.head?.any isDigit then
    match r with
    | c :: t => if c = 'e' ∨ c = 'E' then passExponent t else .done .null r
    | [] => .done .null []
  else .fault .malformed s

/-- A number behind its sign; one that ends too early is malformed even at the end of the text. -/
def passMagnitude : Reader Value := fun s =>
  match s with
  | [] => .fault .malformed []
  | c :: r =>
    if !isDigit c then .fault .malformed (c :: r)
    else if c = '0' ∧ r.head?.any isDigit then .fault .malformed r
    else
      match (if c = '0' then r else r.dropWhile isDigit) with
      | '.' :: t => passFraction t
      | d :: t => if d = 'e' ∨ d = 'E' then passExponent t else .done .null (d :: t)
      | [] => .done .null []

def passNumber : Reader Value := fun s =>
  match s with
  | '-' :: r => passMagnitude r
  | r => passMagnitude r

end MediaRemote.Json
