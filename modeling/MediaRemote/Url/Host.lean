import MediaRemote.Url.Domain
import MediaRemote.Width

namespace MediaRemote.Url

inductive UrlFault
  | emptyHost | invalidPort | invalidIpv4 | invalidIpv6 | invalidDomain | invalidDomainCharacter
  | relativeWithoutBase
  deriving DecidableEq, Repr

def UrlFault.message : UrlFault → String
  | emptyHost => "empty host"
  | invalidPort => "invalid port number"
  | invalidIpv4 => "invalid IPv4 address"
  | invalidIpv6 => "invalid IPv6 address"
  | invalidDomain => "invalid international domain name"
  | invalidDomainCharacter => "invalid domain character"
  | relativeWithoutBase => "relative URL without a base"

inductive Host
  | domain (name : List Char)
  | ipv4 (address : Nat)
  | ipv6 (pieces : List Nat)
  deriving DecidableEq, Repr, Inhabited

def digitOf? (radix : Nat) (c : Char) : Option Nat := (hexValue? c).filter (· < radix)

/-- A number in decimal, or in octal behind `0`, or in hexadecimal behind `0x`. -/
def ipv4Number? (s : List Char) : Option Nat :=
  let (radix, digits) := match s with
    | '0' :: 'x' :: r | '0' :: 'X' :: r => (16, r)
    | '0' :: c :: r => (8, c :: r)
    | r => (10, r)
  if s.isEmpty then none
  else (digits.mapM (digitOf? radix)).map fun ds => ds.foldl (fun n d => n * radix + d) 0

def numericLabels (s : List Char) : List (List Char) :=
  let parts := labels s
  if 1 < parts.length ∧ parts.getLast? = some [] then parts.dropLast else parts

def endsInNumber (s : List Char) : Bool :=
  match (numericLabels s).getLast? with
  | some last =>
    (!last.isEmpty && last.all fun c => '0' ≤ c && c ≤ '9') || (ipv4Number? last).isSome
  | none => false

/-- The last number fills all parts that were left out. -/
def ipv4? (s : List Char) : Option Nat :=
  match (numericLabels s).mapM ipv4Number? with
  | some numbers =>
    match numbers.getLast? with
    | some last =>
      let front := numbers.dropLast
      if numbers.length ≤ 4 ∧ front.all (· < 256) ∧ last < 1 <<< (8 * (4 - front.length)) then
        some ((front.foldl (fun n d => n * 256 + d) 0) <<< (8 * (4 - front.length)) + last)
      else none
    | none => none
  | none => none

def ipv4Text (n : Nat) : List Char :=
  let part := fun k => Nat.toDigits 10 ((n >>> (8 * k)) % 256)
  part 3 ++ '.' :: part 2 ++ '.' :: part 1 ++ '.' :: part 0

def hexPrefix : Nat → Nat → Nat → List Char → Nat × Nat × List Char
  | fuel + 1, n, count, c :: rest =>
    match hexValue? c with
    | some d => hexPrefix fuel (n * 16 + d) (count + 1) rest
    | none => (n, count, c :: rest)
  | _, n, count, rest => (n, count, rest)

def octet? (s : List Char) : Option Nat :=
  let value := s.foldl (fun n c => n * 10 + (c.toNat - 48)) 0
  if !s.isEmpty && (s.all fun c => '0' ≤ c && c ≤ '9') && (s.length = 1 || s.head? != some '0') &&
      s.length ≤ 3 && value ≤ 255 then some value
  else none

def dottedPieces? (s : List Char) : Option (List Nat) :=
  match (labels s).mapM octet? with
  | some [a, b, c, d] => some [a * 256 + b, c * 256 + d]
  | _ => none

structure Ipv6Parts where
  front : List Nat
  back : Option (List Nat)

namespace Ipv6Parts

def count (p : Ipv6Parts) : Nat := p.front.length + (p.back.getD []).length

def add (p : Ipv6Parts) (pieces : List Nat) : Ipv6Parts :=
  match p.back with
  | some back => { p with back := some (back ++ pieces) }
  | none => { p with front := p.front ++ pieces }

/-- A gap stands for zeros; without one there have to be eight pieces. -/
def pieces? (p : Ipv6Parts) : Option (List Nat) :=
  match p.back with
  | some back => some (p.front ++ List.replicate (8 - p.count) 0 ++ back)
  | none => if p.front.length = 8 then some p.front else none

end Ipv6Parts

/-- Reads pieces; the gap itself takes a place as long as pieces are read. -/
def ipv6Pieces : Nat → Ipv6Parts → List Char → Option (List Nat)
  | 0, _, _ => none
  | _ + 1, p, [] => p.pieces?
  | fuel + 1, p, c :: rest =>
    let places := p.count + (if p.back.isSome then 1 else 0)
    if places = 8 then none
    else if c = ':' then
      if p.back.isSome then none else ipv6Pieces fuel { p with back := some [] } rest
    else
      let (n, count, after) := hexPrefix 4 0 0 (c :: rest)
      match after with
      | [] => (p.add [n]).pieces?
      | '.' :: _ =>
        if count = 0 ∨ 6 < places then none
        else (dottedPieces? (c :: rest)).bind fun pieces => (p.add pieces).pieces?
      | ':' :: after => if after.isEmpty then none else ipv6Pieces fuel (p.add [n]) after
      | _ => none

def ipv6? (s : List Char) : Option (List Nat) :=
  match s with
  | ':' :: ':' :: rest => ipv6Pieces (s.length + 1) ⟨[], some []⟩ rest
  | ':' :: _ => none
  | [] | [_] => none
  | s => ipv6Pieces (s.length + 1) ⟨[], none⟩ s

def zeroRun (pieces : List Nat) : Nat := (pieces.takeWhile (· = 0)).length

def longestRun (index : Nat) : List Nat → Nat × Nat
  | [] => (index, 0)
  | n :: rest =>
    let here := zeroRun (n :: rest)
    let later := longestRun (index + 1) rest
    if later.2 ≤ here then (index, here) else later

def hexText (n : Nat) : List Char := Nat.toDigits 16 n

def colonSeparated (pieces : List Nat) : List Char :=
  [':'].intercalate (pieces.map hexText)

/-- The longest run of at least two zero pieces is left out. -/
def ipv6Text (pieces : List Nat) : List Char :=
  let (start, length) := longestRun 0 pieces
  if 2 ≤ length then
    colonSeparated (pieces.take start) ++
      ':' :: ':' :: colonSeparated (pieces.drop (start + length))
  else colonSeparated pieces

def isForbiddenOpaque (c : Char) : Bool :=
  c.toNat = 0 || c = ' ' || c = '\t' || c = '\n' || c = '\r' || c = '#' || c = '/' || c = ':' ||
    c = '<' || c = '>' || c = '?' || c = '@' || c = '[' || c = '\\' || c = ']' || c = '^' || c = '|'

def bracketed (s : List Char) : Except UrlFault Host :=
  if 2 ≤ s.length ∧ s.getLast? = some ']' then
    match ipv6? (s.drop 1).dropLast with
    | some pieces => .ok (.ipv6 pieces)
    | none => .error .invalidIpv6
  else .error .invalidIpv6

/-- A host of one of the well-known schemes. A domain whose last label is a number has to be an IPv4
address. -/
def Host.parse [Idna] (s : List Char) : Except UrlFault Host :=
  if s.head? = some '[' then bracketed s
  else
    match domainName? s with
    | none => .error .invalidDomain
    | some name =>
      if name.any isForbidden then .error .invalidDomain
      else if name.isEmpty then .error .emptyHost
      else if endsInNumber name then
        match ipv4? name with
        | some address => .ok (.ipv4 address)
        | none => .error .invalidIpv4
      else .ok (.domain name)

def Host.parseOpaque (s : List Char) : Except UrlFault Host :=
  if s.head? = some '[' then bracketed s
  else if s.any isForbiddenOpaque then .error .invalidDomainCharacter
  else .ok (.domain (percentEncode isControl s))

def Host.text : Host → List Char
  | domain name => name
  | ipv4 address => ipv4Text address
  | ipv6 pieces => '[' :: (ipv6Text pieces ++ [']'])

def Host.isEmpty : Host → Bool
  | domain name => name.isEmpty
  | _ => false

end MediaRemote.Url
