import MediaRemote.Toml.Text
import MediaRemote.Width

namespace MediaRemote.Toml

inductive Scalar
  | string (s : String)
  | integer (n : Int)
  | boolean (b : Bool)
  deriving DecidableEq, Repr

structure Entry where
  key : String
  value : Scalar
  deriving DecidableEq, Repr

def digit? (radix : Nat) (c : Char) : Option Nat := (hexDigit? c).filter (· < radix)

/-- More digits, of which an underscore may separate any two. -/
def moreDigits (radix n : Nat) : Reader Nat
  | [] => some (n, [])
  | '_' :: [] => none
  | '_' :: c :: r =>
    match digit? radix c with
    | some d => moreDigits radix (n * radix + d) r
    | none => none
  | c :: r =>
    match digit? radix c with
    | some d => moreDigits radix (n * radix + d) r
    | none => some (n, c :: r)

def digits (radix : Nat) : Reader Nat
  | [] => none
  | c :: r => (digit? radix c).bind fun d => moreDigits radix d r

def decimal : Reader Nat
  | '0' :: r => some (0, r)
  | r => digits 10 r

def integer? (n : Int) : Option Scalar :=
  if IsSigned64 n then some (.integer n) else none

def integer (s : List Char) : Option (Scalar × List Char) := do
  let (n, r) ← match s with
    | '0' :: 'x' :: r => (digits 16 r).map fun (n, r) => ((n : Int), r)
    | '0' :: 'o' :: r => (digits 8 r).map fun (n, r) => ((n : Int), r)
    | '0' :: 'b' :: r => (digits 2 r).map fun (n, r) => ((n : Int), r)
    | '+' :: r => (decimal r).map fun (n, r) => ((n : Int), r)
    | '-' :: r => (decimal r).map fun (n, r) => (-(n : Int), r)
    | r => (decimal r).map fun (n, r) => ((n : Int), r)
  let value ← integer? n
  some (value, r)

def value : Reader Scalar
  | 't' :: 'r' :: 'u' :: 'e' :: r => some (.boolean true, r)
  | 'f' :: 'a' :: 'l' :: 's' :: 'e' :: r => some (.boolean false, r)
  | '"' :: r => (string ('"' :: r)).map fun (s, r) => (.string s, r)
  | c :: r =>
    if c = apostrophe then (string (c :: r)).map fun (s, r) => (.string s, r)
    else integer (c :: r)
  | [] => none

def isKeyCharacter (c : Char) : Bool := c.isAlphanum || c = '_' || c = '-'

def key (s : List Char) : Option (String × List Char) :=
  let word := s.takeWhile isKeyCharacter
  if word.isEmpty then lineString s else some (String.ofList word, s.dropWhile isKeyCharacter)

def entry (s : List Char) : Option (Entry × List Char) := do
  let (k, r) ← key s
  match skipBlanks r with
  | '=' :: r =>
    let (v, r) ← value (skipBlanks r)
    some (⟨k, v⟩, r)
  | _ => none

def restOfLine (s : List Char) : Option (List Char) :=
  let r := match skipBlanks s with
    | '#' :: r => r.dropWhile isPlain
    | r => r
  if r.isEmpty then some [] else lineEnd r

def entriesFrom : Nat → List Entry → List Char → Option (List Entry)
  | 0, _, _ => none
  | _ + 1, acc, [] => some acc.reverse
  | fuel + 1, acc, s =>
    match restOfLine s with
    | some r => entriesFrom fuel acc r
    | none => do
      let (e, r) ← entry (skipBlanks s)
      let r ← restOfLine r
      entriesFrom fuel (e :: acc) r

def withoutMark : List Char → List Char
  | [] => []
  | c :: r => if c.toNat = 0xFEFF then r else c :: r

/-- All entries of a flat document, in order; no key may come twice. Tables, arrays, other numbers
and dates are not read, because no setting may hold one. -/
def entries? (text : String) : Option (List Entry) :=
  let s := withoutMark text.toList
  (entriesFrom (s.length + 1) [] s).filter fun es => (es.map (·.key)).Nodup

end MediaRemote.Toml
