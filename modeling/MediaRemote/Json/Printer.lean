import MediaRemote.Json.Value
import MediaRemote.Binary64.Shortest

namespace MediaRemote.Json

/-- Doubles are plain from `1e-5` up to below `1e16`; an exponent always has its sign. -/
def layout : DecimalLayout where
  plainFrom := -5
  plainTo := 15
  exponentMark := 'e'
  positiveSign := ['+']
  emptyFraction := ['.', '0']

def doubleText (x : Binary64) : List Char :=
  if x.negative then '-' :: layout.text x.shortest else layout.text x.shortest

def hexDigit (n : Nat) : Char := if n < 10 then Char.ofNat (48 + n) else Char.ofNat (87 + n)

def escapeChar (c : Char) : List Char :=
  if c = '"' then ['\\', '"']
  else if c = '\\' then ['\\', '\\']
  else if c = '\n' then ['\\', 'n']
  else if c = '\r' then ['\\', 'r']
  else if c = '\t' then ['\\', 't']
  else if c.toNat = 8 then ['\\', 'b']
  else if c.toNat = 12 then ['\\', 'f']
  else if c.toNat < 32 then
    ['\\', 'u', '0', '0', hexDigit (c.toNat / 16), hexDigit (c.toNat % 16)]
  else [c]

def stringText (s : String) : List Char :=
  '"' :: (s.toList.flatMap escapeChar ++ ['"'])

def integerText (n : Int) : List Char :=
  if n < 0 then '-' :: Nat.toDigits 10 n.natAbs else Nat.toDigits 10 n.natAbs

def commaSeparated : List (List Char) → List Char
  | [] => []
  | [piece] => piece
  | piece :: rest => piece ++ ',' :: commaSeparated rest

mutual

def Value.render : Value → List Char
  | .null => "null".toList
  | .bool true => "true".toList
  | .bool false => "false".toList
  | .integer n => integerText n
  | .double x => doubleText x
  | .string s => stringText s
  | .array items => '[' :: (commaSeparated (renderItems items) ++ [']'])
  | .object members => '\x7b' :: (commaSeparated (renderMembers members) ++ ['\x7d'])

def renderItems : List Value → List (List Char)
  | [] => []
  | v :: rest => v.render :: renderItems rest

def renderMembers : List (String × Value) → List (List Char)
  | [] => []
  | (key, v) :: rest => (stringText key ++ ':' :: v.render) :: renderMembers rest

end

def Value.text (v : Value) : String := String.ofList v.render

end MediaRemote.Json
