namespace MediaRemote.Toml

abbrev Reader (α : Type) := List Char → Option (α × List Char)

def isBlank (c : Char) : Bool := c = ' ' || c = '\t'

def skipBlanks (s : List Char) : List Char := s.dropWhile isBlank

def apostrophe : Char := Char.ofNat 39

def isPlain (c : Char) : Bool := c = '\t' || (32 ≤ c.toNat && c.toNat ≠ 127)

def lineEnd : List Char → Option (List Char)
  | '\n' :: r => some r
  | '\r' :: '\n' :: r => some r
  | _ => none

def hexDigit? (c : Char) : Option Nat :=
  if '0' ≤ c && c ≤ '9' then some (c.toNat - 48)
  else if 'a' ≤ c && c ≤ 'f' then some (c.toNat - 87)
  else if 'A' ≤ c && c ≤ 'F' then some (c.toNat - 55)
  else none

def scalar? (n : Nat) : Option Char := if n.isValidChar then some (Char.ofNat n) else none

def hexCharacter (digits : Nat) : Reader Char := fun s =>
  if s.length < digits then none
  else do
    let values ← (s.take digits).mapM hexDigit?
    let c ← scalar? (values.foldl (fun n d => n * 16 + d) 0)
    some (c, s.drop digits)

def escape : Reader Char
  | '"' :: r => some ('"', r)
  | '\\' :: r => some ('\\', r)
  | 'b' :: r => some (Char.ofNat 8, r)
  | 'f' :: r => some (Char.ofNat 12, r)
  | 'n' :: r => some ('\n', r)
  | 'r' :: r => some ('\r', r)
  | 't' :: r => some ('\t', r)
  | 'u' :: r => hexCharacter 4 r
  | 'U' :: r => hexCharacter 8 r
  | _ => none

def basicRest : Nat → List Char → Reader String
  | 0, _, _ | _ + 1, _, [] => none
  | fuel + 1, acc, c :: r =>
    if c = '"' then some (String.ofList acc.reverse, r)
    else if c = '\\' then (escape r).bind fun (d, r) => basicRest fuel (d :: acc) r
    else if isPlain c then basicRest fuel (c :: acc) r
    else none

def literalRest (acc : List Char) : Reader String
  | [] => none
  | c :: r =>
    if c = apostrophe then some (String.ofList acc.reverse, r)
    else if isPlain c then literalRest (c :: acc) r
    else none

def skipLines : List Char → List Char
  | '\n' :: r => skipLines r
  | '\r' :: '\n' :: r => skipLines r
  | ' ' :: r => skipLines r
  | '\t' :: r => skipLines r
  | s => s

/-- A backslash at the end of a line takes away all blanks and line ends that follow. -/
def foldedLine (s : List Char) : Option (List Char) := (lineEnd (skipBlanks s)).map skipLines

/-- Three marks end a string, behind at most two marks that belong to it. Gives the marks that
belong to it and whether they end it; the run of marks has the given length. -/
def closing (run : Nat) : Option (Nat × Bool) :=
  if run < 3 then some (run, false)
  else if run ≤ 5 then some (run - 3, true)
  else none

def linesRest (mark : Char) (escapes : Bool) : Nat → List Char → Reader String
  | 0, _, _ | _ + 1, _, [] => none
  | fuel + 1, acc, c :: r =>
    if c = mark then
      let run := ((c :: r).takeWhile (· = mark)).length
      (closing run).bind fun (kept, ends) =>
        let acc := List.replicate kept mark ++ acc
        let r := (c :: r).drop run
        if ends then some (String.ofList acc.reverse, r) else linesRest mark escapes fuel acc r
    else if escapes && c = '\\' then
      match foldedLine r with
      | some r => linesRest mark escapes fuel acc r
      | none => (escape r).bind fun (d, r) => linesRest mark escapes fuel (d :: acc) r
    else
      match lineEnd (c :: r) with
      | some r => linesRest mark escapes fuel ('\n' :: acc) r
      | none => if isPlain c then linesRest mark escapes fuel (c :: acc) r else none

/-- A line end right behind the opening marks is left out. -/
def linesBody (mark : Char) (escapes : Bool) : Reader String := fun s =>
  linesRest mark escapes (s.length + 1) [] ((lineEnd s).getD s)

def lineString : Reader String
  | [] => none
  | c :: r =>
    if c = '"' then basicRest (r.length + 1) [] r
    else if c = apostrophe then literalRest [] r
    else none

def string : Reader String
  | a :: b :: c :: r =>
    if a = b && b = c && a = '"' then linesBody a true r
    else if a = b && b = c && a = apostrophe then linesBody a false r
    else lineString (a :: b :: c :: r)
  | s => lineString s

end MediaRemote.Toml
