import MediaRemote.Json.Scalar

namespace MediaRemote.Json

/-- How deep arrays and objects may nest, unless they are only passed over. -/
def maxDepth : Nat := 127

/-- Is there another element? Stands before it, or before the closing bracket. -/
def nextElement (first : Bool) (s : List Char) : Outcome Bool :=
  match skipBlanks s with
  | [] => .fault .cutShort []
  | ']' :: r => .done false (']' :: r)
  | c :: r =>
    if first then .done true (c :: r)
    else if c = ',' then
      match skipBlanks r with
      | [] => .fault .cutShort []
      | ']' :: r => .fault .malformed (']' :: r)
      | r => .done true r
    else .fault .malformed (c :: r)

def keyStart (s : List Char) : Outcome Bool :=
  match s with
  | [] => .fault .cutShort []
  | '"' :: r => .done true r
  | r => .fault .malformed r

def nextMember (first : Bool) (s : List Char) : Outcome Bool :=
  match skipBlanks s with
  | [] => .fault .cutShort []
  | '\x7d' :: r => .done false ('\x7d' :: r)
  | c :: r =>
    if first then keyStart (c :: r)
    else if c = ',' then keyStart (skipBlanks r)
    else .fault .malformed (c :: r)

def colon (s : List Char) : Outcome Unit :=
  match skipBlanks s with
  | [] => .fault .cutShort []
  | ':' :: r => .done () r
  | r => .fault .malformed r

def closeArray (s : List Char) : Outcome Unit :=
  match skipBlanks s with
  | [] => .fault .cutShort []
  | ']' :: r => .done () r
  | ',' :: r => .fault .malformed (skipBlanks r)
  | r => .fault .malformed r

def closeObject (s : List Char) : Outcome Unit :=
  match skipBlanks s with
  | [] => .fault .cutShort []
  | '\x7d' :: r => .done () r
  | r => .fault .malformed r

/-- Reads a body and what closes it; a failed body is closed too if the closing mark is next. -/
def closedBy {α : Type} (close : List Char → Outcome Unit) (o : Outcome α) : Outcome α :=
  match o with
  | .done a r => (close r).map fun _ => a
  | .fault why r => .fault why (close r).rest

theorem closedBy_eq_done {α : Type} {close : List Char → Outcome Unit} {o : Outcome α} {a : α}
    {r : List Char} :
    closedBy close o = .done a r ↔ ∃ t, o = .done a t ∧ close t = .done () r := by
  cases o with
  | done b t =>
    simp only [closedBy, Outcome.map_eq_done]
    constructor
    · rintro ⟨⟨⟩, h, rfl⟩
      exact ⟨t, rfl, h⟩
    · rintro ⟨_, ⟨⟩, h⟩
      exact ⟨(), h, rfl⟩
  | fault why t => simp [closedBy]

def elements {α : Type} (element : Reader α) : Nat → Bool → List α → Reader (List α)
  | 0, _, _, s => .fault .cutShort s
  | fuel + 1, first, acc, s =>
    (nextElement first s).andThen fun more r =>
      if more then (element r).andThen fun a r => elements element fuel false (a :: acc) r
      else .done acc.reverse r

def members {σ : Type} (key : Reader String) (member : σ → String → Reader σ) :
    Nat → Bool → σ → Reader σ
  | 0, _, _, s => .fault .cutShort s
  | fuel + 1, first, acc, s =>
    (nextMember first s).andThen fun more r =>
      if more then
        (key r).andThen fun k r =>
          (member acc k r).andThen fun acc r => members key member fuel false acc r
      else .done acc r

structure Leaves where
  unicode : Reader Char
  number : Reader Value

def exact : Leaves := ⟨unicodeEscape, number⟩
def passing : Leaves := ⟨passUnicode, passNumber⟩

def Leaves.string (l : Leaves) : Reader String := fun s => stringRest l.unicode (s.length + 1) [] s

/-- A value that nests at most `depth` arrays and objects. -/
def value (l : Leaves) : Nat → Reader Value
  | depth, s =>
    match skipBlanks s with
    | [] => .fault .cutShort []
    | 'n' :: r => (word "ull".toList r).map fun _ => .null
    | 't' :: r => (word "rue".toList r).map fun _ => .bool true
    | 'f' :: r => (word "alse".toList r).map fun _ => .bool false
    | '"' :: r => (l.string r).map .string
    | '[' :: r =>
      match depth with
      | 0 => .fault .unfit ('[' :: r)
      | depth + 1 =>
        (closedBy closeArray (elements (value l depth) (r.length + 1) true [] r)).map .array
    | '\x7b' :: r =>
      match depth with
      | 0 => .fault .unfit ('\x7b' :: r)
      | depth + 1 =>
        let member := fun acc k s =>
          (colon s).andThen fun _ s => (value l depth s).map fun v => Dictionary.insert k v acc
        (closedBy closeObject (members l.string member (r.length + 1) true [] r)).map .object
    | c :: r => if c = '-' || isDigit c then l.number (c :: r) else .fault .malformed (c :: r)

/-- Passes over a value, however deeply it nests. -/
def pass : Reader Unit := fun s => (value passing s.length s).map fun _ => ()

def document {α : Type} (read : Reader α) (text : String) : Except Fault α :=
  match read text.toList with
  | .done a r => if (skipBlanks r).isEmpty then .ok a else .error .malformed
  | .fault why _ => .error why

def parse (text : String) : Except Fault Value := document (value exact maxDepth) text

end MediaRemote.Json
