import MediaRemote.Json.Reader

namespace MediaRemote.Json

/-- A type that is read straight from text, every fault being found in the order of the text, or
viewed in a value that was read before. -/
structure Decoder (α : Type) where
  /-- Straight from text, with so many levels of nesting left. -/
  read : Nat → Reader α
  view : Value → Option α

namespace Decoder

variable {α β : Type}

def value : Decoder Value := ⟨Json.value exact, some⟩

/-- A value that `f` accepts, reading what kind of value it is before its meaning. Arrays and
objects are not entered. -/
def scalar (f : Value → Option α) : Decoder α where
  view := f
  read depth s :=
    match skipBlanks s with
    | '[' :: r => .fault .unfit ('[' :: r)
    | '\x7b' :: r => .fault .unfit ('\x7b' :: r)
    | r => (Json.value exact depth r).andThen fun v r =>
        match f v with
        | some a => .done a r
        | none => .fault .unfit r

def string : Decoder String := scalar Value.string?
def bool : Decoder Bool := scalar Value.bool?
def signed : Decoder Int := scalar Value.signed?
def below (bound : Nat) : Decoder Nat := scalar (Value.below? bound)
def unsigned : Decoder Nat := scalar Value.unsigned?
def double : Decoder Binary64 := scalar Value.double?

def ofString (f : String → α) : Decoder α := scalar fun v => v.string?.map f

def option (d : Decoder α) : Decoder (Option α) where
  view v := if v.isNull then some none else (d.view v).map some
  read depth s :=
    match skipBlanks s with
    | 'n' :: r => (word "ull".toList r).map fun _ => none
    | r => (d.read depth r).map some

/-- Whatever goes wrong, nothing is what was read; reading goes on where it stopped. -/
def lenient (d : Decoder (Option α)) : Decoder (Option α) where
  view v := some ((d.view v).getD none)
  read depth s :=
    match Json.value exact depth s with
    | .done v r => .done ((d.view v).getD none) r
    | .fault _ r => .done none r

def list (d : Decoder α) : Decoder (List α) where
  view v :=
    match v with
    | .array items => items.mapM d.view
    | _ => none
  read depth s :=
    match skipBlanks s with
    | '[' :: r =>
      match depth with
      | 0 => .fault .unfit ('[' :: r)
      | depth + 1 => closedBy closeArray (elements (d.read depth) (r.length + 1) true [] r)
    | r => (scalar fun _ => (none : Option (List α))).read depth r

/-- One of some words; also an object that gives null under the word. -/
def oneOf (f : String → Option α) : Decoder α where
  view v :=
    match v with
    | .string s => f s
    | .object [(s, .null)] => f s
    | _ => none
  read depth s :=
    let choice := fun s r =>
      match f s with
      | some a => .done a r
      | none => .fault .unfit r
    match skipBlanks s with
    | [] => .fault .cutShort []
    | '"' :: r => (exact.string r).andThen choice
    | '\x7b' :: r =>
      match depth with
      | 0 => .fault .unfit ('\x7b' :: r)
      | depth + 1 =>
        (string.read depth r).andThen fun k r => (choice k r).andThen fun a r =>
          (colon r).andThen fun _ r =>
            ((scalar fun v => if v.isNull then some () else none).read depth r).andThen fun _ r =>
              match skipBlanks r with
              | [] => .fault .cutShort []
              | '\x7d' :: r => .done a r
              | r => .fault .malformed r
    | r => .fault .malformed r

structure Field (ρ : Type) where
  name : String
  required : Bool
  read : Nat → ρ → Reader ρ
  view : Value → ρ → Option ρ

def Field.needed {ρ : Type} (name : String) (d : Decoder α) (set : ρ → α → ρ) : Field ρ where
  name := name
  required := true
  read depth r s := (d.read depth s).map (set r)
  view v r := (d.view v).map (set r)

def Field.optional {ρ : Type} (name : String) (d : Decoder α) (set : ρ → α → ρ) : Field ρ where
  name := name
  required := false
  read depth r s := (d.read depth s).map (set r)
  view v r := (d.view v).map (set r)

structure Partial (ρ : Type) where
  record : ρ
  given : List String

variable {ρ : Type}

def Partial.finish (fields : List (Field ρ)) (p : Partial ρ) : Option ρ :=
  if fields.all fun f => !f.required || p.given.contains f.name then some p.record else none

def recordMember (fields : List (Field ρ)) (depth : Nat) (p : Partial ρ) (key : String) :
    Reader (Partial ρ) := fun s =>
  match fields.find? (·.name == key) with
  | none => (colon s).andThen fun _ s => (pass s).map fun _ => p
  | some f =>
    if p.given.contains key then .fault .unfit s
    else
      (colon s).andThen fun _ s =>
        (f.read depth p.record s).map fun record => ⟨record, key :: p.given⟩

def recordElements (depth : Nat) : List (Field ρ) → Bool → ρ → Reader ρ
  | [], _, record, s => .done record s
  | f :: rest, first, record, s =>
    (nextElement first s).andThen fun more r =>
      if more then
        (f.read depth record r).andThen fun record r => recordElements depth rest false record r
      else if (f :: rest).any (·.required) then .fault .unfit r
      else .done record r

def viewMembers (members : List (String × Value)) : List (Field ρ) → ρ → Option ρ
  | [], record => some record
  | f :: rest, record =>
    match Dictionary.find? f.name members with
    | some v => (f.view v record).bind (viewMembers members rest)
    | none => if f.required then none else viewMembers members rest record

def viewElements : List Value → List (Field ρ) → ρ → Option ρ
  | [], fields, record => if fields.any (·.required) then none else some record
  | _ :: _, [], _ => none
  | v :: vs, f :: rest, record => (f.view v record).bind (viewElements vs rest)

/-- Records come as objects or as arrays of their fields in order. Unknown keys are passed over, and
a key of the record may come once only. -/
def record (blank : ρ) (fields : List (Field ρ)) : Decoder ρ where
  view v :=
    match v with
    | .object members => viewMembers members fields blank
    | .array items => viewElements items fields blank
    | _ => none
  read depth s :=
    match skipBlanks s with
    | '[' :: r =>
      match depth with
      | 0 => .fault .unfit ('[' :: r)
      | depth + 1 => closedBy closeArray (recordElements depth fields true blank r)
    | '\x7b' :: r =>
      match depth with
      | 0 => .fault .unfit ('\x7b' :: r)
      | depth + 1 =>
        let body :=
          (members exact.string (recordMember fields depth) (r.length + 1) true ⟨blank, []⟩ r)
            |>.andThen fun p r =>
              match p.finish fields with
              | some record => .done record r
              | none => .fault .unfit r
        closedBy closeObject body
    | r => (scalar fun _ => (none : Option ρ)).read depth r

def parse (d : Decoder α) (text : String) : Except Fault α := document (d.read maxDepth) text

end Decoder
end MediaRemote.Json
