namespace MediaRemote.Json

inductive Fault
  /-- The text ended before the document did. -/
  | cutShort
  /-- Some character cannot stand where it does. -/
  | malformed
  /-- The document is well formed so far but is not of the wanted type. -/
  | unfit
  deriving DecidableEq, Repr

/-- A fault tells where reading stopped, because a lenient field goes on from there. -/
inductive Outcome (α : Type)
  | done (a : α) (rest : List Char)
  | fault (why : Fault) (rest : List Char)
  deriving Repr

abbrev Reader (α : Type) := List Char → Outcome α

namespace Outcome

variable {α β : Type}

def rest : Outcome α → List Char
  | done _ r => r
  | fault _ r => r

def andThen (o : Outcome α) (f : α → Reader β) : Outcome β :=
  match o with
  | done a r => f a r
  | fault why r => fault why r

def map (f : α → β) (o : Outcome α) : Outcome β :=
  match o with
  | done a r => done (f a) r
  | fault why r => fault why r

@[simp] theorem andThen_done (a : α) (r : List Char) (f : α → Reader β) :
    (done a r).andThen f = f a r := rfl

@[simp] theorem andThen_fault (why : Fault) (r : List Char) (f : α → Reader β) :
    (fault why r : Outcome α).andThen f = fault why r := rfl

@[simp] theorem map_done (f : α → β) (a : α) (r : List Char) :
    (done a r).map f = done (f a) r := rfl

theorem andThen_eq_done {o : Outcome α} {f : α → Reader β} {b : β} {r : List Char} :
    o.andThen f = .done b r ↔ ∃ a t, o = .done a t ∧ f a t = .done b r := by
  cases o with
  | done a t =>
    constructor
    · intro h
      exact ⟨a, t, rfl, h⟩
    · rintro ⟨_, _, ⟨⟩, h⟩
      exact h
  | fault why t => simp

theorem map_eq_done {o : Outcome α} {f : α → β} {b : β} {r : List Char} :
    o.map f = .done b r ↔ ∃ a, o = .done a r ∧ f a = b := by
  cases o with
  | done a t =>
    constructor
    · rintro ⟨⟩
      exact ⟨a, rfl, rfl⟩
    · rintro ⟨_, ⟨⟩, rfl⟩
      rfl
  | fault why t => simp [map]

end Outcome

def isBlank (c : Char) : Bool := c = ' ' || c = '\t' || c = '\n' || c = '\r'

def skipBlanks (s : List Char) : List Char := s.dropWhile isBlank

def isDigit (c : Char) : Bool := '0' ≤ c && c ≤ '9'

def digitValue (c : Char) : Nat := c.toNat - 48

/-- Where reading stopped after an unwanted character: behind it if it is a single byte. -/
def stopAfter (c : Char) (s : List Char) : List Char := if c.toNat < 128 then s else c :: s

def word : List Char → Reader Unit
  | [], s => .done () s
  | _ :: _, [] => .fault .cutShort []
  | w :: ws, c :: s => if c = w then word ws s else .fault .malformed (stopAfter c s)

end MediaRemote.Json
