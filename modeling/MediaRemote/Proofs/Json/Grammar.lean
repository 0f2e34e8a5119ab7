import MediaRemote.Json.Reader

namespace MediaRemote.Json

def Blanks (w : List Char) : Prop := ∀ c ∈ w, isBlank c = true

def Digits (w : List Char) : Prop := w ≠ [] ∧ ∀ c ∈ w, isDigit c = true

def CodeUnit (w : List Char) : Prop := w.length = 4 ∧ ∀ c ∈ w, (hexValue? c).isSome = true

inductive StringRest : List Char → Prop
  | close : StringRest ['"']
  | plain {c w} (quote : c ≠ '"') (backslash : c ≠ '\\') (control : 32 ≤ c.toNat)
    (rest : StringRest w) : StringRest (c :: w)
  | short {c w} (known : (shortEscape? c).isSome = true) (rest : StringRest w) :
    StringRest ('\\' :: c :: w)
  | unicode {code w} (unit : CodeUnit code) (rest : StringRest w) :
    StringRest ('\\' :: 'u' :: (code ++ w))

inductive Whole : List Char → Prop
  | zero : Whole ['0']
  | digits {c w} (nonzero : c ≠ '0') (digits : Digits (c :: w)) : Whole (c :: w)

inductive Fraction : List Char → Prop
  | none : Fraction []
  | digits {w} (digits : Digits w) : Fraction ('.' :: w)

inductive Exponent : List Char → Prop
  | none : Exponent []
  | digits {m s w} (mark : m = 'e' ∨ m = 'E') (sign : s = [] ∨ s = ['+'] ∨ s = ['-'])
    (digits : Digits w) : Exponent (m :: (s ++ w))

inductive Magnitude : List Char → Prop
  | mk {w f e} (whole : Whole w) (fraction : Fraction f) (exponent : Exponent e) :
    Magnitude (w ++ (f ++ e))

inductive IsNumber : List Char → Prop
  | plain {w} (magnitude : Magnitude w) : IsNumber w
  | minus {w} (magnitude : Magnitude w) : IsNumber ('-' :: w)

/-- What stands before an item: a comma too, unless it is the first. -/
inductive Lead : Bool → List Char → Prop
  | first {w} (blanks : Blanks w) : Lead true w
  | later {w v} (before : Blanks w) (after : Blanks v) : Lead false (w ++ ',' :: v)

inductive Items (Item : List Char → Prop) : Bool → List Char → Prop
  | none {first w} (blanks : Blanks w) : Items Item first w
  | more {first l v w} (lead : Lead first l) (item : Item v) (rest : Items Item false w) :
    Items Item first (l ++ (v ++ w))

inductive Assigned (IsValue : List Char → Prop) : List Char → Prop
  | mk {b a v} (before : Blanks b) (after : Blanks a) (value : IsValue v) :
    Assigned IsValue (b ++ ':' :: (a ++ v))

inductive Member (IsValue : List Char → Prop) : List Char → Prop
  | mk {k v} (key : StringRest k) (value : Assigned IsValue v) : Member IsValue ('"' :: (k ++ v))

inductive IsValue : List Char → Prop
  | null : IsValue ['n', 'u', 'l', 'l']
  | true : IsValue ['t', 'r', 'u', 'e']
  | false : IsValue ['f', 'a', 'l', 's', 'e']
  | string {w} (rest : StringRest w) : IsValue ('"' :: w)
  | number {w} (number : IsNumber w) : IsValue w
  | array {w} (items : Items IsValue Bool.true w) : IsValue ('[' :: (w ++ [']']))
  | object {w} (members : Items (Member IsValue) Bool.true w) : IsValue ('\x7b' :: (w ++ ['\x7d']))

inductive IsObjectDocument : List Char → Prop
  | mk {b w a} (before : Blanks b) (members : Items (Member IsValue) true w) (after : Blanks a) :
    IsObjectDocument (b ++ '\x7b' :: (w ++ '\x7d' :: a))

/-- The text up to the rest is in the language. -/
def Spans (L : List Char → Prop) (s r : List Char) : Prop := ∃ w, L w ∧ s = w ++ r

def Takes {α : Type} (p : Reader α) (L : List Char → Prop) : Prop :=
  ∀ s a r, p s = .done a r → Spans L s r

theorem Spans.imp {L M : List Char → Prop} {s r : List Char} (h : Spans L s r)
    (hLM : ∀ w, L w → M w) : Spans M s r := by
  obtain ⟨w, hw, rfl⟩ := h
  exact ⟨w, hLM w hw, rfl⟩

end MediaRemote.Json
