import MediaRemote.Wire.Change

namespace MediaRemote.Wire

open Json (Value Decoder)

structure Window where
  maxitems : Nat
  first : Nat
  deriving DecidableEq, Repr, Inhabited

namespace Window

def decoder : Decoder Window :=
  .record ⟨0, 0⟩
    [.needed "maxitems" (.below bound32) fun w v => { w with maxitems := v },
     .needed "first" .unsigned fun w v => { w with first := v }]

def toJson (w : Window) : Value :=
  .object [("maxitems", .integer w.maxitems), ("first", .integer w.first)]

/-- The page of `maxitems` entries that holds entry `id`, counting pages of no entries as one. -/
def pageOf (id maxitems : Nat) : Window := ⟨maxitems, id - id % max maxitems 1⟩

/-- The page of an entry holds it. -/
theorem mem_pageOf (id maxitems : Nat) (h : 0 < maxitems) :
    (pageOf id maxitems).first ≤ id ∧
      id < (pageOf id maxitems).first + (pageOf id maxitems).maxitems := by
  have hm : max maxitems 1 = maxitems := by omega
  have hl := Nat.mod_lt id h
  have hle := Nat.mod_le id maxitems
  simp only [pageOf, hm]
  omega

end Window

structure WindowQuery where
  maxitems : Option Nat
  first : Option Nat
  id : Option Nat
  deriving DecidableEq, Repr, Inhabited

namespace WindowQuery

def blank : WindowQuery := ⟨none, none, none⟩

def decoder : Decoder WindowQuery :=
  .record blank
    [.optional "maxitems" (.option (.below bound32)) fun q v => { q with maxitems := v },
     .optional "first" (.option .unsigned) fun q v => { q with first := v },
     .optional "id" (.option .unsigned) fun q v => { q with id := v }]

def toJson (q : WindowQuery) : Value :=
  .object
    [("maxitems", Change.orNull (fun n => .integer (Int.ofNat n)) q.maxitems),
     ("first", Change.orNull (fun n => .integer (Int.ofNat n)) q.first),
     ("id", Change.orNull (fun n => .integer (Int.ofNat n)) q.id)]

/-- An explicit start goes before the page of an entry; without either the list starts at 0. -/
def resolve (q : WindowQuery) (pageSize : Nat) : Window :=
  let maxitems := (q.maxitems.filter (0 < ·)).getD pageSize
  match q.first, q.id with
  | some first, _ => ⟨maxitems, first⟩
  | none, some id => .pageOf id maxitems
  | none, none => ⟨maxitems, 0⟩

end WindowQuery

structure Listing where
  playlist : List Value
  count : Nat

namespace Listing

def decoder : Decoder Listing :=
  .record ⟨[], 0⟩
    [.optional "playlist" (.list .value) fun l v => { l with playlist := v },
     .optional "count" .unsigned fun l v => { l with count := v }]

def toJson (l : Listing) : Value :=
  .object [("playlist", .array l.playlist), ("count", .integer l.count)]

end Listing
end MediaRemote.Wire
