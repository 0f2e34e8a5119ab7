import Mathlib.Data.List.Pairwise
import MediaRemote.Proofs.Json.Written

namespace MediaRemote.Json

open Outcome

variable {α β ρ : Type}

/-- A value that a reader may give, nesting so deep at most. -/
structure Value.Legible (depth : Nat) (v : Value) : Prop where
  sorted : v.Sorted
  depth_le : v.depth ≤ depth

theorem legible_of_read {depth : Nat} {s r : List Char} {v : Value}
    (h : value exact depth s = .done v r) : v.Legible depth :=
  ⟨value_sorted h, value_depth h⟩

def Value.IsCarried (v : Value) : Prop := ∀ x ∈ v.doubles, Carried x

theorem Value.IsCarried.item {items : List Value} (h : (Value.array items).IsCarried) {v : Value}
    (hv : v ∈ items) : v.IsCarried :=
  fun x hx => h x (doubles_subset_items hv hx)

theorem Value.IsCarried.member {ms : List (String × Value)} (h : (Value.object ms).IsCarried)
    {m : String × Value} (hm : m ∈ ms) : m.2.IsCarried :=
  fun x hx => h x (doubles_subset_members hm hx)

theorem Value.Legible.written {depth : Nat} {v : Value} (h : v.Legible depth)
    (hx : v.IsCarried) : v.IsWritten depth :=
  value_written h.sorted h.depth_le hx

namespace Decoder

/-- The text of `a` is read for `a`, so deep. -/
def Restored (depth : Nat) (d : Decoder α) (write : α → Value) (a : α) : Prop :=
  (write a).IsCarried → Written (d.read depth) (write a).render a

def Restores (depth : Nat) (d : Decoder α) (write : α → Value) : Prop :=
  ∀ s a r, d.read depth s = .done a r → Restored depth d write a

/-- The text of everything that is read is read for the same again. -/
theorem Restores.parse {d : Decoder α} {write : α → Value} (h : Restores maxDepth d write)
    {text : String} {a : α} (ha : d.parse text = .ok a) (hx : (write a).IsCarried) :
    d.parse (write a).text = .ok a := by
  obtain ⟨r, hread, -⟩ := document_eq_ok.mp ha
  exact document_written (h text.toList a r hread hx)

/-- What is written is viewed like what was read, and is null only if that was. -/
def Stable (d : Decoder α) (write : α → Value) : Prop :=
  ∀ depth v a, v.Legible depth → d.view v = some a →
    (write a).Legible depth ∧ d.view (write a) = some a ∧ (write a).isNull = v.isNull

/-- What is viewed in a value is read from the text of the value, and what is read has its own view
written. -/
structure Faithful (d : Decoder α) (write : α → Value) : Prop where
  read_of_view : ∀ depth s v a r, Json.value exact depth s = .done v r → d.view v = some a →
    d.read depth s = .done a r
  of_read : ∀ depth s a r, d.read depth s = .done a r →
    (write a).Legible depth ∧ d.view (write a) = some a

theorem Faithful.restored {d : Decoder α} {write : α → Value} (h : d.Faithful write)
    {depth : Nat} {a : α} (hlegible : (write a).Legible depth)
    (hview : d.view (write a) = some a) : Restored depth d write a := by
  intro hx
  have hwritten := hlegible.written hx
  exact ⟨hwritten.starts,
    fun rest hr => h.read_of_view depth _ (write a) a rest (hwritten.reads rest hr) hview⟩

theorem Faithful.restores {d : Decoder α} {write : α → Value} (h : d.Faithful write)
    (depth : Nat) : Restores depth d write := by
  intro s a r hread
  obtain ⟨hlegible, hview⟩ := h.of_read depth s a r hread
  exact h.restored hlegible hview

theorem Stable.faithful {d : Decoder α} {write : α → Value} (h : d.Stable write)
    (hd : d.Agrees) : d.Faithful write := by
  constructor
  · intro depth s v a r hv ha
    exact (hd depth s a r).mpr ⟨v, hv, ha⟩
  · intro depth s a r hread
    obtain ⟨v, hv, ha⟩ := (hd depth s a r).mp hread
    obtain ⟨hlegible, hview, -⟩ := h depth v a (legible_of_read hv) ha
    exact ⟨hlegible, hview⟩

/-- A type that keeps the very value it is viewed in. -/
theorem stable_of_write {d : Decoder α} {write : α → Value}
    (h : ∀ v a, v.Sorted → d.view v = some a → write a = v) : d.Stable write := by
  intro depth v a hv ha
  have hw := h v a hv.sorted ha
  subst hw
  exact ⟨hv, ha, rfl⟩

theorem value_stable : value.Stable fun v => v :=
  stable_of_write fun _ _ _ h => (Option.some.inj h).symm

theorem ofString_agrees (f : String → α) : (ofString f).Agrees :=
  scalar_agrees (fun _ => rfl) (fun _ => rfl)

theorem bool_agrees : bool.Agrees := scalar_agrees (fun _ => rfl) (fun _ => rfl)

theorem below_agrees (bound : Nat) : (below bound).Agrees :=
  scalar_agrees (fun _ => rfl) (fun _ => rfl)

theorem double_agrees : double.Agrees := scalar_agrees (fun _ => rfl) (fun _ => rfl)

theorem ofString_stable {f : String → α} {g : α → String} (h : ∀ s, g (f s) = s) :
    (ofString f).Stable fun a => .string (g a) := by
  refine stable_of_write fun v a _ ha => ?_
  cases v with
  | string s =>
    obtain rfl : f s = a := by simpa [ofString, scalar, Value.string?] using ha
    rw [h]
  | _ => cases ha

theorem string_stable : string.Stable .string := by
  refine stable_of_write fun v a _ ha => ?_
  cases v with
  | string s =>
    cases ha
    rfl
  | _ => cases ha

theorem bool_stable : bool.Stable .bool := by
  refine stable_of_write fun v a _ ha => ?_
  cases v with
  | bool b =>
    cases ha
    rfl
  | _ => cases ha

theorem signed_stable : signed.Stable .integer := by
  refine stable_of_write fun v a _ ha => ?_
  cases v with
  | integer n =>
    obtain ⟨-, rfl⟩ : IsSigned64 n ∧ n = a := by simpa [signed, scalar, Value.signed?] using ha
    rfl
  | _ => cases ha

theorem below_stable (bound : Nat) : (below bound).Stable fun n => .integer n := by
  refine stable_of_write fun v a _ ha => ?_
  cases v with
  | integer n =>
    obtain ⟨⟨hn, -⟩, rfl⟩ : (0 ≤ n ∧ n < bound) ∧ n.toNat = a := by
      simpa [below, scalar, Value.below?] using ha
    rw [Int.toNat_of_nonneg hn]
  | _ => cases ha

theorem unsigned_stable : unsigned.Stable fun n => .integer n := below_stable bound64

/-- A double may have been read as an integer; it is written as the double that it became. -/
theorem double_stable : double.Stable .double := by
  intro depth v a _ ha
  refine ⟨⟨.double a, Nat.zero_le depth⟩, rfl, ?_⟩
  cases v with
  | integer n => rfl
  | double x => rfl
  | _ => cases ha

def orNull (write : α → Value) (a : Option α) : Value := (a.map write).getD .null

theorem option_stable {d : Decoder α} {write : α → Value} (h : d.Stable write) :
    d.option.Stable (orNull write) := by
  intro depth v a hv ha
  cases hnull : v.isNull with
  | true =>
    obtain rfl : none = a := by simpa [option, hnull] using ha
    exact ⟨⟨.null, Nat.zero_le depth⟩, rfl, rfl⟩
  | false =>
    obtain ⟨b, hb, rfl⟩ : ∃ b, d.view v = some b ∧ some b = a := by simpa [option, hnull] using ha
    obtain ⟨hlegible, hview, hw⟩ := h depth v b hv hb
    rw [hnull] at hw
    exact ⟨hlegible, by simp [option, orNull, hw, hview], hw⟩

theorem option_faithful {d : Decoder α} {write : α → Value} (h : d.Stable write)
    (hd : d.Agrees) : d.option.Faithful (orNull write) :=
  (option_stable h).faithful (option_agrees hd)

/-- Nothing, the outcome of every fault, is written as null and read back as nothing. -/
theorem lenient_faithful {d : Decoder α} {write : α → Value} (h : d.Stable write) :
    d.option.lenient.Faithful (orNull write) := by
  constructor
  · intro depth s v a r hv ha
    cases ha
    simp only [lenient, hv]
  · intro depth s a r hread
    have hnone : (orNull write (none : Option α)).Legible depth ∧
        d.option.lenient.view (orNull write none) = some none :=
      ⟨⟨.null, Nat.zero_le depth⟩, rfl⟩
    simp only [lenient] at hread
    split at hread
    · rename_i v _ hv
      obtain ⟨rfl, -⟩ := Outcome.done.inj hread
      cases hview : d.option.view v with
      | none => exact hnone
      | some a =>
        obtain ⟨hlegible, hview, -⟩ := option_stable h depth v a (legible_of_read hv) hview
        exact ⟨hlegible, by simp [lenient, hview]⟩
    · obtain ⟨rfl, -⟩ := Outcome.done.inj hread
      exact hnone

theorem oneOf_written {f : String → Option α} {a : α} {w : String} (h : f w = some a)
    (depth : Nat) : Written ((oneOf f).read depth) (Value.string w).render a := by
  refine ⟨⟨'"', _, rfl, by decide, by decide⟩, ?_⟩
  intro rest _
  have hskip (s : List Char) : skipBlanks ('"' :: s) = '"' :: s := rfl
  simp only [Value.render, stringText, List.cons_append, List.append_assoc, List.nil_append, oneOf,
    hskip, exact_string, andThen_done, h]

theorem oneOf_restores {f : String → Option α} {word : α → String}
    (h : ∀ a, f (word a) = some a) (depth : Nat) :
    Restores depth (oneOf f) fun a => .string (word a) :=
  fun _ a _ _ _ => oneOf_written (h a) depth

/-- Nothing is read where nothing fits. -/
theorem scalar_none_ne_done {depth : Nat} {s r : List Char} {a : α} :
    (scalar fun _ => (none : Option α)).read depth s ≠ .done a r := by
  intro h
  simp only [scalar] at h
  split at h
  · cases h
  · cases h
  · obtain ⟨v, t, -, h⟩ := andThen_eq_done.mp h
    cases h

theorem list_written {d : Decoder α} {write : α → Value} {depth : Nat} {as : List α}
    (h : ∀ a ∈ as, Written (d.read depth) (write a).render a) :
    Written (d.list.read (depth + 1)) (Value.array (as.map write)).render as := by
  refine ⟨⟨'[', _, rfl, by decide, by decide⟩, ?_⟩
  intro rest _
  have hpieces : List.Forall₂ (Written (d.read depth)) ((as.map write).map Value.render) as := by
    rw [List.map_map]
    exact List.forall₂_map_left_iff.mpr (List.forall₂_same.mpr h)
  have hskip (s : List Char) : skipBlanks ('[' :: s) = '[' :: s := rfl
  rw [render_array]
  simp only [list, hskip, array_elements_written hpieces]

/-- A list is restored when its elements are. -/
theorem list_restores {d : Decoder α} {write : α → Value} {depth : Nat}
    (h : Restores depth d write) :
    Restores (depth + 1) d.list fun as => .array (as.map write) := by
  intro s as r hread hx
  have heach : ∀ a ∈ as, Restored depth d write a := by
    simp only [list] at hread
    split at hread
    · obtain ⟨t, hloop, -⟩ := closedBy_eq_done.mp hread
      exact elements_keeps h (by simp) hloop
    · exact absurd hread scalar_none_ne_done
  exact list_written fun a ha => heach a ha (hx.item (List.mem_map_of_mem ha))

/-- A field of a record with what it takes to write it: what it holds, and the value that stands for
this unless the field is left out. -/
structure Column (ρ : Type) where
  Content : Type
  name : String
  required : Bool
  decoder : Decoder Content
  write : Content → Option Value
  get : ρ → Content
  set : ρ → Content → ρ

namespace Column

def always (required : Bool) (name : String) (d : Decoder α) (write : α → Value) (get : ρ → α)
    (set : ρ → α → ρ) : Column ρ :=
  ⟨α, name, required, d, fun a => some (write a), get, set⟩

def unlessNone (name : String) (d : Decoder (Option α)) (write : α → Value) (get : ρ → Option α)
    (set : ρ → Option α → ρ) : Column ρ :=
  ⟨Option α, name, false, d, Option.map write, get, set⟩

def field (c : Column ρ) : Field ρ where
  name := c.name
  required := c.required
  read depth x s := (c.decoder.read depth s).map (c.set x)
  view v x := (c.decoder.view v).map (c.set x)

def member? (x : ρ) (c : Column ρ) : Option (String × Value) :=
  (c.write (c.get x)).map fun v => (c.name, v)

def object (columns : List (Column ρ)) (x : ρ) : Value := .object (columns.filterMap (member? x))

/-- What is read back, so deep, when this content is written: itself, also if it is left out. -/
def Kept (blank : ρ) (depth : Nat) (c : Column ρ) (a : c.Content) : Prop :=
  match c.write a with
  | none => c.get blank = a
  | some w => w.IsCarried → Written (c.decoder.read depth) w.render a

def Apart (c c' : Column ρ) : Prop :=
  c.name ≠ c'.name ∧ (∀ x a, c.get (c'.set x a) = c.get x) ∧ ∀ x a, c'.get (c.set x a) = c'.get x

instance : Std.Symm (Apart (ρ := ρ)) := ⟨fun _ _ h => ⟨h.1.symm, h.2.2, h.2.1⟩⟩

structure Lawful (columns : List (Column ρ)) : Prop where
  get_set : ∀ c ∈ columns, ∀ x a, c.get (c.set x a) = a
  apart : columns.Pairwise Apart
  ext : ∀ x y, (∀ c ∈ columns, c.get x = c.get y) → x = y
  required : ∀ c ∈ columns, c.required = true → ∀ a, (c.write a).isSome

structure Restoring (depth : Nat) (blank : ρ) (c : Column ρ) : Prop where
  blank_kept : c.Kept blank depth (c.get blank)
  read_kept : ∀ s a r, c.decoder.read depth s = .done a r → c.Kept blank depth a

section Restoring

variable {depth : Nat} {blank : ρ} {required : Bool} {name : String}

theorem always_restoring {d : Decoder α} {write : α → Value} {get : ρ → α} {set : ρ → α → ρ}
    (h : Restores depth d write) (hblank : Restored depth d write (get blank)) :
    (always required name d write get set).Restoring depth blank :=
  ⟨hblank, h⟩

/-- A field of a scalar type. -/
theorem faithful_restoring {d : Decoder α} {write : α → Value} {get : ρ → α} {set : ρ → α → ρ}
    (h : d.Faithful write) (hlegible : (write (get blank)).Legible depth)
    (hview : d.view (write (get blank)) = some (get blank)) :
    (always required name d write get set).Restoring depth blank :=
  always_restoring (h.restores depth) (h.restored hlegible hview)

/-- A field that may be null, written as null. -/
theorem orNull_restoring {d : Decoder (Option α)} {write : α → Value} {get : ρ → Option α}
    {set : ρ → Option α → ρ} (h : d.Faithful (orNull write)) (hblank : get blank = none)
    (hview : d.view .null = some none) :
    (always required name d (orNull write) get set).Restoring depth blank := by
  refine faithful_restoring h ?_ ?_
  · rw [hblank]
    exact ⟨.null, Nat.zero_le depth⟩
  · rw [hblank]
    exact hview

/-- A field that may be null, left out then. -/
theorem unlessNone_restoring {d : Decoder (Option α)} {write : α → Value} {get : ρ → Option α}
    {set : ρ → Option α → ρ} (h : Restores depth d (orNull write)) (hblank : get blank = none) :
    (unlessNone name d write get set).Restoring depth blank := by
  constructor
  · simp only [unlessNone, Kept, hblank, Option.map_none]
  · intro s a r hread
    cases a with
    | none => exact hblank
    | some b => exact h s (some b) r hread

/-- A field that holds a list, blank without elements. -/
theorem list_restoring {d : Decoder α} {write : α → Value} {get : ρ → List α}
    {set : ρ → List α → ρ} (h : Restores depth d write) (hblank : get blank = []) :
    (always required name d.list (fun as => .array (as.map write)) get set).Restoring
      (depth + 1) blank := by
  refine always_restoring (list_restores h) fun _ => ?_
  rw [hblank]
  exact list_written (by simp)

end Restoring

variable {columns : List (Column ρ)}

theorem Lawful.eq_or_apart (h : Lawful columns) {c c' : Column ρ} (hc : c ∈ columns)
    (hc' : c' ∈ columns) : c = c' ∨ c.Apart c' := by
  by_cases heq : c = c'
  · exact .inl heq
  · exact .inr (h.apart.forall hc hc' heq)

theorem Lawful.eq_of_name (h : Lawful columns) {c c' : Column ρ} (hc : c ∈ columns)
    (hc' : c' ∈ columns) (hn : c.name = c'.name) : c = c' :=
  (h.eq_or_apart hc hc').resolve_right fun hapart => hapart.1 hn

/-- Setting one column leaves the other columns alone. -/
theorem Lawful.get_set_cases (h : Lawful columns) {c c' : Column ρ} (hc : c ∈ columns)
    (hc' : c' ∈ columns) {P : (c : Column ρ) → c.Content → Prop} {x : ρ} {a : c'.Content}
    (ha : P c' a) (hx : P c (c.get x)) : P c (c.get (c'.set x a)) := by
  rcases h.eq_or_apart hc hc' with rfl | hapart
  · rwa [h.get_set c hc]
  · rwa [hapart.2.1]

theorem find?_name (h : Lawful columns) {c : Column ρ} (hc : c ∈ columns) :
    columns.find? (·.name == c.name) = some c := by
  cases hfind : columns.find? (·.name == c.name) with
  | none => exact absurd (List.find?_eq_none.mp hfind c hc) (by simp)
  | some c' =>
    have hname : c'.name = c.name := by simpa using List.find?_some hfind
    rw [h.eq_of_name (List.mem_of_find?_eq_some hfind) hc hname]

theorem find?_field (h : Lawful columns) {c : Column ρ} (hc : c ∈ columns) :
    (columns.map field).find? (·.name == c.name) = some c.field := by
  rw [List.find?_map]
  exact congrArg (Option.map field) (find?_name h hc)

/-- What a record that was read holds in each column is read back. -/
theorem kept_of_read (h : Lawful columns) {blank : ρ} {depth : Nat}
    (hr : ∀ c ∈ columns, c.Restoring depth blank) {s r : List Char} {a : ρ}
    (hread : (record blank (columns.map field)).read (depth + 1) s = .done a r) :
    ∀ c ∈ columns, c.Kept blank depth (c.get a) := by
  refine record_read_keeps (P := fun x => ∀ c ∈ columns, c.Kept blank depth (c.get x)) ?_
    (fun c hc => (hr c hc).blank_kept) hread
  intro f hf x s x' r hx hread
  obtain ⟨c', hc', rfl⟩ := List.mem_map.mp hf
  obtain ⟨b, hb, rfl⟩ := map_eq_done.mp hread
  intro c hc
  exact h.get_set_cases (P := fun c => c.Kept blank depth) hc hc'
    ((hr c' hc').read_kept s b r hb) (hx c hc)

theorem member?_eq_some {c : Column ρ} {x : ρ} {m : String × Value} :
    c.member? x = some m ↔ ∃ w, c.write (c.get x) = some w ∧ (c.name, w) = m :=
  Option.map_eq_some_iff

def take (columns : List (Column ρ)) (a : ρ) (p : Partial ρ) (m : String × Value) :
    Option (Partial ρ) :=
  (columns.find? (·.name == m.1)).bind fun c =>
    if p.given.contains m.1 then none else some ⟨c.set p.record (c.get a), m.1 :: p.given⟩

/-- What is read of a written member is what is taken in. -/
theorem recordMember_take (h : Lawful columns) {a : ρ} {depth : Nat} {c : Column ρ}
    (hc : c ∈ columns) {w : Value} (hw : Written (c.decoder.read depth) w.render (c.get a))
    {p p' : Partial ρ} (htake : take columns a p (c.name, w) = some p') {rest : List Char}
    (hr : Stops rest) :
    recordMember (columns.map field) depth p c.name (':' :: (w.render ++ rest)) =
      .done p' rest := by
  have hcolon : colon (':' :: (w.render ++ rest)) = .done () (w.render ++ rest) := rfl
  simp only [take, find?_name h hc, Option.bind_some] at htake
  simp only [recordMember, find?_field h hc, hcolon]
  split at htake
  · cases htake
  · rename_i hgiven
    cases htake
    simp only [if_neg hgiven, andThen_done, field, hw.reads rest hr, map_done]

theorem take_column (h : Lawful columns) {c : Column ρ} (hc : c ∈ columns) {a x : ρ} {w : Value}
    {given : List String} (hfresh : c.name ∉ given) :
    take columns a ⟨x, given⟩ (c.name, w) = some ⟨c.set x (c.get a), c.name :: given⟩ := by
  have hcontains : given.contains c.name = false := by simpa using hfresh
  simp only [take, find?_name h hc, Option.bind_some, hcontains, Bool.false_eq_true, if_false]

/-- The record `x` holds what `a` holds, save for columns among these, and each of them is
written. -/
def Awaits (columns rest : List (Column ρ)) (a x : ρ) : Prop :=
  ∀ c ∈ columns, c.get x = c.get a ∨ c ∈ rest ∧ (c.write (c.get a)).isSome

/-- A column that is left out is not waited for. -/
theorem Awaits.skip {c : Column ρ} {rest : List (Column ρ)} {a x : ρ}
    (hx : Awaits columns (c :: rest) a x) (hw : c.write (c.get a) = none) :
    Awaits columns rest a x := by
  intro c' hc'
  refine (hx c' hc').imp_right fun ⟨hmem, hsome⟩ => ⟨?_, hsome⟩
  rcases List.mem_cons.mp hmem with rfl | hmem
  · simp [hw] at hsome
  · exact hmem

/-- A column that is set is waited for no longer, and the others are as they were. -/
theorem Awaits.set (h : Lawful columns) {c : Column ρ} (hc : c ∈ columns)
    {rest : List (Column ρ)} {a x : ρ} (hx : Awaits columns (c :: rest) a x) :
    Awaits columns rest a (c.set x (c.get a)) := by
  intro c' hc'
  rcases h.eq_or_apart hc' hc with rfl | hapart
  · exact .inl (h.get_set c' hc' x _)
  · rw [hapart.2.1]
    refine (hx c' hc').imp_right fun ⟨hmem, hsome⟩ => ⟨?_, hsome⟩
    exact (List.mem_cons.mp hmem).resolve_left fun heq => hapart.1 (congrArg name heq)

/-- The columns that are still to come set the record right. The induction is on these; every other
column holds what it should. -/
theorem take_object (h : Lawful columns) {a : ρ} {rest : List (Column ρ)}
    (hrest : rest.Sublist columns) {x : ρ} {given : List String}
    (hx : Awaits columns rest a x) (hg : ∀ c ∈ rest, c.name ∉ given) :
    ∃ given', (rest.filterMap (member? a)).foldlM (take columns a) ⟨x, given⟩ = some ⟨a, given'⟩ ∧
      given ⊆ given' ∧ ∀ c ∈ rest, (c.write (c.get a)).isSome → c.name ∈ given' := by
  induction rest generalizing x given with
  | nil =>
    have hxa : x = a := h.ext x a fun c hc => (hx c hc).resolve_right (by simp)
    exact ⟨given, by rw [hxa]; rfl, List.Subset.refl given, by simp⟩
  | cons c rest ih =>
    have hc : c ∈ columns := hrest.subset (by simp)
    have htail : rest.Sublist columns := (List.sublist_cons_self c rest).trans hrest
    cases hwrite : c.write (c.get a) with
    | none =>
      have hmember : member? a c = none := by simp [member?, hwrite]
      obtain ⟨given', hfold, hsub, hall⟩ :=
        ih htail (hx.skip hwrite) fun c' hc' => hg c' (by simp [hc'])
      refine ⟨given', ?_, hsub, ?_⟩
      · rw [List.filterMap_cons_none hmember, hfold]
      · intro c' hc' hw
        rcases List.mem_cons.mp hc' with rfl | hc'
        · simp [hwrite] at hw
        · exact hall c' hc' hw
    | some w =>
      have hmember : member? a c = some (c.name, w) := member?_eq_some.mpr ⟨w, hwrite, rfl⟩
      have hnew : ∀ c' ∈ rest, c'.name ∉ c.name :: given := by
        intro c' hc'
        have hapart : c.Apart c' := (List.pairwise_cons.mp (h.apart.sublist hrest)).1 c' hc'
        simpa [hapart.1.symm] using hg c' (by simp [hc'])
      obtain ⟨given', hfold, hsub, hall⟩ := ih htail (hx.set h hc) hnew
      refine ⟨given', ?_, fun k hk => hsub (by simp [hk]), ?_⟩
      · rw [List.filterMap_cons_some hmember, List.foldlM_cons, take_column h hc (hg c (by simp))]
        exact hfold
      · intro c' hc' hw
        rcases List.mem_cons.mp hc' with rfl | hc'
        · exact hsub (by simp)
        · exact hall c' hc' hw

/-- A record is restored when each of its columns is. -/
theorem record_restores (h : Lawful columns) (blank : ρ) {depth : Nat}
    (hr : ∀ c ∈ columns, c.Restoring depth blank) :
    Restores (depth + 1) (record blank (columns.map field)) (object columns) := by
  intro s a r hread hx
  have hkept := kept_of_read h hr hread
  have hwritten {c : Column ρ} (hc : c ∈ columns) {w : Value} (hw : c.write (c.get a) = some w) :
      Written (c.decoder.read depth) w.render (c.get a) := by
    have hk := hkept c hc
    simp only [Kept, hw] at hk
    have hmem : (c.name, w) ∈ columns.filterMap (member? a) :=
      List.mem_filterMap.mpr ⟨c, hc, member?_eq_some.mpr ⟨w, hw, rfl⟩⟩
    exact hk (hx.member hmem)
  have hblank : Awaits columns columns a blank := by
    intro c hc
    have hk := hkept c hc
    cases hw : c.write (c.get a) with
    | none => exact .inl (by simpa only [Kept, hw] using hk)
    | some w => exact .inr ⟨hc, rfl⟩
  obtain ⟨given, htake, -, hgiven⟩ :=
    take_object h (List.Sublist.refl columns) hblank fun _ _ => List.not_mem_nil
  refine record_written_of_take ?_ htake ?_
  · intro m hm p p' hp rest hrest
    obtain ⟨c, hc, hm⟩ := List.mem_filterMap.mp hm
    obtain ⟨w, hw, rfl⟩ := member?_eq_some.mp hm
    exact recordMember_take h hc (hwritten hc hw) hp hrest
  · have hall : (columns.map field).all fun f => !f.required || given.contains f.name := by
      simp only [List.all_eq_true, List.mem_map]
      rintro _ ⟨c, hc, rfl⟩
      cases hreq : c.required with
      | false => simp [field, hreq]
      | true => simpa [field, hreq] using hgiven c hc (h.required c hc hreq _)
    exact if_pos hall

end Column
end Decoder
end MediaRemote.Json
