import MediaRemote.Json.Decoder
import MediaRemote.Proofs.Json.Values

namespace MediaRemote.Json

open Outcome

def Value.items : Value → List Value
  | .array items => items
  | .object members => members.map (·.2)
  | _ => []

namespace Decoder

variable {α ρ : Type}

/-- Reading from text is viewing the value that is read. An object may also give keys that a record
passes over; what stands there need not be a value. -/
def Agrees (d : Decoder α) : Prop :=
  ∀ depth s a r, d.read depth s = .done a r ↔
    ∃ v, Json.value exact depth s = .done v r ∧ d.view v = some a

theorem value_agrees : value.Agrees := by
  intro depth s a r
  simp [value]

/-- A scalar is no array and no object, so nothing is lost by not entering these. -/
theorem scalar_agrees {f : Value → Option α} (ha : ∀ items, f (.array items) = none)
    (ho : ∀ members, f (.object members) = none) : (scalar f).Agrees := by
  intro depth s a r
  constructor
  · intro h
    unfold scalar at h
    simp only at h
    split at h
    · cases h
    · cases h
    · rw [value_skipBlanks] at h
      obtain ⟨v, t, hv, h⟩ := andThen_eq_done.mp h
      split at h
      · rename_i hf
        cases h
        exact ⟨v, hv, hf⟩
      · cases h
  · rintro ⟨v, hv, hf⟩
    obtain ⟨c, t, hs, hc⟩ := value_opens hv
    have hf : f v = some a := hf
    unfold scalar
    simp only
    split
    · rename_i hs'
      obtain rfl : c = '[' := by simpa [hs] using congrArg List.head? hs'
      cases v <;> simp_all [Value.Opens]
    · rename_i hs'
      obtain rfl : c = '\x7b' := by simpa [hs] using congrArg List.head? hs'
      cases v <;> simp_all [Value.Opens]
    · rw [value_skipBlanks, hv]
      simp [hf]

theorem string_agrees : string.Agrees := scalar_agrees (fun _ => rfl) (fun _ => rfl)

/-- Only null starts like null. -/
theorem option_agrees {d : Decoder α} (hd : d.Agrees) : d.option.Agrees := by
  intro depth s a r
  unfold option
  simp only
  split
  · rename_i t hs
    have hvalue : Json.value exact depth s = (word "ull".toList t).map fun _ => .null := by
      rw [Json.value, hs]
      rfl
    rw [hvalue]
    simp only [map_eq_done]
    constructor
    · rintro ⟨u, hu, rfl⟩
      exact ⟨.null, ⟨u, hu, rfl⟩, rfl⟩
    · rintro ⟨v, ⟨u, hu, rfl⟩, hv⟩
      exact ⟨u, hu, by simpa [Value.isNull] using hv⟩
  · rename_i hn
    have hnull {v : Value} (hv : Json.value exact depth s = .done v r) : v.isNull = false := by
      obtain ⟨c, t, hs, hc⟩ := value_opens hv
      cases v with
      | null => exact absurd (hs.trans (congrArg (· :: t) hc)) (hn t)
      | _ => rfl
    simp only [map_eq_done, hd depth, value_skipBlanks]
    constructor
    · rintro ⟨b, ⟨v, hv, hb⟩, rfl⟩
      exact ⟨v, hv, by simp [hnull hv, hb]⟩
    · rintro ⟨v, hv, ha⟩
      rw [hnull hv] at ha
      obtain ⟨b, hb, rfl⟩ := Option.map_eq_some_iff.mp ha
      exact ⟨b, ⟨v, hv, hb⟩, rfl⟩

def Field.Agrees (f : Field ρ) : Prop :=
  ∀ depth record s record' r, f.read depth record s = .done record' r ↔
    ∃ v, Json.value exact depth s = .done v r ∧ f.view v record = some record'

theorem optional_agrees {name : String} {d : Decoder α} (hd : d.Agrees) (set : ρ → α → ρ) :
    (Field.optional name d set).Agrees := by
  intro depth record s record' r
  simp only [Field.optional, map_eq_done, hd depth, Option.map_eq_some_iff]
  constructor
  · rintro ⟨a, ⟨v, hv, ha⟩, hset⟩
    exact ⟨v, hv, a, ha, hset⟩
  · rintro ⟨v, hv, a, ha, hset⟩
    exact ⟨a, ⟨v, hv, ha⟩, hset⟩

/-- Fields that are read like values, none of which has to be given. -/
def Open (fields : List (Field ρ)) : Prop := ∀ f ∈ fields, f.Agrees ∧ f.required = false

theorem Open.required {fields : List (Field ρ)} (hf : Open fields) :
    fields.any (·.required) = false := by
  simp only [List.any_eq_false]
  intro f hmem
  simp [(hf f hmem).2]

/-- The first of the elements is read, or there are none. -/
theorem elements_succ {element : Reader α} {fuel : Nat} {first : Bool} {acc items : List α}
    {s r : List Char} :
    elements element (fuel + 1) first acc s = .done (acc.reverse ++ items) r ↔
      (items = [] ∧ nextElement first s = .done false r) ∨
        ∃ a rest t t', items = a :: rest ∧ nextElement first s = .done true t ∧
          element t = .done a t' ∧
          elements element fuel false (a :: acc) t' = .done ((a :: acc).reverse ++ rest) r := by
  constructor
  · intro h
    obtain ⟨more, t, hnext, h⟩ := andThen_eq_done.mp h
    cases more with
    | false =>
      obtain ⟨hitems, rfl⟩ := Outcome.done.inj h
      exact .inl ⟨by simpa using hitems, hnext⟩
    | true =>
      obtain ⟨a, t', ha, h⟩ := andThen_eq_done.mp h
      obtain ⟨rest, hrest⟩ := elements_extends h
      refine .inr ⟨a, rest, t, t', by simpa using hrest, hnext, ha, ?_⟩
      rw [← hrest]
      exact h
  · rintro (⟨rfl, hnext⟩ | ⟨a, rest, t, t', rfl, hnext, ha, h⟩)
    · simp [elements, hnext]
    · simpa [elements, hnext, ha] using h

/-- The first field is read from the first element, or all fields are left out. -/
theorem recordElements_cons {f : Field ρ} {fields : List (Field ρ)} (hf : Open (f :: fields))
    {depth : Nat} {first : Bool} {x x' : ρ} {s r : List Char} :
    recordElements depth (f :: fields) first x s = .done x' r ↔
      (x' = x ∧ nextElement first s = .done false r) ∨
        ∃ v y t t', nextElement first s = .done true t ∧ Json.value exact depth t = .done v t' ∧
          f.view v x = some y ∧ recordElements depth fields false y t' = .done x' r := by
  have hagrees : f.Agrees := (hf f (by simp)).1
  constructor
  · intro h
    obtain ⟨more, t, hnext, h⟩ := andThen_eq_done.mp h
    cases more with
    | false =>
      simp only [Bool.false_eq_true, if_false, hf.required] at h
      obtain ⟨rfl, rfl⟩ := Outcome.done.inj h
      exact .inl ⟨rfl, hnext⟩
    | true =>
      obtain ⟨y, t', hy, h⟩ := andThen_eq_done.mp h
      obtain ⟨v, hv, hview⟩ := (hagrees depth x t y t').mp hy
      exact .inr ⟨v, y, t, t', hnext, hv, hview, h⟩
  · rintro (⟨rfl, hnext⟩ | ⟨v, y, t, t', hnext, hv, hview, h⟩)
    · simp [recordElements, hnext, hf.required]
    · have hread : f.read depth x t = .done y t' := (hagrees depth x t y t').mpr ⟨v, hv, hview⟩
      simpa [recordElements, hnext, hread] using h

/-- Just before the closing bracket there is no other element. -/
theorem closeArray_iff {first : Bool} {s r : List Char} : closeArray s = .done () r ↔
    ∃ t, nextElement first s = .done false t ∧ closeArray t = .done () r := by
  simp only [closeArray_eq_done]
  constructor
  · intro hs
    exact ⟨']' :: r, nextElement_false.mpr ⟨r, hs, rfl⟩, rfl⟩
  · rintro ⟨t, hnext, ht⟩
    obtain ⟨r', hs, rfl⟩ := nextElement_false.mp hnext
    rw [hs, ← ht]
    rfl

/-- Elements that are read one by one into the fields are those that are read as values first. -/
theorem recordElements_agrees {fields : List (Field ρ)} (hf : Open fields) {depth fuel : Nat}
    {first : Bool} (acc : List Value) {record record' : ρ} {s r : List Char}
    (hfuel : s.length < fuel) :
    (∃ t, recordElements depth fields first record s = .done record' t ∧
        closeArray t = .done () r) ↔
      ∃ items t, elements (Json.value exact depth) fuel first acc s =
          .done (acc.reverse ++ items) t ∧ closeArray t = .done () r ∧
        viewElements items fields record = some record' := by
  obtain ⟨fuel, rfl⟩ : ∃ n, fuel = n + 1 := ⟨fuel - 1, by omega⟩
  induction fields generalizing fuel first acc record s with
  | nil =>
    constructor
    · rintro ⟨t, ht, hclose⟩
      cases ht
      have hlast : ∃ t, nextElement first s = .done false t ∧ closeArray t = .done () r :=
        closeArray_iff.mp hclose
      obtain ⟨t, hnext, hclose⟩ := hlast
      exact ⟨[], t, elements_succ.mpr (.inl ⟨rfl, hnext⟩), hclose, rfl⟩
    · rintro ⟨items, t, ht, hclose, hview⟩
      rcases elements_succ.mp ht with ⟨rfl, hnext⟩ | ⟨v, rest, _, _, rfl, -⟩
      · cases hview
        exact ⟨s, rfl, closeArray_iff.mpr ⟨t, hnext, hclose⟩⟩
      · cases hview
  | cons f fields ih =>
    have hopen : Open fields := fun g hg => hf g (by simp [hg])
    -- the fuel lasts, since every element takes at least one character
    have hleft {t t' : List Char} {v : Value} (hnext : nextElement first s = .done true t)
        (hv : Json.value exact depth t = .done v t') : ∃ n, fuel = n + 1 ∧ t'.length < n + 1 := by
      have hshort := nextElement_shortens hnext
      have hshorter := value_shortens exact_sound hv
      exact ⟨fuel - 1, by omega, by omega⟩
    simp only [recordElements_cons hf, elements_succ]
    constructor
    · rintro ⟨t, ⟨rfl, hnext⟩ | ⟨v, y, t₁, t₂, hnext, hv, hview, h⟩, hclose⟩
      · exact ⟨[], t, .inl ⟨rfl, hnext⟩, hclose, by simp [viewElements, hf.required]⟩
      · obtain ⟨fuel, rfl, hshort⟩ := hleft hnext hv
        obtain ⟨rest, t', hrest, hclose, hviews⟩ :=
          (ih hopen (v :: acc) fuel hshort).mp ⟨t, h, hclose⟩
        refine ⟨v :: rest, t', .inr ⟨v, rest, t₁, t₂, rfl, hnext, hv, hrest⟩, hclose, ?_⟩
        simpa [viewElements, hview] using hviews
    · rintro ⟨items, t, ⟨rfl, hnext⟩ | ⟨v, rest, t₁, t₂, rfl, hnext, hv, hrest⟩, hclose, hviews⟩
      · refine ⟨t, .inl ⟨?_, hnext⟩, hclose⟩
        simpa [viewElements, hf.required] using hviews.symm
      · obtain ⟨fuel, rfl, hshort⟩ := hleft hnext hv
        obtain ⟨y, hview, hviews⟩ := Option.bind_eq_some_iff.mp hviews
        obtain ⟨t', h, hclose⟩ :=
          (ih hopen (v :: acc) fuel hshort).mpr ⟨rest, t, hrest, hclose, hviews⟩
        exact ⟨t', .inr ⟨v, y, t₁, t₂, hnext, hv, hview, h⟩, hclose⟩

theorem record_array {fields : List (Field ρ)} (hf : Open fields) {blank a : ρ} {depth : Nat}
    {s t r : List Char} (hs : skipBlanks s = '[' :: t) :
    (record blank fields).read depth s = .done a r ↔
      ∃ items, Json.value exact depth s = .done (.array items) r ∧
        (record blank fields).view (.array items) = some a := by
  cases depth with
  | zero => simp [record, Json.value, hs]
  | succ depth =>
    have hread : (record blank fields).read (depth + 1) s =
        closedBy closeArray (recordElements depth fields true blank t) := by
      simp only [record, hs]
    have hvalue : Json.value exact (depth + 1) s =
        (closedBy closeArray (elements (Json.value exact depth) (t.length + 1) true [] t)).map
          .array := by
      rw [Json.value, hs]
      rfl
    simp only [hread, hvalue, map_eq_done, closedBy_eq_done,
      recordElements_agrees hf [] (Nat.lt_succ_self t.length)]
    constructor
    · rintro ⟨items, t', ht, hclose, hview⟩
      exact ⟨items, ⟨items, ⟨t', ht, hclose⟩, rfl⟩, hview⟩
    · rintro ⟨items, ⟨_, ⟨t', ht, hclose⟩, ⟨⟩⟩, hview⟩
      exact ⟨items, t', ht, hclose, hview⟩

theorem Field.Agrees.takes {f : Field ρ} (hf : f.Agrees) (depth : Nat) (x : ρ) :
    Takes (f.read depth x) (Padded IsValue) := by
  intro s x' r h
  obtain ⟨v, hv, -⟩ := (hf depth x s x' r).mp h
  exact value_takes exact_sound depth _ _ _ hv

theorem recordMember_takes {fields : List (Field ρ)} (hf : Open fields) (depth : Nat)
    (p : Partial ρ) (key : String) :
    Takes (recordMember fields depth p key) (Assigned IsValue) := by
  intro s p' r h
  unfold recordMember at h
  split at h
  · exact assigned_takes pass_takes (fun _ => p) _ _ _ h
  · rename_i f hfind
    split at h
    · cases h
    · have hread := (hf f (List.mem_of_find?_eq_some hfind)).1.takes depth p.record
      exact assigned_takes hread (fun x => Partial.mk x (key :: p.given)) _ _ _ h

/-- An object that is taken for a record is an object. -/
theorem record_object {fields : List (Field ρ)} (hf : Open fields) {blank a : ρ} {depth : Nat}
    {s t r : List Char} (hs : skipBlanks s = '\x7b' :: t)
    (h : (record blank fields).read depth s = .done a r) :
    ∃ w, Items (Member IsValue) true w ∧ t = w ++ '\x7d' :: r := by
  cases depth with
  | zero => simp [record, hs] at h
  | succ depth =>
    simp only [record, hs] at h
    obtain ⟨t', hbody, hclose⟩ := closedBy_eq_done.mp h
    obtain ⟨p, t'', hmembers, hfinish⟩ := andThen_eq_done.mp hbody
    split at hfinish
    · cases hfinish
      have hloop := members_takes exact_sound.string (recordMember_takes hf depth) (t.length + 1)
        true ⟨blank, []⟩
      obtain ⟨w, hw, ht⟩ := hloop _ _ _ hmembers
      obtain ⟨b, hb, ht'⟩ := closeObject_done hclose
      exact ⟨w ++ b, hw.append hb, by rw [ht, ht', List.append_assoc]⟩
    · cases hfinish

theorem record_starts {fields : List (Field ρ)} {blank a : ρ} {depth : Nat} {s r : List Char}
    (h : (record blank fields).read depth s = .done a r) :
    ∃ t, skipBlanks s = '[' :: t ∨ skipBlanks s = '\x7b' :: t := by
  simp only [record] at h
  split at h
  · rename_i t hs
    exact ⟨t, .inl hs⟩
  · rename_i t hs
    exact ⟨t, .inr hs⟩
  · simp only [scalar] at h
    split at h
    · cases h
    · cases h
    · obtain ⟨v, t, -, h⟩ := andThen_eq_done.mp h
      cases h

theorem document_eq_ok {read : Reader α} {text : String} {a : α} :
    document read text = .ok a ↔ ∃ r, read text.toList = .done a r ∧ Blanks r := by
  have hempty (r : List Char) : (skipBlanks r).isEmpty = true ↔ Blanks r := by
    simp [skipBlanks, Blanks, List.isEmpty_iff]
  unfold document
  cases read text.toList with
  | fault why r => simp
  | done b r =>
    simp only [Outcome.done.injEq]
    split
    · rename_i hr
      constructor
      · rintro ⟨⟩
        exact ⟨r, ⟨rfl, rfl⟩, (hempty r).mp hr⟩
      · rintro ⟨_, ⟨rfl, rfl⟩, -⟩
        rfl
    · rename_i hr
      constructor
      · nofun
      · rintro ⟨_, ⟨-, rfl⟩, hb⟩
        exact absurd ((hempty _).mpr hb) hr

/-- A text that is not one object is taken for a record when it is an array whose elements are taken
for the fields, and only then. -/
theorem record_parse {fields : List (Field ρ)} (hf : Open fields) {blank a : ρ} {text : String}
    (ho : ¬ IsObjectDocument text.toList) :
    (record blank fields).parse text = .ok a ↔
      ∃ items, Json.parse text = .ok (.array items) ∧
        (record blank fields).view (.array items) = some a := by
  simp only [parse, Json.parse, document_eq_ok]
  constructor
  · rintro ⟨r, hread, hr⟩
    obtain ⟨t, hs | hs⟩ := record_starts hread
    · obtain ⟨items, hvalue, hview⟩ := (record_array hf hs).mp hread
      exact ⟨items, ⟨r, hvalue, hr⟩, hview⟩
    · obtain ⟨w, hw, ht⟩ := record_object hf hs hread
      obtain ⟨b, hb, htext⟩ := skipBlanks_spans text.toList
      refine absurd ?_ ho
      rw [htext, hs, ht]
      exact .mk hb hw hr
  · rintro ⟨items, ⟨r, hvalue, hr⟩, hview⟩
    obtain ⟨c, t, hs, rfl⟩ := value_opens hvalue
    exact ⟨r, (record_array hf hs).mpr ⟨items, hvalue, hview⟩, hr⟩

section Keeps

variable {P : ρ → Prop} {Q : Value → Prop}

def Field.Keeps (P : ρ → Prop) (f : Field ρ) : Prop :=
  ∀ v x x', P x → f.view v x = some x' → P x'

def Field.KeepsFrom (Q : Value → Prop) (P : ρ → Prop) (f : Field ρ) : Prop :=
  ∀ v x x', Q v → P x → f.view v x = some x' → P x'

theorem Field.Keeps.keepsFrom {f : Field ρ} (h : f.Keeps P) : f.KeepsFrom Q P :=
  fun v x x' _ => h v x x'

theorem viewMembers_keeps {members : List (String × Value)} (hm : ∀ m ∈ members, Q m.2)
    {fields : List (Field ρ)} (hf : ∀ f ∈ fields, f.KeepsFrom Q P) {x x' : ρ} (hx : P x)
    (h : viewMembers members fields x = some x') : P x' := by
  induction fields generalizing x with
  | nil =>
    cases h
    exact hx
  | cons f fields ih =>
    have hrest : ∀ g ∈ fields, g.KeepsFrom Q P := fun g hg => hf g (by simp [hg])
    simp only [viewMembers] at h
    split at h
    · rename_i v hv
      obtain ⟨y, hy, h⟩ := Option.bind_eq_some_iff.mp h
      have hq : Q v := hm _ (Dictionary.mem_of_find? hv)
      exact ih hrest (hf f (by simp) v x y hq hx hy) h
    · split at h
      · cases h
      · exact ih hrest hx h

theorem viewElements_keeps {items : List Value} (hi : ∀ v ∈ items, Q v) {fields : List (Field ρ)}
    (hf : ∀ f ∈ fields, f.KeepsFrom Q P) {x x' : ρ} (hx : P x)
    (h : viewElements items fields x = some x') : P x' := by
  induction fields generalizing items x with
  | nil => cases items <;> simp_all [viewElements]
  | cons f fields ih =>
    have hrest : ∀ g ∈ fields, g.KeepsFrom Q P := fun g hg => hf g (by simp [hg])
    cases items with
    | nil =>
      simp only [viewElements] at h
      split at h
      · cases h
      · cases h
        exact hx
    | cons v items =>
      obtain ⟨y, hy, h⟩ := Option.bind_eq_some_iff.mp h
      have hafter : P y := hf f (by simp) v x y (hi v (by simp)) hx hy
      exact ih (fun w hw => hi w (by simp [hw])) hrest hafter h

theorem Field.optional_view {β : Type} {name : String} {d : Decoder β} {set : ρ → β → ρ} {v : Value}
    {x x' : ρ} : (Field.optional name d set).view v x = some x' ↔
      ∃ b, d.view v = some b ∧ set x b = x' :=
  Option.map_eq_some_iff

/-- What the fields keep, whatever is known of the items of a value, holds of the record that is
viewed in it. -/
theorem record_view_keeps_from {fields : List (Field ρ)} (hf : ∀ f ∈ fields, f.KeepsFrom Q P)
    {blank a : ρ} (hb : P blank) {v : Value} (hv : ∀ w ∈ v.items, Q w)
    (h : (record blank fields).view v = some a) : P a := by
  cases v with
  | object members =>
    exact viewMembers_keeps (fun m hm => hv m.2 (List.mem_map_of_mem hm)) hf hb h
  | array items => exact viewElements_keeps hv hf hb h
  | _ => cases h

theorem record_view_keeps {fields : List (Field ρ)} (hf : ∀ f ∈ fields, f.Keeps P) {blank a : ρ}
    (hb : P blank) {v : Value} (h : (record blank fields).view v = some a) : P a :=
  record_view_keeps_from (Q := fun _ => True) (fun f hmem => (hf f hmem).keepsFrom) hb
    (fun _ _ => trivial) h

theorem members_keeps {σ : Type} {key : Reader String} {member : σ → String → Reader σ}
    {P : σ → Prop} (hm : ∀ acc k s acc' r, P acc → member acc k s = .done acc' r → P acc')
    {fuel : Nat} {first : Bool} {acc acc' : σ} {s r : List Char} (ha : P acc)
    (h : members key member fuel first acc s = .done acc' r) : P acc' := by
  induction fuel generalizing first acc s with
  | zero => cases h
  | succ fuel ih =>
    obtain ⟨more, t, -, h⟩ := andThen_eq_done.mp h
    cases more with
    | false =>
      cases h
      exact ha
    | true =>
      obtain ⟨k, t₁, -, h⟩ := andThen_eq_done.mp h
      obtain ⟨acc₁, t₂, hmember, h⟩ := andThen_eq_done.mp h
      exact ih (hm acc k t₁ acc₁ t₂ ha hmember) h

def Field.Retains (P : ρ → Prop) (depth : Nat) (f : Field ρ) : Prop :=
  ∀ x s x' r, P x → f.read depth x s = .done x' r → P x'

theorem Field.Agrees.retains {f : Field ρ} (hf : f.Agrees) {depth : Nat}
    (hq : ∀ s v r, Json.value exact depth s = .done v r → Q v) (hk : f.KeepsFrom Q P) :
    f.Retains P depth := by
  intro x s x' r hx h
  obtain ⟨v, hv, hview⟩ := (hf depth x s x' r).mp h
  exact hk v x x' (hq s v r hv) hx hview

theorem recordElements_keeps {depth : Nat} {fields : List (Field ρ)}
    (hf : ∀ f ∈ fields, f.Retains P depth) {first : Bool} {x x' : ρ} {s r : List Char} (hx : P x)
    (h : recordElements depth fields first x s = .done x' r) : P x' := by
  induction fields generalizing first x s with
  | nil =>
    cases h
    exact hx
  | cons f fields ih =>
    obtain ⟨more, t, -, h⟩ := andThen_eq_done.mp h
    split at h
    · obtain ⟨y, t', hy, h⟩ := andThen_eq_done.mp h
      exact ih (fun g hg => hf g (by simp [hg])) (hf f (by simp) x t y t' hx hy) h
    · split at h
      · cases h
      · cases h
        exact hx

theorem recordMember_keeps {depth : Nat} {fields : List (Field ρ)}
    (hf : ∀ f ∈ fields, f.Retains P depth) {p p' : Partial ρ} {key : String} {s r : List Char}
    (hp : P p.record) (h : recordMember fields depth p key s = .done p' r) : P p'.record := by
  unfold recordMember at h
  split at h
  · obtain ⟨_, t, -, h⟩ := andThen_eq_done.mp h
    obtain ⟨_, -, rfl⟩ := map_eq_done.mp h
    exact hp
  · rename_i f hfind
    split at h
    · cases h
    · obtain ⟨_, t, -, h⟩ := andThen_eq_done.mp h
      obtain ⟨x, hx, rfl⟩ := map_eq_done.mp h
      exact hf f (List.mem_of_find?_eq_some hfind) p.record t x r hp hx

/-- What reading the fields keeps holds of every record that is read, from an array and from an
object. -/
theorem record_read_keeps {depth : Nat} {fields : List (Field ρ)}
    (hf : ∀ f ∈ fields, f.Retains P depth) {blank a : ρ} {s r : List Char} (hb : P blank)
    (h : (record blank fields).read (depth + 1) s = .done a r) : P a := by
  obtain ⟨t, hs | hs⟩ := record_starts h
  · simp only [record, hs] at h
    obtain ⟨t', hbody, -⟩ := closedBy_eq_done.mp h
    exact recordElements_keeps hf hb hbody
  · simp only [record, hs] at h
    obtain ⟨t', hbody, -⟩ := closedBy_eq_done.mp h
    obtain ⟨p, t'', hmembers, hfinish⟩ := andThen_eq_done.mp hbody
    have hp : P p.record := members_keeps (fun _ _ _ _ _ => recordMember_keeps hf) hb hmembers
    split at hfinish
    · rename_i x hx
      cases hfinish
      unfold Partial.finish at hx
      split at hx
      · cases hx
        exact hp
      · cases hx
    · cases hfinish

/-- What the fields keep holds of every record that a document gives. -/
theorem record_parse_keeps {fields : List (Field ρ)} (hf : Open fields)
    (hk : ∀ f ∈ fields, f.Keeps P) {blank a : ρ} (hb : P blank) {text : String}
    (h : (record blank fields).parse text = .ok a) : P a := by
  obtain ⟨r, hread, -⟩ := document_eq_ok.mp h
  have hq : ∀ s v r, Json.value exact 126 s = .done v r → True := fun _ _ _ _ => trivial
  exact record_read_keeps (fun f hmem => (hf f hmem).1.retains hq (hk f hmem).keepsFrom) hb hread

end Keeps

end Decoder
end MediaRemote.Json
