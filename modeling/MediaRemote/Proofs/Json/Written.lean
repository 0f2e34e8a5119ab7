import Mathlib.Data.List.Forall2
import MediaRemote.Proofs.Json.Printing

namespace MediaRemote.Json

open Outcome

variable {α σ : Type}

/-- The reader takes this text, and nothing else, for `a`. -/
structure Written (reader : Reader α) (text : List Char) (a : α) : Prop where
  starts : ∃ c t, text = c :: t ∧ isBlank c = false ∧ c ≠ ']'
  reads : ∀ rest, Stops rest → reader (text ++ rest) = .done a rest

/-- Pieces with commas between them, and before the first one too unless nothing came before. -/
def separated : Bool → List (List Char) → List Char
  | _, [] => []
  | first, piece :: rest => (if first then [] else [',']) ++ (piece ++ separated false rest)

theorem commaSeparated_eq (pieces : List (List Char)) :
    commaSeparated pieces = separated true pieces := by
  have hcons (p : List Char) (rest : List (List Char)) :
      commaSeparated (p :: rest) = p ++ separated false rest := by
    induction rest generalizing p with
    | nil => simp [commaSeparated, separated]
    | cons q rest ih => simp [commaSeparated, separated, ih]
  cases pieces with
  | nil => rfl
  | cons p rest => rw [hcons, separated, if_pos rfl, List.nil_append]

theorem length_le_separated (first : Bool) {pieces : List (List Char)}
    (h : ∀ p ∈ pieces, p ≠ []) : pieces.length ≤ (separated first pieces).length := by
  induction pieces generalizing first with
  | nil => simp
  | cons p rest ih =>
    have hp := List.length_pos_of_ne_nil (h p (by simp))
    have hrest := ih false fun q hq => h q (by simp [hq])
    simp only [separated, List.length_cons, List.length_append]
    omega

theorem stops_cons {c : Char} (h : isDigit c = false ∧ c ≠ '.' ∧ c ≠ 'e' ∧ c ≠ 'E')
    (s : List Char) : Stops (c :: s) := by
  intro d hd
  obtain rfl : c = d := by simpa using hd
  exact h

/-- Behind an item stands a comma or what stands behind all items. -/
theorem stops_separated {s : List Char} (hs : Stops s) (pieces : List (List Char)) :
    Stops (separated false pieces ++ s) := by
  cases pieces with
  | nil => exact hs
  | cons p rest =>
    rw [separated, List.append_assoc]
    exact stops_cons (by decide) _

theorem skipBlanks_solid {c : Char} (hb : isBlank c = false) (s : List Char) :
    skipBlanks (c :: s) = c :: s := by
  simp [skipBlanks, hb]

theorem nextElement_item (first : Bool) {c : Char} (hb : isBlank c = false) (hc : c ≠ ']')
    (s : List Char) :
    nextElement first ((if first then [] else [',']) ++ c :: s) = .done true (c :: s) := by
  cases first with
  | true => simp [nextElement, skipBlanks_solid hb]
  | false =>
    have hcomma : skipBlanks (',' :: c :: s) = ',' :: c :: s := skipBlanks_solid (by decide) _
    simp only [Bool.false_eq_true, if_false, List.singleton_append, nextElement, hcomma,
      Char.reduceEq, imp_self, if_true, skipBlanks_solid hb]
    split <;> simp_all

theorem nextElement_close (first : Bool) (s : List Char) :
    nextElement first (']' :: s) = .done false (']' :: s) := rfl

theorem nextMember_item (first : Bool) (s : List Char) :
    nextMember first ((if first then [] else [',']) ++ '"' :: s) = .done true s := by
  cases first <;> rfl

theorem nextMember_close (first : Bool) (s : List Char) :
    nextMember first ('\x7d' :: s) = .done false ('\x7d' :: s) := rfl

theorem elements_written {element : Reader α} {pieces : List (List Char)} {as : List α}
    (h : List.Forall₂ (Written element) pieces as) (rest : List Char) (first : Bool) {fuel : Nat}
    (hfuel : pieces.length < fuel) (acc : List α) :
    elements element fuel first acc (separated first pieces ++ ']' :: rest) =
      .done (acc.reverse ++ as) (']' :: rest) := by
  induction h generalizing first fuel acc with
  | nil =>
    obtain ⟨fuel, rfl⟩ : ∃ n, fuel = n + 1 := ⟨fuel - 1, by omega⟩
    simp [elements, separated, nextElement_close]
  | @cons p a pieces as hp _ ih =>
    simp only [List.length_cons] at hfuel
    obtain ⟨fuel, rfl⟩ : ∃ n, fuel = n + 1 := ⟨fuel - 1, by omega⟩
    obtain ⟨c, t, rfl, hb, hc⟩ := hp.starts
    have hstops : Stops (separated false pieces ++ ']' :: rest) :=
      stops_separated (stops_cons (by decide) _) pieces
    have hread := hp.reads _ hstops
    have hrest := ih false (show pieces.length < fuel by omega) (a :: acc)
    rw [List.cons_append] at hread
    simp only [separated, List.append_assoc, List.cons_append, elements,
      nextElement_item first hb hc, andThen_done, if_true, hread, hrest]
    simp

theorem written_ne_nil {element : Reader α} {pieces : List (List Char)} {as : List α}
    (h : List.Forall₂ (Written element) pieces as) : ∀ p ∈ pieces, p ≠ [] := by
  induction h with
  | nil => simp
  | cons hp _ ih =>
    intro q hq
    rcases List.mem_cons.mp hq with rfl | hq
    · obtain ⟨c, t, rfl, -⟩ := hp.starts
      exact List.cons_ne_nil c t
    · exact ih q hq

theorem length_renderMembers (ms : List (String × Value)) :
    (renderMembers ms).length = ms.length := by
  induction ms with
  | nil => rfl
  | cons m ms ih => simp [renderMembers, ih]

theorem renderMembers_ne_nil (ms : List (String × Value)) : ∀ p ∈ renderMembers ms, p ≠ [] := by
  induction ms with
  | nil => simp [renderMembers]
  | cons m ms ih => simpa [renderMembers, stringText] using ih

/-- Members are taken in one after the other. -/
theorem members_written {member : σ → String → Reader σ} {take : σ → String × Value → Option σ}
    {ms : List (String × Value)}
    (h : ∀ m ∈ ms, ∀ acc acc', take acc m = some acc' → ∀ rest, Stops rest →
      member acc m.1 (':' :: (m.2.render ++ rest)) = .done acc' rest)
    (rest : List Char) (first : Bool) {fuel : Nat} (hfuel : ms.length < fuel) {acc acc' : σ}
    (htake : ms.foldlM take acc = some acc') :
    members exact.string member fuel first acc
        (separated first (renderMembers ms) ++ '\x7d' :: rest) =
      .done acc' ('\x7d' :: rest) := by
  induction ms generalizing first fuel acc with
  | nil =>
    obtain ⟨fuel, rfl⟩ : ∃ n, fuel = n + 1 := ⟨fuel - 1, by omega⟩
    cases htake
    simp [members, renderMembers, separated, nextMember_close]
  | cons m ms ih =>
    obtain ⟨key, v⟩ := m
    simp only [List.length_cons] at hfuel
    obtain ⟨fuel, rfl⟩ : ∃ n, fuel = n + 1 := ⟨fuel - 1, by omega⟩
    obtain ⟨acc₁, hacc, htake⟩ := Option.bind_eq_some_iff.mp htake
    have hstops : Stops (separated false (renderMembers ms) ++ '\x7d' :: rest) :=
      stops_separated (stops_cons (by decide) _) _
    have hmember := h (key, v) (by simp) acc acc₁ hacc _ hstops
    have hrest := ih (fun m hm => h m (by simp [hm])) false (show ms.length < fuel by omega) htake
    simp only [renderMembers, separated, stringText, List.append_assoc, List.cons_append,
      List.nil_append, members, nextMember_item, andThen_done, if_true, exact_string, hmember,
      hrest]

mutual

def Value.depth : Value → Nat
  | .array items => depthItems items + 1
  | .object members => depthMembers members + 1
  | _ => 0

def depthItems : List Value → Nat
  | [] => 0
  | v :: rest => max v.depth (depthItems rest)

def depthMembers : List (String × Value) → Nat
  | [] => 0
  | (_, v) :: rest => max v.depth (depthMembers rest)

end

mutual

def Value.doubles : Value → List Binary64
  | .double x => [x]
  | .array items => doublesItems items
  | .object members => doublesMembers members
  | _ => []

def doublesItems : List Value → List Binary64
  | [] => []
  | v :: rest => v.doubles ++ doublesItems rest

def doublesMembers : List (String × Value) → List Binary64
  | [] => []
  | (_, v) :: rest => v.doubles ++ doublesMembers rest

end

theorem depth_le_items {v : Value} {items : List Value} (h : v ∈ items) :
    v.depth ≤ depthItems items := by
  induction items with
  | nil => cases h
  | cons w rest ih =>
    rw [depthItems]
    rcases List.mem_cons.mp h with rfl | h
    · exact Nat.le_max_left _ _
    · exact Nat.le_trans (ih h) (Nat.le_max_right _ _)

theorem depth_le_members {m : String × Value} {members : List (String × Value)}
    (h : m ∈ members) : m.2.depth ≤ depthMembers members := by
  induction members with
  | nil => cases h
  | cons w rest ih =>
    obtain ⟨key, v⟩ := w
    rw [depthMembers]
    rcases List.mem_cons.mp h with rfl | h
    · exact Nat.le_max_left _ _
    · exact Nat.le_trans (ih h) (Nat.le_max_right _ _)

theorem doubles_subset_items {v : Value} {items : List Value} (h : v ∈ items) :
    v.doubles ⊆ doublesItems items := by
  induction items with
  | nil => cases h
  | cons w rest ih =>
    rw [doublesItems]
    rcases List.mem_cons.mp h with rfl | h
    · exact List.subset_append_left _ _
    · exact List.subset_append_of_subset_right _ (ih h)

theorem doubles_subset_members {m : String × Value} {members : List (String × Value)}
    (h : m ∈ members) : m.2.doubles ⊆ doublesMembers members := by
  induction members with
  | nil => cases h
  | cons w rest ih =>
    obtain ⟨key, v⟩ := w
    rw [doublesMembers]
    rcases List.mem_cons.mp h with rfl | h
    · exact List.subset_append_left _ _
    · exact List.subset_append_of_subset_right _ (ih h)

abbrev Value.IsWritten (v : Value) (depth : Nat) : Prop := Written (value exact depth) v.render v

theorem string_written (depth : Nat) (t : String) : (Value.string t).IsWritten depth := by
  refine ⟨⟨'"', _, rfl, by decide, by decide⟩, ?_⟩
  intro rest _
  have hread : value exact depth ('"' :: (t.toList.flatMap escapeChar ++ '"' :: rest)) =
      (exact.string (t.toList.flatMap escapeChar ++ '"' :: rest)).map .string := by
    rw [value]
    rfl
  simp only [Value.render, stringText, List.cons_append, List.append_assoc, List.nil_append, hread,
    exact_string, map_done]

theorem number_written (depth : Nat) {v : Value} (h : number v.render = .done v []) :
    v.IsWritten depth := by
  obtain ⟨c, t, hs, hc⟩ := number_starts h
  exact ⟨⟨c, t, hs, solid_of_numeric hc, ne_of_numeric hc (by decide)⟩, fun _ => value_of_number h⟩

/-- Every element takes more than a character, so the loop comes to the closing bracket. -/
theorem array_elements_written {element : Reader α} {pieces : List (List Char)} {as : List α}
    (h : List.Forall₂ (Written element) pieces as) (rest : List Char) :
    closedBy closeArray
        (elements element ((separated true pieces ++ ']' :: rest).length + 1) true []
          (separated true pieces ++ ']' :: rest)) =
      .done as rest := by
  have hfuel : pieces.length < (separated true pieces ++ ']' :: rest).length + 1 := by
    have := length_le_separated true (written_ne_nil h)
    simp only [List.length_append]
    omega
  rw [elements_written h rest true hfuel []]
  rfl

theorem renderItems_eq (items : List Value) : renderItems items = items.map Value.render := by
  induction items with
  | nil => rfl
  | cons v items ih => rw [renderItems, ih, List.map_cons]

theorem render_array (items : List Value) (rest : List Char) :
    (Value.array items).render ++ rest =
      '[' :: (separated true (items.map Value.render) ++ ']' :: rest) := by
  simp [Value.render, commaSeparated_eq, renderItems_eq]

theorem array_written {depth : Nat} {items : List Value} (h : ∀ v ∈ items, v.IsWritten depth) :
    (Value.array items).IsWritten (depth + 1) := by
  refine ⟨⟨'[', _, rfl, by decide, by decide⟩, ?_⟩
  intro rest _
  have hpieces : List.Forall₂ (Written (value exact depth)) (items.map Value.render) items :=
    List.forall₂_map_left_iff.mpr (List.forall₂_same.mpr h)
  have hread (s : List Char) : value exact (depth + 1) ('[' :: s) =
      (closedBy closeArray (elements (value exact depth) (s.length + 1) true [] s)).map .array := by
    rw [value]
    rfl
  rw [render_array, hread, array_elements_written hpieces, map_done]

/-- Every member takes more than a character, so the loop comes to the closing brace. -/
theorem object_members_written {member : σ → String → Reader σ}
    {take : σ → String × Value → Option σ} {ms : List (String × Value)}
    (h : ∀ m ∈ ms, ∀ acc acc', take acc m = some acc' → ∀ rest, Stops rest →
      member acc m.1 (':' :: (m.2.render ++ rest)) = .done acc' rest)
    {acc acc' : σ} (htake : ms.foldlM take acc = some acc') (rest : List Char) :
    members exact.string member
        ((separated true (renderMembers ms) ++ '\x7d' :: rest).length + 1) true acc
        (separated true (renderMembers ms) ++ '\x7d' :: rest) =
      .done acc' ('\x7d' :: rest) := by
  refine members_written h rest true ?_ htake
  have := length_le_separated true (renderMembers_ne_nil ms)
  rw [length_renderMembers] at this
  simp only [List.length_append]
  omega

theorem render_object (ms : List (String × Value)) (rest : List Char) :
    (Value.object ms).render ++ rest =
      '\x7b' :: (separated true (renderMembers ms) ++ '\x7d' :: rest) := by
  simp [Value.render, commaSeparated_eq]

def insertMember (depth : Nat) (acc : List (String × Value)) (key : String) :
    Reader (List (String × Value)) := fun s =>
  (colon s).andThen fun _ s => (value exact depth s).map fun v => Dictionary.insert key v acc

theorem value_object (depth : Nat) (s : List Char) : value exact (depth + 1) ('\x7b' :: s) =
    (closedBy closeObject
      (members exact.string (insertMember depth) (s.length + 1) true [] s)).map .object := by
  rw [value]
  rfl

/-- The members of a written object, each inserted in turn. -/
theorem object_written {depth : Nat} {ms : List (String × Value)}
    (h : ∀ m ∈ ms, m.2.IsWritten depth) :
    Written (value exact (depth + 1)) (Value.object ms).render
      (.object (ms.foldl (fun acc m => Dictionary.insert m.1 m.2 acc) [])) := by
  refine ⟨⟨'\x7b', _, rfl, by decide, by decide⟩, ?_⟩
  intro rest _
  have hmember : ∀ m ∈ ms, ∀ acc acc', some (Dictionary.insert m.1 m.2 acc) = some acc' →
      ∀ rest, Stops rest →
        insertMember depth acc m.1 (':' :: (m.2.render ++ rest)) = .done acc' rest := by
    rintro m hm acc _ ⟨⟩ rest hr
    have hcolon : colon (':' :: (m.2.render ++ rest)) = .done () (m.2.render ++ rest) := rfl
    simp only [insertMember, hcolon, andThen_done, (h m hm).reads rest hr, map_done]
  have hfold : ms.foldlM (fun acc m => some (Dictionary.insert m.1 m.2 acc)) [] =
      some (ms.foldl (fun acc m => Dictionary.insert m.1 m.2 acc) []) := List.foldlM_pure
  rw [render_object, value_object, object_members_written hmember hfold]
  rfl

theorem null_written (depth : Nat) : Value.null.IsWritten depth := by
  refine ⟨⟨'n', _, rfl, by decide, by decide⟩, ?_⟩
  intro rest _
  rw [value]
  rfl

theorem bool_written (depth : Nat) (b : Bool) : (Value.bool b).IsWritten depth := by
  cases b with
  | false =>
    refine ⟨⟨'f', _, rfl, by decide, by decide⟩, ?_⟩
    intro rest _
    rw [value]
    rfl
  | true =>
    refine ⟨⟨'t', _, rfl, by decide, by decide⟩, ?_⟩
    intro rest _
    rw [value]
    rfl

/-- A value that could have been read is read back from its text. -/
theorem value_written {depth : Nat} {v : Value} (hs : v.Sorted) (hd : v.depth ≤ depth)
    (hx : ∀ x ∈ v.doubles, Carried x) : v.IsWritten depth := by
  induction hs generalizing depth with
  | null => exact null_written depth
  | bool b => exact bool_written depth b
  | integer n range => exact number_written depth (number_integer range)
  | double x => exact number_written depth (hx x (by simp [Value.doubles])).number
  | string t => exact string_written depth t
  | array items each ih =>
    simp only [Value.depth] at hd
    obtain ⟨depth, rfl⟩ : ∃ d, depth = d + 1 := ⟨depth - 1, by omega⟩
    refine array_written fun v hv => ih v hv ?_ fun x hxv => hx x (doubles_subset_items hv hxv)
    have := depth_le_items hv
    omega
  | object ms increasing each ih =>
    simp only [Value.depth] at hd
    obtain ⟨depth, rfl⟩ : ∃ d, depth = d + 1 := ⟨depth - 1, by omega⟩
    have hms : ∀ m ∈ ms, m.2.IsWritten depth := by
      refine fun m hm => ih m hm ?_ fun x hxm => hx x (doubles_subset_members hm hxm)
      have := depth_le_members hm
      omega
    -- the keys are in order, so inserting the members gives them back
    have hinsert := Dictionary.foldl_insert (show Dictionary.Increasing ([] ++ ms) from increasing)
    have hobject := object_written hms
    rwa [hinsert, List.nil_append] at hobject

namespace Decoder

variable {ρ : Type}

theorem needed_agrees {name : String} {d : Decoder α} (hd : d.Agrees) (set : ρ → α → ρ) :
    (Field.needed name d set).Agrees :=
  @optional_agrees α ρ name d hd set

theorem unsigned_agrees : unsigned.Agrees := scalar_agrees (fun _ => rfl) (fun _ => rfl)

def takeMember (fields : List (Field ρ)) (p : Partial ρ) (m : String × Value) :
    Option (Partial ρ) :=
  (fields.find? (·.name == m.1)).bind fun f =>
    if p.given.contains m.1 then none
    else (f.view m.2 p.record).map fun record => ⟨record, m.1 :: p.given⟩

def takeMembers (blank : ρ) (fields : List (Field ρ)) (ms : List (String × Value)) : Option ρ :=
  (ms.foldlM (takeMember fields) ⟨blank, []⟩).bind (Partial.finish fields)

theorem recordMember_written {fields : List (Field ρ)} (hf : ∀ f ∈ fields, f.Agrees) {depth : Nat}
    {m : String × Value} (hm : m.2.IsWritten depth) {p p' : Partial ρ}
    (h : takeMember fields p m = some p') {rest : List Char} (hr : Stops rest) :
    recordMember fields depth p m.1 (':' :: (m.2.render ++ rest)) = .done p' rest := by
  obtain ⟨f, hfind, h⟩ := Option.bind_eq_some_iff.mp h
  split at h
  · cases h
  · rename_i hgiven
    obtain ⟨record, hview, rfl⟩ := Option.map_eq_some_iff.mp h
    have hread : f.read depth p.record (m.2.render ++ rest) = .done record rest :=
      (hf f (List.mem_of_find?_eq_some hfind) _ _ _ _ _).mpr ⟨m.2, hm.reads rest hr, hview⟩
    have hcolon : colon (':' :: (m.2.render ++ rest)) = .done () (m.2.render ++ rest) := rfl
    simp only [recordMember, hfind, if_neg hgiven, hcolon, andThen_done, hread, map_done]

/-- A record is read back from an object whose members are taken in one after the other. -/
theorem record_written_of_take {fields : List (Field ρ)} {blank a : ρ} {depth : Nat}
    {ms : List (String × Value)} {take : Partial ρ → String × Value → Option (Partial ρ)}
    (hmember : ∀ m ∈ ms, ∀ p p', take p m = some p' → ∀ rest, Stops rest →
      recordMember fields depth p m.1 (':' :: (m.2.render ++ rest)) = .done p' rest)
    {p : Partial ρ} (htake : ms.foldlM take ⟨blank, []⟩ = some p)
    (hfinish : p.finish fields = some a) :
    Written ((record blank fields).read (depth + 1)) (Value.object ms).render a := by
  refine ⟨⟨'\x7b', _, rfl, by decide, by decide⟩, ?_⟩
  intro rest _
  have hskip (s : List Char) : skipBlanks ('\x7b' :: s) = '\x7b' :: s := rfl
  rw [render_object]
  simp only [record, hskip, object_members_written hmember htake, andThen_done, hfinish]
  rfl

/-- A record is read back from the object that gives its fields. -/
theorem record_written {fields : List (Field ρ)} (hf : ∀ f ∈ fields, f.Agrees) {blank a : ρ}
    {depth : Nat} {ms : List (String × Value)} (hms : ∀ m ∈ ms, m.2.IsWritten depth)
    (h : takeMembers blank fields ms = some a) :
    Written ((record blank fields).read (depth + 1)) (Value.object ms).render a := by
  obtain ⟨p, htake, hfinish⟩ := Option.bind_eq_some_iff.mp h
  have hmember : ∀ m ∈ ms, ∀ p p', takeMember fields p m = some p' → ∀ rest, Stops rest →
      recordMember fields depth p m.1 (':' :: (m.2.render ++ rest)) = .done p' rest :=
    fun m hm _ _ h _ => recordMember_written hf (hms m hm) h
  exact record_written_of_take hmember htake hfinish

end Decoder

theorem document_written {reader : Reader α} {text : List Char} {a : α}
    (h : Written reader text a) : document reader (String.ofList text) = .ok a := by
  have := h.reads [] stops_nil
  rw [List.append_nil] at this
  exact Decoder.document_eq_ok.mpr ⟨[], by rwa [String.toList_ofList], by simp [Blanks]⟩

theorem elements_keeps {element : Reader α} {P : α → Prop}
    (he : ∀ s a r, element s = .done a r → P a) {fuel : Nat} {first : Bool} {acc as : List α}
    {s r : List Char} (ha : ∀ a ∈ acc, P a) (h : elements element fuel first acc s = .done as r) :
    ∀ a ∈ as, P a := by
  induction fuel generalizing first acc s with
  | zero => cases h
  | succ fuel ih =>
    obtain ⟨more, t, -, h⟩ := andThen_eq_done.mp h
    cases more with
    | false =>
      cases h
      simpa using ha
    | true =>
      obtain ⟨a, t₁, hread, h⟩ := andThen_eq_done.mp h
      refine ih (fun b hb => ?_) h
      rcases List.mem_cons.mp hb with rfl | hb
      · exact he t b t₁ hread
      · exact ha b hb

theorem Value.IsNumber.sorted {v : Value} (h : v.IsNumber) : v.Sorted := by
  cases v with
  | integer n => exact .integer n h
  | double x => exact .double x
  | _ => cases h

def MembersKeep (P : Value → Prop) (ms : List (String × Value)) : Prop :=
  Dictionary.Increasing ms ∧ ∀ m ∈ ms, P m.2

theorem insertMember_keeps {P : Value → Prop} {depth : Nat}
    (hv : ∀ s v r, value exact depth s = .done v r → P v) {acc acc' : List (String × Value)}
    {key : String} {s r : List Char} (ha : MembersKeep P acc)
    (h : insertMember depth acc key s = .done acc' r) : MembersKeep P acc' := by
  obtain ⟨_, t, -, h⟩ := andThen_eq_done.mp h
  obtain ⟨v, hread, rfl⟩ := map_eq_done.mp h
  refine ⟨Dictionary.increasing_insert ha.1 key v, fun m hm => ?_⟩
  rcases Dictionary.mem_insert hm with rfl | hm
  · exact hv t v r hread
  · exact ha.2 m hm

/-- What holds of every leaf and goes from items to what holds them is true of every value that is
read. Members are inserted one by one, so their keys are in order whatever the text. -/
theorem value_keeps {P : Nat → Value → Prop} (hnull : ∀ depth, P depth .null)
    (hbool : ∀ depth b, P depth (.bool b)) (hstring : ∀ depth t, P depth (.string t))
    (hnumber : ∀ depth (v : Value), v.IsNumber → P depth v)
    (harray : ∀ depth items, (∀ v ∈ items, P depth v) → P (depth + 1) (.array items))
    (hobject : ∀ depth ms, Dictionary.Increasing ms → (∀ m ∈ ms, P depth m.2) →
      P (depth + 1) (.object ms))
    {depth : Nat} {s r : List Char} {v : Value} (h : value exact depth s = .done v r) :
    P depth v := by
  induction depth using Nat.strongRecOn generalizing s r v with
  | ind depth ih =>
    unfold value at h
    split at h
    · cases h
    · obtain ⟨_, -, rfl⟩ := map_eq_done.mp h
      exact hnull depth
    · obtain ⟨_, -, rfl⟩ := map_eq_done.mp h
      exact hbool depth _
    · obtain ⟨_, -, rfl⟩ := map_eq_done.mp h
      exact hbool depth _
    · obtain ⟨_, -, rfl⟩ := map_eq_done.mp h
      exact hstring depth _
    · split at h
      · cases h
      · rename_i depth
        obtain ⟨items, hitems, rfl⟩ := map_eq_done.mp h
        obtain ⟨t, hloop, -⟩ := closedBy_eq_done.mp hitems
        have hitem : ∀ s v r, value exact depth s = .done v r → P depth v :=
          fun _ _ _ hv => ih depth (Nat.lt_succ_self depth) hv
        exact harray depth items (elements_keeps hitem (by simp) hloop)
    · split at h
      · cases h
      · rename_i depth
        obtain ⟨ms, hms, rfl⟩ := map_eq_done.mp h
        obtain ⟨t, hloop, -⟩ := closedBy_eq_done.mp hms
        have hvalue : ∀ s v r, value exact depth s = .done v r → P depth v :=
          fun _ _ _ hv => ih depth (Nat.lt_succ_self depth) hv
        have hnil : MembersKeep (P depth) [] := ⟨List.Pairwise.nil, by simp⟩
        have hkept : MembersKeep (P depth) ms :=
          Decoder.members_keeps (fun _ _ _ _ _ => insertMember_keeps hvalue) hnil hloop
        exact hobject depth ms hkept.1 hkept.2
    · split at h
      · exact hnumber depth v (number_isNumber h)
      · cases h

theorem value_sorted {depth : Nat} {s r : List Char} {v : Value}
    (h : value exact depth s = .done v r) : v.Sorted :=
  value_keeps (fun _ => .null) (fun _ => .bool) (fun _ => .string) (fun _ _ hv => hv.sorted)
    (fun _ items heach => .array items heach)
    (fun _ ms hincreasing heach => .object ms hincreasing heach) h

theorem depthItems_le {n : Nat} {items : List Value} (h : ∀ v ∈ items, v.depth ≤ n) :
    depthItems items ≤ n := by
  induction items with
  | nil => exact Nat.zero_le n
  | cons v items ih => exact Nat.max_le.mpr ⟨h v (by simp), ih fun w hw => h w (by simp [hw])⟩

theorem depthMembers_le {n : Nat} {ms : List (String × Value)} (h : ∀ m ∈ ms, m.2.depth ≤ n) :
    depthMembers ms ≤ n := by
  induction ms with
  | nil => exact Nat.zero_le n
  | cons m ms ih =>
    obtain ⟨key, v⟩ := m
    exact Nat.max_le.mpr ⟨h (key, v) (by simp), ih fun w hw => h w (by simp [hw])⟩

theorem Value.IsNumber.depth {v : Value} (h : v.IsNumber) : v.depth = 0 := by
  cases v <;> first | rfl | cases h

/-- A value nests no deeper than it may. -/
theorem value_depth {depth : Nat} {s r : List Char} {v : Value}
    (h : value exact depth s = .done v r) : v.depth ≤ depth := by
  refine value_keeps (P := fun depth v => v.depth ≤ depth) ?_ ?_ ?_ ?_ ?_ ?_ h
  · intro depth
    exact Nat.zero_le depth
  · intro depth b
    exact Nat.zero_le depth
  · intro depth t
    exact Nat.zero_le depth
  · intro depth v hv
    rw [hv.depth]
    exact Nat.zero_le depth
  · intro depth items heach
    exact Nat.succ_le_succ (depthItems_le heach)
  · intro depth ms _ heach
    exact Nat.succ_le_succ (depthMembers_le heach)

theorem parse_sorted {text : String} {v : Value} (h : parse text = .ok v) : v.Sorted := by
  obtain ⟨r, hread, -⟩ := Decoder.document_eq_ok.mp h
  exact value_sorted hread

end MediaRemote.Json
