import Mathlib.Data.List.DropRight
import MediaRemote.Proofs.Json.Leaves

namespace MediaRemote.Json

open Outcome

theorem Blanks.append {v w : List Char} (hv : Blanks v) (hw : Blanks w) : Blanks (v ++ w) := by
  intro c hc
  exact (List.mem_append.mp hc).elim (hv c) (hw c)

theorem Lead.append {first : Bool} {l b : List Char} (hl : Lead first l) (hb : Blanks b) :
    Lead first (l ++ b) := by
  cases hl with
  | first hw => exact .first (hw.append hb)
  | later hw hv =>
    rw [List.append_assoc, List.cons_append]
    exact .later hw (hv.append hb)

theorem Items.append {Item : List Char → Prop} {first : Bool} {w b : List Char}
    (hw : Items Item first w) (hb : Blanks b) : Items Item first (w ++ b) := by
  induction hw with
  | none hw => exact .none (hw.append hb)
  | more hl hv _ ih =>
    rw [List.append_assoc, List.append_assoc]
    exact .more hl hv ih

def Padded (L : List Char → Prop) (w : List Char) : Prop := ∃ b v, Blanks b ∧ L v ∧ w = b ++ v

theorem spans_padded {L : List Char → Prop} {s r : List Char} (h : Spans L (skipBlanks s) r) :
    Spans (Padded L) s r := by
  obtain ⟨b, hb, hs⟩ := skipBlanks_spans s
  obtain ⟨v, hv, ht⟩ := h
  exact ⟨b ++ v, ⟨b, v, hb, hv, rfl⟩, by rw [List.append_assoc, ← ht, ← hs]⟩

theorem skipBlanks_append {b : List Char} (hb : Blanks b) (s : List Char) :
    skipBlanks (b ++ s) = skipBlanks s :=
  List.dropWhile_append_of_pos hb

theorem IsObjectDocument.starts {s : List Char} (h : IsObjectDocument s) :
    ∃ t, skipBlanks s = '\x7b' :: t := by
  obtain ⟨hb, -, -⟩ := h
  rw [skipBlanks_append hb]
  exact ⟨_, rfl⟩

theorem nextElement_done {first more : Bool} {s r : List Char}
    (h : nextElement first s = .done more r) :
    if more then Spans (Lead first) s r else Spans Blanks s r := by
  obtain ⟨b, hb, hs⟩ := skipBlanks_spans s
  unfold nextElement at h
  split at h
  · cases h
  · rename_i t ht
    cases h
    exact ⟨b, hb, by rw [hs, ht]⟩
  · rename_i c t _ ht
    split at h
    · rename_i hfirst
      cases h
      exact ⟨b, hfirst ▸ .first hb, by rw [hs, ht]⟩
    · rename_i hlater
      split at h
      · rename_i hc
        obtain ⟨b', hb', ht'⟩ := skipBlanks_spans t
        split at h
        · cases h
        · cases h
        · cases h
          refine ⟨b ++ ',' :: b', ?_, ?_⟩
          · rw [Bool.eq_false_iff.mpr hlater]
            exact .later hb hb'
          · rw [hs, ht, hc]
            simpa using ht'
      · cases h

theorem keyStart_done {more : Bool} {s r : List Char} (h : keyStart s = .done more r) :
    more = true ∧ s = '"' :: r := by
  unfold keyStart at h
  split at h
  · cases h
  · cases h
    exact ⟨rfl, rfl⟩
  · cases h

theorem nextMember_done {first more : Bool} {s r : List Char}
    (h : nextMember first s = .done more r) :
    if more then Spans (Lead first) s ('"' :: r) else Spans Blanks s r := by
  obtain ⟨b, hb, hs⟩ := skipBlanks_spans s
  unfold nextMember at h
  split at h
  · cases h
  · rename_i t ht
    cases h
    exact ⟨b, hb, by rw [hs, ht]⟩
  · rename_i c t _ ht
    split at h
    · rename_i hfirst
      obtain ⟨rfl, hk⟩ := keyStart_done h
      exact ⟨b, hfirst ▸ .first hb, by rw [hs, ht, hk]⟩
    · rename_i hlater
      split at h
      · rename_i hc
        obtain ⟨rfl, hk⟩ := keyStart_done h
        obtain ⟨b', hb', ht'⟩ := skipBlanks_spans t
        refine ⟨b ++ ',' :: b', ?_, ?_⟩
        · rw [Bool.eq_false_iff.mpr hlater]
          exact .later hb hb'
        · rw [hs, ht, hc, ← hk]
          simpa using ht'
      · cases h

theorem closeArray_done {s r : List Char} {u : Unit} (h : closeArray s = .done u r) :
    Spans Blanks s (']' :: r) := by
  obtain ⟨b, hb, hs⟩ := skipBlanks_spans s
  unfold closeArray at h
  split at h <;> cases h
  exact ⟨b, hb, by simp_all⟩

theorem closeObject_done {s r : List Char} {u : Unit} (h : closeObject s = .done u r) :
    Spans Blanks s ('\x7d' :: r) := by
  obtain ⟨b, hb, hs⟩ := skipBlanks_spans s
  unfold closeObject at h
  split at h <;> cases h
  exact ⟨b, hb, by simp_all⟩

theorem colon_done {s r : List Char} {u : Unit} (h : colon s = .done u r) :
    Spans Blanks s (':' :: r) := by
  obtain ⟨b, hb, hs⟩ := skipBlanks_spans s
  unfold colon at h
  split at h <;> cases h
  exact ⟨b, hb, by simp_all⟩

theorem elements_takes {α : Type} {element : Reader α} {Item : List Char → Prop}
    (he : Takes element (Padded Item)) (fuel : Nat) (first : Bool) (acc : List α) :
    Takes (elements element fuel first acc) (Items Item first) := by
  induction fuel generalizing first acc with
  | zero => nofun
  | succ fuel ih =>
    intro s as r h
    obtain ⟨more, t, hnext, h⟩ := andThen_eq_done.mp h
    have hn := nextElement_done hnext
    cases more with
    | false =>
      cases h
      exact hn.imp fun _ => .none
    | true =>
      obtain ⟨a, t', ha, h⟩ := andThen_eq_done.mp h
      obtain ⟨l, hl, hs⟩ := hn
      obtain ⟨_, ⟨b, v, hb, hv, rfl⟩, ht⟩ := he _ _ _ ha
      obtain ⟨w, hw, ht'⟩ := ih _ _ _ _ _ h
      exact ⟨_, .more (hl.append hb) hv hw, by simp [hs, ht, ht']⟩

theorem members_takes {σ : Type} {key : Reader String} {member : σ → String → Reader σ}
    {IsVal : List Char → Prop} (hk : Takes key StringRest)
    (hm : ∀ acc k, Takes (member acc k) (Assigned IsVal)) (fuel : Nat) (first : Bool) (acc : σ) :
    Takes (members key member fuel first acc) (Items (Member IsVal) first) := by
  induction fuel generalizing first acc with
  | zero => nofun
  | succ fuel ih =>
    intro s acc' r h
    obtain ⟨more, t, hnext, h⟩ := andThen_eq_done.mp h
    have hn := nextMember_done hnext
    cases more with
    | false =>
      cases h
      exact hn.imp fun _ => .none
    | true =>
      obtain ⟨k, t₁, hkey, h⟩ := andThen_eq_done.mp h
      obtain ⟨acc₁, t₂, hmember, h⟩ := andThen_eq_done.mp h
      obtain ⟨l, hl, hs⟩ := hn
      obtain ⟨kw, hkw, ht⟩ := hk _ _ _ hkey
      obtain ⟨v, hv, ht₁⟩ := hm _ _ _ _ _ hmember
      obtain ⟨w, hw, ht₂⟩ := ih _ _ _ _ _ h
      exact ⟨_, .more hl (.mk hkw hv) hw, by simp [hs, ht, ht₁, ht₂]⟩

/-- Strings and numbers are read by the grammar. -/
structure Leaves.Sound (l : Leaves) : Prop where
  unicode : Takes l.unicode Escaped
  number : Takes l.number IsNumber

theorem exact_sound : exact.Sound := ⟨unicodeEscape_takes, number_takes⟩

theorem passing_sound : passing.Sound := ⟨passUnicode_takes, passNumber_takes⟩

theorem Leaves.Sound.string {l : Leaves} (hl : l.Sound) : Takes l.string StringRest :=
  fun s => stringRest_takes hl.unicode _ [] s

/-- A loop and the mark that closes it. -/
theorem closedBy_takes {α : Type} {body : Reader α} {close : List Char → Outcome Unit} {c : Char}
    {Item : List Char → Prop} (hb : Takes body (Items Item true))
    (hc : ∀ s u r, close s = .done u r → Spans Blanks s (c :: r)) :
    Takes (fun s => closedBy close (body s)) fun w => ∃ v, Items Item true v ∧ w = v ++ [c] := by
  intro s a r h
  obtain ⟨t, ht, hclose⟩ := closedBy_eq_done.mp h
  obtain ⟨w, hw, hs⟩ := hb _ _ _ ht
  obtain ⟨b, hbl, hr⟩ := hc _ _ _ hclose
  exact ⟨_, ⟨w ++ b, hw.append hbl, rfl⟩, by simp [hs, hr]⟩

theorem assigned_takes {α σ : Type} {read : Reader α} {IsVal : List Char → Prop}
    (hr : Takes read (Padded IsVal)) (f : α → σ) :
    Takes (fun s => (colon s).andThen fun _ s => (read s).map f) (Assigned IsVal) := by
  intro s x r h
  obtain ⟨u, t, hcolon, h⟩ := andThen_eq_done.mp h
  obtain ⟨a, ha, -⟩ := map_eq_done.mp h
  obtain ⟨b, hb, hs⟩ := colon_done hcolon
  obtain ⟨_, ⟨b', v, hb', hv, rfl⟩, ht⟩ := hr _ _ _ ha
  exact ⟨_, .mk hb hb' hv, by simp [hs, ht]⟩

theorem value_takes {l : Leaves} (hl : l.Sound) (depth : Nat) :
    Takes (value l depth) (Padded IsValue) := by
  induction depth using Nat.strongRecOn with
  | ind depth ih =>
    intro s v r h
    refine spans_padded ?_
    unfold value at h
    split at h
    · cases h
    · rename_i t ht
      obtain ⟨u, hu, -⟩ := map_eq_done.mp h
      exact ⟨_, .null, by simp [ht, word_eq hu]⟩
    · rename_i t ht
      obtain ⟨u, hu, -⟩ := map_eq_done.mp h
      exact ⟨_, .true, by simp [ht, word_eq hu]⟩
    · rename_i t ht
      obtain ⟨u, hu, -⟩ := map_eq_done.mp h
      exact ⟨_, .false, by simp [ht, word_eq hu]⟩
    · rename_i t ht
      obtain ⟨text, htext, -⟩ := map_eq_done.mp h
      obtain ⟨w, hw, hr⟩ := hl.string _ _ _ htext
      exact ⟨_, .string hw, by simp [ht, hr]⟩
    · rename_i t ht
      split at h
      · cases h
      · rename_i depth
        obtain ⟨items, hitems, -⟩ := map_eq_done.mp h
        have hloop := elements_takes (ih depth (by omega)) (t.length + 1) true []
        have hclosed := closedBy_takes hloop (fun _ _ _ => closeArray_done)
        obtain ⟨_, ⟨w, hw, rfl⟩, hr⟩ := hclosed _ _ _ hitems
        exact ⟨_, .array hw, by rw [ht, hr]; rfl⟩
    · rename_i t ht
      split at h
      · cases h
      · rename_i depth
        obtain ⟨ms, hms, -⟩ := map_eq_done.mp h
        have hmember (acc : List (String × Value)) (k : String) :=
          assigned_takes (ih depth (by omega)) fun v => Dictionary.insert k v acc
        have hloop := members_takes hl.string hmember (t.length + 1) true []
        have hclosed := closedBy_takes hloop (fun _ _ _ => closeObject_done)
        obtain ⟨_, ⟨w, hw, rfl⟩, hr⟩ := hclosed _ _ _ hms
        exact ⟨_, .object hw, by rw [ht, hr]; rfl⟩
    · rename_i c t _ _ _ _ _ _ ht
      split at h
      · obtain ⟨w, hw, hr⟩ := hl.number _ _ _ h
        exact ⟨w, .number hw, by rw [ht, hr]⟩
      · cases h

theorem pass_takes : Takes pass (Padded IsValue) := by
  intro s u r h
  obtain ⟨v, hv, -⟩ := map_eq_done.mp h
  exact value_takes passing_sound _ _ _ _ hv

theorem IsValue.length_pos {w : List Char} (h : IsValue w) : 0 < w.length := by
  cases h with
  | number h =>
    have hpos {w : List Char} (h : Magnitude w) : 0 < w.length := by
      obtain ⟨hw, -, -⟩ := h
      cases hw <;> simp
    cases h with
    | plain h => exact hpos h
    | minus h => simp
  | _ => simp

/-- A value is not empty, so a loop over values needs no more steps than there are characters. -/
theorem value_shortens {l : Leaves} (hl : l.Sound) {depth : Nat} {s r : List Char} {v : Value}
    (h : value l depth s = .done v r) : r.length < s.length := by
  obtain ⟨_, ⟨b, w, -, hw, rfl⟩, rfl⟩ := value_takes hl depth _ _ _ h
  have := hw.length_pos
  simp only [List.length_append]
  omega

theorem nextElement_shortens {first : Bool} {s r : List Char}
    (h : nextElement first s = .done true r) : r.length ≤ s.length := by
  obtain ⟨l, -, rfl⟩ := nextElement_done h
  simp

/-- There is no other element just before the closing bracket. -/
theorem nextElement_false {first : Bool} {s t : List Char} :
    nextElement first s = .done false t ↔ ∃ r, skipBlanks s = ']' :: r ∧ t = ']' :: r := by
  constructor
  · intro h
    unfold nextElement at h
    split at h
    · cases h
    · rename_i r hs
      cases h
      exact ⟨r, hs, rfl⟩
    · split at h
      · cases h
      · split at h
        · split at h <;> cases h
        · cases h
  · rintro ⟨r, hs, rfl⟩
    unfold nextElement
    rw [hs]
    rfl

theorem closeArray_eq_done {s r : List Char} {u : Unit} :
    closeArray s = .done u r ↔ skipBlanks s = ']' :: r := by
  unfold closeArray
  constructor
  · intro h
    split at h <;> cases h
    assumption
  · intro h
    rw [h]
    rfl

/-- What was read comes first. -/
theorem elements_extends {α : Type} {element : Reader α} {fuel : Nat} {first : Bool}
    {acc as : List α} {s r : List Char} (h : elements element fuel first acc s = .done as r) :
    ∃ bs, as = acc.reverse ++ bs := by
  induction fuel generalizing first acc s with
  | zero => cases h
  | succ fuel ih =>
    obtain ⟨more, t, -, h⟩ := andThen_eq_done.mp h
    cases more with
    | false =>
      cases h
      exact ⟨[], by simp⟩
    | true =>
      obtain ⟨a, t', -, h⟩ := andThen_eq_done.mp h
      obtain ⟨bs, rfl⟩ := ih h
      exact ⟨a :: bs, by simp⟩

def Value.Opens : Value → Char → Prop
  | null, c => c = 'n'
  | array _, c => c = '['
  | object _, c => c = '\x7b'
  | _, c => c ≠ 'n' ∧ c ≠ '[' ∧ c ≠ '\x7b'

theorem value_opens {depth : Nat} {s r : List Char} {v : Value}
    (h : value exact depth s = .done v r) : ∃ c t, skipBlanks s = c :: t ∧ v.Opens c := by
  unfold value at h
  split at h
  · cases h
  · rename_i t ht
    obtain ⟨_, -, rfl⟩ := map_eq_done.mp h
    exact ⟨'n', t, ht, rfl⟩
  · rename_i t ht
    obtain ⟨_, -, rfl⟩ := map_eq_done.mp h
    exact ⟨'t', t, ht, by simp [Value.Opens]⟩
  · rename_i t ht
    obtain ⟨_, -, rfl⟩ := map_eq_done.mp h
    exact ⟨'f', t, ht, by simp [Value.Opens]⟩
  · rename_i t ht
    obtain ⟨_, -, rfl⟩ := map_eq_done.mp h
    exact ⟨'"', t, ht, by simp [Value.Opens]⟩
  · rename_i t ht
    split at h
    · cases h
    · obtain ⟨_, -, rfl⟩ := map_eq_done.mp h
      exact ⟨'[', t, ht, rfl⟩
  · rename_i t ht
    split at h
    · cases h
    · obtain ⟨_, -, rfl⟩ := map_eq_done.mp h
      exact ⟨'\x7b', t, ht, rfl⟩
  · rename_i c t hn _ _ _ ha ho ht
    split at h
    · refine ⟨c, t, ht, ?_⟩
      have hv := number_isNumber h
      have hc : c ≠ 'n' ∧ c ≠ '[' ∧ c ≠ '\x7b' := ⟨hn, ha, ho⟩
      cases v <;> first | exact hc | cases hv
    · cases h

theorem skipBlanks_skipBlanks (s : List Char) : skipBlanks (skipBlanks s) = skipBlanks s :=
  List.dropWhile_idempotent ..

theorem value_skipBlanks (l : Leaves) (depth : Nat) (s : List Char) :
    value l depth (skipBlanks s) = value l depth s := by
  rw [value, value, skipBlanks_skipBlanks]

end MediaRemote.Json
