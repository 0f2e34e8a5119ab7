import Mathlib.Data.List.TakeWhile
import MediaRemote.Proofs.Json.Grammar

namespace MediaRemote.Json

open Outcome

theorem skipBlanks_spans (s : List Char) : Spans Blanks s (skipBlanks s) := by
  refine ⟨s.takeWhile isBlank, ?_, List.takeWhile_append_dropWhile.symm⟩
  intro c hc
  exact List.mem_takeWhile_imp hc

theorem word_eq {ws s r : List Char} {u : Unit} (h : word ws s = .done u r) : s = ws ++ r := by
  induction ws generalizing s with
  | nil =>
    cases h
    rfl
  | cons w ws ih =>
    cases s with
    | nil => cases h
    | cons c s =>
      simp only [word] at h
      split at h
      · rename_i hc
        rw [hc, ih h, List.cons_append]
      · cases h

/-- All entries are mapped or none. -/
theorem mapM_eq_some {α β : Type} {f : α → Option β} {l : List α} {l' : List β} :
    l.mapM f = some l' ↔ l.map f = l'.map some := by
  induction l generalizing l' with
  | nil => cases l' <;> simp
  | cons a l ih =>
    cases l' with
    | nil => simp [List.mapM_cons, Option.bind_eq_some_iff]
    | cons b l' => simp [List.mapM_cons, Option.bind_eq_some_iff, ih]

theorem hexEscape_takes : Takes hexEscape CodeUnit := by
  intro s n r h
  unfold hexEscape at h
  split at h
  · cases h
  · split at h
    · rename_i a b c d hm
      cases h
      have hunits := mapM_eq_some.mp hm
      refine ⟨s.take 4, ⟨by simpa using congrArg List.length hunits, ?_⟩,
        (List.take_append_drop 4 s).symm⟩
      intro x hx
      have hmem : hexValue? x ∈ [a, b, c, d].map some := hunits ▸ List.mem_map_of_mem hx
      obtain ⟨y, -, hy⟩ := List.mem_map.mp hmem
      rw [← hy, Option.isSome_some]
    · cases h

def Escaped (w : List Char) : Prop := ∀ v, StringRest v → StringRest ('\\' :: 'u' :: (w ++ v))

theorem CodeUnit.escaped {w : List Char} (h : CodeUnit w) : Escaped w := fun _ hv => .unicode h hv

theorem demand_eq {w : Char} {s r : List Char} {u : Unit} (h : demand w s = .done u r) :
    s = w :: r := by
  cases s with
  | nil => cases h
  | cons c s =>
    simp only [demand] at h
    split at h
    · rename_i hc
      cases h
      rw [hc]
    · cases h

theorem unicodeEscape_takes : Takes unicodeEscape Escaped := by
  intro s c r h
  obtain ⟨n, t, hn, hrest⟩ := andThen_eq_done.mp h
  obtain ⟨w, hw, hs⟩ := hexEscape_takes _ _ _ hn
  split at hrest
  · cases hrest
  · split at hrest
    · obtain ⟨_, t₁, hbackslash, hrest⟩ := andThen_eq_done.mp hrest
      obtain ⟨_, t₂, hu, hrest⟩ := andThen_eq_done.mp hrest
      obtain ⟨m, t₃, hm, hrest⟩ := andThen_eq_done.mp hrest
      obtain ⟨w', hw', ht⟩ := hexEscape_takes _ _ _ hm
      split at hrest
      · obtain ⟨-, rfl⟩ := Outcome.done.inj hrest
        refine ⟨w ++ '\\' :: 'u' :: w', ?_, ?_⟩
        · intro v hv
          simpa using StringRest.unicode hw (.unicode hw' hv)
        · rw [hs, demand_eq hbackslash, demand_eq hu, ht]
          simp
      · cases hrest
    · obtain ⟨-, rfl⟩ := Outcome.done.inj hrest
      exact ⟨w, hw.escaped, hs⟩

theorem passUnicode_takes : Takes passUnicode Escaped := by
  intro s c r h
  obtain ⟨n, hn, -⟩ := map_eq_done.mp h
  exact (hexEscape_takes _ _ _ hn).imp fun _ => CodeUnit.escaped

section

variable {unicode : Reader Char} (hu : Takes unicode Escaped)
include hu

theorem escape_takes :
    Takes (escape unicode) fun w => ∀ v, StringRest v → StringRest ('\\' :: (w ++ v)) := by
  intro s d r h
  cases s with
  | nil => cases h
  | cons c s =>
    simp only [escape] at h
    split at h
    · rename_i hc
      obtain ⟨w, hw, rfl⟩ := hu _ _ _ h
      exact ⟨'u' :: w, hw, by rw [hc, List.cons_append]⟩
    · split at h
      · rename_i hknown
        cases h
        exact ⟨[c], fun v hv => .short (by simp [hknown]) hv, rfl⟩
      · cases h

theorem stringRest_takes (fuel : Nat) (acc : List Char) :
    Takes (stringRest unicode fuel acc) StringRest := by
  induction fuel generalizing acc with
  | zero => nofun
  | succ fuel ih =>
    intro s v r h
    cases s with
    | nil => cases h
    | cons c s =>
      simp only [stringRest] at h
      split at h
      · rename_i hc
        cases h
        exact ⟨['"'], .close, by rw [hc, List.singleton_append]⟩
      · rename_i hquote
        split at h
        · rename_i hc
          split at h
          · rename_i he
            obtain ⟨w, hw, rfl⟩ := escape_takes hu _ _ _ he
            obtain ⟨w', hw', rfl⟩ := ih _ _ _ _ h
            exact ⟨'\\' :: (w ++ w'), hw w' hw', by simp [hc]⟩
          · cases h
        · rename_i hbackslash
          split at h
          · cases h
          · rename_i hcontrol
            obtain ⟨w, hw, rfl⟩ := ih _ _ _ _ h
            exact ⟨c :: w, .plain hquote hbackslash (by omega) hw, rfl⟩

end

def ExponentRest (w : List Char) : Prop := ∀ m, m = 'e' ∨ m = 'E' → Exponent (m :: w)

theorem dropWhile_digits (s : List Char) :
    ∃ w, (∀ c ∈ w, isDigit c = true) ∧ s = w ++ s.dropWhile isDigit :=
  ⟨s.takeWhile isDigit, fun _ => List.mem_takeWhile_imp, List.takeWhile_append_dropWhile.symm⟩

theorem exponentDigits_takes {e : Nat} {s r : List Char} {o : Option Nat}
    (h : exponentDigits e s = (o, r)) : ∃ w, (∀ c ∈ w, isDigit c = true) ∧ s = w ++ r := by
  induction s generalizing e with
  | nil =>
    obtain ⟨-, rfl⟩ := Prod.mk.inj h
    exact ⟨[], by simp, rfl⟩
  | cons c s ih =>
    simp only [exponentDigits] at h
    split at h
    · rename_i hc
      split at h
      · obtain ⟨w, hw, rfl⟩ := ih h
        exact ⟨c :: w, by simpa [hc] using hw, rfl⟩
      · obtain ⟨-, rfl⟩ := Prod.mk.inj h
        exact ⟨[c], by simpa using hc, rfl⟩
    · obtain ⟨-, rfl⟩ := Prod.mk.inj h
      exact ⟨[], by simp, rfl⟩

theorem inRange_eq {negative : Bool} {x : Option Binary64} {s r : List Char} {v : Value}
    (h : inRange negative x s = .done v r) : s = r := by
  cases x with
  | none => cases h
  | some x => exact (Outcome.done.inj h).2

theorem scaled_eq {negative : Bool} {n : Nat} {e : Int} {s r : List Char} {v : Value}
    (h : scaled negative n e s = .done v r) : s = r := inRange_eq h

/-- A sign may stand before the digits of an exponent. -/
theorem exponentPart_spans {negative : Bool} {n : Nat} {e : Int} {s r : List Char} {v : Value}
    (h : exponentPart negative n e s = .done v r) :
    ∃ sign c w, (sign = [] ∨ sign = ['+'] ∨ sign = ['-']) ∧ isDigit c = true ∧
      (∀ c ∈ w, isDigit c = true) ∧ s = sign ++ c :: (w ++ r) := by
  unfold exponentPart at h
  split at h
  rename_i down t hm
  have hs : ∃ sign, (sign = [] ∨ sign = ['+'] ∨ sign = ['-']) ∧ s = sign ++ t := by
    split at hm
    · obtain ⟨-, rfl⟩ := Prod.mk.inj hm
      exact ⟨['+'], by simp, rfl⟩
    · obtain ⟨-, rfl⟩ := Prod.mk.inj hm
      exact ⟨['-'], by simp, rfl⟩
    · obtain ⟨-, rfl⟩ := Prod.mk.inj hm
      exact ⟨[], by simp, rfl⟩
  obtain ⟨sign, hsign, rfl⟩ := hs
  cases t with
  | nil => cases h
  | cons c t =>
    simp only at h
    split at h
    · rename_i hc
      refine ⟨sign, c, ?_⟩
      split at h
      · rename_i k t' hk
        obtain ⟨w, hw, rfl⟩ := exponentDigits_takes hk
        rw [scaled_eq h]
        exact ⟨w, hsign, hc, hw, rfl⟩
      · -- the exponent is out of range, and the digits that are left are passed over
        rename_i t' hk
        obtain ⟨w, hw, rfl⟩ := exponentDigits_takes hk
        split at h
        · cases h
        · obtain ⟨-, rfl⟩ := Outcome.done.inj h
          obtain ⟨w', hw', ht⟩ := dropWhile_digits t'
          refine ⟨w ++ w', hsign, hc, ?_, by rw [List.append_assoc, ← ht]⟩
          intro d hd
          exact (List.mem_append.mp hd).elim (hw d) (hw' d)
    · cases h

theorem exponentPart_takes (negative : Bool) (n : Nat) (e : Int) :
    Takes (exponentPart negative n e) ExponentRest := by
  intro s v r h
  obtain ⟨sign, c, w, hsign, hc, hw, rfl⟩ := exponentPart_spans h
  refine ⟨sign ++ c :: w, ?_, by simp⟩
  intro m hm
  exact .digits hm hsign ⟨by simp, by simpa [hc] using hw⟩

def FractionRest (w : List Char) : Prop :=
  ∃ d e, w = d ++ e ∧ Digits d ∧ Exponent e

theorem fractionPart_takes (negative : Bool) (n : Nat) (e : Int) :
    Takes (fractionPart negative n e) FractionRest := by
  intro s v r h
  simp only [fractionPart] at h
  split at h
  · split at h <;> cases h
  · rename_i hd
    have hdigits : Digits (s.takeWhile isDigit) := by
      refine ⟨by simpa using hd, ?_⟩
      intro c hc
      exact List.mem_takeWhile_imp hc
    have hrest : Spans Exponent (s.dropWhile isDigit) r := by
      split at h
      · rename_i c t ht
        split at h
        · rename_i hc
          obtain ⟨w, hw, rfl⟩ := exponentPart_takes _ _ _ _ _ _ h
          exact ⟨c :: w, hw c hc, ht⟩
        · rw [← scaled_eq h, ht]
          exact ⟨[], .none, rfl⟩
      · rename_i ht
        rw [← scaled_eq h, ht]
        exact ⟨[], .none, rfl⟩
    obtain ⟨x, hx, hs⟩ := hrest
    refine ⟨s.takeWhile isDigit ++ x, ⟨_, x, rfl, hdigits, hx⟩, ?_⟩
    rw [List.append_assoc, ← hs, List.takeWhile_append_dropWhile]

def WholeRest (w : List Char) : Prop := ∃ f e, w = f ++ e ∧ Fraction f ∧ Exponent e

theorem FractionRest.point {w : List Char} (h : FractionRest w) : WholeRest ('.' :: w) := by
  obtain ⟨d, e, rfl, hd, he⟩ := h
  exact ⟨'.' :: d, e, rfl, .digits hd, he⟩

theorem ExponentRest.mark {w : List Char} (h : ExponentRest w) {m : Char}
    (hm : m = 'e' ∨ m = 'E') : WholeRest (m :: w) := ⟨[], m :: w, rfl, .none, h m hm⟩

theorem wholeRest_nil : WholeRest [] := ⟨[], [], rfl, .none, .none⟩

theorem magnitude_of_rest {w s t r : List Char} (hw : Whole w) (hs : s = w ++ t)
    (ht : Spans WholeRest t r) : Spans Magnitude s r := by
  obtain ⟨_, ⟨f, e, rfl, hf, he⟩, rfl⟩ := ht
  exact ⟨w ++ (f ++ e), .mk hw hf he, by simp [hs]⟩

/-- The whole part is a zero alone or all the digits. -/
theorem whole_digits {c : Char} (hc : isDigit c = true) (s : List Char) :
    ∃ w t, (if c = '0' then [c] else (c :: s).takeWhile isDigit) = w ∧
      (if c = '0' then s else s.dropWhile isDigit) = t ∧ c :: s = w ++ t ∧ Whole w := by
  split
  · rename_i h0
    rw [h0]
    exact ⟨['0'], s, rfl, rfl, rfl, .zero⟩
  · rename_i h0
    rw [List.takeWhile_cons_of_pos hc]
    refine ⟨_, _, rfl, rfl, by simp, .digits h0 ⟨by simp, ?_⟩⟩
    intro d hd
    rcases List.mem_cons.mp hd with rfl | hd
    · exact hc
    · exact List.mem_takeWhile_imp hd

def ended (negative : Bool) (m : Nat) (dropped : Int) : Reader Value := fun s =>
  if dropped = 0 then .done (whole negative m) s else scaled negative m dropped s

def concluded (negative : Bool) (m : Nat) (dropped : Int) : Reader Value := fun s =>
  match s with
  | '.' :: t => fractionPart negative m dropped t
  | d :: t =>
    if d = 'e' ∨ d = 'E' then exponentPart negative m dropped t
    else ended negative m dropped s
  | [] => ended negative m dropped []

theorem magnitude_eq (negative : Bool) {c : Char} {s w t : List Char} (hc : isDigit c = true)
    (hz : ¬ (c = '0' ∧ s.head?.any isDigit = true))
    (hw : (if c = '0' then [c] else (c :: s).takeWhile isDigit) = w) (hs : c :: s = w ++ t) :
    magnitude negative (c :: s) =
      concluded negative (absorb 0 w).1 (w.length - (absorb 0 w).2) t := by
  simp only [magnitude, hc, Bool.not_true, Bool.false_eq_true, if_false, if_neg hz, hw]
  rw [hs, List.drop_left]
  cases t with
  | nil => rfl
  | cons d t =>
    by_cases hp : d = '.'
    · subst hp
      rfl
    · simp [concluded, ended]

/-- A digit comes first, and no other behind a zero. -/
theorem magnitude_starts {negative : Bool} {s r : List Char} {v : Value}
    (h : magnitude negative s = .done v r) :
    ∃ c t, s = c :: t ∧ isDigit c = true ∧ ¬ (c = '0' ∧ t.head?.any isDigit = true) := by
  cases s with
  | nil => cases h
  | cons c t =>
    simp only [magnitude] at h
    split at h
    · cases h
    · rename_i hc
      split at h
      · cases h
      · rename_i hz
        exact ⟨c, t, rfl, by simpa using hc, hz⟩

theorem ended_eq {negative : Bool} {m : Nat} {dropped : Int} {s r : List Char} {v : Value}
    (h : ended negative m dropped s = .done v r) : s = r := by
  unfold ended at h
  split at h
  · exact (Outcome.done.inj h).2
  · exact scaled_eq h

theorem concluded_takes (negative : Bool) (m : Nat) (dropped : Int) :
    Takes (concluded negative m dropped) WholeRest := by
  intro s v r h
  unfold concluded at h
  split at h
  · obtain ⟨x, hx, rfl⟩ := fractionPart_takes _ _ _ _ _ _ h
    exact ⟨'.' :: x, hx.point, rfl⟩
  · rename_i d t _
    split at h
    · rename_i hd
      obtain ⟨x, hx, rfl⟩ := exponentPart_takes _ _ _ _ _ _ h
      exact ⟨d :: x, hx.mark hd, rfl⟩
    · exact ⟨[], wholeRest_nil, ended_eq h⟩
  · exact ⟨[], wholeRest_nil, ended_eq h⟩

theorem magnitude_takes (negative : Bool) : Takes (magnitude negative) Magnitude := by
  intro s v r h
  obtain ⟨c, s, rfl, hc, hz⟩ := magnitude_starts h
  obtain ⟨w, t, hdigits, -, hs, hw⟩ := whole_digits hc s
  rw [magnitude_eq negative hc hz hdigits hs] at h
  exact magnitude_of_rest hw hs (concluded_takes _ _ _ _ _ _ h)

theorem number_takes : Takes number IsNumber := by
  intro s v r h
  unfold number at h
  split at h
  · obtain ⟨w, hw, rfl⟩ := magnitude_takes _ _ _ _ h
    exact ⟨'-' :: w, .minus hw, rfl⟩
  · obtain ⟨w, hw, rfl⟩ := magnitude_takes _ _ _ _ h
    exact ⟨w, .plain hw, rfl⟩

def Value.IsNumber : Value → Prop
  | integer n => minInteger ≤ n ∧ n ≤ maxInteger
  | double _ => True
  | _ => False

theorem whole_isNumber (negative : Bool) {n : Nat} (hn : n < bound64) :
    (whole negative n).IsNumber := by
  unfold whole
  split
  · split
    · rename_i hneg
      simp only [Value.IsNumber, minInteger, maxInteger]
      omega
    · trivial
  · simp only [Value.IsNumber, minInteger, maxInteger]
    omega

/-- What is absorbed keeps fitting into 64 bits. -/
theorem absorb_lt {m : Nat} (hm : m < bound64) (ds : List Char) : (absorb m ds).1 < bound64 := by
  induction ds generalizing m with
  | nil => exact hm
  | cons c ds ih =>
    simp only [absorb]
    split
    · rename_i hnext
      exact ih hnext
    · exact hm

theorem inRange_isNumber {negative : Bool} {x : Option Binary64} {s r : List Char} {v : Value}
    (h : inRange negative x s = .done v r) : v.IsNumber := by
  cases x with
  | none => cases h
  | some x =>
    obtain ⟨rfl, -⟩ := Outcome.done.inj h
    trivial

theorem scaled_isNumber {negative : Bool} {n : Nat} {e : Int} {s r : List Char} {v : Value}
    (h : scaled negative n e s = .done v r) : v.IsNumber := inRange_isNumber h

theorem exponentPart_isNumber {negative : Bool} {n : Nat} {e : Int} {s r : List Char} {v : Value}
    (h : exponentPart negative n e s = .done v r) : v.IsNumber := by
  unfold exponentPart at h
  split at h
  split at h
  · cases h
  · split at h
    · split at h
      · exact scaled_isNumber h
      · split at h
        · cases h
        · obtain ⟨rfl, -⟩ := Outcome.done.inj h
          trivial
    · cases h

theorem fractionPart_isNumber {negative : Bool} {n : Nat} {e : Int} {s r : List Char} {v : Value}
    (h : fractionPart negative n e s = .done v r) : v.IsNumber := by
  simp only [fractionPart] at h
  split at h
  · split at h <;> cases h
  · split at h
    · split at h
      · exact exponentPart_isNumber h
      · exact scaled_isNumber h
    · exact scaled_isNumber h

theorem ended_isNumber {negative : Bool} {m : Nat} (hm : m < bound64) {dropped : Int}
    {s r : List Char} {v : Value} (h : ended negative m dropped s = .done v r) : v.IsNumber := by
  unfold ended at h
  split at h
  · obtain ⟨rfl, -⟩ := Outcome.done.inj h
    exact whole_isNumber negative hm
  · exact scaled_isNumber h

theorem concluded_isNumber {negative : Bool} {m : Nat} (hm : m < bound64) {dropped : Int}
    {s r : List Char} {v : Value} (h : concluded negative m dropped s = .done v r) :
    v.IsNumber := by
  unfold concluded at h
  split at h
  · exact fractionPart_isNumber h
  · split at h
    · exact exponentPart_isNumber h
    · exact ended_isNumber hm h
  · exact ended_isNumber hm h

theorem magnitude_isNumber {negative : Bool} {s r : List Char} {v : Value}
    (h : magnitude negative s = .done v r) : v.IsNumber := by
  obtain ⟨c, s, rfl, hc, hz⟩ := magnitude_starts h
  obtain ⟨w, t, hdigits, -, hs, -⟩ := whole_digits hc s
  rw [magnitude_eq negative hc hz hdigits hs] at h
  exact concluded_isNumber (absorb_lt (by decide) w) h

theorem number_isNumber {s r : List Char} {v : Value} (h : number s = .done v r) :
    v.IsNumber := by
  unfold number at h
  split at h <;> exact magnitude_isNumber h

/-- Digits up to something else, of which there is at least one. -/
theorem some_digits {s : List Char} (h : s.head?.any isDigit = true) :
    ∃ w, Digits w ∧ s = w ++ s.dropWhile isDigit := by
  cases s with
  | nil => cases h
  | cons c s =>
    have hc : isDigit c = true := by simpa using h
    obtain ⟨w, hw, hs⟩ := dropWhile_digits s
    refine ⟨c :: w, ⟨by simp, by simpa [hc] using hw⟩, ?_⟩
    rw [List.dropWhile_cons_of_pos hc, List.cons_append, ← hs]

theorem passExponent_takes : Takes passExponent ExponentRest := by
  intro s v r h
  have hs : ∃ sign t, (sign = [] ∨ sign = ['+'] ∨ sign = ['-']) ∧ s = sign ++ t ∧
      (if t.head?.any isDigit then Outcome.done Value.null (t.dropWhile isDigit)
        else .fault .malformed t) = .done v r := by
    unfold passExponent at h
    split at h
    · exact ⟨['+'], _, by simp, rfl, h⟩
    · exact ⟨['-'], _, by simp, rfl, h⟩
    · exact ⟨[], _, by simp, rfl, h⟩
  obtain ⟨sign, t, hsign, hst, ht⟩ := hs
  split at ht
  · rename_i hd
    obtain ⟨w, hw, hd⟩ := some_digits hd
    obtain ⟨-, rfl⟩ := Outcome.done.inj ht
    exact ⟨sign ++ w, fun m hm => .digits hm hsign hw, by rw [List.append_assoc, ← hd, hst]⟩
  · cases ht

theorem passFraction_takes : Takes passFraction FractionRest := by
  intro s v r h
  simp only [passFraction] at h
  split at h
  · rename_i hs
    obtain ⟨d, hd, hs⟩ := some_digits hs
    have hrest : Spans Exponent (s.dropWhile isDigit) r := by
      split at h
      · rename_i c t ht
        split at h
        · rename_i hc
          obtain ⟨w, hw, rfl⟩ := passExponent_takes _ _ _ h
          exact ⟨c :: w, hw c hc, ht⟩
        · cases h
          exact ⟨[], .none, rfl⟩
      · rename_i ht
        cases h
        exact ⟨[], .none, ht⟩
    obtain ⟨e, he, ht⟩ := hrest
    exact ⟨d ++ e, ⟨d, e, rfl, hd, he⟩, by rw [List.append_assoc, ← ht, ← hs]⟩
  · cases h

theorem passMagnitude_takes : Takes passMagnitude Magnitude := by
  intro s v r h
  cases s with
  | nil => cases h
  | cons c s =>
    simp only [passMagnitude] at h
    split at h
    · cases h
    · rename_i hc
      split at h
      · cases h
      · obtain ⟨w, t, -, ht, hs, hw⟩ := whole_digits (by simpa using hc) s
        rw [ht] at h
        refine magnitude_of_rest hw hs ?_
        split at h
        · obtain ⟨x, hx, rfl⟩ := passFraction_takes _ _ _ h
          exact ⟨'.' :: x, hx.point, rfl⟩
        · rename_i d t _
          split at h
          · rename_i hd
            obtain ⟨x, hx, rfl⟩ := passExponent_takes _ _ _ h
            exact ⟨d :: x, hx.mark hd, rfl⟩
          · cases h
            exact ⟨[], wholeRest_nil, rfl⟩
        · cases h
          exact ⟨[], wholeRest_nil, rfl⟩

theorem passNumber_takes : Takes passNumber IsNumber := by
  intro s v r h
  unfold passNumber at h
  split at h
  · obtain ⟨w, hw, rfl⟩ := passMagnitude_takes _ _ _ h
    exact ⟨'-' :: w, .minus hw, rfl⟩
  · obtain ⟨w, hw, rfl⟩ := passMagnitude_takes _ _ _ h
    exact ⟨w, .plain hw, rfl⟩

end MediaRemote.Json
