import MediaRemote.Proofs.Json.Leaves

namespace MediaRemote.Json

/-- What may stand behind a number: nothing that a number could run on into. -/
def Stops (rest : List Char) : Prop :=
  ∀ c ∈ rest.head?, isDigit c = false ∧ c ≠ '.' ∧ c ≠ 'e' ∧ c ≠ 'E'

theorem stops_nil : Stops [] := by simp [Stops]

/-- What is read does not depend on what stands behind it. -/
def Local {α : Type} (p : Reader α) : Prop :=
  ∀ s a r, p s = .done a r → ∀ rest, Stops rest → p (s ++ rest) = .done a (r ++ rest)

theorem takeWhile_append_stops {rest : List Char} (hr : Stops rest) (s : List Char) :
    (s ++ rest).takeWhile isDigit = s.takeWhile isDigit := by
  induction s with
  | nil =>
    cases rest with
    | nil => rfl
    | cons c rest => simp [(hr c (by simp)).1]
  | cons c s ih => simp only [List.cons_append, List.takeWhile_cons, ih]

theorem dropWhile_append_stops {rest : List Char} (hr : Stops rest) (s : List Char) :
    (s ++ rest).dropWhile isDigit = s.dropWhile isDigit ++ rest := by
  induction s with
  | nil =>
    cases rest with
    | nil => rfl
    | cons c rest => simp [(hr c (by simp)).1]
  | cons c s ih =>
    simp only [List.cons_append, List.dropWhile_cons, ih]
    split <;> rfl

theorem scaled_local (negative : Bool) (n : Nat) (e : Int) : Local (scaled negative n e) := by
  intro s v r h rest _
  obtain rfl := scaled_eq h
  unfold scaled at h ⊢
  cases hx : Binary64.ofDecimal? n e with
  | none =>
    rw [hx] at h
    cases h
  | some x =>
    rw [hx] at h
    cases h
    rfl

theorem exponentDigits_append {rest : List Char} (hr : Stops rest) (e : Nat) (s : List Char) :
    exponentDigits e (s ++ rest) = ((exponentDigits e s).1, (exponentDigits e s).2 ++ rest) := by
  induction s generalizing e with
  | nil =>
    cases rest with
    | nil => rfl
    | cons c rest => simp [exponentDigits, (hr c (by simp)).1]
  | cons c s ih =>
    simp only [List.cons_append, exponentDigits]
    split
    · split
      · exact ih _
      · rfl
    · rfl

def raised (negative : Bool) (n : Nat) (start : Int) (down : Bool) :
    Option Nat × List Char → Outcome Value
  | (some e, r) => scaled negative n (if down then start - e else start + e) r
  | (none, r) =>
    if n ≠ 0 ∧ !down then .fault .unfit r
    else .done (signedDouble negative .zero) (r.dropWhile isDigit)

theorem exponentPart_signed (negative : Bool) (n : Nat) (start : Int) {sign : List Char}
    (hs : sign = [] ∨ sign = ['+'] ∨ sign = ['-']) {c : Char} (hc : isDigit c = true)
    (t : List Char) :
    exponentPart negative n start (sign ++ c :: t) =
      raised negative n start (sign = ['-']) (exponentDigits (digitValue c) t) := by
  have hp : c ≠ '+' := by
    rintro rfl
    exact absurd hc (by decide)
  have hm : c ≠ '-' := by
    rintro rfl
    exact absurd hc (by decide)
  unfold exponentPart
  split
  rename_i down t' hsplit
  have hsigned : down = decide (sign = ['-']) ∧ t' = c :: t := by
    rcases hs with rfl | rfl | rfl
    · split at hsplit <;> simp_all
    · cases hsplit
      simp
    · cases hsplit
      simp
  obtain ⟨rfl, rfl⟩ := hsigned
  cases he : exponentDigits (digitValue c) t with
  | mk e r => cases e <;> simp [hc, he, raised]

theorem exponentPart_local (negative : Bool) (n : Nat) (start : Int) :
    Local (exponentPart negative n start) := by
  intro s v r h rest hr
  obtain ⟨sign, c, w, hsign, hc, -, rfl⟩ := exponentPart_spans h
  rw [exponentPart_signed negative n start hsign hc] at h
  rw [List.append_assoc, List.cons_append, exponentPart_signed negative n start hsign hc,
    exponentDigits_append hr]
  cases he : exponentDigits (digitValue c) (w ++ r) with
  | mk e t =>
    rw [he] at h
    cases e with
    | some e => exact scaled_local _ _ _ _ _ _ h rest hr
    | none =>
      simp only [raised] at h ⊢
      split at h
      · cases h
      · rename_i hout
        cases h
        rw [if_neg hout, dropWhile_append_stops hr]

theorem fractionPart_local (negative : Bool) (n : Nat) (start : Int) :
    Local (fractionPart negative n start) := by
  intro s v r h rest hr
  simp only [fractionPart] at h ⊢
  rw [takeWhile_append_stops hr, dropWhile_append_stops hr]
  split at h
  · split at h <;> cases h
  · rename_i hd
    rw [if_neg hd]
    cases ht : s.dropWhile isDigit with
    | nil =>
      simp only [ht] at h
      have hscaled := scaled_local _ _ _ _ _ _ h rest hr
      cases rest with
      | nil => exact hscaled
      | cons d rest =>
        obtain ⟨-, -, he, hE⟩ := hr d (by simp)
        simpa [he, hE] using hscaled
    | cons c t =>
      simp only [ht, List.cons_append] at h ⊢
      split at h
      · rename_i hc
        rw [if_pos hc]
        exact exponentPart_local _ _ _ _ _ _ h rest hr
      · rename_i hc
        rw [if_neg hc]
        exact scaled_local _ _ _ _ _ _ h rest hr

theorem ended_local (negative : Bool) (m : Nat) (dropped : Int) :
    Local (ended negative m dropped) := by
  intro s v r h rest hr
  unfold ended at h ⊢
  split at h
  · rename_i hd
    cases h
    rw [if_pos hd]
  · rename_i hd
    rw [if_neg hd]
    exact scaled_local _ _ _ _ _ _ h rest hr

theorem concluded_of_stops {s : List Char} (hs : Stops s) (negative : Bool) (m : Nat)
    (dropped : Int) : concluded negative m dropped s = ended negative m dropped s := by
  cases s with
  | nil => rfl
  | cons c s =>
    obtain ⟨-, hp, he, hE⟩ := hs c (by simp)
    simp [concluded, he, hE]

theorem concluded_local (negative : Bool) (m : Nat) (dropped : Int) :
    Local (concluded negative m dropped) := by
  intro s v r h rest hr
  cases s with
  | nil =>
    rw [List.nil_append, concluded_of_stops hr]
    exact ended_local _ _ _ _ _ _ h rest hr
  | cons d t =>
    rw [List.cons_append]
    by_cases hp : d = '.'
    · subst hp
      exact fractionPart_local _ _ _ _ _ _ h rest hr
    · simp only [concluded] at h ⊢
      by_cases hd : d = 'e' ∨ d = 'E'
      · rw [if_pos hd] at h ⊢
        exact exponentPart_local _ _ _ _ _ _ h rest hr
      · rw [if_neg hd] at h ⊢
        exact ended_local _ _ _ _ _ _ h rest hr

theorem magnitude_local (negative : Bool) : Local (magnitude negative) := by
  intro s v r h rest hr
  obtain ⟨c, s, rfl, hc, hz⟩ := magnitude_starts h
  obtain ⟨w, t, hw, -, hs, -⟩ := whole_digits hc s
  rw [magnitude_eq negative hc hz hw hs] at h
  have hz' : ¬ (c = '0' ∧ (s ++ rest).head?.any isDigit = true) := by
    cases s with
    | nil =>
      cases rest with
      | nil => exact hz
      | cons d rest => simp [(hr d (by simp)).1]
    | cons d s => exact hz
  have hw' : (if c = '0' then [c] else (c :: (s ++ rest)).takeWhile isDigit) = w := by
    rw [← List.cons_append, takeWhile_append_stops hr, hw]
  have hs' : c :: (s ++ rest) = w ++ (t ++ rest) := by
    rw [← List.cons_append, hs, List.append_assoc]
  rw [List.cons_append, magnitude_eq negative hc hz' hw' hs']
  exact concluded_local _ _ _ _ _ _ h rest hr

theorem number_local : Local number := by
  intro s v r h rest hr
  unfold number at h ⊢
  split at h
  · rw [List.cons_append]
    exact magnitude_local _ _ _ _ h rest hr
  · rename_i hs
    cases s with
    | nil => cases h
    | cons c s =>
      rw [List.cons_append]
      split
      · rename_i h'
        cases h'
        exact absurd rfl (hs s)
      · exact magnitude_local _ _ _ _ h rest hr

theorem number_starts {s r : List Char} {v : Value} (h : number s = .done v r) :
    ∃ c t, s = c :: t ∧ (c = '-' ∨ isDigit c = true) := by
  unfold number at h
  split at h
  · rename_i t
    exact ⟨'-', t, rfl, .inl rfl⟩
  · obtain ⟨c, t, rfl, hc, -⟩ := magnitude_starts h
    exact ⟨c, t, rfl, .inr hc⟩

end MediaRemote.Json
