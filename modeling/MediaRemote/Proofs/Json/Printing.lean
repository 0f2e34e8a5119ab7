import Mathlib.Tactic.SplitIfs
import MediaRemote.Json.Printer
import MediaRemote.Proofs.Json.Local
import MediaRemote.Proofs.Json.Records

namespace MediaRemote.Json

open Outcome

theorem digitValue_eq (c : Char) : digitValue c = c.toNat - '0'.toNat := rfl

theorem isDigit_of_mem_toDigits {n : Nat} {c : Char} (hc : c ∈ Nat.toDigits 10 n) :
    isDigit c = true := by
  have := Nat.isDigit_of_mem_toDigits (by decide) (by decide) hc
  simpa [Char.isDigit, isDigit, Char.le_def] using this

theorem le_ofDigitChars (ds : List Char) (m : Nat) : m ≤ Nat.ofDigitChars 10 ds m := by
  induction ds generalizing m with
  | nil => exact Nat.le_refl m
  | cons c ds ih =>
    have := ih (10 * m + (c.toNat - '0'.toNat))
    simp only [Nat.ofDigitChars, List.foldl_cons] at this ⊢
    omega

/-- Digits of a number below 2^64 are all taken. -/
theorem absorb_eq {ds : List Char} {m : Nat} (h : Nat.ofDigitChars 10 ds m < bound64) :
    absorb m ds = (Nat.ofDigitChars 10 ds m, ds.length) := by
  induction ds generalizing m with
  | nil => rfl
  | cons c ds ih =>
    have hnext : m * 10 + digitValue c = 10 * m + (c.toNat - '0'.toNat) := by
      rw [digitValue_eq]
      omega
    have hrest : Nat.ofDigitChars 10 (c :: ds) m =
        Nat.ofDigitChars 10 ds (m * 10 + digitValue c) := by
      rw [hnext]
      rfl
    rw [hrest] at h ⊢
    have hfits : m * 10 + digitValue c < bound64 := Nat.lt_of_le_of_lt (le_ofDigitChars ds _) h
    simp [absorb, hfits, ih h]

/-- Only zero has a zero for its first digit. -/
theorem toDigits_zero_first {n : Nat} {s : List Char} (h : Nat.toDigits 10 n = '0' :: s) :
    s = [] := by
  induction n using Nat.strongRecOn generalizing s with
  | ind n ih =>
    rw [Nat.toDigits_eq_if (by decide)] at h
    split at h
    · exact (List.cons.inj h).2.symm
    · rename_i hn
      cases ht : Nat.toDigits 10 (n / 10) with
      | nil => exact absurd ht Nat.toDigits_ne_nil
      | cons c t =>
        rw [ht] at h
        obtain ⟨rfl, -⟩ := List.cons.inj h
        obtain rfl := ih (n / 10) (by omega) ht
        have hzero : Nat.ofDigitChars 10 (Nat.toDigits 10 (n / 10)) 0 = n / 10 :=
          Nat.ofDigitChars_toDigits (by decide) (by decide)
        rw [ht] at hzero
        have : n / 10 = 0 := hzero.symm
        omega

theorem toDigits_starts (n : Nat) : ∃ c s, Nat.toDigits 10 n = c :: s ∧ isDigit c = true ∧
    (c = '0' → s = []) := by
  cases h : Nat.toDigits 10 n with
  | nil => exact absurd h Nat.toDigits_ne_nil
  | cons c s =>
    refine ⟨c, s, rfl, isDigit_of_mem_toDigits (n := n) (by simp [h]), ?_⟩
    rintro rfl
    exact toDigits_zero_first h

theorem magnitude_digits (negative : Bool) {n : Nat} (hn : n < bound64) :
    magnitude negative (Nat.toDigits 10 n) = .done (whole negative n) [] := by
  obtain ⟨c, s, hs, hc, hz⟩ := toDigits_starts n
  have hdigits : (c :: s).takeWhile isDigit = c :: s := by
    rw [← hs]
    exact List.takeWhile_eq_self_iff.mpr fun d hd => isDigit_of_mem_toDigits hd
  have hw : (if c = '0' then [c] else (c :: s).takeWhile isDigit) = c :: s := by
    split
    · rename_i h0
      rw [hz h0]
    · exact hdigits
  have hz' : ¬ (c = '0' ∧ s.head?.any isDigit = true) := by
    rintro ⟨h0, h⟩
    rw [hz h0] at h
    cases h
  have hvalue : Nat.ofDigitChars 10 (c :: s) 0 = n := by
    rw [← hs]
    exact Nat.ofDigitChars_toDigits (by decide) (by decide)
  have habsorb : absorb 0 (c :: s) = (n, (c :: s).length) := by
    rw [absorb_eq (by rwa [hvalue]), hvalue]
  rw [hs, magnitude_eq negative hc hz' hw (List.append_nil _).symm, habsorb]
  simp [concluded, ended]

theorem number_integer {n : Int} (h : minInteger ≤ n ∧ n ≤ maxInteger) :
    number (integerText n) = .done (.integer n) [] := by
  unfold integerText
  obtain ⟨hmin, hmax⟩ := h
  simp only [minInteger, maxInteger, bound63, bound64] at hmin hmax
  split
  · rename_i hneg
    have hwhole : whole true n.natAbs = .integer n := by
      have : 0 < n.natAbs ∧ n.natAbs ≤ bound63 := by
        simp only [bound63]
        omega
      rw [whole, if_pos rfl, if_pos this]
      congr 1
      omega
    have hn : n.natAbs < bound64 := by
      simp only [bound64]
      omega
    rw [number, magnitude_digits true hn, hwhole]
  · rename_i hpos
    have hwhole : whole false n.natAbs = .integer n := by
      simp only [whole, Bool.false_eq_true, if_false]
      congr 1
      omega
    have hn : n.natAbs < bound64 := by
      simp only [bound64]
      omega
    obtain ⟨c, s, hs, hc, -⟩ := toDigits_starts n.natAbs
    have hminus : c ≠ '-' := by
      rintro rfl
      exact absurd hc (by decide)
    have := magnitude_digits false hn
    rw [hs, hwhole] at this
    rw [hs]
    unfold number
    split
    · simp_all
    · exact this

theorem hexValue?_hexDigit {n : Nat} (hn : n < 16) : hexValue? (hexDigit n) = some n := by
  have hall : ∀ n < 16, hexValue? (hexDigit n) = some n := by decide
  exact hall n hn

theorem hexEscape_low {n : Nat} (hn : n < 256) (s : List Char) :
    hexEscape ('0' :: '0' :: hexDigit (n / 16) :: hexDigit (n % 16) :: s) = .done n s := by
  have hlong : ¬ utf8Length ['0', '0', hexDigit (n / 16), hexDigit (n % 16)] < 4 := by
    have h₁ := Char.utf8Size_pos (hexDigit (n / 16))
    have h₂ := Char.utf8Size_pos (hexDigit (n % 16))
    have h₀ : '0'.utf8Size = 1 := by decide
    simp only [utf8Length, h₀]
    omega
  have hzero : hexValue? '0' = some 0 := by decide
  simp only [hexEscape, List.take_succ_cons, List.take_zero, if_neg hlong, List.mapM_cons,
    List.mapM_nil, hzero, hexValue?_hexDigit (show n / 16 < 16 by omega),
    hexValue?_hexDigit (show n % 16 < 16 by omega)]
  simp
  omega

theorem stringRest_short {l d : Char} (hd : shortEscape? l = some d) (hu : l ≠ 'u')
    (unicode : Reader Char) (fuel : Nat) (acc s : List Char) :
    stringRest unicode (fuel + 1) acc ('\\' :: l :: s) = stringRest unicode fuel (d :: acc) s := by
  have hq : '\\' ≠ '"' := by decide
  simp [stringRest, hq, escape, hu, hd]

theorem unicodeEscape_low {n : Nat} (hn : n < 32) (s : List Char) :
    unicodeEscape ('0' :: '0' :: hexDigit (n / 16) :: hexDigit (n % 16) :: s) =
      .done (Char.ofNat n) s := by
  have ht : isTrailingSurrogate n = false := by
    simp only [isTrailingSurrogate, Bool.and_eq_false_iff, decide_eq_false_iff_not]
    omega
  have hl : isLeadingSurrogate n = false := by
    simp only [isLeadingSurrogate, Bool.and_eq_false_iff, decide_eq_false_iff_not]
    omega
  simp [unicodeEscape, hexEscape_low (show n < 256 by omega), ht, hl]

/-- One character of a string is read back from what is printed for it. -/
theorem stringRest_escapeChar (c : Char) (fuel : Nat) (acc s : List Char) :
    stringRest unicodeEscape (fuel + 1) acc (escapeChar c ++ s) =
      stringRest unicodeEscape fuel (c :: acc) s := by
  have hcode {n : Nat} (h : c.toNat = n) : Char.ofNat n = c := by rw [← h, Char.ofNat_toNat]
  unfold escapeChar
  split_ifs with hq hb hn hr ht h8 h12 hcontrol
  · exact stringRest_short (by rw [hq]; decide) (by decide) _ _ _ _
  · exact stringRest_short (by rw [hb]; decide) (by decide) _ _ _ _
  · exact stringRest_short (by rw [hn]; decide) (by decide) _ _ _ _
  · exact stringRest_short (by rw [hr]; decide) (by decide) _ _ _ _
  · exact stringRest_short (by rw [ht]; decide) (by decide) _ _ _ _
  · exact stringRest_short (by rw [← hcode h8]; decide) (by decide) _ _ _ _
  · exact stringRest_short (by rw [← hcode h12]; decide) (by decide) _ _ _ _
  · have hquote : '\\' ≠ '"' := by decide
    simp [stringRest, hquote, escape, unicodeEscape_low hcontrol, hcode rfl]
  · simp [stringRest, hq, hb, hcontrol]

theorem stringRest_escaped (cs acc s : List Char) {fuel : Nat} (hfuel : cs.length < fuel) :
    stringRest unicodeEscape fuel acc (cs.flatMap escapeChar ++ '"' :: s) =
      .done (String.ofList (acc.reverse ++ cs)) s := by
  induction cs generalizing acc fuel with
  | nil =>
    obtain ⟨fuel, rfl⟩ : ∃ n, fuel = n + 1 := ⟨fuel - 1, by omega⟩
    simp [stringRest]
  | cons c cs ih =>
    simp only [List.length_cons] at hfuel
    obtain ⟨fuel, rfl⟩ : ∃ n, fuel = n + 1 := ⟨fuel - 1, by omega⟩
    rw [List.flatMap_cons, List.append_assoc, stringRest_escapeChar, ih (c :: acc) (by omega)]
    simp

theorem escapeChar_ne_nil (c : Char) : escapeChar c ≠ [] := by
  unfold escapeChar
  split_ifs <;> simp

theorem length_le_flatMap {α β : Type} {f : α → List β} (hf : ∀ a, f a ≠ []) (as : List α) :
    as.length ≤ (as.flatMap f).length := by
  induction as with
  | nil => simp
  | cons a as ih =>
    have := List.length_pos_of_ne_nil (hf a)
    simp only [List.length_cons, List.flatMap_cons, List.length_append]
    omega

theorem exact_string (t : String) (s : List Char) :
    exact.string (t.toList.flatMap escapeChar ++ '"' :: s) = .done t s := by
  have hlength := length_le_flatMap escapeChar_ne_nil t.toList
  have hfuel : t.toList.length < (t.toList.flatMap escapeChar ++ '"' :: s).length + 1 := by
    simp only [List.length_append]
    omega
  have := stringRest_escaped t.toList [] s hfuel
  rwa [List.reverse_nil, List.nil_append, String.ofList_toList] at this

/-- The text of this double is read back as this very double. -/
def Carried (x : Binary64) : Prop := parse (Value.double x).text = .ok (.double x)

def readsBack (x : Binary64) : Bool :=
  match parse (Value.double x).text with
  | .ok (.double y) => y = x
  | _ => false

theorem readsBack_iff (x : Binary64) : readsBack x = true ↔ Carried x := by
  unfold readsBack Carried
  split <;> simp_all

instance (x : Binary64) : Decidable (Carried x) := decidable_of_iff _ (readsBack_iff x)

theorem ne_of_numeric {c b : Char} (hc : c = '-' ∨ isDigit c = true)
    (hb : b ≠ '-' ∧ isDigit b = false) : c ≠ b := by
  rintro rfl
  simp [hb] at hc

theorem solid_of_numeric {c : Char} (hc : c = '-' ∨ isDigit c = true) : isBlank c = false := by
  simp [isBlank, ne_of_numeric hc (b := ' ') (by decide), ne_of_numeric hc (b := '\t') (by decide),
    ne_of_numeric hc (b := '\n') (by decide), ne_of_numeric hc (b := '\r') (by decide)]

def Solid (s : List Char) : Prop := ∀ c ∈ s, isBlank c = false

theorem solid_nil : Solid [] := by simp [Solid]

theorem solid_cons {c : Char} {s : List Char} : Solid (c :: s) ↔ isBlank c = false ∧ Solid s := by
  simp [Solid]

theorem solid_append {s t : List Char} : Solid (s ++ t) ↔ Solid s ∧ Solid t := by
  simp only [Solid, List.mem_append, or_imp, forall_and]

theorem solid_replicate {n : Nat} {c : Char} (hc : isBlank c = false) :
    Solid (List.replicate n c) := by
  intro d hd
  rw [(List.mem_replicate.mp hd).2, hc]

theorem solid_of_digits {s : List Char} (h : ∀ c ∈ s, isDigit c = true) : Solid s :=
  fun c hc => solid_of_numeric (.inr (h c hc))

theorem Solid.sublist {s t : List Char} (ht : Solid t) (h : s.Sublist t) : Solid s :=
  fun c hc => ht c (h.subset hc)

theorem layout_plain_solid {digits : List Char} (hd : Solid digits) (leading : Int) :
    Solid (layout.plain digits leading) := by
  unfold DecimalLayout.plain
  split
  · exact solid_cons.mpr ⟨rfl, solid_cons.mpr ⟨rfl, solid_append.mpr ⟨solid_replicate rfl, hd⟩⟩⟩
  · refine solid_append.mpr ⟨solid_append.mpr ⟨?_, solid_replicate rfl⟩, ?_⟩
    · exact hd.sublist (List.take_sublist _ _)
    · split
      · simp [layout, solid_cons, solid_nil, isBlank]
      · exact solid_cons.mpr ⟨rfl, hd.sublist (List.drop_sublist _ _)⟩

theorem layout_scientific_solid {digits : List Char} (hd : Solid digits) (leading : Int) :
    Solid (layout.scientific digits leading) := by
  have hsign : Solid (if leading < 0 then ['-'] else layout.positiveSign) := by
    split <;> simp [layout, solid_cons, solid_nil, isBlank]
  have hfraction : Solid (if (digits.drop 1).isEmpty then [] else '.' :: digits.drop 1) := by
    split
    · exact solid_nil
    · exact solid_cons.mpr ⟨rfl, hd.sublist (List.drop_sublist _ _)⟩
  have hexponent : Solid (Nat.toDigits 10 leading.natAbs) :=
    solid_of_digits fun c => isDigit_of_mem_toDigits
  simp only [DecimalLayout.scientific, solid_append, solid_cons]
  exact ⟨⟨hd.sublist (List.take_sublist _ _), hfraction⟩, rfl, hsign, hexponent⟩

theorem doubleText_solid (x : Binary64) : Solid (doubleText x) := by
  have htext (d : Decimal) : Solid (layout.text d) := by
    have hdigits : Solid (Nat.toDigits 10 d.digits) :=
      solid_of_digits fun c => isDigit_of_mem_toDigits
    have hsignificant :
        Solid ((Nat.toDigits 10 d.digits).reverse.dropWhile (· = '0')).reverse := by
      intro c hc
      have hmem := (List.dropWhile_sublist _).subset (List.mem_reverse.mp hc)
      exact hdigits c (List.mem_reverse.mp hmem)
    simp only [DecimalLayout.text]
    have hshown {s : List Char} (hs : Solid s) : Solid (if s.isEmpty then ['0'] else s) := by
      split
      · exact solid_cons.mpr ⟨rfl, solid_nil⟩
      · exact hs
    split
    · exact layout_plain_solid (hshown hsignificant) _
    · exact layout_scientific_solid (hshown hsignificant) _
  unfold doubleText
  split
  · exact solid_cons.mpr ⟨rfl, htext _⟩
  · exact htext _

theorem Solid.skipBlanks {s : List Char} (h : Solid s) : skipBlanks s = s := by
  cases s with
  | nil => rfl
  | cons c s => simp [Json.skipBlanks, (solid_cons.mp h).1]

/-- Only a number is read as a double. -/
theorem value_double {depth : Nat} {s r : List Char} {x : Binary64}
    (h : value exact depth s = .done (.double x) r) :
    number (skipBlanks s) = .done (.double x) r := by
  unfold value at h
  split at h
  · cases h
  · obtain ⟨_, -, ⟨⟩⟩ := map_eq_done.mp h
  · obtain ⟨_, -, ⟨⟩⟩ := map_eq_done.mp h
  · obtain ⟨_, -, ⟨⟩⟩ := map_eq_done.mp h
  · obtain ⟨_, -, ⟨⟩⟩ := map_eq_done.mp h
  · split at h
    · cases h
    · obtain ⟨_, -, ⟨⟩⟩ := map_eq_done.mp h
  · split at h
    · cases h
    · obtain ⟨_, -, ⟨⟩⟩ := map_eq_done.mp h
  · rename_i hs
    rw [hs]
    split at h
    · exact h
    · cases h

theorem Carried.number {x : Binary64} (h : Carried x) :
    number (doubleText x) = .done (.double x) [] := by
  obtain ⟨r, hread, hr⟩ := Decoder.document_eq_ok.mp h
  have hsolid := doubleText_solid x
  have hnumber : Json.number (doubleText x) = .done (.double x) r := by
    have := value_double hread
    rwa [Value.text, String.toList_ofList, Value.render, hsolid.skipBlanks] at this
  obtain ⟨w, -, hw⟩ := number_takes _ _ _ hnumber
  rw [hw] at hsolid
  cases r with
  | nil => exact hnumber
  | cons c r =>
    have hc : isBlank c = false := (solid_cons.mp (solid_append.mp hsolid).2).1
    rw [hr c (.head r)] at hc
    cases hc

theorem value_number (depth : Nat) {c : Char} (hc : c = '-' ∨ isDigit c = true) (t : List Char) :
    value exact depth (c :: t) = number (c :: t) := by
  have hsolid : skipBlanks (c :: t) = c :: t := by simp [skipBlanks, solid_of_numeric hc]
  unfold value
  rw [hsolid]
  -- the first character rules out every other kind of value
  split <;> rename_i hs
  · cases hs
  · exact absurd (List.cons.inj hs).1 (ne_of_numeric hc (by decide))
  · exact absurd (List.cons.inj hs).1 (ne_of_numeric hc (by decide))
  · exact absurd (List.cons.inj hs).1 (ne_of_numeric hc (by decide))
  · exact absurd (List.cons.inj hs).1 (ne_of_numeric hc (by decide))
  · exact absurd (List.cons.inj hs).1 (ne_of_numeric hc (by decide))
  · exact absurd (List.cons.inj hs).1 (ne_of_numeric hc (by decide))
  · obtain ⟨rfl, rfl⟩ := List.cons.inj hs
    exact if_pos (by simpa using hc)

/-- A number that is read when it stands alone is read as a value with more behind it. -/
theorem value_of_number {depth : Nat} {s rest : List Char} {v : Value}
    (h : number s = .done v []) (hr : Stops rest) :
    value exact depth (s ++ rest) = .done v rest := by
  obtain ⟨c, t, rfl, hc⟩ := number_starts h
  have hread := number_local _ _ _ h rest hr
  rw [List.nil_append, List.cons_append] at hread
  rw [List.cons_append, value_number depth hc, hread]

end MediaRemote.Json
