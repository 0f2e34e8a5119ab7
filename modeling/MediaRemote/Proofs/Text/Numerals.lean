import MediaRemote.Proofs.Json.Printing
import MediaRemote.Proofs.Results
import MediaRemote.Proofs.Text.Words
import MediaRemote.Text.Integer

namespace MediaRemote.Text

open Results

structure IsDecimal (ds : List Char) (n : Nat) : Prop where
  nonempty : ds ≠ []
  digits : ∀ c ∈ ds, c.isDigit = true
  value : Nat.ofDigitChars 10 ds 0 = n

inductive NaturalNumeral : List Char → Nat → Prop
  | plain {ds n} (decimal : IsDecimal ds n) : NaturalNumeral ds n
  | plus {ds n} (decimal : IsDecimal ds n) : NaturalNumeral ('+' :: ds) n

inductive IntegerNumeral : List Char → Int → Prop
  | natural {s n} (natural : NaturalNumeral s n) : IntegerNumeral s n
  | minus {ds n} (decimal : IsDecimal ds n) : IntegerNumeral ('-' :: ds) (-n)

theorem IsDecimal.starts {ds : List Char} {n : Nat} (h : IsDecimal ds n) :
    ∃ c rest, ds = c :: rest ∧ c ≠ '+' ∧ c ≠ '-' := by
  obtain ⟨hne, hdigits, -⟩ := h
  cases ds with
  | nil => exact absurd rfl hne
  | cons c rest =>
    have hc : c.isDigit = true := hdigits c (by simp)
    refine ⟨c, rest, rfl, ?_, ?_⟩
    all_goals
      rintro rfl
      exact absurd hc (by decide)

theorem ofDigitChars_cons (c : Char) (ds : List Char) (n : Nat) :
    Nat.ofDigitChars 10 (c :: ds) n = Nat.ofDigitChars 10 ds (n * 10 + (c.toNat - 48)) := by
  rw [Nat.mul_comm n 10]
  rfl

theorem digits_eq_ok {max n m : Nat} {beyond : IntegerFault} {ds : List Char} (hn : n ≤ max) :
    digits max beyond n ds = .ok m ↔
      (∀ c ∈ ds, c.isDigit = true) ∧ Nat.ofDigitChars 10 ds n = m ∧ m ≤ max := by
  induction ds generalizing n with
  | nil =>
    simp only [digits, Except.ok.injEq, Nat.ofDigitChars, List.foldl_nil]
    constructor
    · rintro rfl
      exact ⟨by simp, rfl, hn⟩
    · rintro ⟨-, hm, -⟩
      exact hm
  | cons c ds ih =>
    have hvalue := ofDigitChars_cons c ds n
    simp only [digits, List.forall_mem_cons]
    cases hc : c.isDigit with
    | false => simp
    | true =>
      simp only [if_true, true_and]
      split
      · rename_i hnext
        rw [ih hnext, hvalue]
      · rename_i hnext
        -- more digits only make the number greater
        have hgreater : n * 10 + (c.toNat - 48) ≤ Nat.ofDigitChars 10 (c :: ds) n :=
          hvalue ▸ Json.le_ofDigitChars ds _
        simp only [reduceCtorEq, false_iff]
        rintro ⟨-, rfl, hm⟩
        exact hnext (Nat.le_trans hgreater hm)

theorem nonempty_eq_ok {max m : Nat} {beyond : IntegerFault} {ds : List Char} :
    nonempty max beyond ds = .ok m ↔ IsDecimal ds m ∧ m ≤ max := by
  unfold nonempty
  split
  · rename_i hempty
    have hempty : ds = [] := List.isEmpty_iff.mp hempty
    constructor
    · nofun
    · rintro ⟨⟨hne, -, -⟩, -⟩
      exact absurd hempty hne
  · rename_i hempty
    rw [digits_eq_ok (Nat.zero_le max)]
    constructor
    · rintro ⟨hdigits, hvalue, hm⟩
      exact ⟨⟨by simpa using hempty, hdigits, hvalue⟩, hm⟩
    · rintro ⟨⟨-, hdigits, hvalue⟩, hm⟩
      exact ⟨hdigits, hvalue, hm⟩

/-- Digits, perhaps behind a plus sign: what either reader takes where there is no minus sign. -/
def natural (max : Nat) : List Char → Except IntegerFault Nat
  | [] => .error .empty
  | '+' :: rest => nonempty max .tooLarge rest
  | rest => digits max .tooLarge 0 rest

theorem unsigned_eq_natural (s : String) : unsigned s = natural (bound64 - 1) s.toList := rfl

theorem signed_of_minus {s : String} {rest : List Char} (hs : s.toList = '-' :: rest) :
    signed s = (nonempty bound63 .tooSmall rest).map fun n : Nat => -(n : Int) := by
  simp only [signed, hs]
  cases nonempty bound63 .tooSmall rest <;> rfl

theorem signed_of_no_minus {s : String} (hs : ∀ rest, s.toList ≠ '-' :: rest) :
    signed s = (natural (bound63 - 1) s.toList).map Int.ofNat := by
  unfold signed natural
  generalize s.toList = t at hs
  split
  · rfl
  · exact absurd rfl (hs _)
  · rfl
  · rename_i hne _ hplus
    split
    · exact absurd rfl hne
    · exact absurd rfl (hplus _)
    · rfl

theorem natural_eq_ok {max n : Nat} {s : List Char} :
    natural max s = .ok n ↔ NaturalNumeral s n ∧ n ≤ max := by
  constructor
  · intro h
    unfold natural at h
    split at h
    · cases h
    · obtain ⟨hdecimal, hn⟩ := nonempty_eq_ok.mp h
      exact ⟨.plus hdecimal, hn⟩
    · rename_i hne _
      obtain ⟨hdigits, hvalue, hn⟩ := (digits_eq_ok (Nat.zero_le _)).mp h
      exact ⟨.plain ⟨hne, hdigits, hvalue⟩, hn⟩
  · rintro ⟨hnumeral, hn⟩
    cases hnumeral with
    | plus hdecimal => exact nonempty_eq_ok.mpr ⟨hdecimal, hn⟩
    | plain hdecimal =>
      obtain ⟨c, rest, rfl, hplus, -⟩ := hdecimal.starts
      unfold natural
      split
      · rename_i hs
        cases hs
      · rename_i hs
        cases hs
        exact absurd rfl hplus
      · exact (digits_eq_ok (Nat.zero_le _)).mpr ⟨hdecimal.digits, hdecimal.value, hn⟩

theorem NaturalNumeral.no_minus {s : List Char} {n : Nat} (h : NaturalNumeral s n)
    (rest : List Char) : s ≠ '-' :: rest := by
  cases h with
  | plus => simp
  | plain hdecimal =>
    obtain ⟨c, _, rfl, -, hminus⟩ := hdecimal.starts
    simp [hminus]

theorem unsigned_eq_ok {s : String} {n : Nat} :
    unsigned s = .ok n ↔ NaturalNumeral s.toList n ∧ n < bound64 := by
  have hrange : n ≤ bound64 - 1 ↔ n < bound64 := by simp only [bound64]; omega
  rw [unsigned_eq_natural, natural_eq_ok, hrange]

theorem signed_eq_ok {s : String} {n : Int} :
    signed s = .ok n ↔ IntegerNumeral s.toList n ∧ IsSigned64 n := by
  have hrange (m : Nat) : m ≤ bound63 - 1 ↔ IsSigned64 m := by
    simp only [IsSigned64, bound63]
    omega
  have hrange' (m : Nat) : m ≤ bound63 ↔ IsSigned64 (-m) := by
    simp only [IsSigned64, bound63]
    omega
  constructor
  · intro h
    by_cases hminus : ∃ rest, s.toList = '-' :: rest
    · obtain ⟨rest, hs⟩ := hminus
      rw [signed_of_minus hs] at h
      obtain ⟨m, hread, rfl⟩ := map_eq_ok.mp h
      obtain ⟨hdecimal, hm⟩ := nonempty_eq_ok.mp hread
      exact ⟨hs ▸ .minus hdecimal, (hrange' m).mp hm⟩
    · rw [signed_of_no_minus (not_exists.mp hminus)] at h
      obtain ⟨m, hread, rfl⟩ := map_eq_ok.mp h
      obtain ⟨hnatural, hm⟩ := natural_eq_ok.mp hread
      exact ⟨.natural hnatural, (hrange m).mp hm⟩
  · rintro ⟨hnumeral, hn⟩
    generalize hs : s.toList = t at hnumeral
    cases hnumeral with
    | @minus ds m hdecimal =>
      rw [signed_of_minus hs]
      exact map_eq_ok.mpr ⟨m, nonempty_eq_ok.mpr ⟨hdecimal, (hrange' m).mpr hn⟩, rfl⟩
    | @natural _ m hnatural =>
      rw [signed_of_no_minus (hs ▸ hnatural.no_minus), hs]
      exact map_eq_ok.mpr ⟨m, natural_eq_ok.mpr ⟨hnatural, (hrange m).mpr hn⟩, rfl⟩

theorem isDecimal_toDigits (n : Nat) : IsDecimal (Nat.toDigits 10 n) n where
  nonempty := Nat.toDigits_ne_nil
  digits _ hc := Nat.isDigit_of_mem_toDigits (by decide) (by decide) hc
  value := Nat.ofDigitChars_toDigits (by decide) (by decide)

theorem naturalNumeral_toString (n : Nat) : NaturalNumeral (toString n).toList n := by
  have htext : (toString n).toList = Nat.toDigits 10 n := by simp
  rw [htext]
  exact .plain (isDecimal_toDigits n)

theorem integerNumeral_toString (n : Int) : IntegerNumeral (toString n).toList n := by
  cases n with
  | ofNat m => exact .natural (naturalNumeral_toString m)
  | negSucc m =>
    have htext : (toString (Int.negSucc m)).toList = '-' :: Nat.toDigits 10 (m + 1) := by
      simp [toString, Int.repr]
    rw [htext]
    exact .minus (isDecimal_toDigits (m + 1))

theorem digit_not_blank {c : Char} (h : c.isDigit = true) : isBlank c = false := by
  have hrange : 48 ≤ c.toNat ∧ c.toNat ≤ 57 := by
    simpa [Char.isDigit, UInt32.le_iff_toNat_le] using h
  simp only [isBlank, Bool.or_eq_false_iff, Bool.and_eq_false_iff, decide_eq_false_iff_not,
    beq_eq_false_iff_ne]
  omega

theorem IsDecimal.not_blank {ds : List Char} {n : Nat} (h : IsDecimal ds n) :
    ∀ c ∈ ds, isBlank c = false := fun c hc => digit_not_blank (h.digits c hc)

theorem isWord_of_numeral {w : String} {n : Int} (h : IntegerNumeral w.toList n) : IsWord w := by
  unfold IsWord
  generalize w.toList = s at h
  have hsigned {sign : Char} (hsign : isBlank sign = false) {ds : List Char} {n : Nat}
      (h : IsDecimal ds n) : sign :: ds ≠ [] ∧ ∀ c ∈ sign :: ds, isBlank c = false :=
    ⟨by simp, List.forall_mem_cons.mpr ⟨hsign, h.not_blank⟩⟩
  cases h with
  | minus hdecimal => exact hsigned (by decide) hdecimal
  | natural hnatural =>
    cases hnatural with
    | plus hdecimal => exact hsigned (by decide) hdecimal
    | plain hdecimal => exact ⟨hdecimal.nonempty, hdecimal.not_blank⟩

end MediaRemote.Text
