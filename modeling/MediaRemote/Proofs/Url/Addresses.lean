import Mathlib.Algebra.Order.Ring.Nat
import MediaRemote.Proofs.Text.Numerals
import MediaRemote.Url.Parser

namespace MediaRemote.Url

open Text (isDecimal_toDigits)

theorem isDigit_iff {c : Char} : c.isDigit = true ↔ '0' ≤ c ∧ c ≤ '9' := by
  simp [Char.isDigit, Char.le_def]

theorem hexValue?_of_isDigit {c : Char} (hc : c.isDigit = true) :
    hexValue? c = some (c.toNat - 48) := by
  simp [hexValue?, isDigit_iff.mp hc]

theorem hexValue?_digitChar {d : Nat} (hd : d < 16) : hexValue? (Nat.digitChar d) = some d := by
  revert d
  decide

theorem hexValue?_range {c : Char} {d : Nat} (h : hexValue? c = some d) :
    d < 16 ∧ c.toNat < 128 := by
  have hle {a b : Char} : a ≤ b ↔ a.toNat ≤ b.toNat := by
    simp [Char.le_def, UInt32.le_iff_toNat_le]
  simp only [hexValue?, Bool.and_eq_true, decide_eq_true_eq, hle] at h
  split_ifs at h with h0 ha hA
  all_goals
    obtain rfl := Option.some.inj h
    simp only [Char.reduceToNat] at *
    omega

theorem digitOf?_ten {c : Char} (hc : c.isDigit = true) : digitOf? 10 c = some (c.toNat - 48) := by
  have hrange : 48 ≤ c.toNat ∧ c.toNat ≤ 57 := by
    simpa [Char.isDigit, UInt32.le_iff_toNat_le] using hc
  simp [digitOf?, hexValue?_of_isDigit hc]
  omega

theorem mapM_digitOf?_ten {ds : List Char} (hds : ∀ c ∈ ds, c.isDigit = true) :
    ds.mapM (digitOf? 10) = some (ds.map fun c => c.toNat - 48) := by
  induction ds with
  | nil => rfl
  | cons c ds ih =>
    rw [List.mapM_cons, digitOf?_ten (hds c (by simp)), ih fun d hd => hds d (by simp [hd])]
    rfl

theorem ipv4Number?_toDigits (n : Nat) : ipv4Number? (Nat.toDigits 10 n) = some n := by
  obtain ⟨c, s, hs, -, hzero⟩ := Json.toDigits_starts n
  obtain ⟨-, hdigits, hn⟩ := hs ▸ isDecimal_toDigits n
  have hvalue : ((c :: s).map fun d => d.toNat - 48).foldl (fun m d => m * 10 + d) 0 = n := by
    simpa only [List.foldl_map, Nat.ofDigitChars, Nat.mul_comm 10, Char.reduceToNat] using hn
  -- only zero starts with a zero, so that no other base is taken
  have hdecimal : ipv4Number? (c :: s) = ((c :: s).mapM (digitOf? 10)).map
      fun ds => ds.foldl (fun m d => m * 10 + d) 0 := by
    by_cases h0 : c = '0'
    · obtain rfl := hzero h0
      subst h0
      rfl
    · simp only [ipv4Number?]
      split
      all_goals simp_all
  rw [hs, hdecimal, mapM_digitOf?_ten hdigits, Option.map_some, hvalue]

def byteOf (n k : Nat) : Nat := n >>> (8 * k) % 256

theorem ipv4Text_eq (n : Nat) :
    ipv4Text n = ['.'].intercalate ([3, 2, 1, 0].map fun k => Nat.toDigits 10 (byteOf n k)) := by
  simp [ipv4Text, byteOf, List.intercalate_cons_cons]

theorem labels_ipv4Text (n : Nat) :
    labels (ipv4Text n) = [3, 2, 1, 0].map fun k => Nat.toDigits 10 (byteOf n k) := by
  rw [ipv4Text_eq]
  apply List.splitOn_intercalate _ _ (by simp)
  intro l hl hdot
  obtain ⟨k, -, rfl⟩ := List.mem_map.mp hl
  have hdigit : '.'.isDigit = true := (isDecimal_toDigits _).digits _ hdot
  cases hdigit

theorem numericLabels_ipv4Text (n : Nat) :
    numericLabels (ipv4Text n) = [3, 2, 1, 0].map fun k => Nat.toDigits 10 (byteOf n k) := by
  simp [numericLabels, labels_ipv4Text]

theorem endsInNumber_ipv4Text (n : Nat) : endsInNumber (ipv4Text n) = true := by
  simp [endsInNumber, numericLabels_ipv4Text, ipv4Number?_toDigits]

theorem ipv4?_ipv4Text {n : Nat} (hn : n < bound32) : ipv4? (ipv4Text n) = some n := by
  have hnumbers : (numericLabels (ipv4Text n)).mapM ipv4Number? =
      some [byteOf n 3, byteOf n 2, byteOf n 1, byteOf n 0] := by
    simp [numericLabels_ipv4Text, ipv4Number?_toDigits]
  have hbytes (k : Nat) : byteOf n k < 256 := Nat.mod_lt _ (by decide)
  have hsum : ((byteOf n 3 * 256 + byteOf n 2) * 256 + byteOf n 1) * 256 + byteOf n 0 = n := by
    simp only [byteOf, Nat.shiftRight_eq_div_pow, bound32] at *
    omega
  simp [ipv4?, hnumbers, hbytes, Nat.shiftLeft_eq, hsum]

theorem foldl_bytes_lt {front : List Nat} (hfront : ∀ d ∈ front, d < 256) :
    front.foldl (fun n d => n * 256 + d) 0 < 256 ^ front.length := by
  induction front using List.reverseRecOn with
  | nil => simp
  | append_singleton front d ih =>
    have hd : d < 256 := hfront d (by simp)
    have ih := ih fun e he => hfront e (by simp [he])
    simp only [List.foldl_append, List.foldl_cons, List.foldl_nil, List.length_append,
      List.length_singleton, Nat.pow_succ]
    omega

theorem ipv4?_lt {s : List Char} {n : Nat} (h : ipv4? s = some n) : n < bound32 := by
  unfold ipv4? at h
  split at h
  · rename_i numbers _
    split at h
    · rename_i last _
      dsimp only at h
      split_ifs at h with hrange
      obtain ⟨hlength, hfront, hlast⟩ := hrange
      obtain rfl := Option.some.inj h
      have hbytes : ∀ d ∈ numbers.dropLast, d < 256 := by simpa using hfront
      have hvalue := foldl_bytes_lt hbytes
      have hshort : numbers.dropLast.length = 0 ∨ numbers.dropLast.length = 1 ∨
          numbers.dropLast.length = 2 ∨ numbers.dropLast.length = 3 := by
        rw [List.length_dropLast]
        omega
      -- the parts that were left out have room for just the last number
      generalize numbers.dropLast.foldl (fun n d => n * 256 + d) 0 = value at hvalue ⊢
      generalize numbers.dropLast.length = k at hvalue hshort hlast ⊢
      simp only [Nat.shiftLeft_eq, bound32] at hlast ⊢
      obtain rfl | rfl | rfl | rfl := hshort
      all_goals omega
    · cases h
  · cases h

structure IsAddress (pieces : List Nat) : Prop where
  length : pieces.length = 8
  small : ∀ n ∈ pieces, n < bound16

namespace Ipv6Parts

/-- Places that are taken; the gap takes one as well. -/
def places (p : Ipv6Parts) : Nat := p.count + (if p.back.isSome then 1 else 0)

structure Fits (p : Ipv6Parts) : Prop where
  room : p.places ≤ 8
  front : ∀ n ∈ p.front, n < bound16
  back : ∀ n ∈ p.back.getD [], n < bound16

variable {p : Ipv6Parts}

theorem places_add (p : Ipv6Parts) (pieces : List Nat) :
    (p.add pieces).places = p.places + pieces.length := by
  cases h : p.back with
  | none => simp [add, places, count, h]
  | some back => simp [add, places, count, h]; omega

theorem add_add (p : Ipv6Parts) (a b : List Nat) : (p.add a).add b = p.add (a ++ b) := by
  cases h : p.back with
  | none => simp [add, h]
  | some back => simp [add, h]

theorem add_gap {front pieces : List Nat} :
    add ⟨front, some []⟩ pieces = ⟨front, some pieces⟩ := by simp [add]

theorem Fits.add (h : p.Fits) {pieces : List Nat} (hsmall : ∀ n ∈ pieces, n < bound16)
    (hroom : p.places + pieces.length ≤ 8) : (p.add pieces).Fits where
  room := by rwa [places_add]
  front n hn := by
    cases hback : p.back with
    | none =>
      simp only [Ipv6Parts.add, hback, List.mem_append] at hn
      exact hn.elim (h.front n) (hsmall n)
    | some back =>
      simp only [Ipv6Parts.add, hback] at hn
      exact h.front n hn
  back n hn := by
    cases hback : p.back with
    | none => simp [Ipv6Parts.add, hback] at hn
    | some back =>
      simp only [Ipv6Parts.add, hback, Option.getD_some, List.mem_append] at hn
      exact hn.elim (fun hn => h.back n (by simp [hback, hn])) (hsmall n)

theorem Fits.gap (h : p.Fits) (hback : p.back = none) (hroom : p.places ≠ 8) :
    Fits { p with back := some [] } where
  room := by
    have := h.room
    simp only [places, count, hback, Option.getD_none, Option.getD_some, Option.isSome_none,
      Option.isSome_some] at *
    simp at *
    omega
  front := h.front
  back := by simp

theorem Fits.pieces? (h : p.Fits) {pieces : List Nat} (hpieces : p.pieces? = some pieces) :
    IsAddress pieces := by
  obtain ⟨hroom, hfront, hback⟩ := h
  obtain ⟨front, back⟩ := p
  cases back with
  | none =>
    simp only [Ipv6Parts.pieces?] at hpieces
    split_ifs at hpieces with hlength
    obtain rfl := Option.some.inj hpieces
    exact ⟨hlength, hfront⟩
  | some back =>
    obtain rfl := Option.some.inj hpieces
    constructor
    · simp only [places, count, Option.getD_some, Option.isSome_some, if_true,
        List.length_append, List.length_replicate] at *
      omega
    · intro n hn
      simp only [List.mem_append, List.mem_replicate] at hn
      obtain (hn | ⟨-, rfl⟩) | hn := hn
      · exact hfront n hn
      · decide
      · exact hback n hn

end Ipv6Parts

open Ipv6Parts

theorem hexPrefix_lt (fuel n count : Nat) (s : List Char) :
    (hexPrefix fuel n count s).1 < (n + 1) * 16 ^ fuel := by
  induction fuel generalizing n count s with
  | zero => simp [hexPrefix]
  | succ fuel ih =>
    have hgrows : n < (n + 1) * 16 ^ (fuel + 1) :=
      Nat.le_mul_of_pos_right (n + 1) (Nat.pow_pos (by decide))
    cases s with
    | nil => simpa [hexPrefix] using hgrows
    | cons c s =>
      cases hc : hexValue? c with
      | none => simpa [hexPrefix, hc] using hgrows
      | some d =>
        have hd : d < 16 := (hexValue?_range hc).1
        simp only [hexPrefix, hc]
        calc _ < (n * 16 + d + 1) * 16 ^ fuel := ih ..
          _ ≤ ((n + 1) * 16) * 16 ^ fuel := Nat.mul_le_mul_right _ (by omega)
          _ = _ := by rw [Nat.mul_assoc, Nat.pow_succ']

theorem octet?_lt {s : List Char} {n : Nat} (h : octet? s = some n) : n < 256 := by
  unfold octet? at h
  dsimp only at h
  split_ifs at h with hvalue
  obtain rfl := Option.some.inj h
  simp only [Bool.and_eq_true, decide_eq_true_eq] at hvalue
  omega

theorem mapM_octet?_lt {l : List (List Char)} {ns : List Nat} (h : l.mapM octet? = some ns) :
    ∀ n ∈ ns, n < 256 := by
  induction l generalizing ns with
  | nil =>
    obtain rfl := Option.some.inj h
    simp
  | cons s l ih =>
    rw [List.mapM_cons] at h
    obtain ⟨n, hn, h⟩ := Option.bind_eq_some_iff.mp h
    obtain ⟨ms, hms, h⟩ := Option.bind_eq_some_iff.mp h
    obtain rfl := Option.some.inj h
    exact List.forall_mem_cons.mpr ⟨octet?_lt hn, ih hms⟩

theorem dottedPieces?_small {s : List Char} {pieces : List Nat}
    (h : dottedPieces? s = some pieces) : pieces.length = 2 ∧ ∀ n ∈ pieces, n < bound16 := by
  unfold dottedPieces? at h
  split at h
  · rename_i a b c d hoctets
    obtain rfl := Option.some.inj h
    have hlt := mapM_octet?_lt hoctets
    simp only [List.forall_mem_cons] at hlt
    simp only [List.forall_mem_cons, bound16]
    refine ⟨rfl, ?_, ?_, by simp⟩
    all_goals omega
  · cases h

/-- A place is free before each piece and before the gap. -/
theorem ipv6Pieces_isAddress {fuel : Nat} {p : Ipv6Parts} {s : List Char} {pieces : List Nat}
    (hp : p.Fits) (h : ipv6Pieces fuel p s = some pieces) : IsAddress pieces := by
  induction fuel generalizing p s with
  | zero => cases h
  | succ fuel ih =>
    cases s with
    | nil => exact hp.pieces? h
    | cons c rest =>
      unfold ipv6Pieces at h
      change (if p.places = 8 then none else _) = _ at h
      have hroom := hp.room
      split at h
      · cases h
      rename_i hfull
      split at h
      · split at h
        · cases h
        · rename_i hgap
          exact ih (hp.gap (by simpa using hgap) hfull) h
      have hsmall : (hexPrefix 4 0 0 (c :: rest)).1 < bound16 := hexPrefix_lt 4 0 0 _
      generalize hexPrefix 4 0 0 (c :: rest) = read at h hsmall
      obtain ⟨n, count, after⟩ := read
      have hadd : (p.add [n]).Fits :=
        hp.add (by simpa using hsmall) (by simp only [List.length_singleton]; omega)
      dsimp only at h
      split at h
      · exact hadd.pieces? h
      · change (if count = 0 ∨ 6 < p.places then none else _) = _ at h
        split_ifs at h with hdots
        obtain ⟨pieces, hpieces, h⟩ := Option.bind_eq_some_iff.mp h
        obtain ⟨hlength, hsmall⟩ := dottedPieces?_small hpieces
        exact (hp.add hsmall (by omega)).pieces? h
      · split at h
        · cases h
        · exact ih hadd h
      · cases h

theorem ipv6?_isAddress {s : List Char} {pieces : List Nat} (h : ipv6? s = some pieces) :
    IsAddress pieces := by
  unfold ipv6? at h
  split at h
  · exact ipv6Pieces_isAddress ⟨by decide, by simp, by simp⟩ h
  · cases h
  · cases h
  · cases h
  · exact ipv6Pieces_isAddress ⟨by decide, by simp, by simp⟩ h

/-- A number is written as one digit, or as those of a smaller number and one more. -/
theorem hexText_induction {p : Nat → List Char → Prop} (digit : ∀ d < 16, p d [Nat.digitChar d])
    (more : ∀ n, ∀ d < 16, p n (hexText n) → p (n * 16 + d) (hexText n ++ [Nat.digitChar d]))
    (n : Nat) : p n (hexText n) := by
  induction n using Nat.strongRecOn with
  | ind n ih =>
    unfold hexText at *
    rw [Nat.toDigits_eq_if (by decide)]
    split
    · rename_i hn
      exact digit n hn
    · rename_i hn
      have hd : n % 16 < 16 := Nat.mod_lt _ (by decide)
      have hmore := more (n / 16) (n % 16) hd (ih (n / 16) (by omega))
      rwa [Nat.div_add_mod'] at hmore

theorem hexPrefix_hexText (n count fuel : Nat) (rest : List Char)
    (hlength : (hexText n).length ≤ fuel) :
    hexPrefix fuel 0 count (hexText n ++ rest) =
      hexPrefix (fuel - (hexText n).length) n (count + (hexText n).length) rest := by
  -- the digits before the last are read in front of it, so the rest is not the same in each step
  refine hexText_induction (p := fun n s => ∀ rest, s.length ≤ fuel →
    hexPrefix fuel 0 count (s ++ rest) =
      hexPrefix (fuel - s.length) n (count + s.length) rest) ?_ ?_ n rest hlength
  · intro d hd rest hlength
    obtain ⟨k, rfl⟩ : ∃ k, fuel = k + 1 := ⟨fuel - 1, by simp at hlength; omega⟩
    simp [hexPrefix, hexValue?_digitChar hd]
  · intro n d hd ih rest hlength
    rw [List.length_append, List.length_singleton] at hlength ⊢
    obtain ⟨k, hk⟩ : ∃ k, fuel - (hexText n).length = k + 1 :=
      ⟨fuel - (hexText n).length - 1, by omega⟩
    have hleft : fuel - ((hexText n).length + 1) = k := by omega
    rw [List.append_assoc, ih _ (by omega), hk, hleft]
    simp [hexPrefix, hexValue?_digitChar hd, Nat.add_assoc]

/-- Up to four digits are taken, and they are all there are. -/
theorem hexPrefix_piece {n : Nat} (hn : n < bound16) (rest : List Char)
    (hrest : ∀ c ∈ rest.head?, hexValue? c = none) :
    ∃ count, hexPrefix 4 0 0 (hexText n ++ rest) = (n, count, rest) := by
  have hlength : (hexText n).length ≤ 4 :=
    (Nat.length_toDigits_le_iff (by decide) (by decide)).mpr hn
  refine ⟨(hexText n).length, ?_⟩
  rw [hexPrefix_hexText n 0 4 rest hlength, Nat.zero_add]
  cases 4 - (hexText n).length with
  | zero => rfl
  | succ k =>
    cases rest with
    | nil => rfl
    | cons c rest => simp [hexPrefix, hrest c rfl]

theorem hexValue?_of_mem_hexText {n : Nat} {c : Char} (hc : c ∈ hexText n) :
    ∃ d, hexValue? c = some d := by
  refine hexText_induction (p := fun _ s => c ∈ s → ∃ d, hexValue? c = some d) ?_ ?_ n hc
  · intro d hd hc
    exact ⟨d, List.mem_singleton.mp hc ▸ hexValue?_digitChar hd⟩
  · intro n d hd ih hc
    obtain hc | hc := List.mem_append.mp hc
    · exact ih hc
    · exact ⟨d, List.mem_singleton.mp hc ▸ hexValue?_digitChar hd⟩

theorem hexText_starts (n : Nat) : ∃ c s, hexText n = c :: s ∧ c ≠ ':' := by
  cases h : hexText n with
  | nil => exact absurd h Nat.toDigits_ne_nil
  | cons c s =>
    refine ⟨c, s, rfl, ?_⟩
    rintro rfl
    obtain ⟨d, hd⟩ : ∃ d, hexValue? ':' = some d := hexValue?_of_mem_hexText (n := n) (by simp [h])
    cases hd

/-- What is read from a text with pieces before it, whatever fuel is left. -/
def ReadsTo (p : Ipv6Parts) (s : List Char) (outcome : Option (List Nat)) : Prop :=
  ∀ fuel, s.length < fuel → ipv6Pieces fuel p s = outcome

theorem ReadsTo.of_step {p : Ipv6Parts} {s : List Char} {outcome : Option (List Nat)}
    (h : ∀ fuel, s.length ≤ fuel → ipv6Pieces (fuel + 1) p s = outcome) : ReadsTo p s outcome := by
  intro fuel hfuel
  cases fuel with
  | zero => simp at hfuel
  | succ fuel => exact h fuel (Nat.le_of_lt_succ hfuel)

theorem ReadsTo.nil (p : Ipv6Parts) : ReadsTo p [] p.pieces? := .of_step fun _ _ => rfl

theorem ReadsTo.gap {front : List Nat} {s : List Char} {outcome : Option (List Nat)}
    (h : ReadsTo ⟨front, some []⟩ s outcome) (hroom : front.length < 8) :
    ReadsTo ⟨front, none⟩ (':' :: s) outcome := by
  apply ReadsTo.of_step
  intro fuel hfuel
  have hfree : front.length ≠ 8 := by omega
  simpa [ipv6Pieces, count, hfree] using h fuel hfuel

/-- A free place takes the next piece. -/
theorem ipv6Pieces_hexText {p : Ipv6Parts} {n : Nat} (fuel : Nat) {rest : List Char}
    (hn : n < bound16) (hroom : p.places < 8) (hrest : ∀ c ∈ rest.head?, c = ':') :
    ipv6Pieces (fuel + 1) p (hexText n ++ rest) =
      if rest.isEmpty then (p.add [n]).pieces?
      else if rest.tail.isEmpty then none
      else ipv6Pieces fuel (p.add [n]) rest.tail := by
  obtain ⟨c, t, ht, hc⟩ := hexText_starts n
  have hcolon : hexValue? ':' = none := rfl
  obtain ⟨count, hread⟩ := hexPrefix_piece hn rest fun c hc => by rw [hrest c hc, hcolon]
  have hfree : p.places ≠ 8 := by omega
  rw [ht, List.cons_append] at hread ⊢
  rw [ipv6Pieces]
  change (if p.places = 8 then none else _) = _
  rw [if_neg hfree, if_neg hc, hread]
  cases rest with
  | nil => rfl
  | cons d after =>
    obtain rfl := hrest d rfl
    rfl

theorem ReadsTo.piece {p : Ipv6Parts} {n : Nat} {s : List Char} {outcome : Option (List Nat)}
    (h : ReadsTo (p.add [n]) s outcome) (hn : n < bound16) (hs : s ≠ []) (hroom : p.places < 8) :
    ReadsTo p (hexText n ++ ':' :: s) outcome := by
  apply ReadsTo.of_step
  intro fuel hfuel
  simp only [List.length_append, List.length_cons] at hfuel
  rw [ipv6Pieces_hexText fuel hn hroom (by simp)]
  simpa [hs] using h fuel (by omega)

theorem ReadsTo.last {p : Ipv6Parts} {n : Nat} (hn : n < bound16) (hroom : p.places < 8) :
    ReadsTo p (hexText n) (p.add [n]).pieces? := by
  apply ReadsTo.of_step
  intro fuel _
  simpa using @ipv6Pieces_hexText p n fuel [] hn hroom (by simp)

@[simp] theorem colonSeparated_singleton (n : Nat) : colonSeparated [n] = hexText n := by
  simp [colonSeparated]

theorem colonSeparated_cons (n : Nat) {pieces : List Nat} (hpieces : pieces ≠ []) :
    colonSeparated (n :: pieces) = hexText n ++ ':' :: colonSeparated pieces := by
  unfold colonSeparated
  rw [List.map_cons, List.intercalate_cons_of_ne_nil (by simpa using hpieces),
    List.append_assoc, List.singleton_append]

theorem length_le_colonSeparated (pieces : List Nat) :
    pieces.length ≤ (colonSeparated pieces).length := by
  induction pieces with
  | nil => simp
  | cons n pieces ih =>
    obtain ⟨c, t, ht, -⟩ := hexText_starts n
    by_cases hrest : pieces = []
    · subst hrest
      simp [ht]
    · simp only [colonSeparated_cons n hrest, List.length_append, List.length_cons]
      omega

theorem colonSeparated_ne_nil {pieces : List Nat} (hpieces : pieces ≠ []) :
    colonSeparated pieces ≠ [] := by
  have hlength := length_le_colonSeparated pieces
  intro h
  rw [h] at hlength
  exact hpieces (List.length_eq_zero_iff.mp (Nat.le_zero.mp hlength))

theorem readsTo_colonSeparated {p : Ipv6Parts} {pieces : List Nat} (hpieces : pieces ≠ [])
    (hsmall : ∀ n ∈ pieces, n < bound16) (hroom : p.places + pieces.length ≤ 8) :
    ReadsTo p (colonSeparated pieces) (p.add pieces).pieces? := by
  induction pieces generalizing p with
  | nil => exact absurd rfl hpieces
  | cons n pieces ih =>
    obtain ⟨hn, hsmall⟩ := List.forall_mem_cons.mp hsmall
    rw [List.length_cons] at hroom
    by_cases hrest : pieces = []
    · subst hrest
      simpa using ReadsTo.last (p := p) hn (by omega)
    · have hread := ih (p := p.add [n]) hrest hsmall
        (by simp only [places_add, List.length_singleton]; omega)
      rw [add_add, List.singleton_append] at hread
      rw [colonSeparated_cons n hrest]
      exact hread.piece hn (colonSeparated_ne_nil hrest) (by omega)

/-- Pieces before something else. -/
theorem ReadsTo.pieces {p : Ipv6Parts} {pieces : List Nat} {s : List Char}
    {outcome : Option (List Nat)} (h : ReadsTo (p.add pieces) s outcome) (hpieces : pieces ≠ [])
    (hsmall : ∀ n ∈ pieces, n < bound16) (hs : s ≠ []) (hroom : p.places + pieces.length ≤ 8) :
    ReadsTo p (colonSeparated pieces ++ ':' :: s) outcome := by
  induction pieces generalizing p with
  | nil => exact absurd rfl hpieces
  | cons n pieces ih =>
    obtain ⟨hn, hsmall⟩ := List.forall_mem_cons.mp hsmall
    rw [List.length_cons] at hroom
    by_cases hrest : pieces = []
    · subst hrest
      simpa using h.piece hn hs (by omega)
    · have hread := ih (p := p.add [n]) (by rwa [add_add, List.singleton_append]) hrest hsmall
        (by simp only [places_add, List.length_singleton]; omega)
      rw [colonSeparated_cons n hrest, List.append_assoc, List.cons_append]
      exact hread.piece hn (by simp) (by omega)

/-- The longest run is a run of zeros. -/
theorem longestRun_zeros (index : Nat) (pieces : List Nat) :
    ∃ front back, pieces = front ++ List.replicate (longestRun index pieces).2 0 ++ back ∧
      (longestRun index pieces).1 = index + front.length := by
  induction pieces generalizing index with
  | nil => exact ⟨[], [], by simp [longestRun], by simp [longestRun]⟩
  | cons n pieces ih =>
    simp only [longestRun]
    split
    · have hzeros : (n :: pieces).takeWhile (· = 0) = List.replicate (zeroRun (n :: pieces)) 0 :=
        List.eq_replicate_iff.mpr ⟨rfl, fun m hm => by simpa using List.mem_takeWhile_imp hm⟩
      refine ⟨[], (n :: pieces).dropWhile (· = 0), ?_, by simp⟩
      simp only [List.nil_append, ← hzeros]
      exact List.takeWhile_append_dropWhile.symm
    · obtain ⟨front, back, hpieces, hstart⟩ := ih (index + 1)
      refine ⟨n :: front, back, ?_, ?_⟩
      · simpa using hpieces
      · rw [hstart, List.length_cons]
        omega

theorem ipv6?_of_readsTo {s : List Char} {outcome : Option (List Nat)}
    (hs : s.head? ≠ some ':') (h : ReadsTo ⟨[], none⟩ s outcome) (hlength : 2 ≤ s.length) :
    ipv6? s = outcome := by
  rw [← h (s.length + 1) (by omega)]
  unfold ipv6?
  split
  · simp at hs
  · simp at hs
  · simp at hlength
  · simp at hlength
  · rfl

theorem ipv6?_gap {s : List Char} {outcome : Option (List Nat)}
    (h : ReadsTo ⟨[], some []⟩ s outcome) : ipv6? (':' :: ':' :: s) = outcome :=
  h _ (by simp only [List.length_cons]; omega)

theorem colonSeparated_head {pieces : List Nat} (hpieces : pieces ≠ []) (s : List Char) :
    (colonSeparated pieces ++ s).head? ≠ some ':' := by
  cases pieces with
  | nil => exact absurd rfl hpieces
  | cons n pieces =>
    obtain ⟨c, t, ht, hc⟩ := hexText_starts n
    by_cases hrest : pieces = []
    · subst hrest
      simpa [ht] using hc
    · simpa [colonSeparated_cons n hrest, ht] using hc

/-- Behind the gap. -/
theorem readsTo_behind_gap {front back : List Nat} (hsmall : ∀ n ∈ back, n < bound16)
    (hroom : front.length + back.length < 8) :
    ReadsTo ⟨front, some []⟩ (colonSeparated back)
      (some (front ++ List.replicate (8 - (front.length + back.length)) 0 ++ back)) := by
  by_cases hback : back = []
  · subst hback
    simpa [pieces?, count, colonSeparated] using ReadsTo.nil ⟨front, some []⟩
  · have hread := readsTo_colonSeparated (p := ⟨front, some []⟩) hback hsmall
      (by simp only [places, count]; simp; omega)
    rw [add_gap] at hread
    exact hread

theorem ipv6?_ipv6Text {pieces : List Nat} (h : IsAddress pieces) :
    ipv6? (ipv6Text pieces) = some pieces := by
  obtain ⟨hlength, hsmall⟩ := h
  simp only [ipv6Text]
  split
  · rename_i hgap
    obtain ⟨front, back, hpieces, hstart⟩ := longestRun_zeros 0 pieces
    generalize longestRun 0 pieces = run at *
    obtain ⟨start, zeros⟩ := run
    simp only [Nat.zero_add] at hstart hpieces hgap ⊢
    subst hstart hpieces
    rw [List.append_assoc, ← List.drop_drop, List.take_left, List.drop_left,
      List.drop_left' List.length_replicate]
    simp only [List.length_append, List.length_replicate] at hlength
    have hfront : ∀ n ∈ front, n < bound16 := fun n hn => hsmall n (by simp [hn])
    have hback : ∀ n ∈ back, n < bound16 := fun n hn => hsmall n (by simp [hn])
    have hread := @readsTo_behind_gap front back hback (by omega)
    have hzeros : 8 - (front.length + back.length) = zeros := by omega
    rw [hzeros, List.append_assoc] at hread
    by_cases hempty : front = []
    · subst hempty
      exact ipv6?_gap hread
    · have hread := (hread.gap (by omega)).pieces (p := ⟨[], none⟩) hempty hfront (by simp)
        (by simp only [places, count, List.length_nil]; simp; omega)
      exact ipv6?_of_readsTo (colonSeparated_head hempty _) hread (by simp; omega)
  · have hne : pieces ≠ [] := by
      rintro rfl
      simp at hlength
    have hread := readsTo_colonSeparated (p := ⟨[], none⟩) hne hsmall
      (by simp [places, count, hlength])
    have hhead := colonSeparated_head hne []
    rw [List.append_nil] at hhead
    have hall : (add ⟨[], none⟩ pieces).pieces? = some pieces := by simp [add, pieces?, hlength]
    rw [hall] at hread
    have hlong := length_le_colonSeparated pieces
    exact ipv6?_of_readsTo hhead hread (by omega)

end MediaRemote.Url
