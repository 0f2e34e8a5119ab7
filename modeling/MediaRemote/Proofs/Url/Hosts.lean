import MediaRemote.Proofs.Url.Addresses

namespace MediaRemote.Url

/-- What holds of the ASCII characters can be checked on each of them. -/
theorem of_ascii {p : Char → Prop} (h : ∀ k < 128, p (Char.ofNat k)) {c : Char}
    (hc : c.toNat < 128) : p c := by
  rw [← Char.ofNat_toNat c]
  exact h c.toNat hc

theorem toNat_lt_of_not_forbidden {c : Char} (h : isForbidden c = false) : c.toNat < 128 := by
  simp only [isForbidden, Bool.or_eq_false_iff, decide_eq_false_iff_not] at h
  omega

theorem toLower_ascii {c : Char} (hc : c.toNat < 128) :
    c.toLower.toNat < 128 ∧ c.toLower.toLower = c.toLower :=
  of_ascii (p := fun c => c.toLower.toNat < 128 ∧ c.toLower.toLower = c.toLower) (by decide) hc

/-- Looking names up is lawful if what they stand for is in ASCII and small. -/
theorem Idna.lawful_ofNames {names : List (List Char × List Char)}
    (hnames : ∀ e ∈ names, e.2.all fun c => c.toNat < 128 && c.toLower = c) :
    @LawfulIdna (.ofNames names) := by
  let _ := Idna.ofNames names
  have hplain {name : List Char} (hname : ∀ c ∈ name, c.toNat < 128) :
      Idna.toAscii name = some (lower name) := if_pos (by simpa using hname)
  constructor
  · intro name hallowed _
    exact hplain fun c hc => toNat_lt_of_not_forbidden (hallowed c hc)
  · intro name ascii h
    have hascii : ∀ c ∈ ascii, c.toNat < 128 ∧ c.toLower = c := by
      by_cases hname : ∀ c ∈ name, c.toNat < 128
      · obtain rfl := Option.some.inj ((hplain hname).symm.trans h)
        intro c hc
        obtain ⟨d, hd, rfl⟩ := List.mem_map.mp hc
        exact toLower_ascii (hname d hd)
      · have hlookup : names.lookup name = some ascii :=
          (if_neg (by simpa using hname)).symm.trans h
        obtain ⟨front, back, hsplit, -⟩ := List.lookup_eq_some_iff.mp hlookup
        simpa using hnames (name, ascii) (by simp [hsplit])
    have hlower : lower ascii = ascii :=
      (List.map_congr_left fun c hc => (hascii c hc).2).trans (List.map_id' ascii)
    rw [hplain fun c hc => (hascii c hc).1, hlower]

/-- Hexadecimal digits, among them the decimal ones, stand in every host. -/
theorem not_forbidden_of_hexValue? {c : Char} {d : Nat} (h : hexValue? c = some d) :
    isForbidden c = false :=
  of_ascii (p := fun c => (hexValue? c).isSome = true → isForbidden c = false)
    (by decide) (hexValue?_range h).2 (by simp [h])

theorem digit_settled {c : Char} (h : c.isDigit = true) :
    isForbidden c = false ∧ c.toLower = c := by
  have hvalue := hexValue?_of_isDigit h
  exact ⟨not_forbidden_of_hexValue? hvalue,
    of_ascii (p := fun c => c.isDigit = true → c.toLower = c) (by decide)
      (hexValue?_range hvalue).2 h⟩

theorem decodeFrom_ascii {s : List Char} (hs : ∀ c ∈ s, c.toNat < 128) {fuel : Nat}
    (hfuel : s.length < fuel) (index : Nat) (acc : List Char) :
    Text.decodeFrom fuel index acc (s.map fun c => UInt8.ofNat c.toNat) =
      .ok (acc.reverse ++ s) := by
  induction s generalizing fuel index acc with
  | nil =>
    obtain ⟨fuel, rfl⟩ := Nat.exists_eq_add_one_of_ne_zero (Nat.ne_of_gt hfuel)
    simp [Text.decodeFrom]
  | cons c s ih =>
    obtain ⟨fuel, rfl⟩ := Nat.exists_eq_add_one_of_ne_zero (Nat.ne_of_gt (Nat.zero_lt_of_lt hfuel))
    obtain ⟨hc, hs⟩ := List.forall_mem_cons.mp hs
    have hbyte : (UInt8.ofNat c.toNat).toNat = c.toNat := by
      simp only [UInt8.toNat_ofNat']
      omega
    simp only [List.map_cons, Text.decodeFrom, hbyte, Text.lead?, if_pos hc, Text.tail,
      Char.ofNat_toNat]
    rw [ih hs (by simpa using hfuel)]
    simp

theorem utf8EncodeChar_ascii {c : Char} (hc : c.toNat < 128) :
    String.utf8EncodeChar c = [UInt8.ofNat c.toNat] :=
  of_ascii (p := fun c => String.utf8EncodeChar c = [UInt8.ofNat c.toNat]) (by decide) hc

theorem percentDecode_plain {s : List Char} (hs : ∀ c ∈ s, isForbidden c = false) :
    percentDecode s = s.map fun c => UInt8.ofNat c.toNat := by
  induction s with
  | nil => rfl
  | cons c s ih =>
    obtain ⟨hc, hs⟩ := List.forall_mem_cons.mp hs
    rw [percentDecode, ih hs, utf8EncodeChar_ascii (toNat_lt_of_not_forbidden hc)]
    · rfl
    · rintro a b rest rfl -
      cases hc

theorem ipv4Text_chars {n : Nat} {c : Char} (hc : c ∈ ipv4Text n) :
    isForbidden c = false ∧ c.toLower = c := by
  have hdigit {m : Nat} (hc : c ∈ Nat.toDigits 10 m) : isForbidden c = false ∧ c.toLower = c :=
    digit_settled ((Text.isDecimal_toDigits m).digits c hc)
  have hdot : isForbidden '.' = false ∧ '.'.toLower = '.' := by decide
  simp only [ipv4Text, List.mem_append, List.mem_cons] at hc
  obtain ((hc | rfl | hc) | rfl | hc) | rfl | hc := hc
  exacts [hdigit hc, hdot, hdigit hc, hdot, hdigit hc, hdot, hdigit hc]

theorem isCoded_toDigits (n : Nat) : isCoded (Nat.toDigits 10 n) = false := by
  obtain ⟨hne, hdigits, -⟩ := Text.isDecimal_toDigits n
  cases hs : Nat.toDigits 10 n with
  | nil => exact absurd hs hne
  | cons c s =>
    have hc : c.isDigit = true := hdigits c (by simp [hs])
    have hx : c ≠ 'x' := by
      rintro rfl
      cases hc
    simp [isCoded, lower, (digit_settled hc).2, hx]

section

variable [Idna]

/-- A plain text stands for itself. -/
theorem domainName?_plain {s : List Char} (hs : ∀ c ∈ s, isForbidden c = false) :
    domainName? s = Idna.toAscii s := by
  have hascii : ∀ c ∈ s, c.toNat < 128 := fun c hc => toNat_lt_of_not_forbidden (hs c hc)
  have hdecode : Text.decodeUtf8 (percentDecode s) = .ok (String.ofList s) := by
    rw [percentDecode_plain hs, Text.decodeUtf8, decodeFrom_ascii hascii (by simp)]
    rfl
  simp [domainName?, hdecode, Except.toOption]

/-- A host as it is kept, whose text is read back as the same host. -/
inductive Host.IsSettled : Host → Prop
  | domain {name} (nonempty : name ≠ []) (allowed : ∀ c ∈ name, isForbidden c = false)
    (kept : Idna.toAscii name = some name) (unnumbered : endsInNumber name = false) :
    IsSettled (.domain name)
  | ipv4 {n} (range : n < bound32) : IsSettled (.ipv4 n)
  | ipv6 {pieces} (address : IsAddress pieces) : IsSettled (.ipv6 pieces)

theorem isSettled_of_bracketed {s : List Char} {host : Host} (h : bracketed s = .ok host) :
    host.IsSettled := by
  unfold bracketed at h
  split at h
  · split at h
    · rename_i pieces hpieces
      obtain rfl := Except.ok.inj h
      exact .ipv6 (ipv6?_isAddress hpieces)
    · cases h
  · cases h

theorem Host.isSettled_of_parse [LawfulIdna] {s : List Char} {host : Host}
    (h : Host.parse s = .ok host) : host.IsSettled := by
  unfold Host.parse at h
  split at h
  · exact isSettled_of_bracketed h
  split at h
  · cases h
  rename_i name hname
  split_ifs at h with hforbidden hempty hnumber
  · split at h
    · rename_i n hn
      obtain rfl := Except.ok.inj h
      exact .ipv4 (ipv4?_lt hn)
    · cases h
  · obtain rfl := Except.ok.inj h
    obtain ⟨text, -, hascii⟩ := Option.bind_eq_some_iff.mp hname
    exact .domain (by simpa using hempty) (by simpa using hforbidden) (LawfulIdna.stable hascii)
      (by simpa using hnumber)

/-- A name that is settled is taken as it stands. -/
theorem Host.parse_name {s : List Char} (hs : s ≠ []) (hallowed : ∀ c ∈ s, isForbidden c = false)
    (hkept : Idna.toAscii s = some s) :
    Host.parse s =
      if endsInNumber s then (ipv4? s).elim (.error .invalidIpv4) fun n => .ok (.ipv4 n)
      else .ok (.domain s) := by
  have hbracket : s.head? ≠ some '[' := by
    intro h
    have hc := hallowed '[' (List.mem_of_head? h)
    cases hc
  have hname : domainName? s = some s := (domainName?_plain hallowed).trans hkept
  have hany : s.any isForbidden = false := by simpa using hallowed
  cases haddress : ipv4? s with
  | none => simp [Host.parse, hbracket, hname, hany, hs, haddress]
  | some n => simp [Host.parse, hbracket, hname, hany, hs, haddress]

theorem toAscii_ipv4Text [LawfulIdna] (n : Nat) :
    Idna.toAscii (ipv4Text n) = some (ipv4Text n) := by
  have hlower : lower (ipv4Text n) = ipv4Text n :=
    (List.map_congr_left fun c hc => (ipv4Text_chars hc).2).trans (List.map_id' _)
  have huncoded : ∀ label ∈ labels (ipv4Text n), isCoded label = false := by
    rw [labels_ipv4Text]
    intro label hlabel
    obtain ⟨k, -, rfl⟩ := List.mem_map.mp hlabel
    exact isCoded_toDigits _
  rw [LawfulIdna.plain (fun c hc => (ipv4Text_chars hc).1) huncoded, hlower]

theorem Host.IsSettled.parse_text [LawfulIdna] {host : Host} (h : host.IsSettled) :
    Host.parse host.text = .ok host := by
  cases h with
  | domain hne hallowed hkept hnumber => simp [Host.text, parse_name hne hallowed hkept, hnumber]
  | @ipv4 n hn =>
    have hne : ipv4Text n ≠ [] := by simp [ipv4Text]
    simp [Host.text, parse_name hne (fun c hc => (ipv4Text_chars hc).1) (toAscii_ipv4Text n),
      endsInNumber_ipv4Text, ipv4?_ipv4Text hn]
  | @ipv6 pieces haddress =>
    have hlast : ('[' :: (ipv6Text pieces ++ [']'])).getLast? = some ']' := by
      rw [← List.cons_append, List.getLast?_concat]
    simp [Host.text, Host.parse, bracketed, hlast, ipv6?_ipv6Text haddress]

end

end MediaRemote.Url
