import MediaRemote.Proofs.Results
import MediaRemote.Proofs.Url.Hosts

namespace MediaRemote.Url

def StaysInAuthority (c : Char) : Prop :=
  0x20 < c.toNat ∧ c ≠ '@' ∧ endsAuthority true c = false

instance (c : Char) : Decidable (StaysInAuthority c) := by unfold StaysInAuthority; infer_instance

/-- What a name or the inside of brackets is made of. -/
theorem staysInAuthority_of_not_forbidden {c : Char} (h : isForbidden c = false) :
    StaysInAuthority c ∧ c ≠ ':' ∧ c ≠ '[' ∧ c ≠ ']' :=
  of_ascii (p := fun c => isForbidden c = false → StaysInAuthority c ∧ c ≠ ':' ∧ c ≠ '[' ∧ c ≠ ']')
    (by decide) (toNat_lt_of_not_forbidden h) h

theorem colonSeparated_chars {pieces : List Nat} {c : Char} (hc : c ∈ colonSeparated pieces) :
    c = ':' ∨ isForbidden c = false := by
  induction pieces with
  | nil => simp [colonSeparated] at hc
  | cons n pieces ih =>
    have hdigit (hc : c ∈ hexText n) : isForbidden c = false := by
      obtain ⟨d, hd⟩ := hexValue?_of_mem_hexText hc
      exact not_forbidden_of_hexValue? hd
    by_cases hrest : pieces = []
    · subst hrest
      exact .inr (hdigit (by simpa using hc))
    · rw [colonSeparated_cons n hrest] at hc
      simp only [List.mem_append, List.mem_cons] at hc
      obtain hc | rfl | hc := hc
      · exact .inr (hdigit hc)
      · exact .inl rfl
      · exact ih hc

theorem ipv6Text_chars {pieces : List Nat} {c : Char} (hc : c ∈ ipv6Text pieces) :
    c = ':' ∨ isForbidden c = false := by
  simp only [ipv6Text] at hc
  split at hc
  · simp only [List.mem_append, List.mem_cons] at hc
    obtain hc | rfl | rfl | hc := hc
    · exact colonSeparated_chars hc
    · exact .inl rfl
    · exact .inl rfl
    · exact colonSeparated_chars hc
  · exact colonSeparated_chars hc

/-- A host is a name, or something in brackets. -/
theorem Host.IsSettled.text_shape [Idna] {host : Host} (h : host.IsSettled) :
    (host.text ≠ [] ∧ ∀ c ∈ host.text, isForbidden c = false) ∨
      ∃ body, host.text = '[' :: (body ++ [']']) ∧ ∀ c ∈ body, c = ':' ∨ isForbidden c = false := by
  cases h with
  | domain hne hallowed => exact .inl ⟨hne, hallowed⟩
  | @ipv4 n hn => exact .inl ⟨by simp [Host.text, ipv4Text], fun c hc => (ipv4Text_chars hc).1⟩
  | @ipv6 pieces haddress => exact .inr ⟨ipv6Text pieces, rfl, fun c hc => ipv6Text_chars hc⟩

theorem Host.IsSettled.text_stays [Idna] {host : Host} (h : host.IsSettled) :
    ∀ c ∈ host.text, StaysInAuthority c := by
  obtain ⟨-, hallowed⟩ | ⟨body, htext, hbody⟩ := h.text_shape
  · exact fun c hc => (staysInAuthority_of_not_forbidden (hallowed c hc)).1
  · rw [htext]
    intro c hc
    simp only [List.mem_cons, List.mem_append, List.not_mem_nil, or_false] at hc
    obtain rfl | hc | rfl := hc
    · decide
    · obtain rfl | hc := hbody c hc
      · decide
      · exact (staysInAuthority_of_not_forbidden hc).1
    · decide

theorem Host.IsSettled.text_ne_nil [Idna] {host : Host} (h : host.IsSettled) : host.text ≠ [] := by
  obtain ⟨hne, -⟩ | ⟨body, htext, -⟩ := h.text_shape
  · exact hne
  · simp [htext]

theorem hostLength_append {s : List Char} (inside : Bool) (rest : List Char)
    (hs : ∀ c ∈ s, endsAuthority true c = false ∧ (c = ':' → inside = true) ∧ c ≠ '[' ∧ c ≠ ']') :
    hostLength true inside (s ++ rest) = s.length + hostLength true inside rest := by
  induction s with
  | nil => simp
  | cons c s ih =>
    obtain ⟨⟨hends, hcolon, hopen, hclose⟩, hs⟩ := List.forall_mem_cons.mp hs
    have hgoes : (endsAuthority true c || (c = ':' && !inside)) = false := by
      simpa [hends] using hcolon
    have hinside : (decide (c = '[') || (inside && decide (c ≠ ']'))) = inside := by
      simp [hopen, hclose]
    rw [List.cons_append, hostLength, hgoes, hinside, ih hs]
    simp
    omega

/-- Only a colon outside of the brackets ends a host. -/
theorem Host.IsSettled.hostLength_text [Idna] {host : Host} (h : host.IsSettled) {rest : List Char}
    (hrest : ∀ c ∈ rest.head?, endsAuthority true c = true ∨ c = ':') :
    hostLength true false (host.text ++ rest) = host.text.length := by
  have hend : hostLength true false rest = 0 := by
    cases rest with
    | nil => rfl
    | cons c rest =>
      obtain hc | rfl := hrest c rfl
      · simp [hostLength, hc]
      · rfl
  obtain ⟨-, hallowed⟩ | ⟨body, htext, hbody⟩ := h.text_shape
  · rw [hostLength_append, hend]
    · rfl
    · intro c hc
      obtain ⟨⟨-, -, hends⟩, hcolon, hopen, hclose⟩ :=
        staysInAuthority_of_not_forbidden (hallowed c hc)
      exact ⟨hends, fun h => absurd h hcolon, hopen, hclose⟩
  · have hinside := hostLength_append (s := body) true (']' :: rest) <| by
      intro c hc
      obtain rfl | hc := hbody c hc
      · decide
      · obtain ⟨⟨-, -, hends⟩, hcolon, hopen, hclose⟩ := staysInAuthority_of_not_forbidden hc
        exact ⟨hends, fun _ => rfl, hopen, hclose⟩
    have hclose : hostLength true true (']' :: rest) = 1 := by
      rw [hostLength]
      simp [endsAuthority, hend]
    rw [htext, List.cons_append, List.append_assoc, List.singleton_append, hostLength]
    simp [endsAuthority, hinside, hclose]

def NeedsPort (scheme : List Char) (port : Option Nat) : Prop :=
  ∀ n ∈ port, n < bound16 ∧ defaultPort? scheme ≠ some n

theorem readPort_digits {ds rest : List Char} {n : Nat} (hds : ∀ c ∈ ds, c.isDigit = true)
    (hn : Nat.ofDigitChars 10 ds n < bound16) :
    readPort n (ds ++ '/' :: rest) = .ok (Nat.ofDigitChars 10 ds n, '/' :: rest) := by
  induction ds generalizing n with
  | nil => rfl
  | cons c ds ih =>
    obtain ⟨hc, hds⟩ := List.forall_mem_cons.mp hds
    have hrange := isDigit_iff.mp hc
    rw [Text.ofDigitChars_cons] at hn ⊢
    have hnext : n * 10 + (c.toNat - 48) < bound16 :=
      Nat.lt_of_le_of_lt (Json.le_ofDigitChars ds _) hn
    simp [readPort, hrange, hnext, ih hds hn]

theorem portAfter_portText {scheme : List Char} {port : Option Nat} (hport : NeedsPort scheme port)
    (rest : List Char) :
    portAfter scheme (portText port ++ '/' :: rest) = .ok (port, '/' :: rest) := by
  cases port with
  | none => rfl
  | some n =>
    obtain ⟨hn, hother⟩ := hport n rfl
    obtain ⟨hne, hds, hvalue⟩ := Text.isDecimal_toDigits n
    have hread : readPort 0 (Nat.toDigits 10 n ++ '/' :: rest) = .ok (n, '/' :: rest) := by
      rw [readPort_digits hds (by rwa [hvalue]), hvalue]
    have hdigits : 0 < (Nat.toDigits 10 n).length := List.length_pos_iff.mpr hne
    simp [portAfter, portText, hread, hdigits, hother]

theorem readPort_lt {n m : Nat} {s rest : List Char} (hn : n < bound16)
    (h : readPort n s = .ok (m, rest)) : m < bound16 := by
  induction s generalizing n with
  | nil =>
    cases h
    exact hn
  | cons c s ih =>
    rw [readPort] at h
    dsimp only at h
    split_ifs at h with hdigit hnext hend
    · exact ih hnext h
    · cases h
      exact hn

theorem needsPort_of_portAfter {scheme s rest : List Char} {port : Option Nat}
    (h : portAfter scheme s = .ok (port, rest)) : NeedsPort scheme port := by
  unfold portAfter at h
  split at h
  · split at h
    · cases h
    · rename_i n after hread
      cases h
      intro m hm
      split at hm
      · rename_i hgiven
        obtain rfl := Option.some.inj hm
        simp only [Bool.and_eq_true, bne_iff_ne] at hgiven
        exact ⟨readPort_lt (by decide) hread, hgiven.2⟩
      · cases hm
  · cases h
    simp [NeedsPort]

theorem portText_stays (port : Option Nat) : ∀ c ∈ portText port, StaysInAuthority c := by
  cases port with
  | none => simp [portText]
  | some n =>
    intro c hc
    obtain rfl | hc := List.mem_cons.mp hc
    · decide
    · have hdigit : c.isDigit = true := (Text.isDecimal_toDigits n).digits c hc
      exact (staysInAuthority_of_not_forbidden (digit_settled hdigit).1).1

variable [Idna]

structure Authority.IsSettled (scheme : List Char) (a : Authority) : Prop where
  host : a.host.IsSettled
  port : NeedsPort scheme a.port

theorem isSettled_of_readHost [LawfulIdna] {scheme username password s rest : List Char}
    {a : Authority} (hspecial : isSpecialScheme scheme = true)
    (h : readHost scheme username password s = .ok (a, rest)) :
    Authority.IsSettled scheme a := by
  unfold readHost at h
  simp only [hspecial, if_true] at h
  split at h
  · cases h
  split at h
  · cases h
  rename_i host hhost
  split at h
  · cases h
  rename_i port after hport
  cases h
  exact ⟨Host.isSettled_of_parse hhost, needsPort_of_portAfter hport⟩

theorem isSettled_of_readAuthority [LawfulIdna] {scheme s rest : List Char} {a : Authority}
    (hspecial : isSpecialScheme scheme = true) (h : readAuthority scheme s = .ok (a, rest)) :
    Authority.IsSettled scheme a := by
  unfold readAuthority at h
  dsimp only at h
  split at h
  · exact isSettled_of_readHost hspecial h
  · split at h
    · cases h
    · exact isSettled_of_readHost hspecial h

theorem readHost_text [LawfulIdna] {scheme : List Char} {host : Host} {port : Option Nat}
    (hspecial : isSpecialScheme scheme = true) (hhost : host.IsSettled)
    (hport : NeedsPort scheme port) (path : List Char) :
    readHost scheme [] [] (host.text ++ (portText port ++ '/' :: path)) =
      .ok (⟨[], [], host, port⟩, '/' :: path) := by
  have hlength : hostLength true false (host.text ++ (portText port ++ '/' :: path)) =
      host.text.length := by
    apply hhost.hostLength_text
    intro c hc
    cases port with
    | none =>
      obtain rfl : '/' = c := by simpa [portText] using hc
      exact .inl (by decide)
    | some n =>
      obtain rfl : ':' = c := by simpa [portText] using hc
      exact .inr rfl
  simp [readHost, hspecial, hlength, hhost.text_ne_nil, hhost.parse_text, portAfter_portText hport]

/-- Nothing behind the slash is taken for credentials. -/
theorem readAuthority_text [LawfulIdna] {scheme : List Char} {host : Host} {port : Option Nat}
    (hspecial : isSpecialScheme scheme = true) (hhost : host.IsSettled)
    (hport : NeedsPort scheme port) (path : List Char) :
    readAuthority scheme (host.text ++ (portText port ++ '/' :: path)) =
      .ok (⟨[], [], host, port⟩, '/' :: path) := by
  have hstays : ∀ c ∈ host.text ++ portText port, StaysInAuthority c := fun c hc =>
    (List.mem_append.mp hc).elim (hhost.text_stays c) (portText_stays port c)
  have htext : (host.text ++ portText port ++ '/' :: path).takeWhile
      (fun c => !endsAuthority true c) = host.text ++ portText port := by
    rw [List.takeWhile_append_of_pos fun c hc => by simp [(hstays c hc).2.2]]
    simp [endsAuthority]
  have hmark : splitLast? '@' (host.text ++ portText port) = none := by
    have hnot : '@' ∉ host.text ++ portText port := fun h => (hstays '@' h).2.1 rfl
    simp [splitLast?, List.contains_eq_mem, hnot]
  rw [← List.append_assoc, readAuthority]
  simp only [hspecial, htext, hmark]
  rw [List.append_assoc]
  exact readHost_text hspecial hhost hport path

end MediaRemote.Url
