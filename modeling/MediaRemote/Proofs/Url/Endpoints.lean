import MediaRemote.Endpoint
import MediaRemote.Proofs.Url.Authorities

namespace MediaRemote

open Results

namespace Url

theorem dropWhile_visible {l : List Char} (hl : ∀ c ∈ l, 0x20 < c.toNat) :
    l.dropWhile (fun c => c.toNat ≤ 0x20) = l := by
  cases l with
  | nil => rfl
  | cons c l =>
    have hc : 0x20 < c.toNat := hl c (by simp)
    exact List.dropWhile_cons_of_neg (by simpa using hc)

theorem filter_visible {l : List Char} (hl : ∀ c ∈ l, 0x20 < c.toNat) :
    l.filter (!isBreak ·) = l := by
  apply List.filter_eq_self.mpr
  intro c hc
  have hc := hl c hc
  have hne {d : Char} (hd : d.toNat ≤ 0x20) : c ≠ d := by
    rintro rfl
    omega
  simp [isBreak, hne (d := '\t') (by decide), hne (d := '\n') (by decide),
    hne (d := '\r') (by decide)]

/-- Cleaning leaves a front without spaces and controls as it is. -/
theorem cleaned_append {front : List Char} (hfront : ∀ c ∈ front, 0x20 < c.toNat)
    (s : List Char) : ∃ rest, cleaned (front ++ s) = front ++ rest := by
  by_cases hempty : front = []
  · subst hempty
    exact ⟨cleaned s, rfl⟩
  have hstart : (front ++ s).dropWhile (fun c => c.toNat ≤ 0x20) = front ++ s := by
    rw [List.dropWhile_append, dropWhile_visible hfront, if_neg (by simpa using hempty)]
  have hend : ∃ rest, (((front ++ s).reverse).dropWhile (fun c => c.toNat ≤ 0x20)).reverse =
      front ++ rest := by
    have hreverse := dropWhile_visible (l := front.reverse) (by simpa using hfront)
    rw [List.reverse_append, List.dropWhile_append, hreverse]
    split
    · exact ⟨[], by simp⟩
    · exact ⟨_, by rw [List.reverse_append, List.reverse_reverse]⟩
  obtain ⟨rest, hend⟩ := hend
  refine ⟨rest.filter (!isBreak ·), ?_⟩
  simp only [cleaned, hstart, hend, List.filter_append, filter_visible hfront]

structure IsSchemeName (name : List Char) : Prop where
  first : name.head?.any isAlpha = true
  chars : ∀ c ∈ name, isSchemeChar c = true

theorem splitScheme?_append {name : List Char} (h : IsSchemeName name) (rest : List Char) :
    splitScheme? (name ++ ':' :: rest) = some (lower name, rest) := by
  have htake : (name ++ ':' :: rest).takeWhile isSchemeChar = name := by
    have hcolon : isSchemeChar ':' = false := by decide
    rw [List.takeWhile_append_of_pos h.chars]
    simp [hcolon]
  simp [splitScheme?, htake, h.first, lower]

@[simp] theorem finish_scheme (scheme : List Char) (authority : Option Authority) (path : UrlPath)
    (s : List Char) : (finish scheme authority path s).scheme = scheme := rfl

@[simp] theorem finish_authority (scheme : List Char) (authority : Option Authority)
    (path : UrlPath) (s : List Char) : (finish scheme authority path s).authority = authority := rfl

theorem IsSchemeName.visible {name : List Char} (h : IsSchemeName name) :
    ∀ c ∈ name, 0x20 < c.toNat := by
  intro c hc
  apply Nat.lt_of_not_le
  intro hblank
  have hnot : isSchemeChar c = false :=
    of_ascii (p := fun c => c.toNat ≤ 0x20 → isSchemeChar c = false) (by decide) (by omega) hblank
  rw [h.chars c hc] at hnot
  cases hnot

variable [Idna]

theorem readFile_scheme {scheme s : List Char} {u : Url} (h : readFile scheme s = .ok u) :
    u.scheme = scheme := by
  unfold readFile at h
  split at h
  · split at h
    · unfold readFileHost at h
      dsimp only at h
      split at h
      · cases h
        rfl
      · split at h
        · cases h
        · cases h
          rfl
    · cases h
      rfl
  · cases h
    rfl

theorem readAfterScheme_scheme {scheme s : List Char} {u : Url}
    (h : readAfterScheme scheme s = .ok u) : u.scheme = scheme := by
  unfold readAfterScheme at h
  split at h
  · exact readFile_scheme h
  split at h
  · split at h
    · cases h
    · cases h
      rfl
  split at h
  · split at h
    · cases h
    · cases h
      rfl
  · cases h
    rfl
  · cases h
    rfl

structure IsWebScheme (scheme : List Char) : Prop where
  special : isSpecialScheme scheme = true
  notFile : isFileScheme scheme = false

theorem readAfterScheme_authority [LawfulIdna] {scheme s : List Char} {u : Url}
    (hweb : IsWebScheme scheme) (h : readAfterScheme scheme s = .ok u) :
    ∃ a, u.authority = some a ∧ Authority.IsSettled scheme a := by
  simp only [readAfterScheme, hweb.notFile, hweb.special, Bool.false_eq_true, if_false,
    if_true] at h
  split at h
  · cases h
  · rename_i a rest ha
    cases h
    exact ⟨a, rfl, isSettled_of_readAuthority hweb.special ha⟩

theorem readAfterScheme_text [LawfulIdna] {scheme : List Char} {host : Host} {port : Option Nat}
    (hweb : IsWebScheme scheme) (hhost : host.IsSettled) (hport : NeedsPort scheme port)
    (path : List Char) :
    ∃ u, readAfterScheme scheme ('/' :: '/' :: (host.text ++ (portText port ++ '/' :: path))) =
      .ok u ∧ u.scheme = scheme ∧ u.authority = some ⟨[], [], host, port⟩ := by
  have hslashes : ('/' :: '/' :: (host.text ++ (portText port ++ '/' :: path))).dropWhile isSlash =
      host.text ++ (portText port ++ '/' :: path) := by
    cases htext : host.text with
    | nil => exact absurd htext hhost.text_ne_nil
    | cons c t =>
      have hends : endsAuthority true c = false := (hhost.text_stays c (by simp [htext])).2.2
      simp only [endsAuthority, Bool.or_eq_false_iff, Bool.true_and] at hends
      simp [isSlash, hends]
  refine ⟨finish scheme (some ⟨[], [], host, port⟩) (readPath scheme ('/' :: path))
    ('/' :: path), ?_, rfl, rfl⟩
  simp only [readAfterScheme, hweb.notFile, hweb.special, Bool.false_eq_true, if_false, if_true,
    hslashes, readAuthority_text hweb.special hhost hport path]

/-- A URL of such a scheme has a settled authority. -/
theorem parse_authority [LawfulIdna] {s : String} {u : Url} (h : Url.parse s = .ok u)
    (hweb : IsWebScheme u.scheme) : ∃ a, u.authority = some a ∧ Authority.IsSettled u.scheme a := by
  unfold Url.parse at h
  split at h
  · have hscheme := readAfterScheme_scheme h
    rw [hscheme] at hweb ⊢
    exact readAfterScheme_authority hweb h
  · cases h

theorem parse_scheme {name s : List Char} (hname : IsSchemeName name) {u : Url}
    (h : Url.parse (String.ofList (name ++ ':' :: s)) = .ok u) : u.scheme = lower name := by
  have hfront : ∀ c ∈ name ++ [':'], 0x20 < c.toNat := by
    simpa [or_imp, forall_and] using hname.visible
  obtain ⟨rest, hclean⟩ := cleaned_append hfront s
  rw [List.append_assoc, List.append_assoc, List.singleton_append, List.singleton_append] at hclean
  simp only [Url.parse, String.toList_ofList, hclean, splitScheme?_append hname] at h
  exact readAfterScheme_scheme h

theorem parse_text [LawfulIdna] {name : List Char} {host : Host} {port : Option Nat}
    (hname : IsSchemeName name) (hweb : IsWebScheme (lower name)) (hhost : host.IsSettled)
    (hport : NeedsPort (lower name) port) (path : List Char) :
    ∃ u, Url.parse (String.ofList (name ++ ':' :: '/' :: '/' :: (host.text ++ portText port ++
      '/' :: path))) = .ok u ∧ u.scheme = lower name ∧
        u.authority = some ⟨[], [], host, port⟩ := by
  have hfront : ∀ c ∈ name ++ ':' :: '/' :: '/' :: (host.text ++ portText port ++ ['/']),
      0x20 < c.toNat := by
    intro c hc
    simp only [List.mem_append, List.mem_cons, List.not_mem_nil, or_false] at hc
    obtain hc | rfl | rfl | rfl | (hc | hc) | rfl := hc
    · exact hname.visible c hc
    · decide
    · decide
    · decide
    · exact (hhost.text_stays c hc).1
    · exact (portText_stays port c hc).1
    · decide
  obtain ⟨rest, hclean⟩ := cleaned_append hfront path
  simp only [List.append_assoc, List.cons_append, List.nil_append] at hclean
  obtain ⟨u, hu, hscheme, hauthority⟩ := readAfterScheme_text hweb hhost hport rest
  refine ⟨u, ?_, hscheme, hauthority⟩
  simp only [Url.parse, String.toList_ofList, List.append_assoc, hclean, splitScheme?_append hname]
  exact hu

end Url

namespace Endpoint

open Url

def StartsWithSocketScheme (url : String) : Prop :=
  ∃ name rest, url.toList = name ++ "://".toList ++ rest ∧
    (lower name = "ws".toList ∨ lower name = "wss".toList)

theorem isAlpha_of_toLower {c : Char} (h : isAlpha c.toLower = true) : isAlpha c = true := by
  by_cases hascii : c.toNat < 128
  · exact of_ascii (p := fun c => isAlpha c.toLower = true → isAlpha c = true) (by decide) hascii h
  · have hsame : c.toLower = c := by
      have hbeyond : ¬ (c.val ≥ 'A'.val ∧ c.val ≤ 'Z'.val) := by
        rintro ⟨-, hle⟩
        exact hascii (Nat.lt_of_le_of_lt (UInt32.le_iff_toNat_le.mp hle) (by decide))
      exact dif_neg hbeyond
    rwa [hsame] at h

theorem isAlpha_of_socketScheme {name : List Char}
    (h : lower name = "ws".toList ∨ lower name = "wss".toList) : ∀ c ∈ name, isAlpha c = true := by
  intro c hc
  apply isAlpha_of_toLower
  have hmem : c.toLower ∈ lower name := List.mem_map_of_mem hc
  have hletters : ("ws".toList ++ "wss".toList).all isAlpha = true := by decide +kernel
  apply List.all_eq_true.mp hletters
  obtain h | h := h
  · exact List.mem_append_left _ (h ▸ hmem)
  · exact List.mem_append_right _ (h ▸ hmem)

theorem isSchemeName_of_socketScheme {name : List Char}
    (h : lower name = "ws".toList ∨ lower name = "wss".toList) : IsSchemeName name := by
  have hletters := isAlpha_of_socketScheme h
  refine ⟨?_, fun c hc => by simp [isSchemeChar, hletters c hc]⟩
  cases name with
  | nil => simp [lower] at h
  | cons c name => exact hletters c (by simp)

theorem eq_of_schemePart? {s name : List Char} (h : schemePart? s = some name) :
    ∃ rest, s = name ++ "://".toList ++ rest := by
  fun_induction schemePart? s generalizing name with
  | case1 rest =>
    obtain rfl := Option.some.inj h
    exact ⟨rest, rfl⟩
  | case2 c s _ ih =>
    obtain ⟨name, hname, rfl⟩ := Option.map_eq_some_iff.mp h
    obtain ⟨rest, rfl⟩ := ih hname
    exact ⟨rest, rfl⟩
  | case3 => cases h

theorem schemePart?_append {name : List Char} (hname : ∀ c ∈ name, isAlpha c = true)
    (rest : List Char) : schemePart? (name ++ "://".toList ++ rest) = some name := by
  induction name with
  | nil => rfl
  | cons c name ih =>
    obtain ⟨hc, hname⟩ := List.forall_mem_cons.mp hname
    have hcolon : c ≠ ':' := by
      rintro rfl
      cases hc
    rw [List.cons_append, List.cons_append, schemePart?, ih hname]
    · rfl
    · rintro s h -
      exact hcolon h

theorem hasSocketScheme_iff {url : String} :
    hasSocketScheme url.toList = true ↔ StartsWithSocketScheme url := by
  unfold hasSocketScheme
  constructor
  · intro h
    split at h
    · rename_i name hname
      obtain ⟨rest, hurl⟩ := eq_of_schemePart? hname
      exact ⟨name, rest, hurl, by simpa using h⟩
    · cases h
  · rintro ⟨name, rest, hurl, hscheme⟩
    rw [hurl, schemePart?_append (isAlpha_of_socketScheme hscheme)]
    simpa using hscheme

theorem kind_error (fault : EndpointFault) : fault.error.kind = .invalidArgument := by
  cases fault
  all_goals rfl

/-- The socket is on the host of the page, as secure as the page, and without credentials. -/
structure OnOrigin (origin endpoint : Url) : Prop where
  scheme : origin.scheme = "http".toList ∧ endpoint.scheme = "ws".toList ∨
    origin.scheme = "https".toList ∧ endpoint.scheme = "wss".toList
  host : ∃ host, origin.host? = some host ∧ endpoint.host? = some host
  port : endpoint.effectivePort? = origin.effectivePort?
  anonymous : ∃ a, endpoint.authority = some a ∧ a.username = [] ∧ a.password = []

theorem socketScheme?_eq_some {page socket : List Char} :
    socketScheme? page = some socket ↔
      page = "http".toList ∧ socket = "ws".toList ∨
        page = "https".toList ∧ socket = "wss".toList := by
  constructor
  · intro h
    unfold socketScheme? at h
    split_ifs at h with hhttp hhttps
    · exact .inl ⟨hhttp, (Option.some.inj h).symm⟩
    · exact .inr ⟨hhttps, (Option.some.inj h).symm⟩
  · rintro (⟨rfl, rfl⟩ | ⟨rfl, rfl⟩)
    · rfl
    · rfl

/-- Page and socket go to the same port by default. -/
theorem isWebScheme_of_socketScheme? {page socket : List Char}
    (h : socketScheme? page = some socket) :
    IsWebScheme page ∧ IsWebScheme socket ∧ IsSchemeName socket ∧ lower socket = socket ∧
      defaultPort? socket = defaultPort? page := by
  have hname {name : List Char} (h : lower name = "ws".toList ∨ lower name = "wss".toList) :=
    isSchemeName_of_socketScheme h
  obtain ⟨rfl, rfl⟩ | ⟨rfl, rfl⟩ := socketScheme?_eq_some.mp h
  · exact ⟨⟨by decide, by decide⟩, ⟨by decide, by decide⟩, hname (by decide), by decide, by decide⟩
  · exact ⟨⟨by decide, by decide⟩, ⟨by decide, by decide⟩, hname (by decide), by decide, by decide⟩

theorem hasSocketScheme_eq_false {url : String} (hpath : ¬ StartsWithSocketScheme url) :
    hasSocketScheme url.toList = false :=
  Bool.eq_false_iff.mpr fun h => hpath (hasSocketScheme_iff.mp h)

section

variable [Idna]

theorem host?_of_settled {u : Url} {a : Authority} (hauthority : u.authority = some a)
    (ha : a.host.IsSettled) : u.host? = some a.host := by
  have hnonempty : a.host.isEmpty = false := by
    generalize a.host = host at ha
    cases ha with
    | domain hne => simpa [Host.isEmpty] using hne
    | ipv4 => rfl
    | ipv6 => rfl
  simp [Url.host?, hauthority, hnonempty]

theorem resolve_path [LawfulIdna] {url text : String} {origin : Url} {socket : List Char}
    (hpath : ¬ StartsWithSocketScheme url) (hparse : Url.parse text = .ok origin)
    (hsocket : socketScheme? origin.scheme = some socket) :
    ∃ endpoint, resolve url (some origin) = .ok endpoint ∧ OnOrigin origin endpoint := by
  obtain ⟨hweb, hweb', hname, hlower, hdefault⟩ := isWebScheme_of_socketScheme? hsocket
  obtain ⟨a, hauthority, ha⟩ := parse_authority hparse hweb
  have hhost : origin.host? = some a.host := host?_of_settled hauthority ha.host
  have hport : origin.port? = a.port := by simp [Url.port?, hauthority]
  have hneeds : NeedsPort (lower socket) a.port := by
    unfold NeedsPort
    rw [hlower, hdefault]
    exact ha.port
  obtain ⟨u, hu, hscheme, hauthority'⟩ := parse_text hname (by rwa [hlower]) ha.host hneeds
    (url.toList.dropWhile (· = '/'))
  rw [hlower] at hscheme
  have hhost' : u.host? = some a.host :=
    host?_of_settled (a := ⟨[], [], a.host, a.port⟩) hauthority' ha.host
  refine ⟨u, ?_, ?_, ⟨a.host, hhost, hhost'⟩, ?_, ⟨_, hauthority', rfl, rfl⟩⟩
  · simp only [resolve, hasSocketScheme_eq_false hpath, hsocket, hhost, hport, synthesize,
      Endpoint.parse, hu]
    rfl
  · rw [hscheme]
    exact socketScheme?_eq_some.mp hsocket
  · simp [Url.effectivePort?, Url.port?, hauthority, hauthority', hscheme, hdefault]

theorem resolve_no_page {url : String} {origin : Option Url} (hpath : ¬ StartsWithSocketScheme url)
    (horigin : ∀ o ∈ origin, socketScheme? o.scheme = none) :
    ∃ fault, resolve url origin = .error fault := by
  have hnot := hasSocketScheme_eq_false hpath
  cases origin with
  | none => exact ⟨.noOrigin url, by simp [resolve, hnot]⟩
  | some o =>
    exact ⟨.noSocketScheme (String.ofList o.scheme), by simp [resolve, hnot, horigin o rfl]⟩

theorem resolve_socket {url : String} (hurl : StartsWithSocketScheme url) (origin : Option Url) :
    resolve url origin = Endpoint.parse url := by
  simp [resolve, hasSocketScheme_iff.mpr hurl]

theorem parse_socket {url : String} {endpoint : Url} (hurl : StartsWithSocketScheme url)
    (h : Endpoint.parse url = .ok endpoint) :
    endpoint.scheme = "ws".toList ∨ endpoint.scheme = "wss".toList := by
  obtain ⟨name, rest, htext, hscheme⟩ := hurl
  have hparse : Url.parse url = .ok endpoint := mapError_eq_ok.mp h
  rw [← String.ofList_toList (s := url), htext, List.append_assoc] at hparse
  rw [parse_scheme (isSchemeName_of_socketScheme hscheme) hparse]
  exact hscheme

/-- A path never leads off the host and the port of the page; without a page of the web there is no
socket; and a text that starts with a socket scheme is taken by itself. -/
theorem paths_stay_on_their_origin [LawfulIdna] (url : String) :
    (¬ StartsWithSocketScheme url →
      (∀ text origin, Url.parse text = .ok origin →
        origin.scheme = "http".toList ∨ origin.scheme = "https".toList →
        ∃ endpoint, resolve url (some origin) = .ok endpoint ∧ OnOrigin origin endpoint) ∧
      ∀ origin : Option Url,
        (∀ o ∈ origin, o.scheme ≠ "http".toList ∧ o.scheme ≠ "https".toList) →
        ∃ fault, resolve url origin = .error fault ∧ fault.error.kind = .invalidArgument) ∧
    (StartsWithSocketScheme url →
      (∀ origin, resolve url origin = Endpoint.parse url) ∧
      ∀ endpoint, Endpoint.parse url = .ok endpoint →
        endpoint.scheme = "ws".toList ∨ endpoint.scheme = "wss".toList) := by
  refine ⟨fun hpath => ⟨?_, ?_⟩, fun hurl => ⟨resolve_socket hurl, fun _ => parse_socket hurl⟩⟩
  · intro text origin hparse hscheme
    obtain ⟨socket, hsocket⟩ : ∃ socket, socketScheme? origin.scheme = some socket := by
      obtain h | h := hscheme
      · exact ⟨_, socketScheme?_eq_some.mpr (.inl ⟨h, rfl⟩)⟩
      · exact ⟨_, socketScheme?_eq_some.mpr (.inr ⟨h, rfl⟩)⟩
    exact resolve_path hpath hparse hsocket
  · intro origin horigin
    have hnone : ∀ o ∈ origin, socketScheme? o.scheme = none := by
      intro o ho
      obtain ⟨hhttp, hhttps⟩ := horigin o ho
      rw [socketScheme?, if_neg hhttp, if_neg hhttps]
    obtain ⟨fault, hfault⟩ := resolve_no_page hpath hnone
    exact ⟨fault, hfault, kind_error fault⟩

end

/-- Knows one name with a letter beyond ASCII. -/
local instance bookshop : Idna :=
  .ofNames [("bücher.example".toList, "xn--bcher-kva.example".toList)]

/-- Neither backslashes nor the look of credentials and a port lead off the page, whose host is in
ASCII from then on. -/
theorem path_with_credentials_stays :
    ∃ origin, ¬ StartsWithSocketScheme "\\\\you@elsewhere:81/..?#\t@" ∧
      StartsWithSocketScheme "WsS://elsewhere" ∧
      Url.parse "https://me:secret@b%C3%BCcher.example:8443/page" = .ok origin ∧
      origin.scheme = "https".toList ∧
      origin.host? = some (.domain "xn--bcher-kva.example".toList) ∧
      (∃ endpoint, resolve "\\\\you@elsewhere:81/..?#\t@" (some origin) = .ok endpoint ∧
        OnOrigin origin endpoint) ∧
      (∃ fault, resolve "\\\\you@elsewhere:81/..?#\t@" none = .error fault ∧
        fault.error.kind = .invalidArgument) ∧
      resolve "WsS://elsewhere" (some origin) = Endpoint.parse "WsS://elsewhere" := by
  have _ : LawfulIdna := Idna.lawful_ofNames (by decide)
  have hpath : ¬ StartsWithSocketScheme "\\\\you@elsewhere:81/..?#\t@" := by
    rw [← hasSocketScheme_iff]
    decide
  have hsocket : StartsWithSocketScheme "WsS://elsewhere" :=
    ⟨"WsS".toList, "elsewhere".toList, by decide, by decide⟩
  have hparse : Url.parse "https://me:secret@b%C3%BCcher.example:8443/page" = .ok
      ⟨"https".toList, some ⟨"me".toList, "secret".toList, .domain "xn--bcher-kva.example".toList,
        some 8443⟩, .segments ["page".toList], none, none⟩ := by
    decide +kernel
  obtain ⟨hon, hnone⟩ := (paths_stay_on_their_origin "\\\\you@elsewhere:81/..?#\t@").1 hpath
  exact ⟨_, hpath, hsocket, hparse, rfl, rfl, hon _ _ hparse (.inr rfl), hnone none (by simp),
    ((paths_stay_on_their_origin "WsS://elsewhere").2 hsocket).1 _⟩

end Endpoint
end MediaRemote
