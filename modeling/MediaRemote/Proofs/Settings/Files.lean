import Mathlib.Data.List.Nodup
import Mathlib.Tactic.MkIffOfInductiveProp
import Mathlib.Tactic.SplitIfs
import MediaRemote.Proofs.Results
import MediaRemote.Settings.File

namespace MediaRemote.Settings

open Results

/-- A setting as entries have it: what the entry of its key says, or else its old value. -/
def Says {α : Type} (entries : List Toml.Entry) (key : String) (reads : Toml.Scalar → α → Prop)
    (old value : α) : Prop :=
  (∃ e ∈ entries, e.key = key ∧ reads e.value value) ∨ (∀ e ∈ entries, e.key ≠ key) ∧ value = old

section

variable {α : Type} {entries : List Toml.Entry} {e : Toml.Entry} {key : String}
  {reads : Toml.Scalar → α → Prop} {old value : α}

theorem says_of_absent (h : ∀ e ∈ entries, e.key ≠ key) :
    Says entries key reads old value ↔ value = old := by
  constructor
  · rintro (⟨e, he, hkey, -⟩ | ⟨-, hvalue⟩)
    · exact absurd hkey (h e he)
    · exact hvalue
  · exact fun hvalue => .inr ⟨h, hvalue⟩

theorem says_cons_of_ne (h : e.key ≠ key) :
    Says (e :: entries) key reads old value ↔ Says entries key reads old value := by
  simp [Says, h]

theorem says_cons_of_eq (h : e.key = key) (hnew : ∀ d ∈ entries, d.key ≠ key) :
    Says (e :: entries) key reads old value ↔ reads e.value value := by
  constructor
  · rintro (⟨d, hd, hkey, hreads⟩ | ⟨habsent, -⟩)
    · obtain rfl | hd := List.mem_cons.mp hd
      · exact hreads
      · exact absurd hkey (hnew d hd)
    · exact absurd h (habsent e (by simp))
  · exact fun hreads => .inl ⟨e, by simp, h, hreads⟩

/-- Entries of different keys do not say two things of a setting. -/
theorem Says.unique {x y : α} (hkeys : (entries.map (·.key)).Nodup)
    (hreads : ∀ v x y, reads v x → reads v y → x = y) (hx : Says entries key reads old x)
    (hy : Says entries key reads old y) : x = y := by
  obtain ⟨e, he, hkey, hx⟩ | ⟨habsent, rfl⟩ := hx
  · obtain ⟨d, hd, hkey', hy⟩ | ⟨habsent, -⟩ := hy
    · obtain rfl : e = d := List.inj_on_of_nodup_map hkeys he hd (hkey.trans hkey'.symm)
      exact hreads _ _ _ hx hy
    · exact absurd hkey (habsent e he)
  · exact ((says_of_absent habsent).mp hy).symm

end

def ReadsText (v : Toml.Scalar) (text : String) : Prop := v = .string text

def ReadsNumber (v : Toml.Scalar) (n : Nat) : Prop := v = .integer n

def ReadsFlag (v : Toml.Scalar) (b : Bool) : Prop := v = .boolean b

theorem readsText_string {text value : String} :
    ReadsText (.string text) value ↔ value = text := by
  simp [ReadsText, eq_comm]

theorem readsNumber_integer {n value : Nat} : ReadsNumber (.integer n) value ↔ value = n := by
  rw [ReadsNumber, Toml.Scalar.integer.injEq, Int.ofNat_inj, eq_comm]

theorem readsFlag_boolean {b value : Bool} : ReadsFlag (.boolean b) value ↔ value = b := by
  simp [ReadsFlag, eq_comm]

structure IsPositive (s : Settings) : Prop where
  pageSize : 0 < s.pageSize
  reconnectDelay : 0 < s.reconnectDelay
  pollInterval : 0 < s.pollInterval

theorem validate_eq_ok {s t : Settings} : s.validate = .ok t ↔ s.IsPositive ∧ s = t := by
  have hfault : s.fault? = none ↔ s.IsPositive := by
    unfold fault?
    constructor
    · intro h
      split_ifs at h with hpage hinterval
      exact ⟨by omega, by omega, by omega⟩
    · rintro ⟨hpage, hdelay, hpoll⟩
      rw [if_neg (by omega), if_neg (by omega)]
  rw [← hfault, validate]
  cases s.fault? with
  | none => simp
  | some fault => simp

theorem isPositive_standard : standard.IsPositive := ⟨by decide, by decide, by decide⟩

theorem nodup_keys {text : String} {entries : List Toml.Entry}
    (h : Toml.entries? text = some entries) : (entries.map (·.key)).Nodup := by
  unfold Toml.entries? at h
  obtain ⟨-, h⟩ := Option.filter_eq_some_iff.mp h
  simpa using h

def HasEntries (file : FileState) (entries : List Toml.Entry) : Prop :=
  ∃ bytes text, file = .contents bytes ∧ bytes.length ≤ 16384 ∧
    Text.decodeUtf8 bytes = .ok text ∧ Toml.entries? text = some entries

variable [Url.Idna]

def IsOrigin (text : String) (origin : Option Url) : Prop :=
  ∃ u, Url.parse text = .ok u ∧ origin = some u

def keys : List String :=
  ["url", "origin", "page_size", "reconnect_delay", "poll_interval", "forward_messages"]

inductive Suits : Toml.Entry → Prop
  | url (text) : Suits ⟨"url", .string text⟩
  | origin {text origin} (h : IsOrigin text origin) : Suits ⟨"origin", .string text⟩
  | pageSize {n : Nat} (h : n < bound32) : Suits ⟨"page_size", .integer n⟩
  | reconnectDelay (n : Nat) : Suits ⟨"reconnect_delay", .integer n⟩
  | pollInterval (n : Nat) : Suits ⟨"poll_interval", .integer n⟩
  | forwardMessages (b) : Suits ⟨"forward_messages", .boolean b⟩

inductive Sets (s : Settings) : Toml.Entry → Settings → Prop
  | url (text) : Sets s ⟨"url", .string text⟩ { s with url := text }
  | origin {text u} (h : Url.parse text = .ok u) :
    Sets s ⟨"origin", .string text⟩ { s with origin := some u }
  | pageSize {n : Nat} (h : n < bound32) :
    Sets s ⟨"page_size", .integer n⟩ { s with pageSize := n }
  | reconnectDelay (n : Nat) :
    Sets s ⟨"reconnect_delay", .integer n⟩ { s with reconnectDelay := n }
  | pollInterval (n : Nat) : Sets s ⟨"poll_interval", .integer n⟩ { s with pollInterval := n }
  | forwardMessages (b) :
    Sets s ⟨"forward_messages", .boolean b⟩ { s with forwardMessages := b }

theorem Sets.set? {s t : Settings} {e : Toml.Entry} (h : Sets s e t) : s.set? e = some t := by
  cases h with
  | url => rfl
  | origin h => simp [Settings.set?, h]
  | pageSize h => simp [Settings.set?, h]
  | reconnectDelay => simp [Settings.set?]
  | pollInterval => simp [Settings.set?]
  | forwardMessages => rfl

theorem sets_of_set? {s t : Settings} {e : Toml.Entry} (h : s.set? e = some t) : Sets s e t := by
  obtain ⟨key, value⟩ := e
  unfold Settings.set? at h
  dsimp only at h
  split at h
  · cases h
    exact .url _
  · split at h
    · rename_i hparse
      cases h
      exact .origin hparse
    · cases h
  · split_ifs at h with hn
    obtain ⟨m, rfl⟩ := Int.eq_ofNat_of_zero_le hn.1
    cases h
    exact .pageSize (by simpa using hn)
  · split_ifs at h with hn
    obtain ⟨m, rfl⟩ := Int.eq_ofNat_of_zero_le hn
    cases h
    exact .reconnectDelay m
  · split_ifs at h with hn
    obtain ⟨m, rfl⟩ := Int.eq_ofNat_of_zero_le hn
    cases h
    exact .pollInterval m
  · cases h
    exact .forwardMessages _
  · cases h

theorem Suits.sets {e : Toml.Entry} (h : Suits e) (s : Settings) : ∃ t, Sets s e t := by
  cases h with
  | url => exact ⟨_, .url _⟩
  | origin h =>
    obtain ⟨u, hu, -⟩ := h
    exact ⟨_, .origin hu⟩
  | pageSize h => exact ⟨_, .pageSize h⟩
  | reconnectDelay => exact ⟨_, .reconnectDelay _⟩
  | pollInterval => exact ⟨_, .pollInterval _⟩
  | forwardMessages => exact ⟨_, .forwardMessages _⟩

theorem Sets.suits {s t : Settings} {e : Toml.Entry} (h : Sets s e t) : Suits e := by
  cases h with
  | url => exact .url _
  | origin h => exact .origin ⟨_, h, rfl⟩
  | pageSize h => exact .pageSize h
  | reconnectDelay => exact .reconnectDelay _
  | pollInterval => exact .pollInterval _
  | forwardMessages => exact .forwardMessages _

theorem Suits.key_mem {e : Toml.Entry} (h : Suits e) : e.key ∈ keys := by
  cases h
  all_goals simp [keys]

def ReadsOrigin (v : Toml.Scalar) (origin : Option Url) : Prop :=
  ∃ text, v = .string text ∧ IsOrigin text origin

/-- Settings as entries have them, with the old values where there is no entry. -/
@[mk_iff]
structure FromEntries (old : Settings) (entries : List Toml.Entry) (s : Settings) : Prop where
  url : Says entries "url" ReadsText old.url s.url
  origin : Says entries "origin" ReadsOrigin old.origin s.origin
  pageSize : Says entries "page_size" ReadsNumber old.pageSize s.pageSize
  reconnectDelay : Says entries "reconnect_delay" ReadsNumber old.reconnectDelay s.reconnectDelay
  pollInterval : Says entries "poll_interval" ReadsNumber old.pollInterval s.pollInterval
  forwardMessages : Says entries "forward_messages" ReadsFlag old.forwardMessages s.forwardMessages

theorem fromEntries_nil {old s : Settings} : FromEntries old [] s ↔ s = old := by
  have hnil {α : Type} {key : String} {reads : Toml.Scalar → α → Prop} {old value : α} :
      Says [] key reads old value ↔ value = old := says_of_absent (by simp)
  cases old
  cases s
  simp only [fromEntries_iff, hnil, Settings.mk.injEq]

theorem readsOrigin_string {text : String} {u : Url} (h : Url.parse text = .ok u)
    {origin : Option Url} : ReadsOrigin (.string text) origin ↔ origin = some u := by
  simp [ReadsOrigin, IsOrigin, h]

/-- An entry says what it sets. -/
theorem fromEntries_cons {s m t : Settings} {e : Toml.Entry} {entries : List Toml.Entry}
    (hset : Sets s e m) (hnew : ∀ d ∈ entries, d.key ≠ e.key) :
    FromEntries s (e :: entries) t ↔ FromEntries m entries t := by
  have hown {α : Type} {reads : Toml.Scalar → α → Prop} {old value : α} :
      Says (e :: entries) e.key reads old value ↔ reads e.value value := says_cons_of_eq rfl hnew
  have hold {α : Type} {reads : Toml.Scalar → α → Prop} {old value : α} :
      Says entries e.key reads old value ↔ value = old := says_of_absent hnew
  -- the setting of the entry's own key is as the entry says, the others are not touched
  cases hset with
  | url => simp [fromEntries_iff, hown, hold, says_cons_of_ne, readsText_string]
  | origin h => simp [fromEntries_iff, hown, hold, says_cons_of_ne, readsOrigin_string h]
  | pageSize => simp [fromEntries_iff, hown, hold, says_cons_of_ne, readsNumber_integer]
  | reconnectDelay => simp [fromEntries_iff, hown, hold, says_cons_of_ne, readsNumber_integer]
  | pollInterval => simp [fromEntries_iff, hown, hold, says_cons_of_ne, readsNumber_integer]
  | forwardMessages => simp [fromEntries_iff, hown, hold, says_cons_of_ne, readsFlag_boolean]

theorem exists_ofEntries {entries : List Toml.Entry} (hsuits : ∀ e ∈ entries, Suits e)
    (s : Settings) : ∃ t, ofEntries s entries = .ok t := by
  induction entries generalizing s with
  | nil => exact ⟨s, rfl⟩
  | cons e entries ih =>
    obtain ⟨he, hsuits⟩ := List.forall_mem_cons.mp hsuits
    obtain ⟨m, hset⟩ := he.sets s
    rw [ofEntries, hset.set?]
    exact ih hsuits m

/-- Entries of different keys are taken in if each of them suits. -/
theorem ofEntries_eq_ok {s t : Settings} {entries : List Toml.Entry}
    (hkeys : (entries.map (·.key)).Nodup) :
    ofEntries s entries = .ok t ↔ (∀ e ∈ entries, Suits e) ∧ FromEntries s entries t := by
  induction entries generalizing s with
  | nil => simp [ofEntries, fromEntries_nil, eq_comm]
  | cons e entries ih =>
    rw [List.map_cons, List.nodup_cons] at hkeys
    obtain ⟨hkey, hkeys⟩ := hkeys
    have hnew : ∀ d ∈ entries, d.key ≠ e.key := fun d hd h => hkey (h ▸ List.mem_map_of_mem hd)
    rw [List.forall_mem_cons]
    constructor
    · intro h
      rw [ofEntries] at h
      split at h
      · rename_i m hset
        have hset := sets_of_set? hset
        obtain ⟨hsuits, hfrom⟩ := (ih hkeys).mp h
        exact ⟨⟨hset.suits, hsuits⟩, (fromEntries_cons hset hnew).mpr hfrom⟩
      · cases h
    · rintro ⟨⟨he, hsuits⟩, hfrom⟩
      obtain ⟨m, hset⟩ := he.sets s
      rw [ofEntries, hset.set?]
      exact (ih hkeys).mpr ⟨hsuits, (fromEntries_cons hset hnew).mp hfrom⟩

theorem ofToml_eq_ok {text : String} {s : Settings} :
    ofToml text = .ok s ↔ ∃ entries, Toml.entries? text = some entries ∧
      (∀ e ∈ entries, Suits e) ∧ FromEntries standard entries s := by
  unfold ofToml
  split
  · rename_i entries hentries
    rw [ofEntries_eq_ok (nodup_keys hentries)]
    simp [hentries]
  · rename_i hentries
    simp [hentries]

/-- A file is taken if its entries suit and make valid settings by themselves. -/
theorem ofFile_eq_ok {name : String} {file : FileState} {s : Settings} :
    ofFile name file = .ok s ↔ ∃ entries, HasEntries file entries ∧ (∀ e ∈ entries, Suits e) ∧
      FromEntries standard entries s ∧ s.IsPositive := by
  constructor
  · intro h
    cases file with
    | unreadable cause => cases h
    | contents bytes =>
      rw [ofFile] at h
      split at h
      · cases h
      · rename_i hsize
        split at h
        · cases h
        · rename_i text htext
          obtain ⟨own, hown, h⟩ := bind_eq_ok.mp h
          obtain ⟨hpositive, rfl⟩ := validate_eq_ok.mp (mapError_eq_ok.mp h)
          obtain ⟨entries, hentries, hsuits, hfrom⟩ := ofToml_eq_ok.mp hown
          exact ⟨entries, ⟨bytes, text, rfl, Nat.le_of_not_lt hsize, htext, hentries⟩, hsuits,
            hfrom, hpositive⟩
  · rintro ⟨entries, ⟨bytes, text, rfl, hsize, htext, hentries⟩, hsuits, hfrom, hpositive⟩
    have hown := ofToml_eq_ok.mpr ⟨entries, hentries, hsuits, hfrom⟩
    have hsmall : ¬ maxFileSize < bytes.length := Nat.not_lt.mpr hsize
    rw [ofFile, if_neg hsmall, htext]
    exact bind_eq_ok.mpr ⟨s, hown, mapError_eq_ok.mpr (validate_eq_ok.mpr ⟨hpositive, rfl⟩)⟩

end MediaRemote.Settings
