import MediaRemote.CommandLine.Load
import MediaRemote.Proofs.Settings.Files

namespace MediaRemote.CommandLine.Arguments

open Results Settings

inductive Reads (a : Arguments) (file : FileState) : List Toml.Entry → Prop
  | noFile (h : a.config = .none) : Reads a file []
  | file {name entries} (named : a.config = some name) (h : HasEntries file entries) :
    Reads a file entries

/-- The value of a setting: that of the command line, else that of the file, else the standard. -/
def Chosen {α β : Type} (argument : Option β) (gives : β → α → Prop) (entries : List Toml.Entry)
    (key : String) (reads : Toml.Scalar → α → Prop) (standard value : α) : Prop :=
  (∃ b, argument = some b ∧ gives b value) ∨
    argument = .none ∧ Says entries key reads standard value

theorem chosen_getD {α : Type} {argument : Option α} {entries : List Toml.Entry} {key : String}
    {reads : Toml.Scalar → α → Prop} {standard own : α}
    (h : Says entries key reads standard own) :
    Chosen argument Eq entries key reads standard (argument.getD own) := by
  cases argument with
  | none => exact .inr ⟨rfl, h⟩
  | some x => exact .inl ⟨x, rfl, rfl⟩

theorem Reads.nodup {a : Arguments} {file : FileState} {entries : List Toml.Entry}
    (h : Reads a file entries) : (entries.map (·.key)).Nodup := by
  cases h with
  | noFile => simp
  | file _ h =>
    obtain ⟨bytes, text, -, -, -, hentries⟩ := h
    exact nodup_keys hentries

theorem Chosen.unique {α : Type} {argument : Option α} {entries : List Toml.Entry} {key : String}
    {reads : Toml.Scalar → α → Prop} {standard x y : α} (hkeys : (entries.map (·.key)).Nodup)
    (hreads : ∀ v x y, reads v x → reads v y → x = y)
    (hx : Chosen argument Eq entries key reads standard x)
    (hy : Chosen argument Eq entries key reads standard y) : x = y := by
  obtain ⟨b, hb, rfl⟩ | ⟨hnone, hx⟩ := hx
  · obtain ⟨c, hc, rfl⟩ | ⟨hnone, -⟩ := hy
    · exact Option.some.inj (hb.symm.trans hc)
    · simp [hb] at hnone
  · obtain ⟨c, hc, -⟩ | ⟨-, hy⟩ := hy
    · simp [hc] at hnone
    · exact hx.unique hkeys hreads hy

theorem readsText_unique (v : Toml.Scalar) (x y : String) (hx : ReadsText v x)
    (hy : ReadsText v y) : x = y := by
  cases hx
  exact (readsText_string.mp hy).symm

theorem readsNumber_unique (v : Toml.Scalar) (x y : Nat) (hx : ReadsNumber v x)
    (hy : ReadsNumber v y) : x = y := by
  cases hx
  exact (readsNumber_integer.mp hy).symm

theorem positive_of_entries {entries : List Toml.Entry} {key : String} {standard x : Nat}
    (hkeys : (entries.map (·.key)).Nodup) (hx : Says entries key ReadsNumber standard x)
    (h : ∃ n, Says entries key ReadsNumber standard n ∧ 0 < n) : 0 < x := by
  obtain ⟨n, hn, hpositive⟩ := h
  rwa [hx.unique hkeys readsNumber_unique hn]

theorem positive_of_chosen {argument : Option Nat} {entries : List Toml.Entry} {key : String}
    {standard x : Nat} (hkeys : (entries.map (·.key)).Nodup)
    (hx : Chosen argument Eq entries key ReadsNumber standard x)
    (h : ∃ n, Chosen argument Eq entries key ReadsNumber standard n ∧ 0 < n) : 0 < x := by
  obtain ⟨n, hn, hpositive⟩ := h
  rwa [hx.unique hkeys readsNumber_unique hn]

section

variable [Url.Idna]

structure Merged (a : Arguments) (entries : List Toml.Entry) (s : Settings) : Prop where
  url : Chosen a.url Eq entries "url" ReadsText standard.url s.url
  origin : Chosen a.origin IsOrigin entries "origin" ReadsOrigin standard.origin s.origin
  pageSize : Chosen a.pageSize Eq entries "page_size" ReadsNumber standard.pageSize s.pageSize
  reconnectDelay : Chosen a.reconnectDelay Eq entries "reconnect_delay" ReadsNumber
    standard.reconnectDelay s.reconnectDelay
  pollInterval : Says entries "poll_interval" ReadsNumber standard.pollInterval s.pollInterval
  forwardMessages : Says entries "forward_messages" ReadsFlag standard.forwardMessages
    s.forwardMessages

/-- What is asked of the arguments and the file, the kinds of the file's values apart. Only a file
can set the poll interval, so that this is positive in the merged settings if it is in the file. -/
structure Acceptable (a : Arguments) (file : FileState) (entries : List Toml.Entry) : Prop where
  reads : Reads a file entries
  known : ∀ e ∈ entries, e.key ∈ keys
  filePageSize : ∃ n, Says entries "page_size" ReadsNumber standard.pageSize n ∧ 0 < n
  fileReconnectDelay :
    ∃ n, Says entries "reconnect_delay" ReadsNumber standard.reconnectDelay n ∧ 0 < n
  filePollInterval : ∃ n, Says entries "poll_interval" ReadsNumber standard.pollInterval n ∧ 0 < n
  origin : ∀ text ∈ a.origin, ∃ u, Url.parse text = .ok u
  url : ∃ url, Chosen a.url Eq entries "url" ReadsText standard.url url ∧ url ≠ ""
  pageSize : ∃ n, Chosen a.pageSize Eq entries "page_size" ReadsNumber standard.pageSize n ∧ 0 < n
  reconnectDelay : ∃ n, Chosen a.reconnectDelay Eq entries "reconnect_delay" ReadsNumber
    standard.reconnectDelay n ∧ 0 < n

theorem base_eq_ok {a : Arguments} {file : FileState} {s : Settings} :
    a.base file = .ok s ↔ ∃ entries, Reads a file entries ∧ (∀ e ∈ entries, Suits e) ∧
      FromEntries standard entries s ∧ s.IsPositive := by
  unfold base
  cases hconfig : a.config with
  | none =>
    constructor
    · intro h
      obtain rfl := Except.ok.inj h
      exact ⟨[], .noFile hconfig, by simp, fromEntries_nil.mpr rfl, isPositive_standard⟩
    · rintro ⟨entries, hreads, -, hfrom, -⟩
      cases hreads with
      | noFile => rw [fromEntries_nil.mp hfrom]
      | file named => simp [hconfig] at named
  | some name =>
    rw [mapError_eq_ok, ofFile_eq_ok]
    constructor
    · rintro ⟨entries, hentries, hrest⟩
      exact ⟨entries, .file hconfig hentries, hrest⟩
    · rintro ⟨entries, hreads, hrest⟩
      cases hreads with
      | noFile h => simp [hconfig] at h
      | file _ hentries => exact ⟨entries, hentries, hrest⟩

theorem parseOrigin_eq_ok {a : Arguments} {origin : Option Url} :
    a.parseOrigin = .ok origin ↔
      (∃ text, a.origin = some text ∧ IsOrigin text origin) ∨
        a.origin = .none ∧ origin = .none := by
  unfold parseOrigin
  cases a.origin with
  | none => simp [eq_comm]
  | some text =>
    simp only [map_eq_ok, mapError_eq_ok, Option.some.injEq, reduceCtorEq, false_and, or_false,
      exists_eq_left', IsOrigin, eq_comm (a := origin)]

/-- What the file says is overridden by what the command line says. -/
theorem merged_override {a : Arguments} {entries : List Toml.Entry} {own : Settings}
    {origin : Option Url} (hfrom : FromEntries standard entries own)
    (horigin : a.parseOrigin = .ok origin) : Merged a entries (a.override origin own) where
  url := chosen_getD hfrom.url
  origin := by
    obtain ⟨text, htext, u, hu, rfl⟩ | ⟨hnone, rfl⟩ := parseOrigin_eq_ok.mp horigin
    · exact .inl ⟨text, htext, u, hu, rfl⟩
    · exact .inr ⟨hnone, hfrom.origin⟩
  pageSize := chosen_getD hfrom.pageSize
  reconnectDelay := chosen_getD hfrom.reconnectDelay
  pollInterval := hfrom.pollInterval
  forwardMessages := hfrom.forwardMessages

theorem settings_eq_ok {a : Arguments} {file : FileState} {s : Settings} :
    a.settings file = .ok s ↔ ∃ own origin, a.base file = .ok own ∧ a.parseOrigin = .ok origin ∧
      a.override origin own = s ∧ s.IsPositive ∧ s.url ≠ "" := by
  unfold settings
  constructor
  · intro h
    obtain ⟨own, hown, h⟩ := bind_eq_ok.mp h
    obtain ⟨origin, horigin, h⟩ := bind_eq_ok.mp h
    obtain ⟨t, ht, h⟩ := bind_eq_ok.mp h
    obtain ⟨hpositive, rfl⟩ := validate_eq_ok.mp (mapError_eq_ok.mp ht)
    split_ifs at h with hurl
    obtain rfl := Except.ok.inj h
    exact ⟨own, origin, hown, horigin, rfl, hpositive, by simpa using hurl⟩
  · rintro ⟨own, origin, hown, horigin, rfl, hpositive, hurl⟩
    have hvalid := mapError_eq_ok (f := LoadFault.invalid).mpr (validate_eq_ok.mpr ⟨hpositive, rfl⟩)
    have hlast : (if (a.override origin own).url.isEmpty then .error LoadFault.noUrl
        else .ok (a.override origin own)) = Except.ok (a.override origin own) := by
      rw [if_neg (by simpa using hurl)]
    exact bind_eq_ok.mpr ⟨own, hown, bind_eq_ok.mpr ⟨origin, horigin,
      bind_eq_ok.mpr ⟨_, hvalid, hlast⟩⟩⟩

theorem acceptable_of_settings {a : Arguments} {file : FileState} {s : Settings}
    (h : a.settings file = .ok s) :
    ∃ entries, Acceptable a file entries ∧ (∀ e ∈ entries, Suits e) ∧ Merged a entries s := by
  obtain ⟨own, origin, hown, horigin, rfl, hpositive, hurl⟩ := settings_eq_ok.mp h
  obtain ⟨entries, hreads, hsuits, hfrom, hvalid⟩ := base_eq_ok.mp hown
  have hmerged := merged_override hfrom horigin
  refine ⟨entries, ?_, hsuits, hmerged⟩
  constructor
  · exact hreads
  · exact fun e he => (hsuits e he).key_mem
  · exact ⟨_, hfrom.pageSize, hvalid.pageSize⟩
  · exact ⟨_, hfrom.reconnectDelay, hvalid.reconnectDelay⟩
  · exact ⟨_, hfrom.pollInterval, hvalid.pollInterval⟩
  · intro text htext
    obtain ⟨_, htext', u, hu, -⟩ | ⟨hnone, -⟩ := parseOrigin_eq_ok.mp horigin
    · obtain rfl := Option.some.inj (htext'.symm.trans htext)
      exact ⟨u, hu⟩
    · simp [hnone] at htext
  · exact ⟨_, hmerged.url, hurl⟩
  · exact ⟨_, hmerged.pageSize, hpositive.pageSize⟩
  · exact ⟨_, hmerged.reconnectDelay, hpositive.reconnectDelay⟩

theorem settings_of_acceptable {a : Arguments} {file : FileState} {entries : List Toml.Entry}
    (h : Acceptable a file entries) (hsuits : ∀ e ∈ entries, Suits e) :
    ∃ s, a.settings file = .ok s := by
  have hkeys := h.reads.nodup
  obtain ⟨own, hown⟩ := exists_ofEntries hsuits standard
  obtain ⟨-, hfrom⟩ := (ofEntries_eq_ok hkeys).mp hown
  obtain ⟨origin, horigin⟩ : ∃ origin, a.parseOrigin = .ok origin := by
    cases htext : a.origin with
    | none => exact ⟨.none, parseOrigin_eq_ok.mpr (.inr ⟨htext, rfl⟩)⟩
    | some text =>
      obtain ⟨u, hu⟩ := h.origin text htext
      exact ⟨some u, parseOrigin_eq_ok.mpr (.inl ⟨text, htext, u, hu, rfl⟩)⟩
  have hmerged := merged_override hfrom horigin
  -- what was asked for is what the entries have: no two of them are of one key
  have hvalid : own.IsPositive :=
    ⟨positive_of_entries hkeys hfrom.pageSize h.filePageSize,
      positive_of_entries hkeys hfrom.reconnectDelay h.fileReconnectDelay,
      positive_of_entries hkeys hfrom.pollInterval h.filePollInterval⟩
  have hpositive : (a.override origin own).IsPositive :=
    ⟨positive_of_chosen hkeys hmerged.pageSize h.pageSize,
      positive_of_chosen hkeys hmerged.reconnectDelay h.reconnectDelay, hvalid.pollInterval⟩
  have hurl : (a.override origin own).url ≠ "" := by
    obtain ⟨url, hchosen, hne⟩ := h.url
    rwa [hmerged.url.unique hkeys readsText_unique hchosen]
  have hbase : a.base file = .ok own :=
    base_eq_ok.mpr ⟨entries, h.reads, hsuits, hfrom, hvalid⟩
  exact ⟨_, settings_eq_ok.mpr ⟨own, origin, hbase, horigin, rfl, hpositive, hurl⟩⟩

/-- Settings load just if everything that is asked for holds and the values of the file suit their
keys. They are those of the command line, of the file and of the standard, in this order. -/
theorem settings_load_iff_acceptable (a : Arguments) (file : FileState) :
    ((∃ s, a.settings file = .ok s) ↔
      ∃ entries, Acceptable a file entries ∧ ∀ e ∈ entries, Suits e) ∧
    ∀ s, a.settings file = .ok s →
      (∃ entries, Reads a file entries ∧ Merged a entries s) ∧
      1 ≤ s.pageSize ∧ s.reconnectDelay ≠ 0 ∧ s.pollInterval ≠ 0 := by
  refine ⟨⟨?_, ?_⟩, ?_⟩
  · rintro ⟨s, hs⟩
    obtain ⟨entries, hacceptable, hsuits, -⟩ := acceptable_of_settings hs
    exact ⟨entries, hacceptable, hsuits⟩
  · rintro ⟨entries, hacceptable, hsuits⟩
    exact settings_of_acceptable hacceptable hsuits
  · intro s hs
    obtain ⟨entries, hacceptable, -, hmerged⟩ := acceptable_of_settings hs
    obtain ⟨own, origin, -, -, -, hpositive, -⟩ := settings_eq_ok.mp hs
    exact ⟨⟨entries, hacceptable.reads, hmerged⟩, hpositive.pageSize,
      Nat.pos_iff_ne_zero.mp hpositive.reconnectDelay,
      Nat.pos_iff_ne_zero.mp hpositive.pollInterval⟩

end

/-- Knows one name with a letter beyond ASCII. -/
local instance bookshop : Url.Idna :=
  .ofNames [("bücher.example".toList, "xn--bcher-kva.example".toList)]

def visitor : Arguments :=
  ⟨some "FILE", .none, some "http://bücher.example/", some 9, .none, .none, false, 0⟩

/-- The command line goes before the file, for the origin and the page size. -/
theorem command_line_goes_before_the_file :
    ∃ s, visitor.settings
        (.contents "url = \"player\"\norigin = \"http://g/\"\npage_size = 7".toUTF8.toList) =
          .ok s ∧
      s.url = "player" ∧ s.origin.map Url.text = some "http://xn--bcher-kva.example/" ∧
      s.pageSize = 9 ∧
      (∃ entries, Acceptable visitor
        (.contents "url = \"player\"\norigin = \"http://g/\"\npage_size = 7".toUTF8.toList)
        entries ∧
        ∀ e ∈ entries, Suits e) ∧
      1 ≤ s.pageSize ∧ s.reconnectDelay ≠ 0 ∧ s.pollInterval ≠ 0 := by
  have hs : visitor.settings
      (.contents "url = \"player\"\norigin = \"http://g/\"\npage_size = 7".toUTF8.toList) =
        .ok ⟨"player", some ⟨"http".toList,
          some ⟨[], [], .domain "xn--bcher-kva.example".toList, .none⟩, .segments [[]], .none,
          .none⟩, 9, 3000, 1000, false⟩ := by
    decide +kernel
  obtain ⟨hiff, hresult⟩ := settings_load_iff_acceptable _ _
  exact ⟨_, hs, rfl, by decide +kernel, rfl, hiff.mp ⟨_, hs⟩, (hresult _ hs).2⟩

/-- A file with an origin that is no URL is refused, even where the command line has another. -/
theorem nonsense_origin_in_the_file_is_refused :
    Acceptable ⟨some "FILE", some "ws://h/", some "http://h/", .none, .none, .none, false, 0⟩
      (.contents "origin = \"nonsense\"\n".toUTF8.toList) [⟨"origin", .string "nonsense"⟩] ∧
    ¬ ∃ s, settings ⟨some "FILE", some "ws://h/", some "http://h/", .none, .none, .none, false, 0⟩
      (.contents "origin = \"nonsense\"\n".toUTF8.toList) = .ok s := by
  constructor
  · have hkey (key : String) (hkey : key ≠ "origin") :
        ∀ e ∈ [(⟨"origin", .string "nonsense"⟩ : Toml.Entry)], e.key ≠ key := by
      simpa using hkey.symm
    constructor
    · refine .file rfl ⟨_, "origin = \"nonsense\"\n", rfl, ?_, ?_, ?_⟩
      · decide +kernel
      · decide +kernel
      · decide +kernel
    · simp [keys]
    · exact ⟨5, .inr ⟨hkey _ (by decide), rfl⟩, by decide⟩
    · exact ⟨3000, .inr ⟨hkey _ (by decide), rfl⟩, by decide⟩
    · exact ⟨1000, .inr ⟨hkey _ (by decide), rfl⟩, by decide⟩
    · have horigin : Url.parse "http://h/" = .ok ⟨"http".toList, some ⟨[], [], .domain ['h'],
          .none⟩, .segments [[]], .none, .none⟩ := by
        decide +kernel
      simpa using ⟨_, horigin⟩
    · exact ⟨"ws://h/", .inl ⟨_, rfl, rfl⟩, by decide⟩
    · exact ⟨5, .inr ⟨rfl, .inr ⟨hkey _ (by decide), rfl⟩⟩, by decide⟩
    · exact ⟨3000, .inr ⟨rfl, .inr ⟨hkey _ (by decide), rfl⟩⟩, by decide⟩
  · have hrefused : settings ⟨some "FILE", some "ws://h/", some "http://h/", .none, .none, .none,
        false, 0⟩ (.contents "origin = \"nonsense\"\n".toUTF8.toList) =
          .error (.file (.unsuitable ⟨"origin", .string "nonsense"⟩)) := by
      decide +kernel
    rintro ⟨s, hs⟩
    rw [hrefused] at hs
    cases hs

end MediaRemote.CommandLine.Arguments
