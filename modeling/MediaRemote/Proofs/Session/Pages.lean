import MediaRemote.Proofs.Session.Windows

namespace MediaRemote

open Json (Value)

namespace Wire

/-- The window starts at a multiple of its length and holds the entry. -/
structure Window.IsPageOf (w : Window) (n : Nat) : Prop where
  aligned : w.maxitems ∣ w.first
  starts : w.first ≤ n
  ends : n < w.first + w.maxitems

theorem Window.isPageOf_pageOf {n maxitems : Nat} (h : 0 < maxitems) :
    (pageOf n maxitems).IsPageOf n := by
  obtain ⟨hstarts, hends⟩ := mem_pageOf n maxitems h
  refine ⟨?_, hstarts, hends⟩
  have hmax : max maxitems 1 = maxitems := by omega
  simp only [pageOf, hmax]
  exact Nat.dvd_sub_mod n

theorem Window.IsPageOf.eq_pageOf {w : Window} {n : Nat} (h : w.IsPageOf n) :
    w = pageOf n w.maxitems := by
  obtain ⟨k, hk⟩ := h.aligned
  have hstarts := h.starts
  have hends := h.ends
  have hpos : max w.maxitems 1 = w.maxitems := by omega
  have hrest : n % w.maxitems = n - w.first := by
    have hsplit : n = (n - w.first) + w.maxitems * k := by omega
    have hlt : n - w.first < w.maxitems := by omega
    calc n % w.maxitems = ((n - w.first) + w.maxitems * k) % w.maxitems := by rw [← hsplit]
      _ = (n - w.first) % w.maxitems := Nat.add_mul_mod_self_left ..
      _ = n - w.first := Nat.mod_eq_of_lt hlt
  have hfirst : w.first = n - n % max w.maxitems 1 := by
    rw [hpos, hrest]
    omega
  cases w
  exact congrArg _ hfirst

def Window.IsOnlyPage (w : Window) (n maxitems : Nat) : Prop :=
  ∀ w' : Window, w'.maxitems = maxitems ∧ w'.IsPageOf n ↔ w' = w

theorem Window.isOnlyPage_pageOf {n maxitems : Nat} (h : 0 < maxitems) :
    (pageOf n maxitems).IsOnlyPage n maxitems := by
  intro w
  constructor
  · rintro ⟨rfl, hw⟩
    exact hw.eq_pageOf
  · rintro rfl
    exact ⟨rfl, isPageOf_pageOf h⟩

/-- What a query leaves out is filled in, and what it says is kept. -/
structure WindowQuery.Asks (q : WindowQuery) (pageSize : Nat) (w : Window) : Prop where
  kept : ∀ n, q.maxitems = some n → n ≠ 0 → w.maxitems = n
  filled : q.maxitems = none ∨ q.maxitems = some 0 → w.maxitems = pageSize
  first : ∀ n, q.first = some n → w.first = n
  page : ∀ n, q.first = none → q.id = some n → w.IsOnlyPage n w.maxitems
  start : q.first = none → q.id = none → w.first = 0

theorem WindowQuery.resolve_maxitems (q : WindowQuery) (pageSize : Nat) :
    (q.resolve pageSize).maxitems = (q.maxitems.filter (0 < ·)).getD pageSize := by
  unfold resolve
  split <;> rfl

theorem WindowQuery.resolve_pos (q : WindowQuery) {pageSize : Nat} (h : 0 < pageSize) :
    0 < (q.resolve pageSize).maxitems := by
  rw [resolve_maxitems]
  cases hf : q.maxitems.filter (0 < ·) with
  | none => exact h
  | some n =>
    obtain ⟨-, hn⟩ := Option.filter_eq_some_iff.mp hf
    simpa using hn

theorem WindowQuery.asks_resolve (q : WindowQuery) {pageSize : Nat} (h : 0 < pageSize) :
    q.Asks pageSize (q.resolve pageSize) := by
  have hmaxitems := q.resolve_maxitems pageSize
  have hpos := q.resolve_pos h
  refine ⟨?_, ?_, ?_, ?_, ?_⟩
  · intro n hn hne
    have hn' : 0 < n := by omega
    simp [hmaxitems, hn, Option.filter, hn']
  · rintro (hn | hn) <;> simp [hmaxitems, hn, Option.filter]
  · intro n hn
    simp [resolve, hn]
  · intro n hfirst hid
    have hpage : q.resolve pageSize = .pageOf n (q.resolve pageSize).maxitems := by
      rw [hmaxitems, resolve, hfirst, hid]
    rw [hpage]
    exact Window.isOnlyPage_pageOf hpos
  · intro hfirst hid
    simp [resolve, hfirst, hid]

end Wire

namespace Session.Player

open Wire (Change Request Window)

variable {ρ : Type}

theorem Moment.Lists.positive {m : Moment ρ} {w : Window} (h : m.Lists w)
    (hsize : 0 < m.before.pageSize) : 0 < w.maxitems := by
  cases h with
  | change c n hc hid => exact hsize
  | filter hc => exact hsize
  | command query hc => exact query.resolve_pos hsize

/-- A request for the list that the player makes asks for at least one entry: after a change for the
page of the current entry, after a filter for the first page, and by command for what the query
says. Pages have the configured size, and at least one entry. If the numbers of the call fit into
their bits, so do those of the window. -/
theorem lists_ask_for_pages (run : Run ρ) (m : Moment ρ) (hm : m.before = run.player)
    (hown : ∀ method params reply, m.input ≠ .request method params reply) (q : Request)
    (hq : q ∈ m.queued) (hl : q.method = "list") :
    ∃ w : Window,
      q.params = .object [("first", .integer w.first), ("maxitems", .integer w.maxitems)] ∧
      1 ≤ w.maxitems ∧
      ((∃ (c : Change) (n : Nat), m.content? = some (.change c) ∧ c.id = some (n : Int) ∧
          w.IsOnlyPage n (max run.pageSize 1)) ∨
        (m.content? = some .filter ∧ w = ⟨max run.pageSize 1, 0⟩) ∨
        ∃ query, m.input = .execute (.list query) ∧ query.Asks (max run.pageSize 1) w) ∧
      (run.pageSize < bound32 → (∀ query, m.input = .execute (.list query) → query.Fits) →
        w.Fits) := by
  have ho : m.before.rpc.Orderly := hm ▸ (run_tracks run).orderly
  have hsize : m.before.pageSize = max run.pageSize 1 := hm ▸ (run_make run).pageSize
  have hpos : 0 < m.before.pageSize := by omega
  obtain ⟨r, ps, hturns⟩ := Moment.turns ho
  rw [hturns.queues.queued] at hq
  obtain ⟨p, hp, rfl⟩ := List.mem_map.mp hq
  obtain ⟨w, hw, hparams⟩ := (hturns.wanted p hp).lists hl hown
  refine ⟨w, hparams, hw.positive hpos, ?_, ?_⟩
  · rw [← hsize]
    cases hw with
    | change c n hc hid => exact .inl ⟨c, n, hc, hid, Window.isOnlyPage_pageOf hpos⟩
    | filter hc => exact .inr (.inl ⟨hc, rfl⟩)
    | command query hc => exact .inr (.inr ⟨query, hc, query.asks_resolve hpos⟩)
  · intro hbound hqueries
    exact hw.fits (Moment.fits_of_pageSize hsize hbound hqueries)

def pageless : Run Unit :=
  ⟨0, 1000, false, .live,
    [(0, .opened),
     (1, .receive <| Value.text <| .object
       [("id", .integer 0),
        ("result", .object [("actions", .array [.object [("method", .string "list")]])])])]⟩

def lastEntry : Moment Unit :=
  ⟨pageless.player, 2, .execute (.list ⟨some 0, none, some (bound64 - 1)⟩)⟩

/-- The page is as long as can be filled in, and holds the entry. -/
theorem last_entry_has_a_page :
    lastEntry.before = pageless.player ∧
      (∀ method params reply, lastEntry.input ≠ .request method params reply) ∧
      ∃ q ∈ lastEntry.queued, q.method = "list" ∧
        q.params = .object [("first", .integer (bound64 - 1)), ("maxitems", .integer 1)] := by
  have hm : lastEntry.before = pageless.player := by simp only [lastEntry]
  have hown : ∀ method params reply, lastEntry.input ≠ .request method params reply := by
    simp [lastEntry]
  obtain ⟨q, hq, hl⟩ : ∃ q ∈ lastEntry.queued, q.method = "list" := by decide +kernel
  obtain ⟨w, hparams, -, hpage, -⟩ := lists_ask_for_pages pageless lastEntry hm hown q hq hl
  refine ⟨hm, hown, q, hq, hl, ?_⟩
  have hnone : lastEntry.content? = none := by
    simp only [Moment.content?, Moment.inbound?, lastEntry, Option.bind_none]
  rw [hnone] at hpage
  rcases hpage with ⟨c, n, hc, -⟩ | ⟨hc, -⟩ | ⟨query, hquery, hasks⟩
  · cases hc
  · cases hc
  · obtain rfl : (⟨some 0, none, some (bound64 - 1)⟩ : Wire.WindowQuery) = query := by
      simpa [lastEntry] using hquery
    have hone : w.maxitems = 1 := hasks.filled (.inr rfl)
    obtain ⟨-, hstarts, hends⟩ := ((hasks.page _ rfl rfl w).mpr rfl).2
    have hfirst : w.first = bound64 - 1 := by omega
    rw [hparams, hone, hfirst]
    rfl

end Session.Player
end MediaRemote
