import MediaRemote.Proofs.Session.Windows

namespace MediaRemote.Session

open Json (Value)
open Wire (Action Change Request Window)

variable {ρ : Type}

namespace Player

namespace Moment

variable {m : Moment ρ} {content : Content}

theorem change?_eq_some {c : Change} : m.change? = some c ↔ m.content? = some (.change c) := by
  have hchange (content : Content) : content.change? = some c ↔ content = .change c := by
    cases content <;> simp [Content.change?]
  simp [change?, Option.bind_eq_some_iff, hchange]

/-- A content comes with a message that can be read. -/
theorem arrival_of_content (hc : m.content? = some content) :
    ∃ text i rpc, m.input = .receive text ∧ m.before.rpc.receive text = .ok (i, rpc) ∧
      m.inbound? = some i ∧ m.before.contentOf i = some content := by
  obtain ⟨i, hi, hcontent⟩ := Option.bind_eq_some_iff.mp hc
  obtain ⟨text, rpc, hinput, hr⟩ := receive_of_inbound hi
  exact ⟨text, i, rpc, hinput, hr, hi, hcontent⟩

/-- A message whose content is taken in tells what the deed gives and, if messages are forwarded,
itself. -/
theorem events_of_content (hc : m.content? = some content) :
    ∃ i, m.inbound? = some i ∧
      m.events = if m.before.observer = .live then
        eventsIn (m.deedOf content).gives ++ m.before.forwarded i
      else [] := by
  obtain ⟨text, i, rpc, hinput, hr, hi, hcontent⟩ := arrival_of_content hc
  obtain ⟨p, now, input⟩ := m
  obtain rfl : input = .receive text := hinput
  refine ⟨i, hi, ?_⟩
  have hnone : errorTold i = [] := by
    unfold contentOf at hcontent
    split at hcontent
    · rename_i he
      simp [errorTold, he]
    · cases hcontent
  have hdeed : deedOf (⟨p, now, .receive text⟩ : Moment ρ) content =
      p.deed now i.request content := by
    rw [deedOf, answered?, hi, Option.bind_some]
  have hevents := receive_events hr now
  rw [hnone, taken_some hcontent, List.nil_append] at hevents
  rw [hdeed]
  exact hevents

/-- What is asked last of all is queued while connected. -/
theorem queues_of_asked {r : Rpc ρ} {o : Option (Action × Value)}
    (ha : m.after.rpc = r.askAll o.toList) (hid : r.nextId = m.before.rpc.nextId)
    (hopen : r.isOpen = m.before.isConnected) (hf : r.outbox = m.framesLeft)
    (hb : ∀ p ∈ r.pending, p.request.id < r.nextId) :
    m.Queues (o.bind m.before.requestFor).toList := by
  have hnone (ha : m.after.rpc = r) : m.Queues [] := by
    rw [← Rpc.extend_nil r] at ha
    exact queues_of_extend ha hid hf hb rfl
  cases o with
  | none => exact hnone ha
  | some q =>
    have hask : m.after.rpc = r.ask q := ha
    unfold Rpc.ask at hask
    cases hc : m.before.isConnected with
    | false =>
      rw [hopen, hc] at hask
      simpa [requestFor, hc] using hnone hask
    | true =>
      rw [hopen, hc] at hask
      have hone := queues_of_extend hask hid hf hb rfl
      rw [Option.bind_some, requestFor, if_pos hc, ← hid]
      exact hone

/-- While connected a content queues what follows from it, and nothing else. -/
theorem queues_of_content (ho : m.before.rpc.Orderly) (hc : m.content? = some content) :
    m.Queues ((m.before.followUp content).bind m.before.requestFor).toList := by
  obtain ⟨text, i, rpc, hinput, hr, -, hcontent⟩ := arrival_of_content hc
  obtain ⟨p, now, input⟩ := m
  obtain rfl : input = .receive text := hinput
  obtain ⟨message, -, rfl⟩ := Rpc.receive_ok hr
  have hasked := receive_asks hr now
  rw [hcontent, Option.bind_some] at hasked
  exact queues_of_asked hasked rfl rfl rfl (ho.without _).below

end Moment

/-- A level goes before a volume, and a volume that is no integer stands for none. -/
theorem volumeTold_eq (c : Change) :
    volumeTold c =
      if c.level.isSome ∨ c.volume.isSome then some (c.level.or (c.volume.bind Value.signed?))
      else none := by
  obtain ⟨id, state, duration, media, info, options, next, volume, level, message⟩ := c
  cases level <;> cases volume <;> rfl

theorem volumeTold_getD (c : Change) (old : Option Int) :
    (volumeTold c).getD old =
      if c.level.isSome ∨ c.volume.isSome then c.level.or (c.volume.bind Value.signed?)
      else old := by
  rw [volumeTold_eq]
  split <;> rfl

theorem volumeTold_toList (c : Change) :
    ((volumeTold c).map Event.volumeChanged).toList =
      if c.level.isSome ∨ c.volume.isSome then
        [.volumeChanged (c.level.or (c.volume.bind Value.signed?))]
      else [] := by
  rw [volumeTold_eq]
  split <;> rfl

/-- Each field of a change that is present is kept and told as it comes, in this order and with the
entry that the change names, and one that is absent stays as it was and is not told. An entry of -1
does not count as next; of the volume the level goes first, and one that is no integer is none. A
change without a known duration ends what was playing. While connected, a player that can list is
asked for the page of the entry. What becomes of a field does not depend on the others. -/
theorem fields_of_a_change_are_independent (run : Run ρ) (m : Moment ρ)
    (hm : m.before = run.player) (c : Change) (hc : m.content? = some (.change c)) :
    m.after.cache =
      { id := c.id.or m.before.cache.id
        state := c.state.getD m.before.cache.state
        duration := c.knownDuration.or
          (if m.before.isPolling then none else m.before.cache.duration)
        position := m.before.cache.position
        media := c.media.or m.before.cache.media
        info := c.info.or m.before.cache.info
        options := (c.options.map Wire.optionNames).getD m.before.cache.options
        next := (c.next.filter (· ≠ -1)).or m.before.cache.next
        volume := if c.level.isSome ∨ c.volume.isSome then c.level.or (c.volume.bind Value.signed?)
          else m.before.cache.volume
        list := m.before.cache.list } ∧
    (∃ i, m.inbound? = some i ∧
      m.events = if run.observer = .live then
        (c.state.map (.stateChanged c.id)).toList ++
        ((c.knownDuration.or (if m.before.isPolling then some .zero else none)).map
          (.durationChanged c.id .zero)).toList ++
        (c.media.map (.mediaChanged c.id)).toList ++
        (c.info.map (.infoChanged c.id)).toList ++
        (c.options.map fun o => .optionsChanged c.id (Wire.optionNames o)).toList ++
        ((c.next.filter (· ≠ -1)).map .nextChanged).toList ++
        (if c.level.isSome ∨ c.volume.isSome then
          [.volumeChanged (c.level.or (c.volume.bind Value.signed?))]
        else []) ++
        (if run.forwards then [.message i.message] else [])
      else []) ∧
    ∃ asked : Option Request,
      m.queued = asked.toList ∧
      m.after.rpc.outbox = m.before.rpc.outbox ++ asked.toList.map Rpc.encode ∧
      ∀ q, asked = some q ↔ ∃ n : Nat, c.id = some (n : Int) ∧
        m.before.capabilities.contains .list = true ∧ m.before.isConnected = true ∧
        q = .new m.before.rpc.nextId "list"
          (.object [("first", .integer (Window.pageOf n m.before.pageSize).first),
            ("maxitems", .integer (Window.pageOf n m.before.pageSize).maxitems)]) := by
  have ho : m.before.rpc.Orderly := hm ▸ (run_tracks run).orderly
  have hmake := run_make run
  rw [← hm] at hmake
  refine ⟨?_, ?_, ?_⟩
  · have hcache : m.after.cache = m.before.cacheChanged c := (Moment.course_of_content hc).1
    rw [hcache, cacheChanged, volumeTold_getD]
    rfl
  · obtain ⟨i, hi, hevents⟩ := Moment.events_of_content hc
    refine ⟨i, hi, ?_⟩
    have hgives : eventsIn (m.deedOf (.change c)).gives = m.before.changeTold c := eventsIn_map _
    rw [hevents, hgives, changeTold, volumeTold_toList, Change.normalizedOptions, Option.map_map,
      forwarded, hmake.observer, hmake.forwards]
    rfl
  · obtain ⟨hqueued, hframes⟩ := Moment.queues_of_content ho hc
    obtain ⟨text, -, -, hinput, -⟩ := Moment.arrival_of_content hc
    have hleft : m.framesLeft = m.before.rpc.outbox := by simp only [Moment.framesLeft, hinput]
    refine ⟨_, hqueued, hleft ▸ hframes, ?_⟩
    intro q
    simp only [Option.bind_eq_some_iff, followUp_change, requestFor,
      Option.ite_none_right_eq_some, Option.some.injEq]
    constructor
    · rintro ⟨_, ⟨n, hid, hlist, rfl⟩, hopen, rfl⟩
      exact ⟨n, hid, hlist, hopen, rfl⟩
    · rintro ⟨n, hid, hlist, hopen, rfl⟩
      exact ⟨_, ⟨n, hid, hlist, rfl⟩, hopen, rfl⟩

def playing : Run Unit :=
  ⟨5, 1000, false, .live,
    [(0, .opened),
     (1, .receive <| Value.text <| .object
       [("id", .integer 0),
        ("result", .object [("actions", .array [.object [("method", .string "list")]])])]),
     (2, .receive <| Value.text <| .object
       [("method", .string "onchange"),
        ("params", .object [("duration", .integer 180), ("next", .integer 3),
          ("level", .integer 42)])])]⟩

/-- The next track plays and none comes after it; how long it lasts is not told. -/
def trackPlays : Moment Unit :=
  ⟨playing.player, 3, .receive <| Value.text <| .object
    [("method", .string "onchange"),
     ("params", .object [("id", .integer 7), ("state", .string "play"), ("next", .integer (-1)),
       ("volume", .string "loud")])]⟩

/-- The entry and the state are kept, the duration and the volume are none, what was next stays, and
the page of the entry is asked for. -/
theorem fields_when_a_track_plays :
    trackPlays.before = playing.player ∧
      ∃ c, trackPlays.content? = some (.change c) ∧
        trackPlays.after.cache.id = some 7 ∧
        trackPlays.after.cache.state = .play ∧
        trackPlays.after.cache.duration = none ∧
        trackPlays.after.cache.next = some 3 ∧
        trackPlays.after.cache.volume = none ∧
        trackPlays.queued =
          [.new 1 "list" (.object [("first", .integer 5), ("maxitems", .integer 5)])] := by
  have hread : trackPlays.change?.map (fun c =>
        ((c.id, c.state, c.next), c.knownDuration.isNone, c.volume.isSome,
          c.level.or (c.volume.bind Value.signed?))) =
      some ((some 7, some .play, some (-1)), true, true, none) := by decide +kernel
  obtain ⟨c, hchange, hfields⟩ := Option.map_eq_some_iff.mp hread
  have hc := Moment.change?_eq_some.mp hchange
  simp only [Prod.mk.injEq, Option.isNone_iff_eq_none] at hfields
  obtain ⟨⟨hid, hstate, hnext⟩, hduration, hvolume, hlevel⟩ := hfields
  obtain ⟨hpolling, hbefore, hlist, hopen, hnumber, hsize⟩ :
      trackPlays.before.isPolling = true ∧ trackPlays.before.cache.next = some 3 ∧
        trackPlays.before.capabilities.contains .list = true ∧
        trackPlays.before.isConnected = true ∧ trackPlays.before.rpc.nextId = 1 ∧
        trackPlays.before.pageSize = 5 := by decide +kernel
  have hm : trackPlays.before = playing.player := by simp only [trackPlays]
  obtain ⟨hcache, -, asked, hqueued, -, hasked⟩ :=
    fields_of_a_change_are_independent playing trackPlays hm c hc
  have hpage : asked = some (.new 1 "list"
      (.object [("first", .integer 5), ("maxitems", .integer 5)])) :=
    (hasked _).mpr ⟨7, hid, hlist, hopen, by rw [hnumber, hsize]; rfl⟩
  refine ⟨hm, c, hc, ?_, ?_, ?_, ?_, ?_, ?_⟩
  · rw [hcache, hid]
    rfl
  · rw [hcache, hstate]
    rfl
  · rw [hcache, hduration, hpolling]
    rfl
  · rw [hcache, hnext, hbefore]
    rfl
  · rw [hcache]
    simp [hvolume, hlevel]
  · rw [hqueued, hpage]
    rfl

end Player
end MediaRemote.Session
