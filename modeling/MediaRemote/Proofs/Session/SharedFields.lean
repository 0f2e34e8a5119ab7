import MediaRemote.Proofs.Session.Changes
import MediaRemote.Proofs.Session.Reports

namespace MediaRemote.Session

open Json (Value)
open Wire (Change PlaybackState)

variable {ρ α β : Type}

structure Reported (α β : Type) where
  field : Cache → β
  /-- What is kept of a value that comes in. -/
  keep : α → β
  /-- What is told of a value that comes in. -/
  tell : α → Event
  /-- Events of this kind tell of the field. -/
  tells : Event → Bool
  tells_tell (a : α) : tells (tell a) = true
  tells_message (message : Wire.Message) : tells (.message message) = false

namespace Reported

def state (id : Option Int) : Reported PlaybackState PlaybackState where
  field := Cache.state
  keep := fun state => state
  tell := .stateChanged id
  tells := fun e => e.state?.isSome
  tells_tell := by simp
  tells_message := by simp

def next : Reported Int (Option Int) where
  field := Cache.next
  keep := some
  tell := .nextChanged
  tells := fun e => e.next?.isSome
  tells_tell := by simp
  tells_message := by simp

def volume : Reported (Option Int) (Option Int) where
  field := Cache.volume
  keep := fun level => level
  tell := .volumeChanged
  tells := fun e => e.volume?.isSome
  tells_tell := by simp
  tells_message := by simp

end Reported

def Content.volume? : Content → Option Change
  | .volume c => some c
  | _ => none

theorem Content.volume?_eq_some {content : Content} {c : Change} :
    content.volume? = some c ↔ content = .volume c := by
  cases content <;> simp [Content.volume?]

namespace Player

/-- The value is kept and told, once; if there is none the field stays as it was and nothing is told
of it. -/
structure Moment.Takes (m : Moment ρ) (r : Reported α β) (o : Option α) : Prop where
  kept : r.field m.after.cache = (o.map r.keep).getD (r.field m.before.cache)
  told : m.events.filter r.tells =
    if m.before.observer = .live then (o.map r.tell).toList else []

theorem filter_told {tells : Event → Bool} {f : α → Event} (h : ∀ a, tells (f a) = true)
    (o : Option α) : (o.map f).toList.filter tells = (o.map f).toList := by
  cases o <;> simp [h]

theorem filter_untold {tells : Event → Bool} {f : α → Event} (h : ∀ a, tells (f a) = false)
    (o : Option α) : (o.map f).toList.filter tells = [] := by
  cases o <;> simp [h]

namespace Moment

variable {m : Moment ρ} {content : Content} {c : Change}

/-- A field is taken in as the deed of the content keeps and tells it. -/
theorem takes_of_content (hc : m.content? = some content) {r : Reported α β} {o : Option α}
    (hkept : r.field (m.deedOf content).cache = (o.map r.keep).getD (r.field m.before.cache))
    (htold : (eventsIn (m.deedOf content).gives).filter r.tells = (o.map r.tell).toList) :
    m.Takes r o := by
  constructor
  · rw [(course_of_content hc).1, hkept]
  · obtain ⟨i, -, hevents⟩ := events_of_content hc
    have hforwarded : (m.before.forwarded i).filter r.tells = [] := by
      unfold forwarded
      split <;> simp [r.tells_message]
    rw [hevents]
    split
    · rw [List.filter_append, htold, hforwarded, List.append_nil]
    · rfl

/-- Of a field that a change brings, only its own event tells. -/
theorem takes_of_change (hc : m.content? = some (.change c)) {r : Reported α β} {o : Option α}
    (hkept : r.field (m.before.cacheChanged c) = (o.map r.keep).getD (r.field m.before.cache))
    (htold : (m.before.changeTold c).filter r.tells = (o.map r.tell).toList) : m.Takes r o := by
  apply takes_of_content hc hkept
  rw [← htold]
  exact congrArg (List.filter r.tells) (eventsIn_map _)

theorem state_of_change (hc : m.content? = some (.change c)) :
    m.Takes (.state c.id) c.state := by
  apply takes_of_change hc
  · simp [Reported.state, cacheChanged]
  · simp [Reported.state, changeTold, filter_told, filter_untold]

theorem next_of_change (hc : m.content? = some (.change c)) : m.Takes .next (nextTold c) := by
  apply takes_of_change hc
  · simp only [Reported.next, cacheChanged]
    cases nextTold c <;> rfl
  · simp [Reported.next, changeTold, filter_told, filter_untold]

theorem volume_of_change (hc : m.content? = some (.change c)) :
    m.Takes .volume (volumeTold c) := by
  apply takes_of_change hc
  · simp [Reported.volume, cacheChanged]
  · simp [Reported.volume, changeTold, filter_told, filter_untold]

theorem state_of_answer (hc : m.content? = some (.state c)) :
    m.Takes (.state c.id) c.state := by
  apply takes_of_content hc <;>
  · simp only [deedOf, deed, stateDeed]
    cases c.state <;> rfl

theorem next_of_answer (hc : m.content? = some (.next c)) : m.Takes .next c.next := by
  apply takes_of_content hc <;>
  · simp only [deedOf, deed, nextDeed]
    cases c.next <;> rfl

theorem volume_of_answer (hc : m.content? = some (.volume c)) :
    m.Takes .volume (some c.volumeLevel) := by
  apply takes_of_content hc <;> rfl

end Moment

/-- A state is taken in alike from a change and from the answer to a command, and so are a next
entry other than -1 and a volume; and from either, one that is absent leaves the field as it was and
is not told, but for the volume. A next entry of -1 is none in a change, but is kept and told when
it is the answer; a change without volume leaves the volume as it was, but after an answer without
one there is none, and that is told. -/
theorem slots_take_fields_alike (m : Moment ρ) (c : Change) :
    (m.content? = some (.change c) ∨ m.content? = some (.state c) →
      m.Takes (.state c.id) c.state) ∧
    (m.content? = some (.change c) ∨ m.content? = some (.next c) → c.next ≠ some (-1) →
      m.Takes .next c.next) ∧
    (m.content? = some (.change c) ∨ m.content? = some (.volume c) →
      c.level.isSome ∨ c.volume.isSome →
      m.Takes .volume (some (c.level.or (c.volume.bind Value.signed?)))) ∧
    (m.content? = some (.change c) → c.level = none → c.volume = none → m.Takes .volume none) ∧
    (c.next = some (-1) →
      (m.content? = some (.change c) → m.Takes .next none) ∧
      (m.content? = some (.next c) → m.Takes .next (some (-1)))) ∧
    (m.content? = some (.volume c) → c.level = none → c.volume = none →
      m.Takes .volume (some none)) := by
  refine ⟨?_, ?_, ?_, ?_, ?_, ?_⟩
  · rintro (hc | hc)
    · exact Moment.state_of_change hc
    · exact Moment.state_of_answer hc
  · rintro (hc | hc) hnext
    · have htaken := Moment.next_of_change hc
      have hkept : nextTold c = c.next := by
        unfold nextTold
        cases hn : c.next <;> simp_all
      rwa [hkept] at htaken
    · exact Moment.next_of_answer hc
  · rintro (hc | hc) hpresent
    · have htaken := Moment.volume_of_change hc
      rwa [volumeTold_eq, if_pos hpresent] at htaken
    · have htaken := Moment.volume_of_answer hc
      rwa [Change.volumeLevel, Option.orElse_eq_or] at htaken
  · intro hc hlevel hvolume
    have htaken := Moment.volume_of_change hc
    rwa [volumeTold_eq, if_neg (by simp [hlevel, hvolume])] at htaken
  · intro hnext
    constructor
    · intro hc
      have htaken := Moment.next_of_change hc
      rwa [nextTold, hnext] at htaken
    · intro hc
      have htaken := Moment.next_of_answer hc
      rwa [hnext] at htaken
  · intro hc hlevel hvolume
    have htaken := Moment.volume_of_answer hc
    rwa [Change.volumeLevel, hlevel, hvolume] at htaken

def loud : Run Unit :=
  ⟨5, 1000, false, .live,
    [(0, .opened),
     (1, .receive <| Value.text <| .object
       [("id", .integer 0),
        ("result", .object [("actions", .array [.object [("method", .string "volume")]])])]),
     (2, .receive <| Value.text <| .object
       [("method", .string "onchange"), ("params", .object [("level", .integer 42)])])]⟩

def withoutVolume (method : String) : Moment Unit :=
  ⟨loud.player, 3, .receive <| Value.text <| .object
    [("method", .string method), ("params", .object [("id", .integer 3)])]⟩

/-- Without volume, a change leaves the volume as it was, and after an answer there is none. -/
theorem volume_is_lost_by_an_answer :
    (withoutVolume "onchange").before.cache.volume = some 42 ∧
      (withoutVolume "onchange").after.cache.volume = some 42 ∧
      (withoutVolume "onchange").events.filter Reported.volume.tells = [] ∧
      (withoutVolume "volume").before.cache.volume = some 42 ∧
      (withoutVolume "volume").after.cache.volume = none ∧
      (withoutVolume "volume").events.filter Reported.volume.tells = [.volumeChanged none] := by
  have hknown (method : String) : (withoutVolume method).before.cache.volume = some 42 ∧
      (withoutVolume method).before.observer = .live := by
    have hplayer : loud.player.cache.volume = some 42 ∧ loud.player.observer = .live := by
      decide +kernel
    simpa only [withoutVolume] using hplayer
  have hchange : (withoutVolume "onchange").change?.any
      (fun c => c.level.isNone && c.volume.isNone) = true := by decide +kernel
  have hanswer : ((withoutVolume "volume").content?.bind Content.volume?).any
      (fun c => c.level.isNone && c.volume.isNone) = true := by decide +kernel
  have hkept (m : Moment Unit) {o : Option (Option Int)} (h : m.Takes .volume o) :
      m.after.cache.volume = o.getD m.before.cache.volume := by
    simpa [Reported.volume] using h.kept
  have hleft : (withoutVolume "onchange").Takes .volume none := by
    obtain ⟨c, hc, habsent⟩ := (Option.any_eq_true _ _).mp hchange
    simp only [Bool.and_eq_true, Option.isNone_iff_eq_none] at habsent
    obtain ⟨-, -, -, hnone, -⟩ := slots_take_fields_alike (withoutVolume "onchange") c
    exact hnone (Moment.change?_eq_some.mp hc) habsent.1 habsent.2
  have hlost : (withoutVolume "volume").Takes .volume (some none) := by
    obtain ⟨c, hc, habsent⟩ := (Option.any_eq_true _ _).mp hanswer
    obtain ⟨content, hcontent, hc⟩ := Option.bind_eq_some_iff.mp hc
    obtain rfl := Content.volume?_eq_some.mp hc
    simp only [Bool.and_eq_true, Option.isNone_iff_eq_none] at habsent
    obtain ⟨-, -, -, -, -, hnone⟩ := slots_take_fields_alike (withoutVolume "volume") c
    exact hnone hcontent habsent.1 habsent.2
  refine ⟨(hknown _).1, ?_, ?_, (hknown _).1, ?_, ?_⟩
  · rw [hkept _ hleft, (hknown _).1]
    rfl
  · rw [hleft.told, if_pos (hknown _).2]
    rfl
  · rw [hkept _ hlost]
    rfl
  · rw [hlost.told, if_pos (hknown _).2]
    rfl

end Player
end MediaRemote.Session
