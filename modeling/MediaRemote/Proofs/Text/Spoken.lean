import MediaRemote.Command
import MediaRemote.Proofs.Text.Numerals
import MediaRemote.Proofs.Text.Words

namespace MediaRemote

open Results
open Text (IsWord IntegerNumeral Layout NaturalNumeral words_eq_iff)
open Wire (WindowQuery)

def CommandFault.inLine (line : String) : CommandFault → CommandFault
  | unknown _ => unknown line
  | trailing _ => trailing line
  | fault => fault

theorem CommandFault.error_kind (fault : CommandFault) : fault.error.kind = .invalidArgument := by
  cases fault <;> rfl

namespace Command

def switchWord (on : Bool) : String := if on then "on" else "off"

/-- What a list of words asks for. -/
inductive Spoken : List String → Command → Prop
  | play : Spoken ["play"] play
  | pause : Spoken ["pause"] pause
  | stop : Spoken ["stop"] stop
  | next : Spoken ["next"] next
  | status {verb} (hv : verb = "status" ∨ verb = "about") : Spoken [verb] (about none)
  | about {w n} (numeral : IntegerNumeral w.toList n) (range : IsSigned64 n) :
    Spoken ["about", w] (about (some n))
  | load : Spoken ["load"] load
  | list : Spoken ["list"] (list WindowQuery.blank)
  | listAt {w n} (numeral : NaturalNumeral w.toList n) (range : n < bound64) :
    Spoken ["list", w] (list { WindowQuery.blank with id := some n })
  | shuffle {verb} (hv : verb = "random" ∨ verb = "shuffle") (on) :
    Spoken [verb, switchWord on] (shuffle on)
  | loop {verb} (hv : verb = "repeat" ∨ verb = "loop") (on) : Spoken [verb, switchWord on] (loop on)
  | volume : Spoken ["volume"] (volume none)
  | louder : Spoken ["volume", "up"] (volume (some 5))
  | quieter : Spoken ["volume", "down"] (volume (some (-5)))
  | volumeBy {w n} (numeral : IntegerNumeral w.toList n) (range : IsSigned64 n) :
    Spoken ["volume", w] (volume (some n))
  | connect (w) : Spoken ["connect", w] (changePlayer w)
  | reconnect : Spoken ["reconnect"] reconnect
  | quit {verb} (hv : verb = "quit" ∨ verb = "exit") : Spoken [verb] quit

theorem signed_eq_ok {w : String} {n : Int} :
    signed w = .ok n ↔ IntegerNumeral w.toList n ∧ IsSigned64 n :=
  mapError_eq_ok.trans Text.signed_eq_ok

theorem unsigned_eq_ok {w : String} {n : Nat} :
    unsigned w = .ok n ↔ NaturalNumeral w.toList n ∧ n < bound64 :=
  mapError_eq_ok.trans Text.unsigned_eq_ok

theorem switch_eq_ok {verb : String} {a : Option String} {on : Bool} :
    switch verb a = .ok on ↔ a = some (switchWord on) := by
  unfold switch
  split <;> cases on <;> simp_all [switchWord]

/-- A verb, with its argument if it has one. -/
theorem spoken_of_choose {line verb : String} {a : Option String} {c : Command}
    (h : choose line verb a = .ok c) : Spoken (verb :: a.toList) c := by
  unfold choose at h
  split at h
  case h_5 | h_6 =>
    cases h
    exact .status (by simp)
  case h_7 =>
    obtain ⟨n, hn, rfl⟩ := map_eq_ok.mp h
    obtain ⟨hnumeral, hrange⟩ := signed_eq_ok.mp hn
    exact .about hnumeral hrange
  case h_10 =>
    obtain ⟨n, hn, rfl⟩ := map_eq_ok.mp h
    obtain ⟨hnumeral, hrange⟩ := unsigned_eq_ok.mp hn
    exact .listAt hnumeral hrange
  case h_11 | h_12 =>
    obtain ⟨on, hon, rfl⟩ := map_eq_ok.mp h
    rw [switch_eq_ok.mp hon]
    exact .shuffle (by simp) on
  case h_13 | h_14 =>
    obtain ⟨on, hon, rfl⟩ := map_eq_ok.mp h
    rw [switch_eq_ok.mp hon]
    exact .loop (by simp) on
  case h_18 =>
    obtain ⟨n, hn, rfl⟩ := map_eq_ok.mp h
    obtain ⟨hnumeral, hrange⟩ := signed_eq_ok.mp hn
    exact .volumeBy hnumeral hrange
  case h_21 | h_22 =>
    cases h
    exact .quit (by simp)
  case h_23 => cases h
  all_goals
    cases h
    constructor

/-- No word for a step of the volume is a numeral. -/
theorem ne_of_numeral {w : String} {n : Int} (h : IntegerNumeral w.toList n) :
    w ≠ "up" ∧ w ≠ "down" := by
  have hstart (c : Char) (rest : List Char) (hw : w.toList = c :: rest) :
      c.isDigit = true ∨ c = '+' ∨ c = '-' := by
    rw [hw] at h
    cases h with
    | minus => simp
    | natural hnatural =>
      cases hnatural with
      | plus => simp
      | plain hdecimal => exact .inl (hdecimal.digits c (by simp))
  constructor
  · rintro rfl
    exact absurd (hstart 'u' ['p'] rfl) (by decide)
  · rintro rfl
    exact absurd (hstart 'd' ['o', 'w', 'n'] rfl) (by decide)

theorem choose_of_spoken {ws : List String} {c : Command} (h : Spoken ws c) (line : String) :
    ∃ verb a, ws = verb :: a.toList ∧ choose line verb a = .ok c := by
  cases h with
  | status hv =>
    rcases hv with rfl | rfl
    · exact ⟨"status", none, rfl, rfl⟩
    · exact ⟨"about", none, rfl, rfl⟩
  | @about w n hnumeral hrange =>
    have hn := signed_eq_ok.mpr ⟨hnumeral, hrange⟩
    exact ⟨"about", some w, rfl, map_eq_ok.mpr ⟨n, hn, rfl⟩⟩
  | @listAt w n hnumeral hrange =>
    have hn := unsigned_eq_ok.mpr ⟨hnumeral, hrange⟩
    exact ⟨"list", some w, rfl, map_eq_ok.mpr ⟨n, hn, rfl⟩⟩
  | shuffle hv on =>
    have hon : ∀ verb, switch verb (some (switchWord on)) = .ok on := fun _ => switch_eq_ok.mpr rfl
    rcases hv with rfl | rfl
    · exact ⟨"random", some (switchWord on), rfl, map_eq_ok.mpr ⟨on, hon _, rfl⟩⟩
    · exact ⟨"shuffle", some (switchWord on), rfl, map_eq_ok.mpr ⟨on, hon _, rfl⟩⟩
  | loop hv on =>
    have hon : ∀ verb, switch verb (some (switchWord on)) = .ok on := fun _ => switch_eq_ok.mpr rfl
    rcases hv with rfl | rfl
    · exact ⟨"repeat", some (switchWord on), rfl, map_eq_ok.mpr ⟨on, hon _, rfl⟩⟩
    · exact ⟨"loop", some (switchWord on), rfl, map_eq_ok.mpr ⟨on, hon _, rfl⟩⟩
  | louder => exact ⟨"volume", some "up", rfl, rfl⟩
  | quieter => exact ⟨"volume", some "down", rfl, rfl⟩
  | @volumeBy w n hnumeral hrange =>
    obtain ⟨hup, hdown⟩ := ne_of_numeral hnumeral
    refine ⟨"volume", some w, rfl, ?_⟩
    simp only [choose]
    exact map_eq_ok.mpr ⟨n, signed_eq_ok.mpr ⟨hnumeral, hrange⟩, rfl⟩
  | connect w => exact ⟨"connect", some w, rfl, rfl⟩
  | quit hv =>
    rcases hv with rfl | rfl
    · exact ⟨"quit", none, rfl, rfl⟩
    · exact ⟨"exit", none, rfl, rfl⟩
  | _ => exact ⟨_, none, rfl, rfl⟩

/-- A fault names the line and is otherwise that of the words. -/
theorem choose_inLine (line other verb : String) (a : Option String) :
    choose other verb a = (choose line verb a).mapError (·.inLine other) := by
  have hsigned {f : Int → Command} (w : String) :
      (signed w).map f = ((signed w).map f).mapError (·.inLine other) := by
    unfold signed
    cases Text.signed w <;> rfl
  have hunsigned {f : Nat → Command} (w : String) :
      (unsigned w).map f = ((unsigned w).map f).mapError (·.inLine other) := by
    unfold unsigned
    cases Text.unsigned w <;> rfl
  have hswitch {f : Bool → Command} (verb : String) (a : Option String) :
      (switch verb a).map f = ((switch verb a).map f).mapError (·.inLine other) := by
    unfold switch
    split <;> rfl
  unfold choose
  split <;> first | rfl | exact hsigned _ | exact hunsigned _ | exact hswitch _ _

theorem parse_eq_ok {line : String} {c : Command} :
    parse line = .ok c ↔ Spoken (Text.words line) c := by
  have hunasked : choose line "" none = .error (.unknown line) := rfl
  unfold parse
  constructor
  · intro h
    -- only lines of one or two words get as far as that
    rcases hws : Text.words line with _ | ⟨verb, _ | ⟨a, _ | ⟨b, rest⟩⟩⟩ <;> rw [hws] at h
    · simp [hunasked] at h
    · cases hc : choose line verb none with
      | error fault => simp [hc] at h
      | ok d =>
        obtain rfl : d = c := by simpa [hc] using h
        exact spoken_of_choose hc
    · cases hc : choose line verb (some a) with
      | error fault => simp [hc] at h
      | ok d =>
        obtain rfl : d = c := by simpa [hc] using h
        exact spoken_of_choose hc
    · cases hc : choose line verb (some a) <;> simp [hc] at h
  · intro h
    obtain ⟨verb, a, hws, hc⟩ := choose_of_spoken h line
    rw [hws]
    cases a <;> simp [hc]

theorem parse_inLine {line other : String} (h : Text.words other = Text.words line) :
    parse other = (parse line).mapError (·.inLine other) := by
  unfold parse
  simp only [h]
  rw [choose_inLine line other]
  cases choose line ((Text.words line).head?.getD "") (Text.words line)[1]? with
  | error fault => rfl
  | ok c =>
    change (if _ then _ else _) = Except.mapError _ (if _ then _ else _)
    split
    all_goals rfl

def spelling? : Command → Option (List String)
  | play => some ["play"]
  | pause => some ["pause"]
  | stop => some ["stop"]
  | next => some ["next"]
  | volume none => some ["volume"]
  | volume (some n) => if IsSigned64 n then some ["volume", toString n] else none
  | shuffle on => some ["shuffle", switchWord on]
  | loop on => some ["repeat", switchWord on]
  | filter _ => none
  | change _ => none
  | about none => some ["about"]
  | about (some n) => if IsSigned64 n then some ["about", toString n] else none
  | list ⟨none, none, none⟩ => some ["list"]
  | list ⟨none, none, some n⟩ => if n < bound64 then some ["list", toString n] else none
  | list _ => none
  | load => some ["load"]
  | changePlayer url => if IsWord url then some ["connect", url] else none
  | reconnect => some ["reconnect"]
  | quit => some ["quit"]

theorem spoken_of_spelling {c : Command} {ws : List String} (h : c.spelling? = some ws) :
    Spoken ws c ∧ ∀ w ∈ ws, IsWord w := by
  have hpair {verb w : String} (hverb : IsWord verb) (hw : IsWord w) :
      ∀ v ∈ [verb, w], IsWord v := by simpa using ⟨hverb, hw⟩
  have hnumeral (n : Int) : IntegerNumeral (toString n).toList n := Text.integerNumeral_toString n
  have hswitch (on : Bool) : IsWord (switchWord on) := by
    cases on
    all_goals decide
  unfold spelling? at h
  split at h
  case h_6 n =>
    obtain ⟨hrange, ⟨⟩⟩ := Option.ite_none_right_eq_some.mp h
    exact ⟨.volumeBy (hnumeral n) hrange, hpair (by decide) (Text.isWord_of_numeral (hnumeral n))⟩
  case h_7 on =>
    cases h
    exact ⟨.shuffle (by simp) on, hpair (by decide) (hswitch on)⟩
  case h_8 on =>
    cases h
    exact ⟨.loop (by simp) on, hpair (by decide) (hswitch on)⟩
  case h_11 =>
    cases h
    exact ⟨.status (by simp), by decide⟩
  case h_12 n =>
    obtain ⟨hrange, ⟨⟩⟩ := Option.ite_none_right_eq_some.mp h
    exact ⟨.about (hnumeral n) hrange, hpair (by decide) (Text.isWord_of_numeral (hnumeral n))⟩
  case h_14 n =>
    obtain ⟨hrange, ⟨⟩⟩ := Option.ite_none_right_eq_some.mp h
    have hnatural := Text.naturalNumeral_toString n
    exact ⟨.listAt hnatural hrange,
      hpair (by decide) (Text.isWord_of_numeral (.natural hnatural))⟩
  case h_17 url =>
    obtain ⟨hurl, ⟨⟩⟩ := Option.ite_none_right_eq_some.mp h
    exact ⟨.connect url, hpair (by decide) hurl⟩
  case h_19 =>
    cases h
    exact ⟨.quit (by simp), by decide⟩
  all_goals
    cases h
  all_goals exact ⟨by constructor, by decide⟩

theorem spelling_of_spoken {c : Command} {ws : List String} (h : Spoken ws c)
    (hws : ∀ w ∈ ws, IsWord w) : c.spelling?.isSome = true := by
  cases h with
  | about _ hrange => simp [spelling?, hrange]
  | listAt _ hrange => simp [spelling?, WindowQuery.blank, hrange]
  | volumeBy _ hrange => simp [spelling?, hrange]
  | connect w =>
    have hw : IsWord w := hws w (by simp)
    simp [spelling?, hw]
  | louder => rfl
  | quieter => rfl
  | _ => rfl

/-- A line asks for a command by its words, which are a list that the grammar knows; any other line
is an invalid argument. Two lines of the same words ask for the same or have the same fault, each
naming its line. Exactly the commands that have words are asked for by lines, and each of them by
its words in any layout. -/
theorem commands_are_read_off_their_words :
    (∀ line c, parse line = .ok c ↔ ∃ ws, Layout ws line.toList ∧ Spoken ws c) ∧
    (∀ line, (∀ c ws, Layout ws line.toList → ¬ Spoken ws c) ↔
      ∃ fault, parse line = .error fault ∧ fault.error.kind = .invalidArgument) ∧
    (∀ line other ws, Layout ws line.toList → Layout ws other.toList →
      parse other = (parse line).mapError (·.inLine other)) ∧
    (∀ c, c.spelling?.isSome ↔ ∃ line, parse line = .ok c) ∧
    ∀ c ws line, c.spelling? = some ws → Layout ws line.toList → parse line = .ok c := by
  have hparse (line : String) (c : Command) :
      parse line = .ok c ↔ ∃ ws, Layout ws line.toList ∧ Spoken ws c := by
    rw [parse_eq_ok]
    constructor
    · intro h
      exact ⟨_, words_eq_iff.mp rfl, h⟩
    · rintro ⟨ws, hlayout, h⟩
      rwa [words_eq_iff.mpr hlayout]
  have hspelled (c : Command) (ws : List String) (line : String) (h : c.spelling? = some ws)
      (hlayout : Layout ws line.toList) : parse line = .ok c :=
    (hparse line c).mpr ⟨ws, hlayout, (spoken_of_spelling h).1⟩
  refine ⟨hparse, fun line => ?_, fun line other ws hline hother => ?_, fun c => ?_, hspelled⟩
  · constructor
    · intro h
      cases hc : parse line with
      | error fault => exact ⟨fault, rfl, fault.error_kind⟩
      | ok c =>
        obtain ⟨ws, hlayout, hspoken⟩ := (hparse line c).mp hc
        exact absurd hspoken (h c ws hlayout)
    · rintro ⟨fault, hfault, -⟩ c ws hlayout hspoken
      rw [(hparse line c).mpr ⟨ws, hlayout, hspoken⟩] at hfault
      cases hfault
  · exact parse_inLine ((words_eq_iff.mpr hother).trans (words_eq_iff.mpr hline).symm)
  · constructor
    · intro h
      obtain ⟨ws, hws⟩ := Option.isSome_iff_exists.mp h
      obtain ⟨s, hs⟩ := Text.exists_layout (spoken_of_spelling hws).2
      exact ⟨String.ofList s, hspelled c ws _ hws (by simpa using hs)⟩
    · rintro ⟨line, hline⟩
      obtain ⟨ws, hlayout, hspoken⟩ := (hparse line c).mp hline
      exact spelling_of_spoken hspoken hlayout.isWord

/-- The lowest volume step, behind a tab and before a line feed. -/
theorem volume_step_in_a_wide_layout :
    (volume (some (-9223372036854775808))).spelling? =
        some ["volume", "-9223372036854775808"] ∧
      parse "\tvolume   -9223372036854775808\n" = .ok (volume (some (-9223372036854775808))) := by
  have hspelling : (volume (some (-9223372036854775808))).spelling? =
      some ["volume", "-9223372036854775808"] := by decide +kernel
  have hlayout : Layout ["volume", "-9223372036854775808"]
      "\tvolume   -9223372036854775808\n".toList :=
    words_eq_iff.mp (by decide +kernel)
  obtain ⟨-, -, -, -, hspelled⟩ := commands_are_read_off_their_words
  exact ⟨hspelling, hspelled _ _ _ hspelling hlayout⟩

end Command
end MediaRemote
