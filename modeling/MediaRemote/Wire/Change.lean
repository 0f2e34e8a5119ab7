import MediaRemote.Wire.PlaybackState
import MediaRemote.Wire.Options

namespace MediaRemote.Wire

open Json (Value Decoder)

/-- An absent field means that nothing changed. A field of another type than its own counts as
absent and leaves the others alone. -/
structure Change where
  id : Option Int
  state : Option PlaybackState
  duration : Option Binary64
  media : Option Value
  info : Option Value
  options : Option Value
  /-- Entry that plays next; -1 stands for none. -/
  next : Option Int
  volume : Option Value
  level : Option Int
  message : Option Value
  deriving Inhabited

namespace Change

def blank : Change := ⟨none, none, none, none, none, none, none, none, none, none⟩

def fields : List (Decoder.Field Change) :=
  [.optional "id" (.lenient (.option .signed)) fun c v => { c with id := v },
   .optional "state" (.lenient (.option PlaybackState.decoder)) fun c v => { c with state := v },
   .optional "duration" (.lenient (.option .double)) fun c v => { c with duration := v },
   .optional "media" (.option .value) fun c v => { c with media := v },
   .optional "info" (.option .value) fun c v => { c with info := v },
   .optional "options" (.option .value) fun c v => { c with options := v },
   .optional "next" (.lenient (.option .signed)) fun c v => { c with next := v },
   .optional "volume" (.option .value) fun c v => { c with volume := v },
   .optional "level" (.lenient (.option .signed)) fun c v => { c with level := v },
   .optional "message" (.option .value) fun c v => { c with message := v }]

def decoder : Decoder Change := .record blank fields

def orNull {α : Type} (f : α → Value) (a : Option α) : Value := (a.map f).getD .null

def toJson (c : Change) : Value :=
  .object
    [("id", orNull .integer c.id), ("state", orNull PlaybackState.toJson c.state),
     ("duration", orNull .double c.duration), ("media", c.media.getD .null),
     ("info", c.info.getD .null), ("options", c.options.getD .null),
     ("next", orNull .integer c.next), ("volume", c.volume.getD .null),
     ("level", orNull .integer c.level), ("message", c.message.getD .null)]

/-- A duration of zero means that nothing is playing. -/
def knownDuration (c : Change) : Option Binary64 := c.duration.filter (!·.isZero)

def volumeLevel (c : Change) : Option Int := c.level.orElse fun _ => c.volume.bind Value.signed?

def hasVolume (c : Change) : Bool := c.volume.isSome || c.level.isSome

def normalizedOptions (c : Change) : Option (List String) := c.options.map optionNames

end Change

structure Position where
  position : Option Binary64
  duration : Option Binary64

namespace Position

def decoder : Decoder Position :=
  .record ⟨none, none⟩
    [.optional "position" (.option .double) fun p v => { p with position := v },
     .optional "duration" (.option .double) fun p v => { p with duration := v }]

def toJson (p : Position) : Value :=
  .object [("position", Change.orNull .double p.position),
    ("duration", Change.orNull .double p.duration)]

/-- A missing or negative position means that playback has ended. -/
def isEndOfStream (p : Position) : Bool := !p.position.any Binary64.isNonnegative

end Position
end MediaRemote.Wire
