import MediaRemote.Bar.CommandBar
import MediaRemote.Console.Report
import MediaRemote.Text.Utf8

namespace MediaRemote.Console

open Bar (CommandBar Load)
open Session (Event)

/-- Events are reported and lines of input are turned into commands, until neither is left or nobody
takes commands any more. -/
structure Desk where
  bar : CommandBar
  /-- Bytes of a line that has not ended yet, last first. -/
  partialLine : List UInt8
  reading : Bool
  receiving : Bool
  /-- Does anyone take commands? -/
  taken : Bool
  finished : Bool

structure Shown where
  commands : List Command
  lines : List Line
  loads : List Load

namespace Shown

def nothing : Shown := ⟨[], [], []⟩

def append (a b : Shown) : Shown :=
  ⟨a.commands ++ b.commands, a.lines ++ b.lines, a.loads ++ b.loads⟩

end Shown

namespace Desk

def new (bar : CommandBar) : Desk := ⟨bar, [], true, true, true, false⟩

def settle (d : Desk) : Desk := { d with finished := d.finished || !(d.reading || d.receiving) }

def commandOf (d : Desk) (line : String) : Except CommandFault Command :=
  match d.bar.listen line with
  | some c => .ok c
  | none => Command.parse line

def line (d : Desk) (text : String) : Desk × Shown :=
  let text := Text.trim text
  if text.isEmpty then (d, .nothing)
  else
    match d.commandOf text with
    | .ok c =>
      if d.taken then (d, ⟨[c], [], []⟩) else ({ d with finished := true }, .nothing)
    | .error fault => (d, ⟨[], [⟨.warn, fault.error.message⟩], []⟩)

/-- Takes the bytes of a line with what ends it; input that is no text cannot be read on. -/
def lineBytes (d : Desk) (bytes : List UInt8) : Desk × Shown :=
  match Text.decodeUtf8 bytes with
  | .ok text => d.line text
  | .error fault =>
    ({ d with reading := false }, ⟨[], [⟨.error, "error reading input: " ++ fault.message⟩], []⟩)

def listens (d : Desk) : Bool := d.reading && !d.finished

def input (d : Desk) : List UInt8 → Desk × Shown
  | [] => (d.settle, .nothing)
  | b :: rest =>
    if !d.listens then (d.settle, .nothing)
    else if b = 10 then
      let (d, shown) := { d with partialLine := [] }.lineBytes (b :: d.partialLine).reverse
      let (d, more) := d.input rest
      (d, shown.append more)
    else { d with partialLine := b :: d.partialLine }.input rest

/-- The input ends; what was left of a line counts as one. -/
def endInput (d : Desk) : Desk × Shown :=
  if !d.listens then (d.settle, .nothing)
  else
    let (d, shown) :=
      if d.partialLine.isEmpty then (d, .nothing)
      else { d with partialLine := [] }.lineBytes d.partialLine.reverse
    ({ d with reading := false }.settle, shown)

def event (d : Desk) (e : Event) : Desk × Shown :=
  if d.finished || !d.receiving then (d, .nothing)
  else
    let (bar, control) := d.bar.handle e
    ({ d with bar := bar },
      ⟨[], (report e).toList, (control.map fun c => ⟨bar.id, some c⟩).toList⟩)

def endEvents (d : Desk) : Desk := { d with receiving := false }.settle

def endCommands (d : Desk) : Desk := { d with taken := false }

end Desk
end MediaRemote.Console
