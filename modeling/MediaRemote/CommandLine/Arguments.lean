import MediaRemote.Bar.CommandBar
import MediaRemote.Text.Integer

namespace MediaRemote.CommandLine

inductive Setting
  | config | url | origin | pageSize | reconnectDelay | id
  deriving DecidableEq, Repr

inductive Flag
  | quiet | verbose | help | version
  deriving DecidableEq, Repr

inductive Name
  | setting (s : Setting)
  | flag (f : Flag)
  deriving DecidableEq, Repr

structure Spelling where
  name : Name
  long : String
  letter : Option Char

def spellings : List Spelling :=
  [⟨.setting .config, "config", some 'c'⟩, ⟨.setting .url, "url", some 'u'⟩,
   ⟨.setting .origin, "origin", none⟩, ⟨.setting .pageSize, "page-size", none⟩,
   ⟨.setting .reconnectDelay, "reconnect-delay", none⟩, ⟨.setting .id, "id", none⟩,
   ⟨.flag .quiet, "quiet", some 'q'⟩, ⟨.flag .verbose, "verbose", some 'v'⟩,
   ⟨.flag .help, "help", some 'h'⟩, ⟨.flag .version, "version", some 'V'⟩]

def Name.ofLong? (long : String) : Option Name :=
  (spellings.find? (·.long == long)).map (·.name)

def Name.ofLetter? (letter : Char) : Option Name :=
  (spellings.find? (·.letter == some letter)).map (·.name)

inductive UsageFault
  | unknown (argument : String)
  | missingValue (setting : Setting)
  | notANumber (setting : Setting) (value : String)
  /-- An option that was given twice, or two that exclude each other. -/
  | conflict
  /-- A flag with a value. -/
  | unwantedValue (flag : Flag)
  | helpWanted
  | versionWanted
  deriving DecidableEq, Repr

structure Arguments where
  config : Option String
  url : Option String
  origin : Option String
  pageSize : Option Nat
  reconnectDelay : Option Nat
  id : Option String
  quiet : Bool
  verbose : Nat
  deriving DecidableEq, Repr

namespace Arguments

def none : Arguments := ⟨.none, .none, .none, .none, .none, .none, false, 0⟩

def barId (a : Arguments) : String := a.id.getD Bar.defaultId

def pageSizeOf (value : String) : Except UsageFault Nat :=
  match Text.signed value with
  | .ok n =>
    if 0 ≤ n ∧ n < bound32 then .ok n.toNat else .error (.notANumber .pageSize value)
  | .error _ => .error (.notANumber .pageSize value)

def delayOf (value : String) : Except UsageFault Nat :=
  (Text.unsigned value).mapError fun _ => .notANumber .reconnectDelay value

def once {α : Type} (old : Option α) (read : Except UsageFault α) : Except UsageFault (Option α) :=
  match old with
  | some _ => .error .conflict
  | .none => read.map some

def set (a : Arguments) (s : Setting) (value : String) : Except UsageFault Arguments :=
  match s with
  | .config => (once a.config (.ok value)).map fun v => { a with config := v }
  | .url => (once a.url (.ok value)).map fun v => { a with url := v }
  | .origin => (once a.origin (.ok value)).map fun v => { a with origin := v }
  | .pageSize => (once a.pageSize (pageSizeOf value)).map fun v => { a with pageSize := v }
  | .reconnectDelay =>
    (once a.reconnectDelay (delayOf value)).map fun v => { a with reconnectDelay := v }
  | .id => (once a.id (.ok value)).map fun v => { a with id := v }

def maxVerbose : Nat := 255

def raise (a : Arguments) (f : Flag) : Except UsageFault Arguments :=
  match f with
  | .quiet => if a.quiet then .error .conflict else .ok { a with quiet := true }
  | .verbose => .ok { a with verbose := min (a.verbose + 1) maxVerbose }
  | .help => .error .helpWanted
  | .version => .error .versionWanted

/-- Being quiet and being verbose exclude each other. -/
def check (a : Arguments) : Except UsageFault Arguments :=
  if a.quiet ∧ 0 < a.verbose then .error .conflict else .ok a

end Arguments

/-- A setting that was named apart from its value, with the value once it is there. -/
structure Pending where
  setting : Setting
  value : Option String
  deriving DecidableEq, Repr

structure Progress where
  arguments : Arguments
  pending : Option Pending
  /-- Behind `--` nothing is an option. -/
  literal : Bool
  deriving DecidableEq, Repr

namespace Progress

def start : Progress := ⟨.none, none, false⟩

def settle (p : Progress) : Except UsageFault Progress :=
  match p.pending with
  | none => .ok p
  | some ⟨s, none⟩ => .error (.missingValue s)
  | some ⟨s, some value⟩ =>
    (p.arguments.set s value).map fun a => { p with arguments := a, pending := none }

def flag (p : Progress) (f : Flag) : Except UsageFault Progress := do
  let p ← p.settle
  let a ← p.arguments.raise f
  .ok { p with arguments := a }

def setting (p : Progress) (s : Setting) (value : Option String) : Except UsageFault Progress := do
  let p ← p.settle
  match value with
  | some value =>
    let a ← p.arguments.set s value
    .ok { p with arguments := a }
  | none => .ok { p with pending := some ⟨s, none⟩ }

def long (p : Progress) (text : List Char) : Except UsageFault Progress :=
  let name := text.takeWhile (· ≠ '=')
  let value := match text.dropWhile (· ≠ '=') with
    | _ :: v => some (String.ofList v)
    | [] => none
  match Name.ofLong? (String.ofList name), value with
  | none, _ => .error (.unknown ("--" ++ String.ofList name))
  | some (.setting s), value => p.setting s value
  | some (.flag f), none => p.flag f
  | some (.flag f), some _ => .error (.unwantedValue f)

/-- The value attached to a letter: what follows it, or follows the equals sign behind it. -/
def attached : List Char → Option String
  | [] => none
  | '=' :: v => some (String.ofList v)
  | v => some (String.ofList v)

/-- Letters behind one hyphen, up to the first that has a value. -/
def letters (p : Progress) : List Char → Except UsageFault Progress
  | [] => .ok p
  | c :: rest =>
    match Name.ofLetter? c with
    | none => .error (.unknown (String.ofList ['-', c]))
    | some (.setting s) => p.setting s (attached rest)
    | some (.flag f) => do (← p.flag f).letters rest

/-- An argument that is no option is the value that is waited for; nothing else has a place. -/
def word (p : Progress) (text : String) : Except UsageFault Progress :=
  match p.pending with
  | some ⟨s, none⟩ => .ok { p with pending := some ⟨s, some text⟩ }
  | _ => .error (.unknown text)

def argument (p : Progress) (text : String) : Except UsageFault Progress :=
  if p.literal then .error (.unknown text)
  else
    match text.toList with
    | ['-', '-'] => .ok { p with literal := true }
    | '-' :: '-' :: rest => p.long rest
    | '-' :: c :: rest => p.letters (c :: rest)
    | _ => p.word text

end Progress

/-- A value is only looked at when the next option, or the end, is reached, so of two mistakes the
later one may win. -/
def parse (arguments : List String) : Except UsageFault Arguments := do
  let p ← arguments.foldlM Progress.argument .start
  (← p.settle).arguments.check

end MediaRemote.CommandLine
