import MediaRemote.Dictionary

namespace MediaRemote.Session

inductive Slot
  | capabilities | change | state | next | list | options | filter | info | setInfo | volume
  | position
  deriving DecidableEq, Repr, Inhabited

def Slot.name : Slot → String
  | capabilities => "Capabilities"
  | change => "Change"
  | state => "State"
  | next => "Next"
  | list => "List"
  | options => "Options"
  | filter => "Filter"
  | info => "Info"
  | setInfo => "SetInfo"
  | volume => "Volume"
  | position => "Position"

structure Routes where
  entries : List (String × Slot)
  deriving DecidableEq, Repr

namespace Routes

/-- These are there from the start, may be overwritten, and come back when the routes are reset. -/
def permanent : Routes :=
  ⟨[("capabilities", .capabilities), ("getposition", .position), ("onchange", .change)]⟩

instance : Inhabited Routes := ⟨permanent⟩

def register (r : Routes) (method : String) (slot : Slot) : Routes :=
  ⟨Dictionary.insert method slot r.entries⟩

def resolve (r : Routes) (method : String) : Option Slot := Dictionary.find? method r.entries

theorem resolve_register (r : Routes) (method m : String) (slot : Slot) :
    (r.register method slot).resolve m = if m = method then some slot else r.resolve m :=
  Dictionary.find?_insert ..

end Routes
end MediaRemote.Session
