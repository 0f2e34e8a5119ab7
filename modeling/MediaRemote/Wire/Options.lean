import MediaRemote.Json.Value

namespace MediaRemote.Wire

def switchName (name : String) (on : Bool) : String := if on then name else "!" ++ name

/-- Options as a list of names, that of an option which is off behind an exclamation mark; what is
neither a switch nor a name is left out. -/
def optionNames : Json.Value → List String
  | .object members => members.filterMap fun m => m.2.bool?.map (switchName m.1)
  | .array names => names.filterMap Json.Value.string?
  | _ => []

end MediaRemote.Wire
