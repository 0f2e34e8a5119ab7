namespace MediaRemote

inductive Level
  | error | warn | info
  deriving DecidableEq, Repr

def Level.name : Level → String
  | error => "error"
  | warn => "warn"
  | info => "info"

structure Line where
  level : Level
  text : String
  deriving DecidableEq, Repr

end MediaRemote
