import MediaRemote.Json.Outcome

namespace MediaRemote

inductive ErrorKind
  | cancelled | unknown | invalidArgument | deadlineExceeded | notFound | permissionDenied
  | resourceExhausted | failedPrecondition | aborted | outOfRange | internal | unavailable
  | dataLoss
  deriving DecidableEq, Repr

namespace ErrorKind

def code : ErrorKind → Nat
  | cancelled => 1
  | unknown => 2
  | invalidArgument => 3
  | deadlineExceeded => 4
  | notFound => 5
  | permissionDenied => 7
  | resourceExhausted => 8
  | failedPrecondition => 9
  | aborted => 10
  | outOfRange => 11
  | internal => 13
  | unavailable => 14
  | dataLoss => 15

def text : ErrorKind → String
  | cancelled => "operation was cancelled"
  | unknown => "unknown error"
  | invalidArgument => "invalid argument specified"
  | deadlineExceeded => "operation timed out"
  | notFound => "not found"
  | permissionDenied => "permission denied"
  | resourceExhausted => "resource has been exhausted"
  | failedPrecondition => "invalid state"
  | aborted => "operation aborted"
  | outOfRange => "out of range"
  | internal => "internal error"
  | unavailable => "service unavailable"
  | dataLoss => "unrecoverable data loss or corruption"

end ErrorKind

/-- Only setting up fails with an error; failures of a running connection end in the log. -/
structure Error where
  kind : ErrorKind
  details : String
  deriving DecidableEq, Repr

namespace Error

def message (e : Error) : String := e.kind.text ++ ": " ++ e.details

def invalidArgument (details : String) : Error := ⟨.invalidArgument, details⟩
def outOfRange (details : String) : Error := ⟨.outOfRange, details⟩
def unavailable (details : String) : Error := ⟨.unavailable, details⟩

end Error

inductive SystemFault
  | notFound | permissionDenied | addressUnavailable | connectionRefused | notConnected | brokenPipe
  | connectionReset | connectionAborted | interrupted | wouldBlock | unexpectedEnd | timedOut
  | invalidInput | invalidData | writeZero | other
  deriving DecidableEq, Repr

def SystemFault.kind : SystemFault → ErrorKind
  | notFound => .notFound
  | permissionDenied => .permissionDenied
  | addressUnavailable | connectionRefused | notConnected => .unavailable
  | brokenPipe | connectionReset | connectionAborted => .aborted
  | interrupted | wouldBlock => .cancelled
  | unexpectedEnd => .dataLoss
  | timedOut => .deadlineExceeded
  | invalidInput | invalidData => .invalidArgument
  | writeZero => .resourceExhausted
  | other => .unknown

inductive SocketFault
  | connectionClosed | alreadyClosed | system | capacity | address | attack | other
  deriving DecidableEq, Repr

def SocketFault.kind : SocketFault → ErrorKind
  | connectionClosed => .cancelled
  | alreadyClosed => .failedPrecondition
  | system => .unavailable
  | capacity => .outOfRange
  | address => .invalidArgument
  | attack => .permissionDenied
  | other => .unknown

/-- A document that is cut short has lost data; any other fault is in what was given. -/
def Json.Fault.kind : Json.Fault → ErrorKind
  | .cutShort => .dataLoss
  | .malformed | .unfit => .invalidArgument

def Json.Fault.text : Json.Fault → String
  | .cutShort => "document is cut short"
  | .malformed => "unexpected character"
  | .unfit => "unexpected kind of value"

end MediaRemote
