import MediaRemote.Error
import MediaRemote.Json.Printer
import MediaRemote.Wire.Request

namespace MediaRemote.Session

open Wire (Request Message Params)

structure Pending (ρ : Type) where
  request : Request
  reply : Option ρ

/-- Requests are numbered in the order in which they are sent, and the numbering goes on across
resets. One is pending until a message with its number arrives. What is to be done with the result
is kept beside it. -/
structure Rpc (ρ : Type) where
  nextId : Nat
  isOpen : Bool
  /-- In increasing order of identifiers. -/
  pending : List (Pending ρ)
  /-- Encoded requests that were not taken yet, oldest first. -/
  outbox : List String

structure Inbound (ρ : Type) where
  message : Message
  request : Option Request
  reply : Option ρ

structure InvalidParams where
  method : String
  fault : Json.Fault

namespace InvalidParams

def summary (e : InvalidParams) : String := "invalid parameters for " ++ e.method

def kind (_ : InvalidParams) : ErrorKind := .invalidArgument

end InvalidParams

namespace Rpc

variable {ρ : Type}

def new : Rpc ρ := ⟨0, false, [], []⟩

instance : Inhabited (Rpc ρ) := ⟨new⟩

def setOpen (r : Rpc ρ) (isOpen : Bool) : Rpc ρ := { r with isOpen := isOpen }

/-- Forgets what is pending or not taken yet and closes; the numbering goes on. -/
def reset (r : Rpc ρ) : Rpc ρ := { r with isOpen := false, pending := [], outbox := [] }

def encode (q : Request) : String := q.toJson.text

def find? (r : Rpc ρ) (id : Nat) : Option (Pending ρ) := r.pending.find? (·.request.id == id)

/-- Queues a request and gives its identifier; while closed nothing is queued. Textual parameters
are read first, and nothing happens if that fails. -/
def send (r : Rpc ρ) (method : String) (params : Params) (reply : Option ρ) :
    Except InvalidParams (Option Nat × Rpc ρ) :=
  match params.toValue with
  | .error fault => .error ⟨method, fault⟩
  | .ok value =>
    if r.isOpen then
      let request := Request.new r.nextId method value
      .ok (some r.nextId,
        { r with
          nextId := r.nextId + 1
          pending := r.pending ++ [⟨request, reply⟩]
          outbox := r.outbox ++ [encode request] })
    else .ok (none, r)

def drain (r : Rpc ρ) : List String × Rpc ρ := (r.outbox, { r with outbox := [] })

def discard (r : Rpc ρ) (id : Nat) : Rpc ρ :=
  { r with pending := r.pending.filter (·.request.id != id) }

/-- Reads one frame. A message whose identifier is that of a pending request answers it: the request
is no longer pending and the message takes over its method. -/
def receive (r : Rpc ρ) (text : String) : Except Json.Fault (Inbound ρ × Rpc ρ) :=
  match Message.decoder.parse text with
  | .error fault => .error fault
  | .ok message =>
    match message.requestId.bind r.find? with
    | some p =>
      .ok (⟨{ message with method := some p.request.method }, some p.request, p.reply⟩,
        r.discard p.request.id)
    | none => .ok (⟨message, none, none⟩, r)

def describe (r : Rpc ρ) : String :=
  "Rpc \x7b next_id: " ++ toString r.nextId ++ ", open: " ++ toString r.isOpen ++ ", pending: [" ++
    ", ".intercalate (r.pending.map fun p => toString p.request.id) ++ "], outbox: " ++
    toString r.outbox.length ++ " \x7d"

end Rpc

def Inbound.strayId {ρ : Type} (i : Inbound ρ) : Option Json.Value :=
  if i.request.isSome then none else i.message.id

end MediaRemote.Session
