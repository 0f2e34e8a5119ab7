import MediaRemote.Json.Decoder

namespace MediaRemote.Wire

open Json (Value Decoder)

inductive Action
  | append | capabilities | change | filter | getPosition | info | list | next | options | pause
  | play | remove | setInfo | setNext | status | stop | volume
  | other (method : String)
  deriving DecidableEq, Repr, Inhabited

namespace Action

def known : List (String × Action) :=
  [("append", append), ("capabilities", capabilities), ("change", change), ("filter", filter),
   ("getposition", getPosition), ("info", info), ("list", list), ("next", next),
   ("options", options), ("pause", pause), ("play", play), ("remove", remove),
   ("setinfo", setInfo), ("setnext", setNext), ("status", status), ("stop", stop),
   ("volume", volume)]

def ofMethod (method : String) : Action := (known.lookup method).getD (other method)

def method : Action → String
  | append => "append"
  | capabilities => "capabilities"
  | change => "change"
  | filter => "filter"
  | getPosition => "getposition"
  | info => "info"
  | list => "list"
  | next => "next"
  | options => "options"
  | pause => "pause"
  | play => "play"
  | remove => "remove"
  | setInfo => "setinfo"
  | setNext => "setnext"
  | status => "status"
  | stop => "stop"
  | volume => "volume"
  | other m => m

/-- Every method is kept, known or not. -/
theorem method_ofMethod (m : String) : (ofMethod m).method = m := by
  unfold ofMethod
  cases h : known.lookup m with
  | none => rfl
  | some a =>
    have : ∀ e ∈ known, e.2.method = e.1 := by decide
    obtain ⟨l, r, he, -⟩ := List.lookup_eq_some_iff.mp h
    exact this (m, a) (he ▸ by simp)

def isOther : Action → Bool
  | other _ => true
  | _ => false

def decoder : Decoder Action := .ofString ofMethod

def toJson (a : Action) : Value := .string a.method

end Action

structure EventDescriptor where
  method : String
  deriving DecidableEq, Repr, Inhabited

namespace EventDescriptor

def decoder : Decoder EventDescriptor :=
  .record ⟨""⟩ [.needed "method" .string fun e v => { e with method := v }]

def toJson (e : EventDescriptor) : Value := .object [("method", .string e.method)]

end EventDescriptor

structure ActionDescriptor where
  method : Action
  params : Option Value
  deriving Inhabited

namespace ActionDescriptor

def decoder : Decoder ActionDescriptor :=
  .record ⟨.other "", none⟩
    [.needed "method" Action.decoder fun a v => { a with method := v },
     .optional "params" (.option .value) fun a v => { a with params := v }]

def toJson (a : ActionDescriptor) : Value :=
  .object (("method", a.method.toJson) :: (a.params.map fun p => ("params", p)).toList)

def paramNames (a : ActionDescriptor) : List String :=
  match a.params with
  | some (.array names) => names.filterMap Value.string?
  | _ => []

end ActionDescriptor

structure Descriptor where
  events : List EventDescriptor
  actions : List ActionDescriptor
  deriving Inhabited

namespace Descriptor

def decoder : Decoder Descriptor :=
  .record ⟨[], []⟩
    [.optional "events" (.list EventDescriptor.decoder) fun d v => { d with events := v },
     .optional "actions" (.list ActionDescriptor.decoder) fun d v => { d with actions := v }]

def toJson (d : Descriptor) : Value :=
  .object
    [("events", .array (d.events.map EventDescriptor.toJson)),
     ("actions", .array (d.actions.map ActionDescriptor.toJson))]

end Descriptor

/-- What was announced, as sets: order and repetition do not matter. -/
structure CapabilitySet where
  actions : List Action
  events : List String
  deriving DecidableEq, Repr, Inhabited

namespace CapabilitySet

def empty : CapabilitySet := ⟨[], []⟩

def ofDescriptor (d : Descriptor) : CapabilitySet :=
  ⟨d.actions.map (·.method), d.events.map (·.method)⟩

def contains (c : CapabilitySet) (a : Action) : Bool := c.actions.contains a

def containsAny (c : CapabilitySet) (actions : List Action) : Bool := actions.any c.contains

def isEmpty (c : CapabilitySet) : Bool := c.actions.isEmpty && c.events.isEmpty

end CapabilitySet
end MediaRemote.Wire
