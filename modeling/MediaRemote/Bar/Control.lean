import MediaRemote.Json.Decoder
import MediaRemote.Json.Printer

namespace MediaRemote.Bar

open Json (Value Decoder)

inductive ControlAction
  /-- Replaces the control. -/
  | update
  /-- Merges the buttons into the control by their identifiers. -/
  | refresh
  /-- Takes the control down. -/
  | remove
  deriving DecidableEq, Repr, Inhabited

namespace ControlAction

def word : ControlAction → String
  | update => "update"
  | refresh => "refresh"
  | remove => "remove"

def ofWord? (s : String) : Option ControlAction :=
  if s = "update" then some update
  else if s = "refresh" then some refresh
  else if s = "remove" then some remove
  else none

def decoder : Decoder ControlAction := .oneOf ofWord?

end ControlAction

structure Button where
  id : String
  glyphicon : Option String
  name : Option String
  /-- Script to run on a click. -/
  click : Option String
  /-- Classes; an exclamation mark in front removes the class. -/
  classes : Option String
  deriving DecidableEq, Repr, Inhabited

namespace Button

def bare (id : String) : Button := ⟨id, none, none, none, none⟩

def labelled (id glyphicon name : String) : Button :=
  { bare id with glyphicon := some glyphicon, name := some name }

def decoder : Decoder Button :=
  .record (bare "")
    [.needed "id" .string fun b v => { b with id := v },
     .optional "glyphicon" (.option .string) fun b v => { b with glyphicon := v },
     .optional "name" (.option .string) fun b v => { b with name := v },
     .optional "click" (.option .string) fun b v => { b with click := v },
     .optional "classes" (.option .string) fun b v => { b with classes := v }]

def toJson (b : Button) : Value :=
  let given := fun (name : String) (s : Option String) =>
    (s.map fun s => (name, Value.string s)).toList
  .object
    (("id", .string b.id) :: (given "glyphicon" b.glyphicon ++ given "name" b.name ++
      given "click" b.click ++ given "classes" b.classes))

end Button

structure Control where
  enabled : Bool
  action : ControlAction
  groups : List (List Button)
  /-- Names of the scripts that the buttons call. -/
  scripts : List String
  deriving DecidableEq, Repr, Inhabited

namespace Control

def new (enabled : Bool) (action : ControlAction) : Control := ⟨enabled, action, [], []⟩

def addGroup (c : Control) (buttons : List Button) : Control :=
  { c with groups := c.groups ++ [buttons] }

def addScript (c : Control) (name : String) : Control :=
  if c.scripts.contains name then c else { c with scripts := c.scripts ++ [name] }

def button? (c : Control) (id : String) : Option Button := c.groups.flatten.find? (·.id == id)

def decoder : Decoder Control :=
  .record (new false .update)
    [.needed "enabled" .bool fun c v => { c with enabled := v },
     .needed "action" ControlAction.decoder fun c v => { c with action := v },
     .optional "groups" (.list (.list Button.decoder)) fun c v => { c with groups := v },
     .optional "scripts" (.list .string) fun c v => { c with scripts := v }]

def toJson (c : Control) : Value :=
  .object
    [("enabled", .bool c.enabled), ("action", .string c.action.word),
     ("groups", .array (c.groups.map fun g => .array (g.map Button.toJson))),
     ("scripts", .array (c.scripts.map .string))]

end Control
end MediaRemote.Bar
