import MediaRemote.Wire.Window

namespace MediaRemote.Wire

open Json (Value Decoder)

def protocolVersion : String := "2.0"

structure Request where
  version : String
  method : String
  params : Value
  id : Nat
  deriving Inhabited

namespace Request

def new (id : Nat) (method : String) (params : Value) : Request :=
  ⟨protocolVersion, method, params, id⟩

def decoder : Decoder Request :=
  .record ⟨"", "", .null, 0⟩
    [.needed "jsonrpc" .string fun r v => { r with version := v },
     .needed "method" .string fun r v => { r with method := v },
     .needed "params" .value fun r v => { r with params := v },
     .needed "id" .unsigned fun r v => { r with id := v }]

def toJson (r : Request) : Value :=
  .object
    [("jsonrpc", .string r.version), ("method", .string r.method), ("params", r.params),
     ("id", .integer r.id)]

end Request

structure Message where
  id : Option Value
  method : Option String
  result : Option Value
  error : Option Value
  params : Option Value
  deriving Inhabited

namespace Message

def blank : Message := ⟨none, none, none, none, none⟩

def fields : List (Decoder.Field Message) :=
  [.optional "id" (.option .value) fun m v => { m with id := v },
   .optional "method" (.option .string) fun m v => { m with method := v },
   .optional "result" (.option .value) fun m v => { m with result := v },
   .optional "error" (.option .value) fun m v => { m with error := v },
   .optional "params" (.option .value) fun m v => { m with params := v }]

def decoder : Decoder Message := .record blank fields

def toJson (m : Message) : Value :=
  let given := fun (name : String) (v : Option Value) => (v.map fun v => (name, v)).toList
  .object
    (given "id" m.id ++ given "method" (m.method.map .string) ++ given "result" m.result ++
      given "error" m.error ++ given "params" m.params)

def requestId (m : Message) : Option Nat := m.id.bind Value.unsigned?

/-- What a handler is given: the result, or else the parameters; null counts as absent. -/
def payload (m : Message) : Option Value :=
  (m.result.bind Value.present).orElse fun _ => m.params.bind Value.present

end Message

/-- Parameters of a request: structured, or as JSON text that has to be read first. -/
inductive Params
  | none
  | value (v : Value)
  | text (s : String)

namespace Params

def toValue : Params → Except Json.Fault Value
  | none => .ok .null
  | value v => .ok v
  | text s => Json.parse s

end Params
end MediaRemote.Wire
