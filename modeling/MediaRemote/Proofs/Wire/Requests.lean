import MediaRemote.Proofs.Json.Written
import MediaRemote.Wire.Request

namespace MediaRemote.Wire.Request

open Json (Value Decoder Carried)

def members (q : Request) : List (String × Value) :=
  [("jsonrpc", .string q.version), ("method", .string q.method), ("params", q.params),
    ("id", .integer q.id)]

def entries (q : Request) : List (String × Value) :=
  [("id", .integer q.id), ("jsonrpc", .string q.version), ("method", .string q.method),
    ("params", q.params)]

theorem foldl_insert_members (q : Request) :
    q.members.foldl (fun acc m => Dictionary.insert m.1 m.2 acc) [] = q.entries := by
  have hmethod : ¬ "method" < "jsonrpc" ∧ "method" ≠ "jsonrpc" := by decide
  have hparams : ¬ "params" < "jsonrpc" ∧ "params" ≠ "jsonrpc" ∧ ¬ "params" < "method" ∧
      "params" ≠ "method" := by decide
  have hid : "id" < "jsonrpc" := by decide
  simp only [members, entries, List.foldl_cons, List.foldl_nil, Dictionary.insert, hmethod, hparams,
    hid, if_true, if_false]

/-- What can be said in a request so that it can be read back. -/
structure Readable (q : Request) : Prop where
  id_lt : q.id < bound64
  sorted : q.params.Sorted
  /-- The object around the parameters is one level more. -/
  depth_le : q.params.depth ≤ 126
  carried : ∀ x ∈ q.params.doubles, Carried x

theorem Readable.members_written {q : Request} (h : q.Readable) :
    ∀ m ∈ q.members, m.2.IsWritten 126 := by
  have hid : Json.minInteger ≤ (q.id : Int) ∧ (q.id : Int) ≤ Json.maxInteger := by
    have := h.id_lt
    simp only [Json.minInteger, Json.maxInteger, bound63]
    omega
  simp only [members, List.forall_mem_cons, List.not_mem_nil, false_implies, implies_true, and_true]
  exact ⟨Json.string_written 126 _, Json.string_written 126 _,
    Json.value_written h.sorted h.depth_le h.carried,
    Json.number_written 126 (Json.number_integer hid)⟩

theorem Readable.parse {q : Request} (h : q.Readable) :
    Json.parse q.toJson.text = .ok (.object q.entries) := by
  have hwritten := Json.object_written h.members_written
  rw [foldl_insert_members] at hwritten
  exact Json.document_written hwritten

theorem Readable.decoder {q : Request} (h : q.Readable) : decoder.parse q.toJson.text = .ok q := by
  refine Json.document_written (Json.Decoder.record_written ?_ h.members_written ?_)
  · intro f hf
    simp only [List.mem_cons, List.not_mem_nil, or_false] at hf
    rcases hf with rfl | rfl | rfl | rfl
    · exact Decoder.needed_agrees Decoder.string_agrees _
    · exact Decoder.needed_agrees Decoder.string_agrees _
    · exact Decoder.needed_agrees Decoder.value_agrees _
    · exact Decoder.needed_agrees Decoder.unsigned_agrees _
  · have hid : Value.unsigned? (.integer q.id) = some q.id := by
      have hlt : (q.id : Int) < bound64 := by exact_mod_cast h.id_lt
      simp [Value.unsigned?, Value.below?, hlt]
    simp [Decoder.takeMembers, Decoder.takeMember, Decoder.Field.needed, Decoder.string,
      Decoder.scalar, Decoder.value, Decoder.unsigned, Value.string?, hid, Decoder.Partial.finish]

end MediaRemote.Wire.Request
