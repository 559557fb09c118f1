import Mathlib.Algebra.Order.Ring.Int
import Lasper.Lib.Table

/-! The JSON values and messages of the daemon's RPC socket. Parsing text into a
value is left to a parameter of the model; reading a response out of a parsed
object is written out, field by field. -/

namespace Lasper.Rpc

inductive Json where
  | null
  | bool (value : Bool)
  | integer (value : ℤ)
  | real (text : String)
  | string (text : String)
  | array (items : List Json)
  | object (fields : List (String × Json))

namespace Json

def get (key : String) : Json → Option Json
  | .object fields => fields.lookup key
  | _ => none

def asU64 : Json → Option ℕ
  | .integer value => if 0 ≤ value ∧ value < 2 ^ 64 then some value.toNat else none
  | _ => none

def asI32 : Json → Option ℤ
  | .integer value => if -2 ^ 31 ≤ value ∧ value < 2 ^ 31 then some value else none
  | _ => none

def asStr : Json → Option String
  | .string text => some text
  | _ => none

/-- A missing or null optional field. -/
def optional : Option Json → Option Json
  | none | some .null => none
  | some value => some value

end Json

structure RpcError where
  code : ℤ
  message : String

structure RpcResponse where
  jsonrpc : String
  id : ℕ
  result : Option Json
  error : Option RpcError

def RpcError.fromValue : Json → Option RpcError
  | .array [code, message] => do return ⟨← code.asI32, ← message.asStr⟩
  | value => do return ⟨← (← value.get "code").asI32, ← (← value.get "message").asStr⟩

/-- The `error` field of a response: absent, null or an error object. -/
def RpcError.field (value : Option Json) : Option (Option RpcError) :=
  match Json.optional value with
  | none => some none
  | some error => (RpcError.fromValue error).map some

/-- `serde_json::from_value` on an object; a value of any other shape has no `id` to route by. -/
def RpcResponse.fromValue (value : Json) : Option RpcResponse := do
  let jsonrpc ← (← value.get "jsonrpc").asStr
  let id ← (← value.get "id").asU64
  let error ← RpcError.field (value.get "error")
  return ⟨jsonrpc, id, Json.optional (value.get "result"), error⟩

/-- A response carries the id it is routed by. -/
theorem RpcResponse.fromValue_id {value : Json} {response : RpcResponse}
    (h : RpcResponse.fromValue value = some response) :
    (value.get "id").bind Json.asU64 = some response.id := by
  simp only [fromValue, Option.bind_eq_bind, Option.bind_eq_some_iff, Option.pure_def, Option.some.injEq] at h
  obtain ⟨_, -, _, -, raw, hraw, id, hid, _, -, rfl⟩ := h
  simp [hraw, hid]

end Lasper.Rpc
