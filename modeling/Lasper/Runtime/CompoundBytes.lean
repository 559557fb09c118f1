import Lasper.Terminal.Osc52

/-! Byte arrays among the properties of a machine, rendered as base64. -/

namespace Lasper.Runtime

open Lib Checked Terminal.Osc52

def base64Table : List Char := "ABCDEFGHIJKLMNOPQRSTUVWXYZabcdefghijklmnopqrstuvwxyz0123456789+/".toList

/-- One chunk of `base64_encode`, which takes zero for a missing byte and then asks for the
length. -/
def base64Chunk (output : List Char) (chunk : List UInt8) : Checked Empty (List Char) := do
  let first ← index chunk 0
  let second := chunk.getD 1 0
  let third := chunk.getD 2 0
  let c₁ ← index base64Table (first >>> 2).toNat
  let c₂ ← index base64Table ((first &&& 0x03) <<< 4 ||| second >>> 4).toNat
  let c₃ ← if 1 < chunk.length then index base64Table ((second &&& 0x0f) <<< 2 ||| third >>> 6).toNat else pure '='
  let c₄ ← if 2 < chunk.length then index base64Table (third &&& 0x3f).toNat else pure '='
  return output ++ [c₁, c₂, c₃, c₄]

def base64Encode (bytes : List UInt8) : Checked Empty (List Char) := (Base64.chunks3 bytes).foldlM base64Chunk []

/-- `format_base64_bytes` of a byte array -/
def formatBase64Bytes (bytes : List UInt8) : Checked Empty (List Char) :=
  if bytes = [] then pure [] else base64Encode bytes

theorem base64Chunk_eq {input chunk : List UInt8} (h : chunk ∈ Base64.chunks3 input) (output : List Char) :
    base64Chunk output chunk = encodeChunk output chunk := by
  rcases Base64.chunk_cases h with ⟨a, rfl⟩ | ⟨a, b, rfl⟩ | ⟨a, b, c, rfl⟩
  · rfl
  · rfl
  · rfl

theorem base64Encode_eq (bytes : List UInt8) : base64Encode bytes = encodeBase64 bytes [] := by
  suffices h : ∀ chunks : List (List UInt8), (∀ chunk ∈ chunks, chunk ∈ Base64.chunks3 bytes) → ∀ output,
      chunks.foldlM base64Chunk output = chunks.foldlM encodeChunk output from h _ (fun _ hchunk => hchunk) []
  intro chunks hchunks
  induction chunks with
  | nil =>
    intro output
    rfl
  | cons chunk chunks ih =>
    intro output
    rw [List.foldlM_cons, List.foldlM_cons, base64Chunk_eq (hchunks chunk List.mem_cons_self)]
    congr 1
    funext output
    exact ih (fun other hother => hchunks other (List.mem_cons_of_mem _ hother)) output

/-- Both encoders write the same text, of the announced length, and it is read back. -/
theorem encoders_agree (input : InMemory) :
    ∃ text, encodeBase64 input.1 [] = .ok text ∧ base64Encode input.1 = .ok text ∧
      encodedLen input.1.length = .ok text.length ∧ Base64.decode text = some input.1 := by
  refine ⟨Base64.encode input.1, encodeBase64_eq input.1 [], ?_, ?_, Base64.decode_encode input.1⟩
  · rw [base64Encode_eq]
    exact encodeBase64_eq input.1 []
  · rw [Base64.length_encode]
    exact encodedLen_eq input

end Lasper.Runtime
