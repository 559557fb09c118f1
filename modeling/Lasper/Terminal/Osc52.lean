import Lasper.Lib.Base64
import Lasper.Lib.Checked

/-! The clipboard sequence of the terminal panel, with its base64 encoder, and the second
encoder, of the property renderer. The two treat the end of the input differently. -/

namespace Lasper.Terminal.Osc52

open Lib Checked

/-- `usize::saturating_add` -/
def encodedLen (inputLen : ℕ) : Checked Empty ℕ := times (saturatingAdd u64Max inputLen 2 / 3) 4

def alphabet : List Char := "ABCDEFGHIJKLMNOPQRSTUVWXYZabcdefghijklmnopqrstuvwxyz0123456789+/".toList

/-- `ALPHABET[i] as char` -/
def symbol (i : UInt8) : Checked Empty Char := index alphabet i.toNat

/-- One chunk of `encode_base64`, which asks for the bytes that may be missing. -/
def encodeChunk (output : List Char) (chunk : List UInt8) : Checked Empty (List Char) := do
  let first ← index chunk 0
  let second := chunk[1]?
  let third := chunk[2]?
  let c₁ ← symbol (first >>> 2)
  let c₂ ← symbol ((first &&& 0x03) <<< 4 ||| second.getD 0 >>> 4)
  let c₃ ← match second with
    | some second => symbol ((second &&& 0x0f) <<< 2 ||| third.getD 0 >>> 6)
    | none => pure '='
  let c₄ ← match third with
    | some third => symbol (third &&& 0x3f)
    | none => pure '='
  return output ++ [c₁, c₂, c₃, c₄]

/-- `encode_base64`; `output` is the text that it appends to. -/
def encodeBase64 (input : List UInt8) (output : List Char) : Checked Empty (List Char) :=
  (Base64.chunks3 input).foldlM encodeChunk output

theorem alphabet_eq : alphabet = Base64.alphabet := String.toList_ofList

theorem symbol_eq {i : UInt8} {n : ℕ} (hi : i.toNat = n) (hn : n < 64) : symbol i = .ok (Base64.digit n) := by
  rw [symbol, alphabet_eq, hi, index_getD (by rwa [Base64.length_alphabet]) Base64.padding]
  rfl

theorem toNat_first (a : UInt8) : (a >>> 2).toNat = a.toNat / 4 := by
  simp [Nat.shiftRight_eq_div_pow]

/-- A shifted number leaves room for `s` bits. -/
theorem shifted_or {x y s : ℕ} (hx : x * 2 ^ s < 256) (hy : y < 2 ^ s) : x <<< s % 256 ||| y = x * 2 ^ s + y := by
  rw [Nat.shiftLeft_eq, Nat.mod_eq_of_lt hx, ← Nat.shiftLeft_eq, Nat.shiftLeft_add_eq_or_of_lt hy]

theorem toNat_second (a b : UInt8) : ((a &&& 0x03) <<< 4 ||| b >>> 4).toNat = a.toNat % 4 * 16 + b.toNat / 16 := by
  have hb := b.toNat_lt
  have hmask : a.toNat &&& 3 = a.toNat % 4 := Nat.and_two_pow_sub_one_eq_mod a.toNat 2
  have hor : (a.toNat % 4) <<< 4 % 256 ||| b.toNat / 2 ^ 4 = a.toNat % 4 * 2 ^ 4 + b.toNat / 2 ^ 4 :=
    shifted_or (by omega) (by omega)
  simp [Nat.shiftRight_eq_div_pow, hmask]
  exact hor

theorem toNat_third (a b : UInt8) : ((a &&& 0x0f) <<< 2 ||| b >>> 6).toNat = a.toNat % 16 * 4 + b.toNat / 64 := by
  have hb := b.toNat_lt
  have hmask : a.toNat &&& 15 = a.toNat % 16 := Nat.and_two_pow_sub_one_eq_mod a.toNat 4
  have hor : (a.toNat % 16) <<< 2 % 256 ||| b.toNat / 2 ^ 6 = a.toNat % 16 * 2 ^ 2 + b.toNat / 2 ^ 6 :=
    shifted_or (by omega) (by omega)
  simp [Nat.shiftRight_eq_div_pow, hmask]
  exact hor

theorem toNat_fourth (a : UInt8) : (a &&& 0x3f).toNat = a.toNat % 64 := by
  have hmask : a.toNat &&& 63 = a.toNat % 64 := Nat.and_two_pow_sub_one_eq_mod a.toNat 6
  simp [hmask]

/-- The digits of a chunk, however it ends. -/
theorem encodeChunk_eq {input chunk : List UInt8} (h : chunk ∈ Base64.chunks3 input) (output : List Char) :
    encodeChunk output chunk = .ok (output ++ Base64.encodeGroup chunk) := by
  rcases Base64.chunk_cases h with ⟨a, rfl⟩ | ⟨a, b, rfl⟩ | ⟨a, b, c, rfl⟩
  · have ha := a.toNat_lt
    have h₁ := symbol_eq (toNat_first a) (by omega)
    have h₂ : symbol ((a &&& 0x03) <<< 4 ||| (0 : UInt8) >>> 4) = .ok (Base64.digit (a.toNat % 4 * 16)) :=
      symbol_eq (toNat_second a 0) (by omega)
    show (symbol (a >>> 2) >>= fun c₁ => symbol ((a &&& 0x03) <<< 4 ||| (0 : UInt8) >>> 4) >>= fun c₂ =>
      pure (output ++ [c₁, c₂, '=', '='])) = _
    rw [bind_of_ok h₁, bind_of_ok h₂]
    rfl
  · have ha := a.toNat_lt
    have hb := b.toNat_lt
    have h₁ := symbol_eq (toNat_first a) (by omega)
    have h₂ := symbol_eq (toNat_second a b) (by omega)
    have h₃ : symbol ((b &&& 0x0f) <<< 2 ||| (0 : UInt8) >>> 6) = .ok (Base64.digit (b.toNat % 16 * 4)) :=
      symbol_eq (toNat_third b 0) (by omega)
    show (symbol (a >>> 2) >>= fun c₁ => symbol ((a &&& 0x03) <<< 4 ||| b >>> 4) >>= fun c₂ =>
      symbol ((b &&& 0x0f) <<< 2 ||| (0 : UInt8) >>> 6) >>= fun c₃ => pure (output ++ [c₁, c₂, c₃, '='])) = _
    rw [bind_of_ok h₁, bind_of_ok h₂, bind_of_ok h₃]
    rfl
  · have ha := a.toNat_lt
    have hb := b.toNat_lt
    have hc := c.toNat_lt
    have h₁ := symbol_eq (toNat_first a) (by omega)
    have h₂ := symbol_eq (toNat_second a b) (by omega)
    have h₃ := symbol_eq (toNat_third b c) (by omega)
    have h₄ := symbol_eq (toNat_fourth c) (by omega)
    show (symbol (a >>> 2) >>= fun c₁ => symbol ((a &&& 0x03) <<< 4 ||| b >>> 4) >>= fun c₂ =>
      symbol ((b &&& 0x0f) <<< 2 ||| c >>> 6) >>= fun c₃ => symbol (c &&& 0x3f) >>= fun c₄ =>
        pure (output ++ [c₁, c₂, c₃, c₄])) = _
    rw [bind_of_ok h₁, bind_of_ok h₂, bind_of_ok h₃, bind_of_ok h₄]
    rfl

theorem encodeBase64_eq (input : List UInt8) (output : List Char) :
    encodeBase64 input output = .ok (output ++ Base64.encode input) := by
  suffices h : ∀ chunks : List (List UInt8), (∀ chunk ∈ chunks, chunk ∈ Base64.chunks3 input) → ∀ output,
      chunks.foldlM encodeChunk output = .ok (output ++ chunks.flatMap Base64.encodeGroup) from
    h _ (fun _ hchunk => hchunk) output
  intro chunks hchunks
  induction chunks with
  | nil =>
    intro output
    rw [List.flatMap_nil, List.append_nil]
    rfl
  | cons chunk chunks ih =>
    intro output
    rw [List.foldlM_cons, bind_of_ok (encodeChunk_eq (hchunks chunk List.mem_cons_self) output),
      ih (fun other hother => hchunks other (List.mem_cons_of_mem _ hother)), List.flatMap_cons, List.append_assoc]

/-- The length never overflows for what memory holds. -/
theorem encodedLen_eq (input : InMemory) : encodedLen input.1.length = .ok ((input.1.length + 2) / 3 * 4) := by
  have hlength := input.2
  have hsum : saturatingAdd u64Max input.1.length 2 = input.1.length + 2 := by
    unfold saturatingAdd u64Max
    omega
  rw [encodedLen, hsum, times_of_lt (by unfold wordBound; omega)]

end Lasper.Terminal.Osc52
