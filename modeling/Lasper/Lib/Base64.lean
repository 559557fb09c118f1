import Mathlib.Data.List.Basic

/-! Base64 text. Three bytes are written as four digits of six bits each, and a last
group of one or two bytes is filled up with padding. -/

namespace Lasper.Lib.Base64

section Chunks

variable {α : Type}

/-- Pieces of three elements, the last one perhaps shorter. -/
def chunks3 : List α → List (List α)
  | [] => []
  | [a] => [[a]]
  | [a, b] => [[a, b]]
  | a :: b :: c :: rest => [a, b, c] :: chunks3 rest

theorem length_chunks3 (xs : List α) : (chunks3 xs).length = (xs.length + 2) / 3 := by
  induction xs using chunks3.induct with
  | case1 => simp [chunks3]
  | case2 a => simp [chunks3]
  | case3 a b => simp [chunks3]
  | case4 a b c rest ih =>
    simp only [chunks3, List.length_cons, ih]
    omega

theorem chunk_cases {xs chunk : List α} (h : chunk ∈ chunks3 xs) :
    (∃ a, chunk = [a]) ∨ (∃ a b, chunk = [a, b]) ∨ ∃ a b c, chunk = [a, b, c] := by
  induction xs using chunks3.induct with
  | case1 => cases h
  | case2 a => exact .inl ⟨a, List.mem_singleton.mp h⟩
  | case3 a b => exact .inr (.inl ⟨a, b, List.mem_singleton.mp h⟩)
  | case4 a b c rest ih =>
    rcases List.mem_cons.mp h with rfl | h
    · exact .inr (.inr ⟨a, b, c, rfl⟩)
    · exact ih h

end Chunks

def alphabet : List Char :=
  [
    'A', 'B', 'C', 'D', 'E', 'F', 'G', 'H', 'I', 'J', 'K', 'L', 'M', 'N', 'O', 'P',
    'Q', 'R', 'S', 'T', 'U', 'V', 'W', 'X', 'Y', 'Z', 'a', 'b', 'c', 'd', 'e', 'f',
    'g', 'h', 'i', 'j', 'k', 'l', 'm', 'n', 'o', 'p', 'q', 'r', 's', 't', 'u', 'v',
    'w', 'x', 'y', 'z', '0', '1', '2', '3', '4', '5', '6', '7', '8', '9', '+', '/'
  ]

def padding : Char := '='

/-- The character of a digit below 64. -/
def digit (n : ℕ) : Char := alphabet.getD n padding

def value (c : Char) : Option ℕ := if c ∈ alphabet then some (alphabet.idxOf c) else none

theorem length_alphabet : alphabet.length = 64 := rfl

theorem value_digit {n : ℕ} (h : n < 64) : value (digit n) = some n := by
  have hall : ∀ n < 64, value (digit n) = some n := by decide +kernel
  exact hall n h

theorem digit_ne_padding {n : ℕ} (h : n < 64) : digit n ≠ padding := by
  intro heq
  have hvalue := value_digit h
  rw [heq] at hvalue
  cases hvalue

/-- The digits of one group. -/
def encodeGroup : List UInt8 → List Char
  | [a] => [digit (a.toNat / 4), digit (a.toNat % 4 * 16), padding, padding]
  | [a, b] => [digit (a.toNat / 4), digit (a.toNat % 4 * 16 + b.toNat / 16), digit (b.toNat % 16 * 4), padding]
  | [a, b, c] =>
    [digit (a.toNat / 4), digit (a.toNat % 4 * 16 + b.toNat / 16), digit (b.toNat % 16 * 4 + c.toNat / 64),
      digit (c.toNat % 64)]
  | _ => []

def encode (bytes : List UInt8) : List Char := (chunks3 bytes).flatMap encodeGroup

/-- Padding stands only at the end, and no bits are left over in front of it. -/
def decode : List Char → Option (List UInt8)
  | [] => some []
  | c₁ :: c₂ :: c₃ :: c₄ :: rest => do
    let v₁ ← value c₁
    let v₂ ← value c₂
    let first := UInt8.ofNat (v₁ * 4 + v₂ / 16)
    if c₃ = padding then
      if c₄ = padding ∧ rest = [] ∧ v₂ % 16 = 0 then some [first] else none
    else
      let v₃ ← value c₃
      let second := UInt8.ofNat (v₂ % 16 * 16 + v₃ / 4)
      if c₄ = padding then
        if rest = [] ∧ v₃ % 4 = 0 then some [first, second] else none
      else
        let v₄ ← value c₄
        let others ← decode rest
        some (first :: second :: UInt8.ofNat (v₃ % 4 * 64 + v₄) :: others)
  | _ => none

theorem ofNat_eq {a : UInt8} {n : ℕ} (h : n = a.toNat) : UInt8.ofNat n = a := by
  rw [h, UInt8.ofNat_toNat]

theorem length_encodeGroup {bytes chunk : List UInt8} (h : chunk ∈ chunks3 bytes) : (encodeGroup chunk).length = 4 := by
  rcases chunk_cases h with ⟨a, rfl⟩ | ⟨a, b, rfl⟩ | ⟨a, b, c, rfl⟩
  · rfl
  · rfl
  · rfl

theorem length_encode (bytes : List UInt8) : (encode bytes).length = (bytes.length + 2) / 3 * 4 := by
  rw [encode, List.length_flatMap, List.map_congr_left fun group h => length_encodeGroup h, List.map_const',
    List.sum_replicate_nat, length_chunks3]

theorem decode_encode (bytes : List UInt8) : decode (encode bytes) = some bytes := by
  induction bytes using chunks3.induct with
  | case1 => rfl
  | case2 a =>
    have ha := a.toNat_lt
    have hfirst : UInt8.ofNat (a.toNat / 4 * 4 + a.toNat % 4 * 16 / 16) = a := ofNat_eq (by omega)
    have hrest : a.toNat % 4 * 16 % 16 = 0 := by omega
    have h₁ := value_digit (show a.toNat / 4 < 64 by omega)
    have h₂ := value_digit (show a.toNat % 4 * 16 < 64 by omega)
    simp only [encode, chunks3, List.flatMap_cons, List.flatMap_nil, encodeGroup, List.cons_append, List.nil_append, decode, h₁, h₂,
      Option.bind_eq_bind, Option.bind_some, if_true, hrest, and_self, hfirst]
  | case3 a b =>
    have ha := a.toNat_lt
    have hb := b.toNat_lt
    have hfirst : UInt8.ofNat (a.toNat / 4 * 4 + (a.toNat % 4 * 16 + b.toNat / 16) / 16) = a := ofNat_eq (by omega)
    have hsecond : UInt8.ofNat ((a.toNat % 4 * 16 + b.toNat / 16) % 16 * 16 + b.toNat % 16 * 4 / 4) = b :=
      ofNat_eq (by omega)
    have hrest : b.toNat % 16 * 4 % 4 = 0 := by omega
    have h₁ := value_digit (show a.toNat / 4 < 64 by omega)
    have h₂ := value_digit (show a.toNat % 4 * 16 + b.toNat / 16 < 64 by omega)
    have h₃ := value_digit (show b.toNat % 16 * 4 < 64 by omega)
    have hne := digit_ne_padding (show b.toNat % 16 * 4 < 64 by omega)
    simp only [encode, chunks3, List.flatMap_cons, List.flatMap_nil, encodeGroup, List.cons_append, List.nil_append, decode, h₁, h₂,
      h₃, hne, Option.bind_eq_bind, Option.bind_some, if_true, if_false, hrest, and_self, hfirst, hsecond]
  | case4 a b c rest ih =>
    have ha := a.toNat_lt
    have hb := b.toNat_lt
    have hc := c.toNat_lt
    have hfirst : UInt8.ofNat (a.toNat / 4 * 4 + (a.toNat % 4 * 16 + b.toNat / 16) / 16) = a := ofNat_eq (by omega)
    have hsecond : UInt8.ofNat ((a.toNat % 4 * 16 + b.toNat / 16) % 16 * 16 +
        (b.toNat % 16 * 4 + c.toNat / 64) / 4) = b := ofNat_eq (by omega)
    have hthird : UInt8.ofNat ((b.toNat % 16 * 4 + c.toNat / 64) % 4 * 64 + c.toNat % 64) = c := ofNat_eq (by omega)
    have h₁ := value_digit (show a.toNat / 4 < 64 by omega)
    have h₂ := value_digit (show a.toNat % 4 * 16 + b.toNat / 16 < 64 by omega)
    have h₃ := value_digit (show b.toNat % 16 * 4 + c.toNat / 64 < 64 by omega)
    have h₄ := value_digit (show c.toNat % 64 < 64 by omega)
    have hne₃ := digit_ne_padding (show b.toNat % 16 * 4 + c.toNat / 64 < 64 by omega)
    have hne₄ := digit_ne_padding (show c.toNat % 64 < 64 by omega)
    have hcons : encode (a :: b :: c :: rest) = encodeGroup [a, b, c] ++ encode rest := rfl
    rw [hcons]
    simp only [encodeGroup, List.cons_append, List.nil_append, decode, h₁, h₂, h₃, h₄, hne₃, hne₄, Option.bind_eq_bind,
      Option.bind_some, if_false, hfirst, hsecond, hthird, ih]

end Lasper.Lib.Base64
