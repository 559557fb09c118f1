import Lasper.Terminal.Embedded
import Mathlib.Data.List.Infix

/-! What the embedded terminal gives to `advance`: the tokens of a scan for the sequence that
enters the alternate screen, in batches. -/

namespace Lasper.Terminal.Embedded

open Lib

variable {Core Style : Type} {vt : Vt Core Style} {d : Display Core Style} {t : TerminalCore Core Style}
  {pattern bytes buffer held : List UInt8} {tokens : List (Token UInt8)} {index rounds : ℕ}

theorem position_eq_some (h : position pattern bytes = some index) :
    pattern <+: bytes.drop index ∧ ∀ j < index, ¬ pattern <+: bytes.drop j := by
  obtain ⟨hlength, hfound, hbefore⟩ := List.findIdx?_eq_some_iff_getElem.mp h
  constructor
  · simpa [List.getElem_tails] using hfound
  · intro j hj
    simpa [List.getElem_tails] using hbefore j hj

theorem position_eq_none (h : position pattern bytes = none) (j : ℕ) : ¬ pattern <+: bytes.drop j := by
  rw [position, List.findIdx?_eq_none_iff] at h
  have hmem : bytes.drop j ∈ bytes.tails := (List.mem_tails _ _).mpr (List.drop_suffix j bytes)
  rw [← List.isPrefixOf_iff_prefix, Bool.not_eq_true]
  exact h _ hmem

/-- The last number up to `n` that passes. -/
theorem find?_reverse_range' (p : ℕ → Bool) (n : ℕ) :
    let k := ((List.range' 1 n).reverse.find? p).getD 0
    (k = 0 ∨ p k = true) ∧ k ≤ n ∧ ∀ m, k < m → m ≤ n → p m = false := by
  induction n with
  | zero => exact ⟨.inl rfl, le_refl 0, fun m hm hmn => absurd hm (by simp; omega)⟩
  | succ n ih =>
    rw [List.range'_1_concat, List.reverse_append, List.reverse_singleton, List.singleton_append, List.find?_cons]
    cases hp : p (1 + n) with
    | true =>
      refine ⟨.inr hp, by simp [Nat.add_comm], fun m hk hm => ?_⟩
      simp at hk
      omega
    | false =>
      obtain ⟨hk, hle, hafter⟩ := ih
      refine ⟨hk, by simp only [] at hle ⊢; omega, fun m hm hmn => ?_⟩
      rcases Nat.lt_or_ge n m with hlt | hge
      · rwa [show m = 1 + n by omega]
      · exact hafter m hm hge

theorem longestSuffixPrefix_spec :
    pattern.take (longestSuffixPrefix bytes pattern) <:+ bytes ∧
      longestSuffixPrefix bytes pattern ≤ min pattern.length bytes.length ∧
      ∀ m, longestSuffixPrefix bytes pattern < m → m ≤ min pattern.length bytes.length →
        ¬ pattern.take m <:+ bytes := by
  obtain ⟨hk, hle, hafter⟩ :=
    find?_reverse_range' (fun length => (pattern.take length).isSuffixOf bytes) (min pattern.length bytes.length)
  refine ⟨?_, hle, fun m hm hmn => ?_⟩
  · rcases hk with hk | hk
    · rw [longestSuffixPrefix, hk]
      simp
    · exact List.isSuffixOf_iff_suffix.mp hk
  · rw [← List.isSuffixOf_iff_suffix, Bool.not_eq_true]
    exact hafter m hm hmn

/-- A round that finds the sequence. -/
theorem scan_found (h : position pattern buffer = some index)
    (hrest : Scan pattern (buffer.drop (index + pattern.length)) tokens held) :
    Scan pattern buffer ((buffer.take index).map .one ++ .whole :: tokens) held := by
  obtain ⟨⟨rest, hfound⟩, hbefore⟩ := position_eq_some h
  have hsplit : buffer = buffer.take index ++ (pattern ++ rest) := by rw [hfound, List.take_append_drop]
  have hdrop : buffer.drop (index + pattern.length) = rest := by
    rw [← List.drop_drop, ← hfound, List.drop_left]
  have hsuffix : ∀ i < (buffer.take index).length,
      (buffer.take index).drop i ++ (pattern ++ rest) = buffer.drop i := by
    intro i hi
    conv_rhs => rw [hsplit]
    rw [List.drop_append_of_le_length hi.le]
  have hscan : Scan pattern (buffer.take index ++ (pattern ++ rest))
      ((buffer.take index).map .one ++ .whole :: tokens) held := by
    apply Scan.of_front
    · rw [hdrop] at hrest
      exact .whole hrest
    · intro i hi
      rw [hsuffix i hi]
      exact hbefore i (by rw [List.length_take] at hi; omega)
    · intro i hi hbegin
      have hle := hbegin.length_le
      simp only [List.length_append, List.length_drop] at hle
      omega
  rwa [← hsplit] at hscan

theorem drop_take_append (bytes : List UInt8) {i len : ℕ} (h : i ≤ len) :
    (bytes.take len).drop i ++ bytes.drop len = bytes.drop i := by
  rw [List.drop_take, ← Nat.add_sub_of_le h, ← List.drop_drop, Nat.add_sub_cancel_left, List.take_append_drop]

/-- A round that finds none holds the longest end back that may become one. -/
theorem scan_notFound (h : position pattern buffer = none) {len : ℕ}
    (hlen : len = buffer.length - longestSuffixPrefix buffer pattern) :
    Scan pattern buffer ((buffer.take len).map .one) (buffer.drop len) := by
  obtain ⟨⟨front, hfront⟩, hle, hlongest⟩ : pattern.take (longestSuffixPrefix buffer pattern) <:+ buffer ∧ _ :=
    longestSuffixPrefix_spec
  have hlength : (pattern.take (longestSuffixPrefix buffer pattern)).length = longestSuffixPrefix buffer pattern := by
    rw [List.length_take]
    omega
  have hkeep : buffer.drop len = pattern.take (longestSuffixPrefix buffer pattern) := by
    have hfrontLength : len = front.length := by
      have htotal := congrArg List.length hfront
      rw [List.length_append, hlength] at htotal
      omega
    conv_lhs => rw [← hfront, hfrontLength, List.drop_left]
  have hheld : Scan pattern (buffer.drop len) [] (buffer.drop len) := by
    apply Scan.held
    · rw [hkeep]
      exact List.take_prefix _ _
    · intro heq
      exact position_eq_none h len (by rw [heq])
  have hscan : Scan pattern (buffer.take len ++ buffer.drop len)
      ((buffer.take len).map .one ++ []) (buffer.drop len) := by
    apply hheld.of_front
    · intro i hi
      rw [List.length_take] at hi
      rw [drop_take_append buffer (by omega)]
      exact position_eq_none h i
    · intro i hi hbegin
      rw [List.length_take] at hi
      rw [drop_take_append buffer (by omega)] at hbegin
      have hshort := hbegin.length_le
      rw [List.length_drop] at hshort
      apply hlongest (buffer.length - i) (by omega) (by omega)
      rw [List.prefix_iff_eq_take, List.length_drop] at hbegin
      rw [← hbegin]
      exact List.drop_suffix i buffer
  rwa [List.take_append_drop, List.append_nil] at hscan

/-! ## Batches -/

/-- One round of the loop gives a batch to `advance`. -/
def advanceBatch (vt : Vt Core Style) (d : Display Core Style) (batch : Batch UInt8) : Display Core Style :=
  if batch.closed then advanceEntering vt d (batch.items ++ altScreenEnter) else advance vt d batch.items

def absorb (vt : Vt Core Style) (d : Display Core Style) (tokens : List (Token UInt8)) : Display Core Style :=
  (batches tokens).foldl (advanceBatch vt) d

theorem take_found (h : position pattern buffer = some index) :
    buffer.take (index + pattern.length) = buffer.take index ++ pattern := by
  obtain ⟨rest, hfound⟩ := (position_eq_some h).1
  rw [List.take_add, ← hfound, List.take_left]

/-- The loop scans its buffer, and there is a round for each byte at most. -/
theorem processInputBuffer_scan (hrounds : buffer.length < rounds) (d : Display Core Style) :
    ∃ tokens held, Scan altScreenEnter buffer tokens held ∧
      processInputBuffer vt rounds ⟨buffer, d⟩ = some ⟨held, absorb vt d tokens⟩ := by
  induction rounds generalizing buffer d with
  | zero => omega
  | succ rounds ih =>
    unfold processInputBuffer
    cases hposition : position altScreenEnter buffer with
    | some index =>
      have hdrop : (buffer.drop (index + altScreenEnter.length)).length < rounds := by
        have hwhole := congrArg List.length (take_found hposition)
        simp only [List.length_take, List.length_append, altScreenEnter, List.length_cons, List.length_nil] at hwhole
        simp only [List.length_drop, altScreenEnter, List.length_cons, List.length_nil]
        omega
      obtain ⟨tokens, held, hscan, hloop⟩ :=
        ih hdrop (advanceEntering vt d (buffer.take (index + altScreenEnter.length)))
      refine ⟨_, held, scan_found hposition hscan, ?_⟩
      simp only []
      rw [hloop, absorb, absorb, batches_front, List.foldl_cons, advanceBatch, if_pos rfl, take_found hposition]
    | none =>
      simp only []
      generalize hlen : buffer.length - longestSuffixPrefix buffer altScreenEnter = len
      have hscan := scan_notFound hposition hlen.symm
      refine ⟨_, _, hscan, ?_⟩
      split_ifs with hzero
      · simp [hzero, absorb, batches]
      · have htake : buffer.take len ≠ [] := by
          intro hnil
          have hempty := congrArg List.length hnil
          rw [List.length_take, List.length_nil] at hempty
          omega
        have hshort : (buffer.drop len).length < rounds := by
          rw [List.length_drop]
          omega
        obtain ⟨tokens, held, hrest, hloop⟩ := ih hshort (advance vt d (buffer.take len))
        -- what was held back once stays held back
        obtain ⟨rfl, rfl⟩ := (Scan.held hscan.held_prefix.1 hscan.held_prefix.2).unique hrest
        rw [hloop, absorb, absorb, batches_open htake, List.foldl_cons, advanceBatch, if_neg (by simp)]
        rfl

theorem process_scan (t : TerminalCore Core Style) (data : List UInt8) :
    ∃ tokens held, Scan altScreenEnter (t.inputBuffer ++ data) tokens held ∧
      process vt t data = some ⟨held, absorb vt t.display tokens⟩ :=
  processInputBuffer_scan (Nat.lt_succ_self _) t.display

end Lasper.Terminal.Embedded
