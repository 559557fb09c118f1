import Mathlib.Algebra.Order.Ring.Int
import Mathlib.Data.Nat.Basic
import Mathlib.Data.List.Basic

/-! Computations on machine words that must not go wrong. Besides the failures a
program reports there are those it must never have: it panics, or it runs out of
the steps it was given. Words are natural numbers below `2 ^ 64`. -/

namespace Lasper.Lib

theorem ok_of_toOption {ε α : Type} {x : Except ε α} {a : α} (h : x.toOption = some a) : x = .ok a := by
  cases x with
  | ok b => exact congrArg Except.ok (Option.some.inj h)
  | error e => cases h

/-- Peel a bind of fallible computations apart. -/
theorem bind_ok {ε α β : Type} {x : Except ε α} {f : α → Except ε β} {b : β}
    (h : x >>= f = .ok b) : ∃ a, x = .ok a ∧ f a = .ok b := by
  cases x with
  | error e => cases h
  | ok a => exact ⟨a, rfl, h⟩

theorem forM_ok {ε α : Type} {f : α → Except ε Unit} {xs : List α} (h : xs.forM f = .ok ()) :
    ∀ x ∈ xs, f x = .ok () := by
  induction xs with
  | nil => exact fun x hx => nomatch hx
  | cons y ys ih =>
    have hcons : (y :: ys).forM f = (f y >>= fun _ => ys.forM f) := rfl
    rw [hcons] at h
    cases hy : f y with
    | error e => rw [hy] at h; cases h
    | ok u =>
      rw [hy] at h
      intro x hx
      obtain rfl | hx := List.mem_cons.mp hx
      · exact hy
      · exact ih h x hx

def u16Max : ℕ := 2 ^ 16 - 1

def u64Max : ℕ := 2 ^ 64 - 1

/-- An addition that stops at the largest value of its type. -/
def saturatingAdd (most a b : ℕ) : ℕ := min (a + b) most

theorem le_saturatingAdd {most a : ℕ} (b : ℕ) (h : a ≤ most) : a ≤ saturatingAdd most a b :=
  le_min (Nat.le_add_right a b) h

/-- A reported failure, or one that must not happen. -/
inductive Fault (ε : Type)
  | reported (error : ε)
  | panicked
  | exhausted
  deriving DecidableEq

abbrev Checked (ε α : Type) := Except (Fault ε) α

namespace Checked

variable {ε α β : Type}

def wordBound : ℕ := 2 ^ 64

/-- A slice of bytes takes at most `isize::MAX` bytes of memory. -/
abbrev InMemory := { bytes : List UInt8 // bytes.length < 2 ^ 63 }

def report (error : ε) : Checked ε α := .error (.reported error)

def add? (a b : ℕ) : Option ℕ := if a + b < wordBound then some (a + b) else none

def mul? (a b : ℕ) : Option ℕ := if a * b < wordBound then some (a * b) else none

def orReport (x : Option α) (error : ε) : Checked ε α :=
  match x with
  | some a => .ok a
  | none => report error

/-- An addition that is not checked by the program. -/
def plus (a b : ℕ) : Checked ε ℕ :=
  match add? a b with
  | some c => .ok c
  | none => .error .panicked

/-- A multiplication that is not checked by the program. -/
def times (a b : ℕ) : Checked ε ℕ :=
  match mul? a b with
  | some c => .ok c
  | none => .error .panicked

/-- An addition of bytes. -/
def plusByte (a b : ℕ) : Checked ε ℕ := if a + b < 256 then .ok (a + b) else .error .panicked

def minus (a b : ℕ) : Checked ε ℕ := if b ≤ a then .ok (a - b) else .error .panicked

def index (xs : List α) (i : ℕ) : Checked ε α :=
  match xs[i]? with
  | some x => .ok x
  | none => .error .panicked

def slice (xs : List α) (start stop : ℕ) : Checked ε (List α) :=
  if start ≤ stop ∧ stop ≤ xs.length then .ok ((xs.take stop).drop start) else .error .panicked

/-- If it fails, it says why; if it returns, then in `Q`. -/
structure Yields (x : Checked ε α) (Q : α → Prop) : Prop where
  returned : ∀ a, x = .ok a → Q a
  failed : ∀ fault, x = .error fault → ∃ error, fault = .reported error

section Rules

variable {x : Checked ε α} {f : α → Checked ε β} {Q Q' : α → Prop} {R : β → Prop} {a b : ℕ}

theorem yields_ok {a : α} (h : Q a) : Yields (.ok a : Checked ε α) Q where
  returned _ hb := Except.ok.inj hb ▸ h
  failed := nofun

theorem yields_pure {a : α} (h : Q a) : Yields (pure a : Checked ε α) Q := yields_ok h

theorem yields_report (error : ε) : Yields (report error : Checked ε α) Q where
  returned := nofun
  failed _ h := ⟨error, (Except.error.inj h).symm⟩

theorem yields_orReport (x : Option α) (error : ε) : Yields (orReport x error) (fun a => x = some a) := by
  cases x with
  | some a => exact yields_ok rfl
  | none => exact yields_report error

theorem Yields.mono (h : Yields x Q) (hQ : ∀ a, Q a → Q' a) : Yields x Q' where
  returned a ha := hQ a (h.returned a ha)
  failed := h.failed

theorem yields_bind (h : Yields x Q) (hf : ∀ a, Q a → Yields (f a) R) : Yields (x >>= f) R := by
  cases x with
  | ok a => exact hf a (h.returned a rfl)
  | error fault =>
    refine ⟨nofun, fun other hother => ?_⟩
    cases hother
    exact h.failed fault rfl

theorem bind_of_ok {a : α} (h : x = .ok a) : (x >>= f) = f a := by
  rw [h]
  rfl

/-- A value that is there is passed on. -/
theorem yields_pass {a : α} (h : x = .ok a) (hf : Yields (f a) R) : Yields (x >>= f) R := by
  rw [h]
  exact hf

theorem Yields.faultless (h : Yields x Q) : x ≠ .error .panicked ∧ x ≠ .error .exhausted := by
  constructor
  · intro hx
    obtain ⟨error, herror⟩ := h.failed _ hx
    cases herror
  · intro hx
    obtain ⟨error, herror⟩ := h.failed _ hx
    cases herror

theorem orReport_of_some {x : Option α} {a : α} (h : x = some a) (error : ε) : orReport x error = .ok a := by
  rw [h]
  rfl

theorem plus_of_lt (h : a + b < wordBound) : (plus a b : Checked ε ℕ) = .ok (a + b) := by
  rw [plus, add?, if_pos h]

theorem times_of_lt (h : a * b < wordBound) : (times a b : Checked ε ℕ) = .ok (a * b) := by
  rw [times, mul?, if_pos h]

theorem minus_of_le (h : b ≤ a) : (minus a b : Checked ε ℕ) = .ok (a - b) := if_pos h

theorem index_of_lt {xs : List α} {i : ℕ} (h : i < xs.length) : (index xs i : Checked ε α) = .ok xs[i] := by
  rw [index, List.getElem?_eq_getElem h]

theorem index_getD {xs : List α} {i : ℕ} (h : i < xs.length) (d : α) : (index xs i : Checked ε α) = .ok (xs.getD i d) := by
  rw [index_of_lt h, List.getD_eq_getElem?_getD, List.getElem?_eq_getElem h, Option.getD_some]

theorem slice_of_le {xs : List α} {start stop : ℕ} (h : start ≤ stop) (h' : stop ≤ xs.length) :
    (slice xs start stop : Checked ε (List α)) = .ok ((xs.take stop).drop start) := if_pos ⟨h, h'⟩

end Rules

/-- It returns this value if the condition holds, and fails if not. -/
structure Decides (x : Checked ε α) (P : Prop) (a : α) : Prop where
  returns : P → x = .ok a
  fails : ¬ P → ∃ fault, x = .error fault

section Decisions

variable {x : Checked ε α} {f : α → Checked ε β} {P Q : Prop} {a : α} {b : β}

theorem decides_ok (h : P) : Decides (.ok a : Checked ε α) P a where
  returns _ := rfl
  fails hn := absurd h hn

theorem decides_pass (hx : x = .ok a) (hf : Decides (f a) P b) : Decides (x >>= f) P b := by
  rw [hx]
  exact hf

theorem decides_bind (hx : Decides x P a) (hf : P → Decides (f a) Q b) : Decides (x >>= f) (P ∧ Q) b where
  returns := by
    rintro ⟨hP, hQ⟩
    rw [hx.returns hP]
    exact (hf hP).returns hQ
  fails := by
    intro hn
    by_cases hP : P
    · rw [hx.returns hP]
      exact (hf hP).fails fun hQ => hn ⟨hP, hQ⟩
    · obtain ⟨fault, hfault⟩ := hx.fails hP
      rw [hfault]
      exact ⟨fault, rfl⟩

/-- A check that reports before anything else is done. -/
theorem decides_check [Decidable P] {error : ε} (hx : ¬ P → Decides x Q a) :
    Decides (if P then report error else x) (¬ P ∧ Q) a where
  returns := by
    rintro ⟨hP, hQ⟩
    rw [if_neg hP]
    exact (hx hP).returns hQ
  fails := by
    intro hn
    split_ifs with hP
    · exact ⟨_, rfl⟩
    · exact (hx hP).fails fun hQ => hn ⟨hP, hQ⟩

theorem decides_add (a b : ℕ) (error : ε) : Decides (orReport (add? a b) error) (a + b < wordBound) (a + b) where
  returns h := by
    rw [add?, if_pos h]
    rfl
  fails h := by
    rw [add?, if_neg h]
    exact ⟨_, rfl⟩

theorem Decides.congr (h : Decides x P a) (hPQ : P ↔ Q) : Decides x Q a where
  returns hQ := h.returns (hPQ.mpr hQ)
  fails hn := h.fails fun hP => hn (hPQ.mp hP)

theorem Decides.iff {x : Checked ε Unit} (h : Decides x P ()) : x = .ok () ↔ P := by
  constructor
  · intro hx
    by_contra hn
    obtain ⟨fault, hfault⟩ := h.fails hn
    rw [hx] at hfault
    cases hfault
  · exact h.returns

end Decisions

section Numerals

/-- The number that digits stand for, after those read before. -/
def numeral (base : ℕ) (before : ℕ) (digits : List ℕ) : ℕ :=
  digits.foldl (fun value digit => value * base + digit) before

/-- Read digits, with both operations checked at every digit. -/
def readNumeral (base : ℕ) (error : ε) (before : ℕ) : List ℕ → Checked ε ℕ
  | [] => .ok before
  | digit :: digits => do
    let value ← orReport ((mul? before base).bind (add? · digit)) error
    readNumeral base error value digits

variable {base : ℕ}

theorem le_numeral (hbase : 0 < base) (digits : List ℕ) (before : ℕ) : before ≤ numeral base before digits := by
  induction digits generalizing before with
  | nil => exact le_rfl
  | cons digit digits ih =>
    have hstep : before ≤ before * base + digit := by
      have := Nat.le_mul_of_pos_right before hbase
      omega
    exact Nat.le_trans hstep (ih _)

/-- The digits are read as their number, if it fits a word. -/
theorem readNumeral_eq (hbase : 0 < base) (error : ε) (digits : List ℕ) {before : ℕ} (hbefore : before < wordBound) :
    readNumeral base error before digits =
      if numeral base before digits < wordBound then .ok (numeral base before digits) else report error := by
  induction digits generalizing before with
  | nil => rw [readNumeral, numeral, List.foldl_nil, if_pos hbefore]
  | cons digit digits ih =>
    have hnumeral : numeral base before (digit :: digits) = numeral base (before * base + digit) digits := rfl
    have hle := le_numeral hbase digits (before * base + digit)
    rw [readNumeral, hnumeral]
    by_cases hfits : before * base + digit < wordBound
    · have hmul : before * base < wordBound := by omega
      rw [mul?, if_pos hmul, Option.bind_some, add?, if_pos hfits]
      exact ih hfits
    · have hread : (mul? before base).bind (add? · digit) = none := by
        unfold mul?
        split_ifs with hmul
        · rw [Option.bind_some, add?, if_neg hfits]
        · rfl
      have hlarge : ¬ numeral base (before * base + digit) digits < wordBound := by omega
      rw [hread, if_neg hlarge]
      rfl

theorem yields_readNumeral (error : ε) (digits : List ℕ) (before : ℕ) :
    Yields (readNumeral base error before digits) fun _ => True := by
  induction digits generalizing before with
  | nil => exact yields_ok trivial
  | cons digit digits ih => exact yields_bind (yields_orReport _ error) fun value _ => ih value

end Numerals

end Checked

end Lasper.Lib
