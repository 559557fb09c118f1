import Mathlib.Data.List.Basic
import Mathlib.Data.List.Infix

/-! Scanning a stream for a pattern, in whatever chunks the stream arrives. What may still
become the pattern is held back; everything else is passed on item by item, and the pattern
as a whole. -/

namespace Lasper.Lib

variable {α : Type*} {pattern input rest more held held' : List α}

inductive Token (α : Type*)
  | one (item : α)
  | whole
  deriving DecidableEq

def Token.items (pattern : List α) : Token α → List α
  | .one item => [item]
  | .whole => pattern

variable {tokens tokens' : List (Token α)}

/-- What is scanned from an input, and what is held back of it. -/
inductive Scan (pattern : List α) : List α → List (Token α) → List α → Prop
  | held {input : List α} (hbegin : input <+: pattern) (hne : input ≠ pattern) : Scan pattern input [] input
  | whole {rest held : List α} {tokens : List (Token α)} (h : Scan pattern rest tokens held) :
    Scan pattern (pattern ++ rest) (.whole :: tokens) held
  | one {item : α} {rest held : List α} {tokens : List (Token α)} (hpattern : ¬ pattern <+: item :: rest)
    (hheld : ¬ item :: rest <+: pattern) (h : Scan pattern rest tokens held) :
    Scan pattern (item :: rest) (.one item :: tokens) held

namespace Scan

/-- Nothing is lost: the tokens and what is held back are the input. -/
theorem flatMap_items (h : Scan pattern input tokens held) :
    tokens.flatMap (Token.items pattern) ++ held = input := by
  induction h with
  | held => rfl
  | whole h ih => rw [List.flatMap_cons, List.append_assoc, ih, Token.items]
  | one hpattern hheld h ih => rw [List.flatMap_cons, List.append_assoc, ih, Token.items, List.singleton_append]

theorem held_prefix (h : Scan pattern input tokens held) : held <+: pattern ∧ held ≠ pattern := by
  induction h with
  | held hbegin hne => exact ⟨hbegin, hne⟩
  | whole h ih => exact ih
  | one hpattern hheld h ih => exact ih

theorem unique (h : Scan pattern input tokens held) (h' : Scan pattern input tokens' held') :
    tokens' = tokens ∧ held' = held := by
  induction h generalizing tokens' with
  | held hbegin hne =>
    cases h' with
    | held => exact ⟨rfl, rfl⟩
    | whole h' => exact absurd ((List.prefix_append _ _).eq_of_length_le hbegin.length_le).symm hne
    | one hpattern hheld => exact absurd hbegin hheld
  | @whole rest held tokens h ih =>
    generalize hinput : pattern ++ rest = input at h'
    cases h' with
    | held hbegin hne =>
      rw [← hinput] at hbegin hne
      exact absurd ((List.prefix_append _ _).eq_of_length_le hbegin.length_le).symm hne
    | whole h' =>
      rw [List.append_cancel_left hinput] at ih
      obtain ⟨rfl, rfl⟩ := ih h'
      exact ⟨rfl, rfl⟩
    | one hpattern => exact absurd (hinput ▸ List.prefix_append _ _) hpattern
  | @one item rest held tokens hpattern hheld h ih =>
    generalize hinput : item :: rest = input at h'
    cases h' with
    | held hbegin => exact absurd (hinput ▸ hbegin) hheld
    | whole h' => exact absurd (hinput ▸ List.prefix_append _ _) hpattern
    | one _ _ h' =>
      cases hinput
      obtain ⟨rfl, rfl⟩ := ih h'
      exact ⟨rfl, rfl⟩

/-- The chunk that comes next is scanned after what is held back. -/
theorem append (h : Scan pattern input tokens held) (h' : Scan pattern (held ++ more) tokens' held') :
    Scan pattern (input ++ more) (tokens ++ tokens') held' := by
  induction h with
  | held => exact h'
  | whole h ih =>
    rw [List.append_assoc]
    exact .whole (ih h')
  | one hpattern hheld h ih =>
    apply Scan.one
    · intro hbegin
      rcases List.prefix_or_prefix_of_prefix hbegin (List.prefix_append (_ :: _) more) with hshort | hlong
      · exact hpattern hshort
      · exact hheld hlong
    · exact fun hbegin => hheld ((List.prefix_append _ _).trans hbegin)
    · exact ih h'

/-- Items before the first place where the pattern, or what is held back, can begin. -/
theorem of_front {front : List α} (h : Scan pattern rest tokens held)
    (hpattern : ∀ i < front.length, ¬ pattern <+: front.drop i ++ rest)
    (hheld : ∀ i < front.length, ¬ front.drop i ++ rest <+: pattern) :
    Scan pattern (front ++ rest) (front.map .one ++ tokens) held := by
  induction front with
  | nil => exact h
  | cons item front ih =>
    apply Scan.one
    · simpa using hpattern 0 (by simp)
    · simpa using hheld 0 (by simp)
    · apply ih
      · exact fun i hi => hpattern (i + 1) (by simpa using hi)
      · exact fun i hi => hheld (i + 1) (by simpa using hi)

end Scan

/-- Tokens that are passed on together, ended by the pattern or not. -/
structure Batch (α : Type*) where
  items : List α
  closed : Bool

def Batch.content (batch : Batch α) : List (Token α) :=
  batch.items.map .one ++ if batch.closed then [.whole] else []

/-- A batch ends with the pattern, and the last one where the tokens end. -/
def batches : List (Token α) → List (Batch α)
  | [] => []
  | .whole :: tokens => ⟨[], true⟩ :: batches tokens
  | .one item :: tokens =>
    match batches tokens with
    | [] => [⟨[item], false⟩]
    | batch :: rest => { batch with items := item :: batch.items } :: rest

theorem batches_front (front : List α) (tokens : List (Token α)) :
    batches (front.map .one ++ .whole :: tokens) = ⟨front, true⟩ :: batches tokens := by
  induction front with
  | nil => rfl
  | cons item front ih => simp [batches, ih]

theorem batches_open {front : List α} (hne : front ≠ []) : batches (front.map .one) = [⟨front, false⟩] := by
  induction front with
  | nil => exact absurd rfl hne
  | cons item front ih =>
    rcases eq_or_ne front [] with rfl | hfront
    · rfl
    · simp [batches, ih hfront]

theorem flatMap_batches (tokens : List (Token α)) : (batches tokens).flatMap Batch.content = tokens := by
  induction tokens with
  | nil => rfl
  | cons token tokens ih =>
    cases token with
    | whole => simp [batches, Batch.content, ih]
    | one item =>
      unfold batches
      split
      · rename_i hnil
        rw [hnil] at ih
        simp [Batch.content, ← ih]
      · rename_i batch rest hcons
        rw [hcons] at ih
        simp [Batch.content, ← ih]

theorem content_ne_nil {batch : Batch α} (h : batch ∈ batches tokens) : batch.content ≠ [] := by
  induction tokens generalizing batch with
  | nil => cases h
  | cons token tokens ih =>
    cases token with
    | whole =>
      rcases List.mem_cons.mp h with rfl | hrest
      · simp [Batch.content]
      · exact ih hrest
    | one item =>
      unfold batches at h
      split at h
      · rw [List.mem_singleton.mp h]
        simp [Batch.content]
      · rename_i first rest hcons
        rcases List.mem_cons.mp h with rfl | hrest
        · simp [Batch.content]
        · exact ih (by rw [hcons]; exact List.mem_cons_of_mem _ hrest)

end Lasper.Lib
