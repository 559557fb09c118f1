import Lasper.Nspawn.Reading

/-! The value of a bind line, written and read as the source does it: two replacements one
after the other, and a scanner that looks one character ahead. -/

namespace Lasper.Nspawn

open Lib Config Nvidia

section Writing

/-- `str::replace` of one character -/
def replaceChar (c : Char) (replacement text : Text) : Text :=
  text.flatMap fun d => if d = c then replacement else [d]

/-- `escape_nspawn_bind_path` -/
def escapeByReplacing (path : Text) : Text :=
  replaceChar ':' ['\\', ':'] (replaceChar '\\' ['\\', '\\'] path)

/-- `encode_nspawn_bind_value` -/
def encodeBindValue (source : Text) (target options : Option Text) : Text :=
  let value := escapeByReplacing source
  let value := target.elim value fun target => value ++ [':'] ++ escapeByReplacing target
  (options.filter (· ≠ [])).elim value fun options => value ++ [':'] ++ options

theorem replaceChar_cons (c d : Char) (replacement text : Text) :
    replaceChar c replacement (d :: text) = (if d = c then replacement else [d]) ++ replaceChar c replacement text := rfl

/-- The second replacement leaves what the first one wrote alone. -/
theorem escapeByReplacing_eq (path : Text) : escapeByReplacing path = escapeNspawnBindPath path := by
  induction path with
  | nil => rfl
  | cons c path ih =>
    unfold escapeByReplacing escapeNspawnBindPath at *
    rw [replaceChar_cons, List.flatMap_cons, ← ih]
    by_cases hslash : c = '\\'
    · subst hslash
      rfl
    · by_cases hcolon : c = ':'
      · subst hcolon
        rfl
      · simp [hslash, hcolon, replaceChar_cons]

theorem encodeBindValue_eq (source : Text) (target options : Option Text) :
    encodeBindValue source target options = encodeNspawnBindValue source target options := by
  unfold encodeBindValue encodeNspawnBindValue
  cases target with
  | none =>
    cases options with
    | none => simp [escapeByReplacing_eq]
    | some options => by_cases h : options = [] <;> simp [escapeByReplacing_eq, h, Option.filter]
  | some target =>
    cases options with
    | none => simp [escapeByReplacing_eq]
    | some options => by_cases h : options = [] <;> simp [escapeByReplacing_eq, h, Option.filter]

end Writing

section Reading

/-- `fields.last_mut()?.push(c)` -/
def pushLast (c : Char) (fields : List Text) : Option (List Text) :=
  fields.getLast?.map fun field => fields.dropLast ++ [field ++ [c]]

/-- The loop of `parse_nspawn_bind_fields` over the characters still to come. -/
def scanBindFields (fields : List Text) : Text → Option (List Text)
  | [] => some fields
  | '\\' :: '\\' :: rest => (pushLast '\\' fields).bind (scanBindFields · rest)
  | '\\' :: ':' :: rest => (pushLast ':' fields).bind (scanBindFields · rest)
  | '\\' :: rest => (pushLast '\\' fields).bind (scanBindFields · rest)
  | ':' :: rest => scanBindFields (fields ++ [[]]) rest
  | c :: rest => (pushLast c fields).bind (scanBindFields · rest)

def parseBindFields (value : Text) : Option (List Text) := scanBindFields [[]] value

theorem pushLast_concat (c : Char) (fields : List Text) (field : Text) :
    pushLast c (fields ++ [field]) = some (fields ++ [field ++ [c]]) := by
  simp [pushLast]

/-- Put a text in front of the first field. -/
def prependField (front : Text) : List Text → List Text
  | [] => [front]
  | field :: fields => (front ++ field) :: fields

theorem prependField_consField (front : Text) (c : Char) (fields : List Text) :
    prependField front (consField c fields) = prependField (front ++ [c]) fields := by
  cases fields <;> simp [prependField, consField]

theorem parseNspawnBindFields_ne_nil (value : Text) : parseNspawnBindFields value ≠ [] := by
  have hcons : ∀ (c : Char) (fields : List Text), consField c fields ≠ [] := by
    intro c fields
    cases fields <;> simp [consField]
  induction value using parseNspawnBindFields.induct with
  | case1 => simp [parseNspawnBindFields]
  | case2 rest ih => exact hcons _ _
  | case3 rest ih => exact hcons _ _
  | case4 rest ih => simp [parseNspawnBindFields]
  | case5 c rest hescape hcolonEscape hcolon ih =>
    rw [parseNspawnBindFields.eq_5 _ _ hescape hcolonEscape hcolon]
    exact hcons _ _

/-- What the scanner holds goes before what it still finds. -/
theorem scanBindFields_eq (value : Text) (fields : List Text) (field : Text) :
    scanBindFields (fields ++ [field]) value = some (fields ++ prependField field (parseNspawnBindFields value)) := by
  induction value using parseNspawnBindFields.induct generalizing fields field with
  | case1 => simp [scanBindFields, parseNspawnBindFields, prependField]
  | case2 rest ih =>
    rw [scanBindFields, pushLast_concat, Option.bind_some, ih, parseNspawnBindFields, prependField_consField]
  | case3 rest ih =>
    rw [scanBindFields, pushLast_concat, Option.bind_some, ih, parseNspawnBindFields, prependField_consField]
  | case4 rest ih =>
    obtain ⟨first, others, hparse⟩ := List.exists_cons_of_ne_nil (parseNspawnBindFields_ne_nil rest)
    rw [scanBindFields, ih, parseNspawnBindFields, hparse]
    simp [prependField]
  | case5 c rest hescape hcolonEscape hcolon ih =>
    by_cases hslash : c = '\\'
    · subst hslash
      rw [scanBindFields.eq_4 _ _ (fun rest' h => hescape rest' rfl h) (fun rest' h => hcolonEscape rest' rfl h),
        pushLast_concat, Option.bind_some, ih, parseNspawnBindFields.eq_5 _ _ hescape hcolonEscape hcolon,
        prependField_consField]
    · rw [scanBindFields.eq_6 _ _ _ hescape hcolonEscape (fun h => hslash h) hcolon, pushLast_concat,
        Option.bind_some, ih, parseNspawnBindFields.eq_5 _ _ hescape hcolonEscape hcolon, prependField_consField]

theorem parseBindFields_eq (value : Text) : parseBindFields value = some (parseNspawnBindFields value) := by
  obtain ⟨first, others, hparse⟩ := List.exists_cons_of_ne_nil (parseNspawnBindFields_ne_nil value)
  have hscan := scanBindFields_eq value [] []
  rw [hparse] at hscan ⊢
  exact hscan

/-- Without a colon or a backslash there is one field. -/
theorem parseNspawnBindFields_single {text : Text} (hcolon : ':' ∉ text) (hslash : '\\' ∉ text) :
    parseNspawnBindFields text = [text] := by
  induction text with
  | nil => rfl
  | cons c rest ih =>
    rw [List.mem_cons, not_or] at hcolon hslash
    rw [parseNspawnBindFields_plain (Ne.symm hslash.1) (Ne.symm hcolon.1), ih hcolon.2 hslash.2]
    rfl

end Reading

section Claims

variable {source target options : Text}

theorem hasContinuation_free {text : Text} (hslash : '\\' ∉ text) : hasContinuation text = false := by
  refine hasContinuation_of_last fun c hc => ?_
  rintro rfl
  exact hslash (List.mem_of_getLast? hc)

/-- The three fields as they are written. -/
theorem encodeBindValue_three (h : options ≠ []) : encodeBindValue source (some target) (some options) =
    escapeNspawnBindPath source ++ ':' :: (escapeNspawnBindPath target ++ ':' :: options) := by
  rw [encodeBindValue_eq, encodeNspawnBindValue]
  simp [h]

theorem encodeBindValue_two : encodeBindValue source (some target) (some []) =
    escapeNspawnBindPath source ++ ':' :: escapeNspawnBindPath target := by
  rw [encodeBindValue_eq, encodeNspawnBindValue]
  simp

/-- A bind value is read back into its fields, without the option field if that is empty, and
no open escape is left at its end. -/
theorem bind_value_read_back (source target options : Text) (hcolon : ':' ∉ options) (hslash : '\\' ∉ options) :
    parseBindFields (encodeBindValue source (some target) (some options)) =
        some (source :: target :: if options = [] then [] else [options]) ∧
      hasContinuation (encodeBindValue source (some target) (some options)) = false := by
  rw [parseBindFields_eq]
  by_cases hempty : options = []
  · subst hempty
    rw [encodeBindValue_two, parse_two, hasContinuation_append_cons (by decide), if_pos rfl]
    exact ⟨rfl, hasContinuation_escape target⟩
  · rw [encodeBindValue_three hempty, parseNspawnBindFields_escape, parseNspawnBindFields,
      parseNspawnBindFields_escape, parseNspawnBindFields, parseNspawnBindFields_single hcolon hslash,
      foldr_consField, foldr_consField, List.append_nil, List.append_nil, if_neg hempty,
      hasContinuation_append_cons (by decide), hasContinuation_append_cons (by decide)]
    exact ⟨rfl, hasContinuation_free hslash⟩

theorem idmap_read_back :
    parseBindFields (encodeBindValue ['/', 'a', ':', '\\'] (some ['\\', '\\', ':']) (some ['i', 'd'])) =
        some [['/', 'a', ':', '\\'], ['\\', '\\', ':'], ['i', 'd']] ∧
      hasContinuation (encodeBindValue ['/', 'a', ':', '\\'] (some ['\\', '\\', ':']) (some ['i', 'd'])) = false :=
  bind_value_read_back _ _ ['i', 'd'] (by decide) (by decide)

/-- An empty option is not written. -/
theorem empty_option_lost : ¬ ∀ source target options : Text, ':' ∉ options → '\\' ∉ options →
    parseBindFields (encodeBindValue source (some target) (some options)) = some [source, target, options] ∧
      hasContinuation (encodeBindValue source (some target) (some options)) = false := by
  intro h
  have hread := (h ['a'] ['b'] [] (by decide) (by decide)).1
  have hwritten : parseBindFields (encodeBindValue ['a'] (some ['b']) (some [])) = some [['a'], ['b']] := by decide
  rw [hwritten] at hread
  cases hread

end Claims

end Lasper.Nspawn
