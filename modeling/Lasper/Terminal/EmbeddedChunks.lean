import Lasper.Terminal.EmbeddedScan

/-! When the state of the embedded terminal does not depend on the chunks its output arrives
in. `advance` compares the screen before and after all it is given, and looks once whether
line breaks are skipped; giving it more at once changes nothing as long as each further byte
joins on without harm. -/

namespace Lasper.Terminal.Embedded

open Lib

variable {Core Style : Type} {vt : Vt Core Style} {d start mid : Display Core Style} {t : TerminalCore Core Style}
  {bytes items held : List UInt8} {tokens : List (Token UInt8)} {byte : UInt8} {skip was : Bool}
  {cut : List (List UInt8)}

/-- One token after the other, whatever it arrives with. -/
def advanceToken (vt : Vt Core Style) (d : Display Core Style) : Token UInt8 → Display Core Style
  | .one byte => advance vt d [byte]
  | .whole => advanceEntering vt d altScreenEnter

/-- What leaving the alternate screen does to the screen. -/
def leftCore (vt : Vt Core Style) (d : Display Core Style) (core : Core) : Core :=
  let restored := match d.savedPrimaryCursor with
    | none => core
    | some saved => vt.setCursorStyle saved.style core
  if d.clearPrimaryHistoryOnAltExit then vt.clearHistory restored else restored

/-- The byte keeps the primary screen, asks for no style where one is restored, and does the
same before the cursor is restored and the history cleared as after it. -/
def Unconcerned (vt : Vt Core Style) (d : Display Core Style) (byte : UInt8) : Prop :=
  vt.altScreen (vt.step d.core byte).1 = false ∧
    (d.savedPrimaryCursor.isSome = true → (vt.step d.core byte).2 = false) ∧
    vt.step (leftCore vt d d.core) byte = (leftCore vt d (vt.step d.core byte).1, (vt.step d.core byte).2)

/-- A byte that `advance` gets after what led from `start` to `mid` in the same call: it is no
line break at home after the skipping has ended, and the screen is the one of the start, or
leaving the alternate screen does nothing, or it was left and the byte does not mind. -/
def Harmless (vt : Vt Core Style) (start mid : Display Core Style) (byte : UInt8) : Prop :=
  ¬ (start.suppressInitialLineBreaks = true ∧ mid.suppressInitialLineBreaks = false ∧ byte = 10 ∧
      vt.atHome mid.core = true) ∧
    (vt.altScreen mid.core = vt.altScreen start.core ∨
      mid.savedPrimaryCursor = none ∧ mid.clearPrimaryHistoryOnAltExit = false ∨
      vt.altScreen start.core = true ∧ vt.altScreen mid.core = false ∧ Unconcerned vt mid byte)

/-- A batch whose bytes all join on without harm, and whose closing sequence finds the screen
of the start. -/
def CalmBatch (vt : Vt Core Style) (start : Display Core Style) (batch : Batch UInt8) : Prop :=
  (∀ before byte after, batch.items = before ++ byte :: after →
      Harmless vt start (feed vt start.suppressInitialLineBreaks start before) byte) ∧
    (batch.closed = true →
      vt.altScreen (feed vt start.suppressInitialLineBreaks start batch.items).core = vt.altScreen start.core)

def CalmBatches (vt : Vt Core Style) : Display Core Style → List (Batch UInt8) → Prop
  | _, [] => True
  | d, batch :: rest => CalmBatch vt d batch ∧ CalmBatches vt (advanceBatch vt d batch) rest

/-- Every batch of every call is calm. -/
def Calm (vt : Vt Core Style) : TerminalCore Core Style → List (List UInt8) → Prop
  | _, [] => True
  | t, data :: rest => ∀ tokens held, Scan altScreenEnter (t.inputBuffer ++ data) tokens held →
      CalmBatches vt t.display (batches tokens) ∧ Calm vt ⟨held, absorb vt t.display tokens⟩ rest

/-! ## What is given to `advance` -/

theorem feedByte_advanced : (feedByte vt skip d byte).advanced = d.advanced ++ [byte] := by
  unfold feedByte
  split_ifs <;> rfl

theorem feed_advanced : (feed vt skip d bytes).advanced = d.advanced ++ bytes := by
  induction bytes generalizing d with
  | nil => simp [feed]
  | cons byte bytes ih =>
    have hrest : (feed vt skip (feedByte vt skip d byte) bytes).advanced = _ := ih
    rw [feedByte_advanced, List.append_assoc, List.singleton_append] at hrest
    exact hrest

theorem settle_advanced : (settle vt was d).advanced = d.advanced := by
  unfold settle clearPrimaryHistory restorePrimaryCursor consumeCursorStyleRequest
  split_ifs <;> (try split) <;> rfl

theorem advance_advanced : (advance vt d bytes).advanced = d.advanced ++ bytes := by
  rw [advance, settle_advanced, feed_advanced]

theorem advanceEntering_advanced : (advanceEntering vt d bytes).advanced = d.advanced ++ bytes := by
  unfold advanceEntering enterAltScreen
  split_ifs <;> exact advance_advanced

theorem absorb_advanced (d : Display Core Style) (tokens : List (Token UInt8)) :
    (absorb vt d tokens).advanced = d.advanced ++ tokens.flatMap (Token.items altScreenEnter) := by
  have hbatches : ∀ (all : List (Batch UInt8)) (d : Display Core Style),
      (all.foldl (advanceBatch vt) d).advanced =
        d.advanced ++ (all.flatMap Batch.content).flatMap (Token.items altScreenEnter) := by
    intro all
    induction all with
    | nil => simp
    | cons batch rest ih =>
      intro d
      rw [List.foldl_cons, ih]
      obtain ⟨items, closed⟩ := batch
      cases closed <;>
        simp [advanceBatch, advance_advanced, advanceEntering_advanced, Batch.content, List.flatMap_map, Token.items]
  rw [absorb, hbatches, flatMap_batches]

/-! ## Joining on -/

theorem settle_of_consume {d d' : Display Core Style}
    (h : consumeCursorStyleRequest d = consumeCursorStyleRequest d') : settle vt was d = settle vt was d' := by
  have hcore : (consumeCursorStyleRequest d).core = (consumeCursorStyleRequest d').core := by rw [h]
  have hcore' : d.core = d'.core := hcore
  rw [settle, settle, h, hcore']

theorem consume_feedByte :
    consumeCursorStyleRequest (feedByte vt skip (consumeCursorStyleRequest d) byte) =
      consumeCursorStyleRequest (feedByte vt skip d byte) := by
  unfold feedByte consumeCursorStyleRequest
  simp only []
  split_ifs <;> simp [Bool.or_assoc]

theorem feedByte_suppress_le (h : (feedByte vt skip d byte).suppressInitialLineBreaks = true) :
    d.suppressInitialLineBreaks = true := by
  unfold feedByte at h
  split_ifs at h
  · exact h
  · simp only [Bool.and_eq_true] at h
    exact h.1

theorem feed_suppress_le (h : (feed vt skip d bytes).suppressInitialLineBreaks = true) :
    d.suppressInitialLineBreaks = true := by
  induction bytes generalizing d with
  | nil => exact h
  | cons byte bytes ih => exact feedByte_suppress_le (ih h)

theorem feed_append (before after : List UInt8) :
    feed vt skip d (before ++ after) = feed vt skip (feed vt skip d before) after := by
  rw [feed, feed, feed, List.foldl_append]

/-- Once the skipping has ended, asking for it matters to a line break at home only. -/
theorem feedByte_skip (hsuppress : d.suppressInitialLineBreaks = false)
    (hbyte : ¬ (byte = 10 ∧ vt.atHome d.core = true)) : feedByte vt true d byte = feedByte vt false d byte := by
  have hcond : ¬ (true && (byte = 10 : Bool) && vt.atHome d.core) = true := by simpa using hbyte
  simp only [feedByte, if_neg hcond, hsuppress, Bool.false_and, if_false, Bool.false_eq_true]

theorem feedByte_skip_eq (hle : mid.suppressInitialLineBreaks = true → start.suppressInitialLineBreaks = true)
    (h : ¬ (start.suppressInitialLineBreaks = true ∧ mid.suppressInitialLineBreaks = false ∧ byte = 10 ∧
      vt.atHome mid.core = true)) :
    feedByte vt start.suppressInitialLineBreaks mid byte = feedByte vt mid.suppressInitialLineBreaks mid byte := by
  cases hmid : mid.suppressInitialLineBreaks with
  | true => rw [hle hmid]
  | false =>
    cases hstart : start.suppressInitialLineBreaks with
    | false => rfl
    | true => exact feedByte_skip hmid fun hbyte => h ⟨hstart, hmid, hbyte⟩

/-- The sequence that enters the alternate screen holds no line break. -/
theorem feed_skip (hsuppress : d.suppressInitialLineBreaks = false) (hbytes : 10 ∉ bytes) :
    feed vt true d bytes = feed vt false d bytes := by
  induction bytes generalizing d with
  | nil => rfl
  | cons byte bytes ih =>
    simp only [List.mem_cons, not_or] at hbytes
    have hstep : feedByte vt true d byte = feedByte vt false d byte :=
      feedByte_skip hsuppress fun hbyte => hbytes.1 hbyte.1.symm
    have hstill : (feedByte vt false d byte).suppressInitialLineBreaks = false := by
      cases hcase : (feedByte vt false d byte).suppressInitialLineBreaks with
      | false => rfl
      | true => rw [feedByte_suppress_le hcase] at hsuppress; cases hsuppress
    calc feed vt true d (byte :: bytes) = feed vt true (feedByte vt true d byte) bytes := rfl
      _ = feed vt true (feedByte vt false d byte) bytes := by rw [hstep]
      _ = feed vt false (feedByte vt false d byte) bytes := ih hstill hbytes.2

/-! ### The screen has not changed -/

theorem settle_same (h : vt.altScreen d.core = was) : settle vt was d = consumeCursorStyleRequest d := by
  subst h
  simp [settle]

theorem consume_feedByte_congr {d' : Display Core Style}
    (h : consumeCursorStyleRequest d = consumeCursorStyleRequest d') :
    consumeCursorStyleRequest (feedByte vt skip d byte) = consumeCursorStyleRequest (feedByte vt skip d' byte) := by
  rw [← consume_feedByte, h, consume_feedByte]

theorem consume_feed_congr {d' : Display Core Style}
    (h : consumeCursorStyleRequest d = consumeCursorStyleRequest d') :
    consumeCursorStyleRequest (feed vt skip d bytes) = consumeCursorStyleRequest (feed vt skip d' bytes) := by
  induction bytes generalizing d d' with
  | nil => exact h
  | cons byte bytes ih => exact ih (consume_feedByte_congr h)

theorem consume_consume : consumeCursorStyleRequest (consumeCursorStyleRequest d) = consumeCursorStyleRequest d := by
  simp [consumeCursorStyleRequest]

/-- Everything given so far left the screen as it was at the start. -/
theorem advance_append_same {before : List UInt8}
    (hmid : feed vt start.suppressInitialLineBreaks start before = mid)
    (hscreen : vt.altScreen mid.core = vt.altScreen start.core)
    (hskip : feed vt start.suppressInitialLineBreaks mid bytes = feed vt mid.suppressInitialLineBreaks mid bytes) :
    advance vt start (before ++ bytes) = advance vt (advance vt start before) bytes := by
  have hfirst : advance vt start before = consumeCursorStyleRequest mid := by
    rw [advance, hmid]
    exact settle_same hscreen
  rw [hfirst, advance, advance, feed_append, hmid, hskip]
  have hcore : vt.altScreen (consumeCursorStyleRequest mid).core = vt.altScreen start.core := hscreen
  rw [hcore]
  exact settle_of_consume (consume_feed_congr consume_consume.symm)

/-! ### Leaving does nothing -/

theorem settle_nothing (hsaved : d.savedPrimaryCursor = none) (hclear : d.clearPrimaryHistoryOnAltExit = false) :
    settle vt was d = consumeCursorStyleRequest d := by
  simp [settle, restorePrimaryCursor, clearPrimaryHistory, consumeCursorStyleRequest, hsaved, hclear]

theorem feedByte_saved : (feedByte vt skip d byte).savedPrimaryCursor = d.savedPrimaryCursor := by
  unfold feedByte
  split_ifs <;> rfl

theorem feedByte_clear : (feedByte vt skip d byte).clearPrimaryHistoryOnAltExit = d.clearPrimaryHistoryOnAltExit := by
  unfold feedByte
  split_ifs <;> rfl

theorem advance_append_nothing {before : List UInt8}
    (hmid : feed vt start.suppressInitialLineBreaks start before = mid)
    (hsaved : mid.savedPrimaryCursor = none) (hclear : mid.clearPrimaryHistoryOnAltExit = false)
    (hskip : feedByte vt start.suppressInitialLineBreaks mid byte = feedByte vt mid.suppressInitialLineBreaks mid byte) :
    advance vt start (before ++ [byte]) = advance vt (advance vt start before) [byte] := by
  have hfirst : advance vt start before = consumeCursorStyleRequest mid := by
    rw [advance, hmid]
    exact settle_nothing hsaved hclear
  rw [hfirst, advance, advance, feed_append, hmid]
  have hone : ∀ (skip : Bool) (d : Display Core Style), feed vt skip d [byte] = feedByte vt skip d byte :=
    fun _ _ => rfl
  rw [hone, hone, hskip]
  have hsaved' : (consumeCursorStyleRequest mid).savedPrimaryCursor = none := hsaved
  have hclear' : (consumeCursorStyleRequest mid).clearPrimaryHistoryOnAltExit = false := hclear
  rw [settle_nothing (feedByte_saved.trans hsaved) (feedByte_clear.trans hclear),
    settle_nothing (feedByte_saved.trans hsaved') (feedByte_clear.trans hclear')]
  exact consume_feedByte_congr consume_consume.symm

/-! ### The byte does not mind -/

theorem leftCore_altScreen (d : Display Core Style) (core : Core) :
    vt.altScreen (leftCore vt d core) = vt.altScreen core := by
  unfold leftCore
  cases d.savedPrimaryCursor <;> split_ifs <;>
    simp [vt.altScreen_clearHistory, vt.altScreen_setCursorStyle]

theorem leftCore_atHome (d : Display Core Style) (core : Core) :
    vt.atHome (leftCore vt d core) = vt.atHome core := by
  unfold leftCore
  cases d.savedPrimaryCursor <;> split_ifs <;> simp [vt.atHome_clearHistory, vt.atHome_setCursorStyle]

/-- What the end of `advance` does when the alternate screen has been left. -/
def left (vt : Vt Core Style) (d : Display Core Style) : Display Core Style :=
  { d with
    core := leftCore vt d d.core
    cursorStyleRequested := match d.savedPrimaryCursor with
      | none => d.cursorStyleRequested || d.styleEvent
      | some saved => saved.requested
    savedPrimaryCursor := none
    clearPrimaryHistoryOnAltExit := false
    styleEvent := false }

theorem settle_left (h : vt.altScreen d.core = false) : settle vt true d = left vt d := by
  unfold settle
  rw [if_pos (by simp [h])]
  unfold left clearPrimaryHistory restorePrimaryCursor consumeCursorStyleRequest leftCore
  cases d.savedPrimaryCursor <;> cases d.clearPrimaryHistoryOnAltExit <;> simp

theorem feedByte_altScreen (hleft : vt.altScreen d.core = false) (hbyte : Unconcerned vt d byte) :
    vt.altScreen (feedByte vt skip d byte).core = false := by
  unfold feedByte
  split_ifs
  · exact hleft
  · exact hbyte.1

/-- Leaving before such a byte or after it is the same. -/
theorem left_feedByte (hbyte : Unconcerned vt d byte) :
    consumeCursorStyleRequest (feedByte vt skip (left vt d) byte) = left vt (feedByte vt skip d byte) := by
  obtain ⟨-, hasks, hsame⟩ := hbyte
  have hhome : vt.atHome (left vt d).core = vt.atHome d.core := leftCore_atHome d d.core
  have hstep : vt.step (left vt d).core byte = _ := hsame
  unfold feedByte
  rw [hhome, hstep]
  simp only [leftCore_atHome]
  split_ifs
  · simp [left, leftCore, consumeCursorStyleRequest]
  · cases hsaved : d.savedPrimaryCursor with
    | none => simp [left, leftCore, consumeCursorStyleRequest, hsaved, Bool.or_assoc]
    | some saved =>
      have hquiet := hasks (by simp [hsaved])
      simp [left, leftCore, consumeCursorStyleRequest, hsaved, hquiet]

theorem advance_append_left {before : List UInt8}
    (hmid : feed vt start.suppressInitialLineBreaks start before = mid)
    (hwas : vt.altScreen start.core = true) (hleft : vt.altScreen mid.core = false) (hbyte : Unconcerned vt mid byte)
    (hskip : feedByte vt start.suppressInitialLineBreaks mid byte = feedByte vt mid.suppressInitialLineBreaks mid byte) :
    advance vt start (before ++ [byte]) = advance vt (advance vt start before) [byte] := by
  have hone : ∀ (skip : Bool) (d : Display Core Style), feed vt skip d [byte] = feedByte vt skip d byte :=
    fun _ _ => rfl
  have hprimary : vt.altScreen (left vt mid).core = false := (leftCore_altScreen mid mid.core).trans hleft
  calc advance vt start (before ++ [byte])
      = settle vt true (feedByte vt mid.suppressInitialLineBreaks mid byte) := by
        rw [advance, feed_append, hmid, hone, hskip, hwas]
    _ = left vt (feedByte vt mid.suppressInitialLineBreaks mid byte) :=
        settle_left (feedByte_altScreen hleft hbyte)
    _ = consumeCursorStyleRequest (feedByte vt mid.suppressInitialLineBreaks (left vt mid) byte) :=
        (left_feedByte hbyte).symm
    _ = advance vt (left vt mid) [byte] := by
        rw [advance, hone, hprimary]
        simp [settle, left]
    _ = advance vt (advance vt start before) [byte] := by
        rw [← settle_left hleft, ← hwas, ← hmid]
        rfl

/-! ## Batches -/

theorem harmless_append {before : List UInt8}
    (h : Harmless vt start (feed vt start.suppressInitialLineBreaks start before) byte) :
    advance vt start (before ++ [byte]) = advance vt (advance vt start before) [byte] := by
  generalize hmid : feed vt start.suppressInitialLineBreaks start before = mid at h
  obtain ⟨hbreak, hscreen⟩ := h
  have hskip := @feedByte_skip_eq Core Style vt start mid byte (fun hsuppress => feed_suppress_le (hmid ▸ hsuppress)) hbreak
  rcases hscreen with hsame | ⟨hsaved, hclear⟩ | ⟨hwas, hleft, hbyte⟩
  · exact advance_append_same hmid hsame hskip
  · exact advance_append_nothing hmid hsaved hclear hskip
  · exact advance_append_left hmid hwas hleft hbyte hskip

theorem calm_advance (h : ∀ before byte after, items = before ++ byte :: after →
      Harmless vt start (feed vt start.suppressInitialLineBreaks start before) byte) (hne : items ≠ []) :
    advance vt start items = (items.map Token.one).foldl (advanceToken vt) start := by
  induction items using List.reverseRecOn with
  | nil => exact absurd rfl hne
  | append_singleton before byte ih =>
    rw [List.map_append, List.foldl_append]
    rcases eq_or_ne before [] with rfl | hbefore
    · rfl
    · rw [harmless_append (h before byte [] rfl), ih _ hbefore]
      · rfl
      · intro front other after hsplit
        exact h front other (after ++ [byte]) (by rw [hsplit]; simp)

/-- The closing sequence finds the screen as it was before the batch. -/
theorem calm_entering
    (h : vt.altScreen (feed vt start.suppressInitialLineBreaks start items).core = vt.altScreen start.core) :
    advanceEntering vt start (items ++ altScreenEnter) = advanceEntering vt (advance vt start items) altScreenEnter := by
  generalize hmid : feed vt start.suppressInitialLineBreaks start items = mid at h
  have hskip : feed vt start.suppressInitialLineBreaks mid altScreenEnter =
      feed vt mid.suppressInitialLineBreaks mid altScreenEnter := by
    cases hsuppress : mid.suppressInitialLineBreaks with
    | true => rw [feed_suppress_le (hmid ▸ hsuppress)]
    | false =>
      cases hstart : start.suppressInitialLineBreaks with
      | false => rfl
      | true => exact feed_skip hsuppress (by simp [altScreenEnter])
  have hcore : vt.altScreen (advance vt start items).core = vt.altScreen start.core := by
    rw [advance, hmid, settle_same h]
    exact h
  rw [advanceEntering, advanceEntering, advance_append_same hmid h hskip, hcore]

theorem calm_batch {batch : Batch UInt8} (h : CalmBatch vt start batch) (hne : batch.content ≠ []) :
    advanceBatch vt start batch = batch.content.foldl (advanceToken vt) start := by
  obtain ⟨items, closed⟩ := batch
  obtain ⟨hitems, hclosed⟩ := h
  cases closed with
  | false =>
    have hitems' : items ≠ [] := by simpa [Batch.content] using hne
    simp only [advanceBatch, Batch.content, Bool.false_eq_true, if_false, List.append_nil]
    exact calm_advance hitems hitems'
  | true =>
    simp only [advanceBatch, Batch.content, if_true, List.foldl_append, List.foldl_cons, List.foldl_nil]
    rcases eq_or_ne items [] with rfl | hitems'
    · rfl
    · rw [calm_entering (hclosed rfl), calm_advance hitems hitems']
      rfl

theorem calm_absorb (h : CalmBatches vt d (batches tokens)) :
    absorb vt d tokens = tokens.foldl (advanceToken vt) d := by
  have hall : ∀ all : List (Batch UInt8), (∀ batch ∈ all, batch.content ≠ []) → ∀ d, CalmBatches vt d all →
      all.foldl (advanceBatch vt) d = (all.flatMap Batch.content).foldl (advanceToken vt) d := by
    intro all
    induction all with
    | nil => exact fun _ _ _ => rfl
    | cons batch rest ih =>
      rintro hne d ⟨hbatch, hrest⟩
      rw [List.flatMap_cons, List.foldl_append, List.foldl_cons]
      rw [ih (fun other hother => hne other (List.mem_cons_of_mem _ hother)) _ hrest]
      rw [calm_batch hbatch (hne batch List.mem_cons_self)]
  rw [absorb, hall _ (fun _ hbatch => content_ne_nil hbatch) d h, flatMap_batches]

/-! ## Calls -/

/-- Whatever the calls, the stream is scanned as a whole, and every byte but the ones held back
has been given to `advance` in order. -/
theorem processAll_scan (hbegin : t.inputBuffer <+: altScreenEnter) (hne : t.inputBuffer ≠ altScreenEnter) :
    ∃ tokens t', Scan altScreenEnter (t.inputBuffer ++ cut.flatten) tokens t'.inputBuffer ∧
      processAll vt t cut = some t' ∧
      t'.display.advanced = t.display.advanced ++ tokens.flatMap (Token.items altScreenEnter) ∧
      (Calm vt t cut → t'.display = tokens.foldl (advanceToken vt) t.display) := by
  induction cut generalizing t with
  | nil =>
    refine ⟨[], t, ?_, rfl, by simp, fun _ => rfl⟩
    simpa using Scan.held hbegin hne
  | cons data rest ih =>
    obtain ⟨tokens, held, hscan, hprocess⟩ := @process_scan Core Style vt t data
    obtain ⟨hheld, hheldNe⟩ := hscan.held_prefix
    obtain ⟨tokens', t', hscan', hrest, hadvanced, hcalm⟩ :=
      @ih ⟨held, absorb vt t.display tokens⟩ hheld hheldNe
    refine ⟨tokens ++ tokens', t', ?_, ?_, ?_, fun h => ?_⟩
    · rw [List.flatten_cons, ← List.append_assoc]
      exact hscan.append hscan'
    · rw [processAll, List.foldlM_cons, hprocess]
      exact hrest
    · rw [hadvanced, absorb_advanced, List.flatMap_append, List.append_assoc]
    · obtain ⟨hbatches, hlater⟩ := h tokens held hscan
      rw [hcalm hlater, List.foldl_append, calm_absorb hbatches]

theorem calmBatch_single {batch : Batch UInt8} (hitems : batch.items.length ≤ 1)
    (hclosed : batch.closed = true → batch.items = []) : CalmBatch vt start batch := by
  constructor
  · intro before byte after hsplit
    have hlength := congrArg List.length hsplit
    simp only [List.length_append, List.length_cons] at hlength
    obtain rfl : before = [] := List.eq_nil_of_length_eq_zero (by omega)
    refine ⟨?_, .inl rfl⟩
    rintro ⟨hstart, hmid, -, -⟩
    have hmid' : start.suppressInitialLineBreaks = false := hmid
    rw [hstart] at hmid'
    cases hmid'
  · intro h
    rw [hclosed h]
    rfl

theorem calm_cons {data : List UInt8} {rest : List (List UInt8)}
    (hscan : Scan altScreenEnter (t.inputBuffer ++ data) tokens held)
    (hbatches : CalmBatches vt t.display (batches tokens))
    (hrest : Calm vt ⟨held, absorb vt t.display tokens⟩ rest) : Calm vt t (data :: rest) := by
  intro tokens' held' hscan'
  obtain ⟨rfl, rfl⟩ := hscan.unique hscan'
  exact ⟨hbatches, hrest⟩

/-- Two ways to cut the same stream: both end, give `advance` the same bytes in the same order,
and hold the same proper prefix of the sequence back. Where every batch of both is calm they
lead to the same terminal. -/
theorem processAll_cut (d : Display Core Style) {cut cut' : List (List UInt8)} (hsame : cut.flatten = cut'.flatten) :
    ∃ t t', processAll vt ⟨[], d⟩ cut = some t ∧ processAll vt ⟨[], d⟩ cut' = some t' ∧
      t.display.advanced ++ t.inputBuffer = d.advanced ++ cut.flatten ∧
      t.inputBuffer <+: altScreenEnter ∧ t.inputBuffer ≠ altScreenEnter ∧
      t'.display.advanced = t.display.advanced ∧ t'.inputBuffer = t.inputBuffer ∧
      (Calm vt ⟨[], d⟩ cut → Calm vt ⟨[], d⟩ cut' → t' = t) := by
  obtain ⟨tokens, t, hscan, hprocess, hadvanced, hcalm⟩ :=
    @processAll_scan Core Style vt ⟨[], d⟩ cut List.nil_prefix (by simp [altScreenEnter])
  obtain ⟨tokens', t', hscan', hprocess', hadvanced', hcalm'⟩ :=
    @processAll_scan Core Style vt ⟨[], d⟩ cut' List.nil_prefix (by simp [altScreenEnter])
  rw [← hsame] at hscan'
  obtain ⟨rfl, hheld⟩ := hscan.unique hscan'
  refine ⟨t, t', hprocess, hprocess', ?_, hscan.held_prefix.1, hscan.held_prefix.2, ?_, hheld, fun h h' => ?_⟩
  · rw [hadvanced, List.append_assoc, hscan.flatMap_items]
    rfl
  · rw [hadvanced, hadvanced']
  · obtain ⟨buffer, display⟩ := t
    obtain ⟨buffer', display'⟩ := t'
    simp only [TerminalCore.mk.injEq]
    exact ⟨hheld, (hcalm' h').trans (hcalm h).symm⟩

/-- A screen of one line. It knows the sequences that enter and leave the alternate screen, and
carries the column into the alternate screen. -/
structure Line where
  sequence : List UInt8 := []
  alternate : Bool := false
  primaryColumn : ℕ := 0
  alternateColumn : ℕ := 0
  style : ℕ := 1
  deriving DecidableEq

def altScreenLeave : List UInt8 := [27, 91, 63, 49, 48, 52, 57, 108]

def Line.column (line : Line) : ℕ := if line.alternate then line.alternateColumn else line.primaryColumn

def Line.setColumn (line : Line) (column : ℕ) : Line :=
  if line.alternate then { line with alternateColumn := column } else { line with primaryColumn := column }

def Line.step (line : Line) (byte : UInt8) : Line :=
  if line.sequence = [] then
    if byte = 27 then { line with sequence := [27] } else line.setColumn (line.column + 1)
  else
    let sequence := line.sequence ++ [byte]
    if sequence = altScreenEnter then
      { line with sequence := [], alternate := true, alternateColumn := line.column }
    else if sequence = altScreenLeave then { line with sequence := [], alternate := false }
    else { line with sequence := sequence }

def lineVt : Vt Line ℕ where
  step line byte := (line.step byte, false)
  altScreen := Line.alternate
  atHome line := line.column = 0
  gotoHome line := line.setColumn 0
  cursorStyle := Line.style
  setCursorStyle style line := { line with style := style }
  clearHistory line := line
  altScreen_setCursorStyle _ _ := rfl
  altScreen_clearHistory _ := rfl
  atHome_setCursorStyle _ _ := rfl
  atHome_clearHistory _ := rfl

/-- The sequence arrives in two parts, or as a whole. -/
theorem sequence_in_parts :
    processAll lineVt ⟨[], { core := {} }⟩ [[97, 27, 91, 63, 49], [48, 52, 57, 104], [98]] =
      processAll lineVt ⟨[], { core := {} }⟩ [[97], altScreenEnter, [98]] := by
  have hone : ∀ byte : UInt8, byte = 97 ∨ byte = 98 → Scan altScreenEnter [byte] [.one byte] [] := by
    rintro byte (rfl | rfl)
    · exact .one (by decide) (by decide) (.held (by decide) (by decide))
    · exact .one (by decide) (by decide) (.held (by decide) (by decide))
  have hwhole : Scan altScreenEnter altScreenEnter [.whole] [] := .whole (.held (by decide) (by decide))
  have hpart : Scan altScreenEnter [97, 27, 91, 63, 49] [.one 97] [27, 91, 63, 49] :=
    .one (by decide) (by decide) (.held (by decide) (by decide))
  have hbyte : ∀ (d : Display Line ℕ) (byte : UInt8), CalmBatches lineVt d (batches [.one byte]) :=
    fun _ _ => ⟨calmBatch_single (le_refl 1) nofun, trivial⟩
  have hsequence : ∀ d : Display Line ℕ, CalmBatches lineVt d (batches [.whole]) :=
    fun _ => ⟨calmBatch_single (Nat.zero_le 1) fun _ => rfl, trivial⟩
  have hparts : Calm lineVt ⟨[], { core := {} }⟩ [[97, 27, 91, 63, 49], [48, 52, 57, 104], [98]] :=
    calm_cons hpart (hbyte _ _) (calm_cons hwhole (hsequence _) (calm_cons (hone 98 (.inr rfl)) (hbyte _ _) trivial))
  have hwholes : Calm lineVt ⟨[], { core := {} }⟩ [[97], altScreenEnter, [98]] :=
    calm_cons (hone 97 (.inl rfl)) (hbyte _ _)
      (calm_cons hwhole (hsequence _) (calm_cons (hone 98 (.inr rfl)) (hbyte _ _) trivial))
  obtain ⟨t, t', hparts', hwholes', -, -, -, -, -, hcalm⟩ := @processAll_cut Line ℕ lineVt { core := {} } _ _
    (show [[97, 27, 91, 63, 49], [48, 52, 57, 104], [98]].flatten = [[97], altScreenEnter, [98]].flatten from rfl)
  rw [hparts', hwholes', hcalm hparts hwholes]

/-- The alternate screen is left and entered again in one read or in two: only with two does the
cursor start at home. -/
theorem reentered_in_one_read :
    ¬ ∀ (Core Style : Type) (vt : Vt Core Style) (d : Display Core Style) (cut cut' : List (List UInt8)),
      cut.flatten = cut'.flatten → processAll vt ⟨[], d⟩ cut = processAll vt ⟨[], d⟩ cut' := by
  intro h
  have hsame := h Line ℕ lineVt { core := {} } [97 :: altScreenEnter, 98 :: altScreenLeave, altScreenEnter]
    [97 :: altScreenEnter, 98 :: altScreenLeave ++ altScreenEnter] rfl
  have hcolumn := congrArg (Option.map fun t => t.display.core.column) hsame
  revert hcolumn
  decide +kernel

end Lasper.Terminal.Embedded
