import Lasper.Lib.Checked
import Lasper.Lib.Text
import Mathlib.Algebra.BigOperators.Group.List.Basic
import Mathlib.Tactic.SplitIfs

/-! The tabs in the title of a panel. The labels are one stream of text of which a window of columns
is drawn; the window moves only when the active tab leaves it. Every tab that is drawn can be
clicked where it is drawn. -/

namespace Lasper.Tui.TitleTabs

open Lib

variable {T S : Type*} {width : Char → ℕ}

section Cells

/-- `u16::try_from(n).unwrap_or(u16::MAX)` -/
def toU16 (n : ℕ) : UInt16 := UInt16.ofNat (min n 65535)

/-- `u16::saturating_add` -/
def addU16 (a b : UInt16) : UInt16 := UInt16.ofNat (saturatingAdd u16Max a.toNat b.toNat)

structure Rect where
  x : UInt16
  y : UInt16
  width : UInt16
  height : UInt16
  deriving DecidableEq

/-- As `ratatui` builds one: cut where its right and its lower edge would not be a `u16`. -/
def Rect.new (x y width height : UInt16) : Rect where
  x := x
  y := y
  width := addU16 x width - x
  height := addU16 y height - y

def Rect.right (area : Rect) : ℕ := area.x.toNat + area.width.toNat

def Rect.bottom (area : Rect) : ℕ := area.y.toNat + area.height.toNat

theorem toU16_toNat (n : ℕ) : (toU16 n).toNat = min n 65535 := by
  rw [toU16, UInt16.toNat_ofNat_of_lt']
  simp [UInt16.size]

theorem addU16_toNat (a b : UInt16) : (addU16 a b).toNat = min (a.toNat + b.toNat) 65535 :=
  toU16_toNat _

theorem u16_le (a : UInt16) : a.toNat ≤ 65535 := by
  have := a.toNat_lt
  omega

theorem saturating_sub (a b : UInt16) :
    (addU16 a b - a).toNat = min (a.toNat + b.toNat) 65535 - a.toNat := by
  have hle : a ≤ addU16 a b := by
    rw [UInt16.le_iff_toNat_le, addU16_toNat]
    have := u16_le a
    omega
  rw [UInt16.toNat_sub_of_le _ _ hle, addU16_toNat]

theorem new_right (x y width height : UInt16) :
    (Rect.new x y width height).right = min (x.toNat + width.toNat) 65535 := by
  have := u16_le x
  simp only [Rect.right, Rect.new, saturating_sub]
  omega

theorem new_bottom (x y width height : UInt16) :
    (Rect.new x y width height).bottom = min (y.toNat + height.toNat) 65535 := by
  have := u16_le y
  simp only [Rect.bottom, Rect.new, saturating_sub]
  omega

end Cells

/-! ## The layout -/

section Layout

structure Span (S : Type*) where
  content : Text
  style : Option S
  deriving DecidableEq

structure TitleTabHitbox (T : Type*) where
  value : T
  area : Rect
  deriving DecidableEq

structure TitleTabLayout (T S : Type*) where
  line : List (Span S)
  hitboxes : List (TitleTabHitbox T)
  deriving DecidableEq

structure TitleTabViewport where
  offset : ℕ := 0
  lastActive : ℕ := 0
  lastAvailable : ℕ := 0
  lastTotalWidth : ℕ := 0
  deriving DecidableEq

structure Tab (T S : Type*) where
  value : T
  label : Text
  style : S

/-- The width of a string is the sum of the widths of its characters. -/
def textWidth (width : Char → ℕ) (text : Text) : ℕ := (text.map width).sum

/-- Start and end of a tab in the stream. Sums of columns, which saturate at `usize::MAX`,
are natural numbers here. -/
def tabExtent (widths : List ℕ) (separatorWidth index : ℕ) : ℕ × ℕ :=
  let start := (widths.take index).sum + separatorWidth * index
  (start, start + widths.getD index 0)

def overflowMarkerWidth (available : ℕ) : ℕ :=
  if 7 ≤ available then 3 else if 5 ≤ available then 2 else 1

def overflowMarker : Bool → ℕ → Text
  | true, 3 => " ← ".toList
  | false, 3 => " → ".toList
  | true, 2 => "← ".toList
  | false, 2 => " →".toList
  | true, _ => "←".toList
  | false, _ => "→".toList

structure Metrics where
  leftHidden : Bool
  rightHidden : Bool
  capacity : ℕ

def viewportMetrics (available offset total markerWidth : ℕ) : Metrics :=
  let leftHidden := decide (0 < offset ∧ 0 < available)
  let afterLeft := available - if leftHidden then markerWidth else 0
  let rightHidden := decide (offset + afterLeft < total ∧ 0 < afterLeft)
  ⟨leftHidden, rightHidden, afterLeft - if rightHidden then markerWidth else 0⟩

/-- What the loops that move the window read of the metrics. -/
def capacityAt (available total offset : ℕ) : ℕ :=
  (viewportMetrics available offset total (overflowMarkerWidth available)).capacity

def intersection (start stop windowStart windowEnd : ℕ) : Option (ℕ × ℕ) :=
  let visibleStart := max start windowStart
  let visibleEnd := min stop windowEnd
  if visibleStart < visibleEnd then some (visibleStart, visibleEnd) else none

/-- The loop of `clip_display_columns`, from a column on. -/
def clipFrom (width : Char → ℕ) (skip stop : ℕ) : ℕ → Text → Text
  | _, [] => []
  | column, character :: rest =>
    let characterEnd := column + width character
    (if width character = 0 then if skip < column ∧ column ≤ stop then [character] else []
      else if skip ≤ column ∧ characterEnd ≤ stop then [character]
      else if skip < characterEnd ∧ column < stop then
        List.replicate (min characterEnd stop - max column skip) ' '
      else []) ++
      if stop ≤ characterEnd then [] else clipFrom width skip stop characterEnd rest

def clipDisplayColumns (width : Char → ℕ) (text : Text) (skip columns : ℕ) : Text :=
  clipFrom width skip (skip + columns) 0 text

/-- One round of the loop that follows the active tab; `none` leaves the loop. -/
def followRound (available total activeStart activeEnd : ℕ) (movingLeft : Bool) (offset : ℕ) : Option ℕ :=
  let capacity := capacityAt available total offset
  if capacity = 0 then none
  else
    let next :=
      if activeStart < offset then activeStart
      else if offset + capacity < activeEnd then
        if capacity < activeEnd - activeStart ∧ movingLeft then activeStart else activeEnd - capacity
      else offset
    if next = offset then none else some next

def followActive (available total activeStart activeEnd : ℕ) (movingLeft : Bool) : ℕ → ℕ → ℕ
  | 0, offset => offset
  | rounds + 1, offset =>
    match followRound available total activeStart activeEnd movingLeft offset with
    | none => offset
    | some next => followActive available total activeStart activeEnd movingLeft rounds next

/-- Do not leave columns free at the right. -/
def alignEnd (available total offset : ℕ) : ℕ :=
  let metrics := viewportMetrics available offset total (overflowMarkerWidth available)
  if !metrics.rightHidden && 0 < metrics.capacity then total - metrics.capacity else offset

/-- Use gained space at the left, as long as the active tab stays. -/
def revealLeft (available total activeStart activeEnd : ℕ) : ℕ → ℕ
  | 0 => 0
  | candidate + 1 =>
    if candidate ≤ activeStart ∧ activeEnd ≤ candidate + capacityAt available total candidate then
      revealLeft available total activeStart activeEnd candidate
    else candidate + 1

/-- The span of a text that starts at a column of the stream. -/
def fragmentSpans (width : Char → ℕ) (offset windowEnd : ℕ) (text : Text) (style : Option S) (cursor : ℕ) :
    List (Span S) :=
  match intersection cursor (cursor + textWidth width text) offset windowEnd with
  | none => []
  | some (start, stop) =>
    let fragment := clipDisplayColumns width text (start - cursor) (stop - start)
    if fragment = [] then [] else [⟨fragment, style⟩]

def tabHitbox (width : Char → ℕ) (area : Rect) (contentX : UInt16) (offset windowEnd : ℕ) (tab : Tab T S)
    (cursor : ℕ) : List (TitleTabHitbox T) :=
  match intersection cursor (cursor + textWidth width tab.label) offset windowEnd with
  | none => []
  | some (start, stop) =>
    [⟨tab.value, Rect.new (addU16 contentX (toU16 (start - offset))) area.y (toU16 (stop - start)) 1⟩]

/-- The loop over the tabs, with a separator between one and the next. -/
def drawTabs (width : Char → ℕ) (area : Rect) (separator : Text) (contentX : UInt16) (offset windowEnd : ℕ) :
    ℕ → List (Tab T S) → TitleTabLayout T S
  | _, [] => ⟨[], []⟩
  | cursor, tab :: rest =>
    let tabEnd := cursor + textWidth width tab.label
    let spans := fragmentSpans width offset windowEnd tab.label (some tab.style) cursor
    let hitboxes := tabHitbox width area contentX offset windowEnd tab cursor
    if rest.isEmpty then ⟨spans, hitboxes⟩
    else
      let separatorEnd := tabEnd + textWidth width separator
      let gap := fragmentSpans width offset windowEnd separator none tabEnd
      let after := drawTabs width area separator contentX offset windowEnd separatorEnd rest
      ⟨spans ++ gap ++ after.line, hitboxes ++ after.hitboxes⟩

def tabWidths (width : Char → ℕ) (tabs : List (Tab T S)) : List ℕ :=
  tabs.map fun tab => textWidth width tab.label

def totalWidth (width : Char → ℕ) (tabs : List (Tab T S)) (separator : Text) : ℕ :=
  (tabWidths width tabs).sum + textWidth width separator * (tabs.length - 1)

def available (area : Rect) : ℕ := area.width.toNat - 2

/-- The offset that a layout moves the window to. -/
def TitleTabViewport.moved (width : Char → ℕ) (viewport : TitleTabViewport) (area : Rect)
    (tabs : List (Tab T S)) (separator : Text) (active : ℕ) : ℕ :=
  let available := available area
  let total := totalWidth width tabs separator
  let active := min active (tabs.length - 1)
  let extent := tabExtent (tabWidths width tabs) (textWidth width separator) active
  if total ≤ available then 0
  else
    let offset := min viewport.offset (total - 1)
    let offset := followActive available total extent.1 extent.2 (active < viewport.lastActive) 4 offset
    let offset := alignEnd available total offset
    if viewport.lastAvailable < available ∨ total < viewport.lastTotalWidth then
      revealLeft available total extent.1 extent.2 offset
    else offset

/-- What is drawn with the window at an offset. -/
def drawLayout (width : Char → ℕ) (area : Rect) (tabs : List (Tab T S)) (separator : Text) (markerStyle : S)
    (offset : ℕ) : TitleTabLayout T S :=
  let total := totalWidth width tabs separator
  let markerWidth := overflowMarkerWidth (available area)
  let metrics := viewportMetrics (available area) offset total markerWidth
  let windowEnd := min (offset + metrics.capacity) total
  let contentX := addU16 (addU16 area.x 1) (if metrics.leftHidden then toU16 markerWidth else 0)
  let content := drawTabs width area separator contentX offset windowEnd 0 tabs
  ⟨(if metrics.leftHidden then [⟨overflowMarker true markerWidth, some markerStyle⟩] else []) ++
      content.line ++
      if metrics.rightHidden then [⟨overflowMarker false markerWidth, some markerStyle⟩] else [],
    content.hitboxes⟩

def TitleTabViewport.layout (width : Char → ℕ) (viewport : TitleTabViewport) (area : Rect)
    (tabs : List (Tab T S)) (separator : Text) (active : ℕ) (markerStyle : S) :
    TitleTabLayout T S × TitleTabViewport :=
  if available area = 0 ∨ tabs = [] then (⟨[], []⟩, ⟨0, 0, available area, 0⟩)
  else
    let offset := viewport.moved width area tabs separator active
    (drawLayout width area tabs separator markerStyle offset,
      ⟨offset, min active (tabs.length - 1), available area, totalWidth width tabs separator⟩)

end Layout

/-! ## The stream and its window -/

section Stream

variable {offset windowEnd : ℕ}

/-- A part of the stream, and the index of the tab whose label it is. -/
structure Segment (S : Type*) where
  text : Text
  style : Option S
  owner : Option ℕ

structure Piece (S : Type*) where
  span : Span S
  owner : Option ℕ
  deriving DecidableEq

def segments (separator : Text) : ℕ → List (Tab T S) → List (Segment S)
  | _, [] => []
  | index, tab :: rest =>
    ⟨tab.label, some tab.style, some index⟩ ::
      if rest.isEmpty then [] else ⟨separator, none, none⟩ :: segments separator (index + 1) rest

def Segment.cut (width : Char → ℕ) (offset windowEnd : ℕ) (segment : Segment S) (cursor : ℕ) :
    List (Piece S) :=
  match intersection cursor (cursor + textWidth width segment.text) offset windowEnd with
  | none => []
  | some (first, last) =>
    [⟨⟨clipDisplayColumns width segment.text (first - cursor) (last - first), segment.style⟩, segment.owner⟩]

/-- The part of a stream that a window shows. -/
def cut (width : Char → ℕ) (offset windowEnd : ℕ) : ℕ → List (Segment S) → List (Piece S)
  | _, [] => []
  | cursor, segment :: rest =>
    segment.cut width offset windowEnd cursor ++
      cut width offset windowEnd (cursor + textWidth width segment.text) rest

def streamWidth (width : Char → ℕ) (segments : List (Segment S)) : ℕ :=
  (segments.map fun segment => textWidth width segment.text).sum

/-- The columns from `a` to `b` that are inside a window. -/
def covered (first last a b : ℕ) : ℕ := min last b - max first a

theorem covered_add (first last a b c : ℕ) :
    covered first last a (a + b) + covered first last (a + b) (a + b + c) =
      covered first last a (a + b + c) := by
  unfold covered
  rcases Nat.le_total last (a + b) with hlast | hlast
  · rw [Nat.min_eq_left hlast, Nat.min_eq_left (by omega : last ≤ a + b + c)]
    omega
  · rw [Nat.min_eq_right hlast]
    omega

/-- The columns of a window up to `a`, and from there to `b`. -/
theorem covered_from (first last a b : ℕ) :
    min last a - first + covered first last a (a + b) = min last (a + b) - first := by
  unfold covered
  rcases Nat.le_total last a with hlast | hlast
  · rw [Nat.min_eq_left hlast, Nat.min_eq_left (by omega : last ≤ a + b)]
    omega
  · rw [Nat.min_eq_right hlast]
    omega

/-- Cutting two parts at a bound before their sum is cut changes nothing. -/
theorem min_add_min (a b bound : ℕ) : min (min a bound + min b bound) bound = min (a + b) bound := by
  omega

@[simp]
theorem textWidth_nil : textWidth width [] = 0 := rfl

@[simp]
theorem textWidth_cons (character : Char) (text : Text) :
    textWidth width (character :: text) = width character + textWidth width text := by
  simp [textWidth]

@[simp]
theorem textWidth_append (text more : Text) :
    textWidth width (text ++ more) = textWidth width text + textWidth width more := by
  simp [textWidth]

theorem textWidth_blank (hspace : width ' ' = 1) (columns : ℕ) :
    textWidth width (List.replicate columns ' ') = columns := by
  simp [textWidth, hspace]

/-- Every character fills the columns of the window that it covers, with itself or with blanks. -/
theorem clipFrom_width (hspace : width ' ' = 1) {skip stop : ℕ} (text : Text) (column : ℕ) :
    textWidth width (clipFrom width skip stop column text) =
      covered skip stop column (column + textWidth width text) := by
  induction text generalizing column with
  | nil => simp [clipFrom, covered]
  | cons character rest ih =>
    have hfirst : textWidth width
        (if width character = 0 then if skip < column ∧ column ≤ stop then [character] else []
          else if skip ≤ column ∧ column + width character ≤ stop then [character]
          else if skip < column + width character ∧ column < stop then
            List.replicate (min (column + width character) stop - max column skip) ' '
          else []) = covered skip stop column (column + width character) := by
      unfold covered
      split_ifs
      · simp; omega
      · simp; omega
      · simp; omega
      · rw [textWidth_blank hspace]
        omega
      · simp; omega
    simp only [clipFrom, textWidth_append, textWidth_cons, hfirst, ← Nat.add_assoc]
    rw [← covered_add]
    congr 1
    split_ifs with hstop
    · unfold covered
      simp
      omega
    · rw [ih]

theorem clip_width (hspace : width ' ' = 1) {text : Text} {skip columns : ℕ}
    (h : skip + columns ≤ textWidth width text) :
    textWidth width (clipDisplayColumns width text skip columns) = columns := by
  rw [clipDisplayColumns, clipFrom_width hspace]
  unfold covered
  omega

theorem clipFrom_whole {text : Text} (hvisible : ∀ character ∈ text, 0 < width character) (column : ℕ) :
    clipFrom width 0 (column + textWidth width text) column text = text := by
  induction text generalizing column with
  | nil => rfl
  | cons character rest ih =>
    have hpos := hvisible character (by simp)
    have hrest := ih (fun other hother => hvisible other (by simp [hother])) (column + width character)
    have hfits : column + width character ≤ column + textWidth width (character :: rest) := by
      rw [textWidth_cons]
      omega
    have hstop : column + textWidth width (character :: rest) =
        column + width character + textWidth width rest := by
      rw [textWidth_cons]
      omega
    simp only [clipFrom, if_neg hpos.ne', Nat.zero_le, hfits, and_self, if_true, List.singleton_append]
    split_ifs with hend
    · cases rest with
      | nil => rfl
      | cons next rest =>
        have hnext := hvisible next (by simp)
        rw [hstop, textWidth_cons] at hend
        omega
    · rw [hstop, hrest]

/-- A label without characters of no width is drawn as it is where it is drawn whole. -/
theorem clip_whole {text : Text} (hvisible : ∀ character ∈ text, 0 < width character) :
    clipDisplayColumns width text 0 (textWidth width text) = text := by
  have := clipFrom_whole hvisible 0
  simpa [clipDisplayColumns] using this

theorem intersection_eq_some {start stop first last : ℕ} :
    intersection start stop offset windowEnd = some (first, last) ↔
      first = max start offset ∧ last = min stop windowEnd ∧ first < last := by
  simp only [intersection]
  split_ifs with h
  · simp only [Option.some.injEq, Prod.mk.injEq]
    omega
  · simp only [false_iff]
    omega

theorem intersection_eq_none {start stop : ℕ} :
    intersection start stop offset windowEnd = none ↔ covered offset windowEnd start stop = 0 := by
  simp only [intersection, covered]
  split_ifs with h
  · simp only [false_iff]
    omega
  · simp only [true_iff]
    omega

/-- A fragment is as wide as the columns it is cut to, and not empty. -/
theorem fragment_width (hspace : width ' ' = 1) {text : Text} {cursor first last : ℕ}
    (h : intersection cursor (cursor + textWidth width text) offset windowEnd = some (first, last)) :
    textWidth width (clipDisplayColumns width text (first - cursor) (last - first)) = last - first ∧
      clipDisplayColumns width text (first - cursor) (last - first) ≠ [] := by
  rw [intersection_eq_some] at h
  have hwidth : textWidth width (clipDisplayColumns width text (first - cursor) (last - first)) =
      last - first := clip_width hspace (by omega)
  refine ⟨hwidth, fun hempty => ?_⟩
  rw [hempty, textWidth_nil] at hwidth
  omega

theorem fragmentSpans_eq (hspace : width ' ' = 1) (segment : Segment S) (cursor : ℕ) :
    fragmentSpans width offset windowEnd segment.text segment.style cursor =
      (segment.cut width offset windowEnd cursor).map (·.span) := by
  cases hcut : intersection cursor (cursor + textWidth width segment.text) offset windowEnd with
  | none => simp [fragmentSpans, Segment.cut, hcut]
  | some columns =>
    have hne := (fragment_width hspace hcut).2
    simp [fragmentSpans, Segment.cut, hcut, hne]

theorem cut_append (cursor : ℕ) (first second : List (Segment S)) :
    cut width offset windowEnd cursor (first ++ second) = cut width offset windowEnd cursor first ++
      cut width offset windowEnd (cursor + streamWidth width first) second := by
  induction first generalizing cursor with
  | nil => simp [cut, streamWidth]
  | cons segment rest ih => simp [cut, ih, streamWidth, Nat.add_assoc]

theorem segments_cons_cons (separator : Text) (index : ℕ) (tab next : Tab T S) (rest : List (Tab T S)) :
    segments separator index (tab :: next :: rest) = ⟨tab.label, some tab.style, some index⟩ ::
      ⟨separator, none, none⟩ :: segments separator (index + 1) (next :: rest) := rfl

/-- A window that ends where it starts shows nothing. -/
theorem cut_closed (hclosed : windowEnd ≤ offset) (cursor : ℕ) (stream : List (Segment S)) :
    cut width offset windowEnd cursor stream = [] := by
  induction stream generalizing cursor with
  | nil => rfl
  | cons segment rest ih =>
    have hnone : intersection cursor (cursor + textWidth width segment.text) offset windowEnd = none := by
      rw [intersection_eq_none]
      unfold covered
      omega
    simp [cut, Segment.cut, hnone, ih]

theorem drawTabs_line (hspace : width ' ' = 1) (area : Rect) (separator : Text) (contentX : UInt16)
    (tabs : List (Tab T S)) (cursor index : ℕ) :
    (drawTabs width area separator contentX offset windowEnd cursor tabs).line =
      (cut width offset windowEnd cursor (segments separator index tabs)).map (·.span) := by
  induction tabs generalizing cursor index with
  | nil => rfl
  | cons tab rest ih =>
    have hlabel := @fragmentSpans_eq S width offset windowEnd hspace
      ⟨tab.label, some tab.style, some index⟩ cursor
    cases rest with
    | nil => simpa [drawTabs, segments, cut] using hlabel
    | cons next rest =>
      have hgap := @fragmentSpans_eq S width offset windowEnd hspace ⟨separator, none, none⟩
        (cursor + textWidth width tab.label)
      have hrest := ih (cursor + textWidth width tab.label + textWidth width separator) (index + 1)
      rw [segments_cons_cons, cut, cut, List.map_append, List.map_append, ← hlabel, ← hgap, ← hrest,
        ← List.append_assoc]
      rfl

/-- Where the owned pieces stand, from a column on. -/
def placed (width : Char → ℕ) : ℕ → List (Piece S) → List (ℕ × ℕ × ℕ)
  | _, [] => []
  | column, piece :: rest =>
    let stop := column + textWidth width piece.span.content
    (piece.owner.toList.map fun index => (index, column, stop)) ++ placed width stop rest

def pieceWidth (width : Char → ℕ) (pieces : List (Piece S)) : ℕ :=
  (pieces.map fun piece => textWidth width piece.span.content).sum

theorem placed_append (column : ℕ) (first second : List (Piece S)) :
    placed width column (first ++ second) =
      placed width column first ++ placed width (column + pieceWidth width first) second := by
  induction first generalizing column with
  | nil => simp [placed, pieceWidth]
  | cons piece rest ih => simp [placed, ih, pieceWidth, Nat.add_assoc]

theorem segment_cut_width (hspace : width ' ' = 1) (segment : Segment S) (cursor : ℕ) :
    pieceWidth width (segment.cut width offset windowEnd cursor) =
      covered offset windowEnd cursor (cursor + textWidth width segment.text) := by
  cases hcut : intersection cursor (cursor + textWidth width segment.text) offset windowEnd with
  | none =>
    have hnone := intersection_eq_none.mp hcut
    simp [Segment.cut, hcut, pieceWidth, hnone]
  | some columns =>
    have hwidth := (fragment_width hspace hcut).1
    simp only [Segment.cut, hcut, pieceWidth, List.map_cons, List.map_nil, List.sum_cons, List.sum_nil,
      hwidth]
    obtain ⟨hfirst, hlast, -⟩ := intersection_eq_some.mp hcut
    unfold covered
    omega

theorem cut_width (hspace : width ' ' = 1) (stream : List (Segment S)) (cursor : ℕ) :
    pieceWidth width (cut width offset windowEnd cursor stream) =
      covered offset windowEnd cursor (cursor + streamWidth width stream) := by
  induction stream generalizing cursor with
  | nil => simp [cut, pieceWidth, streamWidth, covered]
  | cons segment rest ih =>
    have hsplit : pieceWidth width (cut width offset windowEnd cursor (segment :: rest)) =
        pieceWidth width (segment.cut width offset windowEnd cursor) +
          pieceWidth width (cut width offset windowEnd (cursor + textWidth width segment.text) rest) := by
      simp [cut, pieceWidth]
    rw [hsplit, segment_cut_width hspace, ih, covered_add]
    simp [streamWidth, Nat.add_assoc]

/-- The hitbox of a tab covers the columns of its label, as far as there are columns. -/
structure Covers (area : Rect) (tabs : List (Tab T S)) (hitbox : TitleTabHitbox T)
    (columns : ℕ × ℕ × ℕ) : Prop where
  value : tabs[columns.1]?.map (·.value) = some hitbox.value
  left : hitbox.area.x.toNat = min columns.2.1 65535
  right : hitbox.area.right = min columns.2.2 65535
  top : hitbox.area.y = area.y
  bottom : hitbox.area.bottom = min (area.y.toNat + 1) 65535

theorem tabHitbox_covers (hspace : width ' ' = 1) {area : Rect} {tabs : List (Tab T S)} {tab : Tab T S}
    {contentX : UInt16} {content index : ℕ} (hindex : tabs[index]? = some tab)
    (hcontent : contentX.toNat = min content 65535) (cursor : ℕ) :
    List.Forall₂ (Covers area tabs) (tabHitbox width area contentX offset windowEnd tab cursor)
      (placed width (content + (min windowEnd cursor - offset))
        ((⟨tab.label, some tab.style, some index⟩ : Segment S).cut width offset windowEnd cursor)) := by
  cases hcut : intersection cursor (cursor + textWidth width tab.label) offset windowEnd with
  | none => simp [tabHitbox, Segment.cut, hcut, placed]
  | some columns =>
    obtain ⟨first, last⟩ := columns
    have hwidth := (fragment_width hspace hcut).1
    obtain ⟨hfirst, hlast, hlt⟩ := intersection_eq_some.mp hcut
    simp only [tabHitbox, Segment.cut, hcut, placed, Option.toList_some, List.map_cons, List.map_nil,
      List.singleton_append, hwidth]
    have hstart : min windowEnd cursor - offset = first - offset := by omega
    have hstop : first - offset + (last - first) = last - offset := by omega
    refine .cons ⟨by simp [hindex], ?_, ?_, rfl, ?_⟩ .nil
    · simp only [Rect.new, addU16_toNat, toU16_toNat, hcontent, min_add_min, hstart]
    · simp only [new_right, addU16_toNat, toU16_toNat, hcontent, min_add_min, hstart]
    · simp [new_bottom]

theorem placed_separator (separator : Text) (column cursor : ℕ) :
    placed width column ((⟨separator, none, none⟩ : Segment S).cut width offset windowEnd cursor) = [] := by
  unfold Segment.cut
  split <;> simp [placed]

/-- The hitboxes of the loop cover the labels that the window shows. -/
theorem drawTabs_covers (hspace : width ' ' = 1) {area : Rect} {separator : Text} {contentX : UInt16}
    {content : ℕ} (hcontent : contentX.toNat = min content 65535) (all tabs : List (Tab T S))
    (cursor index : ℕ)
    (htabs : all.drop index = tabs) :
    List.Forall₂ (Covers area all)
      (drawTabs width area separator contentX offset windowEnd cursor tabs).hitboxes
      (placed width (content + (min windowEnd cursor - offset))
        (cut width offset windowEnd cursor (segments separator index tabs))) := by
  induction tabs generalizing cursor index with
  | nil => exact .nil
  | cons tab rest ih =>
    have hindex : all[index]? = some tab := by
      rw [← List.head?_drop, htabs]
      rfl
    have hlabel := @tabHitbox_covers T S width offset windowEnd hspace area all tab contentX content index
      hindex hcontent cursor
    cases rest with
    | nil => simpa [drawTabs, segments, cut] using hlabel
    | cons next rest =>
      have hnext : all.drop (index + 1) = next :: rest := by
        rw [← List.drop_drop, htabs]
        rfl
      have hrest := ih (cursor + textWidth width tab.label + textWidth width separator) (index + 1) hnext
      rw [segments_cons_cons, cut, cut, placed_append, placed_append, placed_separator, List.nil_append]
      have hcolumn : content + (min windowEnd cursor - offset) +
          pieceWidth width
            ((⟨tab.label, some tab.style, some index⟩ : Segment S).cut width offset windowEnd cursor) +
          pieceWidth width ((⟨separator, none, none⟩ : Segment S).cut width offset windowEnd
            (cursor + textWidth width tab.label)) =
          content +
            (min windowEnd (cursor + textWidth width tab.label + textWidth width separator) - offset) := by
        have hfirst := covered_from offset windowEnd cursor (textWidth width tab.label)
        have hsecond := covered_from offset windowEnd (cursor + textWidth width tab.label)
          (textWidth width separator)
        simp only [segment_cut_width hspace]
        rw [Nat.add_assoc, Nat.add_assoc, ← Nat.add_assoc _ (covered _ _ _ _), hfirst, hsecond]
      rw [hcolumn]
      exact List.rel_append hlabel hrest

theorem placed_owners (column : ℕ) (pieces : List (Piece S)) :
    (placed width column pieces).map (·.1) = pieces.filterMap (·.owner) := by
  induction pieces generalizing column with
  | nil => rfl
  | cons piece rest ih => cases howner : piece.owner <;> simp [placed, howner, ih]

theorem placed_bounds (column : ℕ) (pieces : List (Piece S)) : ∀ columns ∈ placed width column pieces,
    column ≤ columns.2.1 ∧ columns.2.2 ≤ column + pieceWidth width pieces := by
  induction pieces generalizing column with
  | nil => simp [placed]
  | cons piece rest ih =>
    intro columns hmem
    rcases List.mem_append.mp hmem with hfirst | hrest
    · obtain ⟨index, -, rfl⟩ := List.mem_map.mp hfirst
      simp [pieceWidth]
    · have := ih _ columns hrest
      simp only [pieceWidth, List.map_cons, List.sum_cons] at this ⊢
      omega

theorem placed_apart (column : ℕ) (pieces : List (Piece S)) :
    (placed width column pieces).Pairwise fun a b => a.2.2 ≤ b.2.1 := by
  induction pieces generalizing column with
  | nil => exact .nil
  | cons piece rest ih =>
    refine List.pairwise_append.mpr ⟨?_, ih _, ?_⟩
    · cases piece.owner <;> simp
    · intro first hfirst second hsecond
      obtain ⟨index, -, rfl⟩ := List.mem_map.mp hfirst
      exact (placed_bounds _ rest second hsecond).1

theorem segments_owners (separator : Text) (index : ℕ) (tabs : List (Tab T S)) :
    (segments separator index tabs).filterMap (·.owner) = List.range' index tabs.length := by
  induction tabs generalizing index with
  | nil => rfl
  | cons tab rest ih =>
    cases rest with
    | nil => rfl
    | cons next rest =>
      rw [segments_cons_cons]
      simp only [List.filterMap_cons, ih]
      rfl

theorem cut_owners (cursor : ℕ) (stream : List (Segment S)) :
    ((cut width offset windowEnd cursor stream).filterMap (·.owner)).Sublist
      (stream.filterMap (·.owner)) := by
  induction stream generalizing cursor with
  | nil => exact .slnil
  | cons segment rest ih =>
    have hfirst : ((segment.cut width offset windowEnd cursor).filterMap (·.owner)).Sublist
        ([segment].filterMap (·.owner)) := by
      unfold Segment.cut
      split
      · exact List.nil_sublist _
      · exact List.Sublist.refl _
    rw [cut, List.filterMap_append, ← List.singleton_append, List.filterMap_append]
    exact hfirst.append (ih _)

theorem segments_width (separator : Text) (index : ℕ) (tabs : List (Tab T S)) :
    streamWidth width (segments separator index tabs) = totalWidth width tabs separator := by
  induction tabs generalizing index with
  | nil => simp [segments, streamWidth, totalWidth, tabWidths]
  | cons tab rest ih =>
    cases rest with
    | nil => simp [segments, streamWidth, totalWidth, tabWidths]
    | cons next rest =>
      have hrest := ih (index + 1)
      rw [segments_cons_cons]
      simp only [streamWidth, totalWidth, tabWidths, List.map_cons, List.sum_cons, List.length_cons,
        Nat.add_sub_cancel] at hrest ⊢
      rw [hrest, Nat.mul_add]
      omega

/-- Where a tab stands in the stream. -/
theorem segments_split (separator : Text) {tabs : List (Tab T S)} {place : ℕ} {tab : Tab T S}
    (htab : tabs[place]? = some tab) (index : ℕ) :
    ∃ before after, segments separator index tabs =
        before ++ ⟨tab.label, some tab.style, some (index + place)⟩ :: after ∧
      streamWidth width before =
        ((tabWidths width tabs).take place).sum + textWidth width separator * place := by
  induction tabs generalizing index place with
  | nil => simp at htab
  | cons first rest ih =>
    cases place with
    | zero =>
      obtain rfl : first = tab := by simpa using htab
      cases rest with
      | nil => exact ⟨[], [], rfl, by simp [streamWidth]⟩
      | cons next rest => exact ⟨[], _, rfl, by simp [streamWidth]⟩
    | succ place =>
      cases rest with
      | nil => simp at htab
      | cons next rest =>
        obtain ⟨before, after, hsplit, hwidth⟩ := ih (by simpa using htab) (index + 1)
        refine ⟨⟨first.label, some first.style, some index⟩ :: ⟨separator, none, none⟩ :: before, after,
          ?_, ?_⟩
        · rw [segments_cons_cons, hsplit, Nat.add_right_comm, Nat.add_assoc]
          rfl
        · simp only [streamWidth, tabWidths, List.map_cons, List.take_succ_cons, List.sum_cons] at hwidth ⊢
          rw [hwidth, Nat.mul_add]
          omega

theorem tabWidths_at {tabs : List (Tab T S)} {place : ℕ} {tab : Tab T S} (htab : tabs[place]? = some tab) :
    (tabWidths width tabs).getD place 0 = textWidth width tab.label := by
  simp [tabWidths, List.getD, htab]

/-- A label of which the window shows every column is a piece of its own. -/
theorem cut_whole (separator : Text) {tabs : List (Tab T S)} {place : ℕ} {tab : Tab T S}
    (htab : tabs[place]? = some tab) (hlabel : 0 < textWidth width tab.label)
    (hshown : offset ≤ (tabExtent (tabWidths width tabs) (textWidth width separator) place).1 ∧
      (tabExtent (tabWidths width tabs) (textWidth width separator) place).2 ≤ windowEnd) :
    ⟨⟨clipDisplayColumns width tab.label 0 (textWidth width tab.label), some tab.style⟩, some place⟩ ∈
      cut width offset windowEnd 0 (segments separator 0 tabs) := by
  obtain ⟨before, after, hsplit, hwidth⟩ := @segments_split T S width separator tabs place tab htab 0
  have hat := @tabWidths_at T S width tabs place tab htab
  simp only [tabExtent, hat, ← hwidth] at hshown
  have hcut : intersection (streamWidth width before)
      (streamWidth width before + textWidth width tab.label) offset windowEnd =
      some (streamWidth width before, streamWidth width before + textWidth width tab.label) := by
    rw [intersection_eq_some]
    omega
  rw [hsplit, cut_append, cut]
  simp [Segment.cut, hcut]

end Stream

/-! ## The window -/

section Window

variable {available total activeStart activeEnd offset : ℕ}

theorem overflowMarkerWidth_cases (available : ℕ) :
    (7 ≤ available ∧ overflowMarkerWidth available = 3) ∨
      (5 ≤ available ∧ available < 7 ∧ overflowMarkerWidth available = 2) ∨
      (available < 5 ∧ overflowMarkerWidth available = 1) := by
  unfold overflowMarkerWidth
  split_ifs <;> omega

/-- The markers and the window between them fit. -/
theorem metrics_fit (available offset total : ℕ) :
    let metrics := viewportMetrics available offset total (overflowMarkerWidth available)
    (if metrics.leftHidden then overflowMarkerWidth available else 0) + metrics.capacity +
      (if metrics.rightHidden then overflowMarkerWidth available else 0) ≤ available := by
  have hmarker := overflowMarkerWidth_cases available
  simp only [viewportMetrics, decide_eq_true_eq]
  split_ifs <;> omega

/-- The window at an offset shows the active tab. -/
def Shows (available total activeStart activeEnd offset : ℕ) : Prop :=
  offset ≤ activeStart ∧ activeEnd ≤ offset + capacityAt available total offset

theorem capacity_cases (hwide : 3 ≤ available) (hlarger : available < total) (offset : ℕ) :
    (capacityAt available total offset = available - overflowMarkerWidth available ∧
        (offset = 0 ∨ total ≤ offset + (available - overflowMarkerWidth available))) ∨
      (capacityAt available total offset = available - 2 * overflowMarkerWidth available ∧ 0 < offset ∧
        offset + (available - overflowMarkerWidth available) < total) := by
  have hmarker := overflowMarkerWidth_cases available
  simp only [capacityAt, viewportMetrics, decide_eq_true_eq]
  split_ifs <;> omega

/-- An active tab that fits beside both markers: one that fits in any window. -/
structure Fits (available total activeStart activeEnd : ℕ) : Prop where
  wide : 3 ≤ available
  larger : available < total
  ordered : activeStart ≤ activeEnd
  inside : activeEnd ≤ total
  narrow : activeEnd - activeStart ≤ available - 2 * overflowMarkerWidth available

variable {movingLeft : Bool}

theorem Fits.le_capacity (h : Fits available total activeStart activeEnd) (offset : ℕ) :
    activeEnd - activeStart ≤ capacityAt available total offset ∧ 0 < capacityAt available total offset := by
  have hmarker := overflowMarkerWidth_cases available
  have hcapacity := capacity_cases h.wide h.larger offset
  obtain ⟨hwide, -, -, -, hnarrow⟩ := h
  omega

theorem Fits.followRound_eq (h : Fits available total activeStart activeEnd) (offset : ℕ) :
    followRound available total activeStart activeEnd movingLeft offset =
      if activeStart < offset then some activeStart
      else if offset + capacityAt available total offset < activeEnd then
        some (activeEnd - capacityAt available total offset)
      else none := by
  obtain ⟨hfits, hpos⟩ := h.le_capacity offset
  have hle := h.ordered
  simp only [followRound, if_neg hpos.ne']
  have hkeep : ¬ (capacityAt available total offset < activeEnd - activeStart ∧ movingLeft = true) := by omega
  rw [if_neg hkeep]
  split_ifs <;> first | rfl | omega

theorem Fits.follow_stays (h : Fits available total activeStart activeEnd)
    (hshows : Shows available total activeStart activeEnd offset) (rounds : ℕ) :
    followActive available total activeStart activeEnd movingLeft rounds offset = offset := by
  cases rounds with
  | zero => rfl
  | succ rounds =>
    obtain ⟨hstart, hend⟩ := hshows
    rw [followActive, h.followRound_eq, if_neg (by omega), if_neg (by omega)]

theorem Fits.shows_start (h : Fits available total activeStart activeEnd) :
    Shows available total activeStart activeEnd activeStart := by
  have hfits := (h.le_capacity activeStart).1
  exact ⟨le_rfl, by omega⟩

/-- Right of the window its end is moved to the active tab, which is then inside unless the capacity
shrank. -/
theorem Fits.shows_end (h : Fits available total activeStart activeEnd)
    (hright : offset + capacityAt available total offset < activeEnd)
    (hkept : capacityAt available total offset ≤
      capacityAt available total (activeEnd - capacityAt available total offset)) :
    Shows available total activeStart activeEnd (activeEnd - capacityAt available total offset) := by
  have hfits := (h.le_capacity offset).1
  have hle := h.ordered
  constructor
  · omega
  · omega

/-- Three rounds are enough: the capacity shrinks at most once, by one marker. -/
theorem Fits.follow_shows (h : Fits available total activeStart activeEnd) (rounds offset : ℕ) :
    Shows available total activeStart activeEnd
      (followActive available total activeStart activeEnd movingLeft (rounds + 3) offset) := by
  have hle := h.ordered
  have hround : ∀ rounds offset,
      followActive available total activeStart activeEnd movingLeft (rounds + 1) offset =
      if activeStart < offset then activeStart
      else if offset + capacityAt available total offset < activeEnd then
        followActive available total activeStart activeEnd movingLeft rounds
          (activeEnd - capacityAt available total offset)
      else offset := by
    intro rounds offset
    rw [followActive, h.followRound_eq]
    split_ifs
    · exact h.follow_stays h.shows_start rounds
    · rfl
    · rfl
  rw [hround]
  split_ifs with hleft hright
  · exact h.shows_start
  · -- the capacity at the new offset decides whether there is a second move
    have hfirst := capacity_cases h.wide h.larger offset
    generalize hnext : activeEnd - capacityAt available total offset = next
    have hsecond := capacity_cases h.wide h.larger next
    have hfits := (h.le_capacity offset).1
    rw [hround]
    split_ifs with hleft' hright'
    · exact h.shows_start
    · have hthird := capacity_cases h.wide h.larger (activeEnd - capacityAt available total next)
      have hshows := h.shows_end hright' (by omega)
      rw [h.follow_stays hshows]
      exact hshows
    · constructor
      · omega
      · omega
  · constructor
    · omega
    · omega

/-- Nothing is hidden at the right only where the window, beside one marker, reaches the end. -/
theorem rightHidden_eq_false (hwide : 3 ≤ available) (hlarger : available < total)
    (h : (viewportMetrics available offset total (overflowMarkerWidth available)).rightHidden = false) :
    0 < offset ∧ total ≤ offset + (available - overflowMarkerWidth available) := by
  have hmarker := overflowMarkerWidth_cases available
  simp only [viewportMetrics, decide_eq_true_eq, decide_eq_false_iff_not] at h
  split_ifs at h <;> omega

theorem Fits.alignEnd_shows (h : Fits available total activeStart activeEnd)
    (hshows : Shows available total activeStart activeEnd offset) :
    Shows available total activeStart activeEnd (alignEnd available total offset) := by
  simp only [alignEnd]
  split_ifs with hlast
  · simp only [Bool.and_eq_true, Bool.not_eq_true', decide_eq_true_eq] at hlast
    obtain ⟨hpos, hreaches⟩ := rightHidden_eq_false h.wide h.larger hlast.1
    have hcapacity := capacity_cases h.wide h.larger offset
    have hmoved := capacity_cases h.wide h.larger (total - capacityAt available total offset)
    have hinside := h.inside
    rw [← capacityAt]
    constructor
    · have := hshows.1
      omega
    · omega
  · exact hshows

theorem revealLeft_shows (hshows : Shows available total activeStart activeEnd offset) :
    Shows available total activeStart activeEnd
      (revealLeft available total activeStart activeEnd offset) := by
  induction offset with
  | zero => exact hshows
  | succ candidate ih =>
    rw [revealLeft]
    split_ifs with hkeeps
    · exact ih hkeeps
    · exact hshows

end Window

/-! ## What is drawn -/

section Drawn

variable {area : Rect} {tabs : List (Tab T S)} {separator : Text} {markerStyle : S} {offset active : ℕ}

/-- What is known of the widths: blanks and arrows take one column. -/
structure UnicodeWidth (width : Char → ℕ) : Prop where
  space : width ' ' = 1
  left : width '←' = 1
  right : width '→' = 1

/-- The markers and the part of the stream between them, with the window at an offset. -/
def shown (width : Char → ℕ) (area : Rect) (tabs : List (Tab T S)) (separator : Text) (markerStyle : S)
    (offset : ℕ) : List (Piece S) :=
  let total := totalWidth width tabs separator
  let markerWidth := overflowMarkerWidth (available area)
  let metrics := viewportMetrics (available area) offset total markerWidth
  (if metrics.leftHidden then [⟨⟨overflowMarker true markerWidth, some markerStyle⟩, none⟩] else []) ++
    cut width offset (min (offset + metrics.capacity) total) 0 (segments separator 0 tabs) ++
    if metrics.rightHidden then [⟨⟨overflowMarker false markerWidth, some markerStyle⟩, none⟩] else []

theorem overflowMarker_width (h : UnicodeWidth width) (left : Bool) (available : ℕ) :
    textWidth width (overflowMarker left (overflowMarkerWidth available)) =
      overflowMarkerWidth available := by
  obtain ⟨hspace, hleft, hright⟩ := h
  rcases overflowMarkerWidth_cases available with ⟨-, hcase⟩ | ⟨-, -, hcase⟩ | ⟨-, hcase⟩ <;>
    cases left <;> simp [hcase, overflowMarker, textWidth, hspace, hleft, hright]

theorem drawLayout_line (h : UnicodeWidth width) :
    (drawLayout width area tabs separator markerStyle offset).line =
      (shown width area tabs separator markerStyle offset).map (·.span) := by
  simp only [drawLayout, shown, drawTabs_line h.space _ _ _ _ _ 0, List.map_append]
  congr 1
  · congr 1
    split_ifs <;> rfl
  · split_ifs <;> rfl

/-- A marker is as wide as it is said to be, and no tab owns it. -/
theorem marker_piece (h : UnicodeWidth width) (hidden left : Bool) (available column : ℕ) :
    let pieces : List (Piece S) :=
      if hidden then [⟨⟨overflowMarker left (overflowMarkerWidth available), some markerStyle⟩, none⟩] else []
    pieceWidth width pieces = (if hidden then overflowMarkerWidth available else 0) ∧
      placed width column pieces = [] ∧ pieces.filterMap (·.owner) = [] := by
  cases hidden with
  | true => simp [pieceWidth, placed, overflowMarker_width h]
  | false => simp [pieceWidth, placed]

theorem pieceWidth_append (first second : List (Piece S)) :
    pieceWidth width (first ++ second) = pieceWidth width first + pieceWidth width second := by
  simp [pieceWidth]

theorem shown_width (h : UnicodeWidth width) :
    pieceWidth width (shown width area tabs separator markerStyle offset) ≤ available area := by
  have hfit := metrics_fit (available area) offset (totalWidth width tabs separator)
  simp only [shown, pieceWidth_append, (marker_piece h _ _ _ 0).1, cut_width h.space, segments_width]
  simp only [covered] at hfit ⊢
  omega

theorem contentX_toNat (x : UInt16) (hidden : Bool) (markerWidth : ℕ) :
    (addU16 (addU16 x 1) (if hidden then toU16 markerWidth else 0)).toNat =
      min (x.toNat + 1 + if hidden then markerWidth else 0) 65535 := by
  cases hidden with
  | true =>
    simp only [addU16_toNat, if_true, toU16_toNat, UInt16.toNat_one]
    omega
  | false =>
    simp only [addU16_toNat, Bool.false_eq_true, if_false, UInt16.toNat_one, UInt16.toNat_zero]
    omega

theorem drawLayout_covers (h : UnicodeWidth width) :
    List.Forall₂ (Covers area tabs) (drawLayout width area tabs separator markerStyle offset).hitboxes
      (placed width (area.x.toNat + 1) (shown width area tabs separator markerStyle offset)) := by
  simp only [shown, placed_append, (marker_piece h _ _ _ _).2.1, (marker_piece h _ _ _ 0).1, List.nil_append,
    List.append_nil, drawLayout]
  generalize viewportMetrics (available area) offset (totalWidth width tabs separator)
    (overflowMarkerWidth (available area)) = metrics
  have hcontent := contentX_toNat area.x metrics.leftHidden (overflowMarkerWidth (available area))
  have hcovers := @drawTabs_covers T S width offset
    (min (offset + metrics.capacity) (totalWidth width tabs separator)) h.space area separator _ _ hcontent
    tabs tabs 0 0 rfl
  simpa using hcovers

theorem shown_owners (h : UnicodeWidth width) :
    ((shown width area tabs separator markerStyle offset).filterMap (·.owner)).Pairwise (· < ·) := by
  simp only [shown, List.filterMap_append, (marker_piece h _ _ _ 0).2.2, List.nil_append, List.append_nil]
  refine List.Pairwise.sublist (cut_owners _ _) ?_
  rw [segments_owners]
  exact List.pairwise_lt_range'

theorem forall₂_mem {α β : Type*} {R : α → β → Prop} {l : List α} {m : List β} (h : List.Forall₂ R l m) :
    ∀ a ∈ l, ∃ b ∈ m, R a b := by
  induction h with
  | nil => simp
  | cons hfirst _ ih =>
    intro a ha
    rcases List.mem_cons.mp ha with rfl | hrest
    · exact ⟨_, by simp, hfirst⟩
    · obtain ⟨b, hb, hR⟩ := ih a hrest
      exact ⟨b, by simp [hb], hR⟩

theorem forall₂_pairwise {α β : Type*} {R : α → β → Prop} {P : α → α → Prop} {Q : β → β → Prop} {l : List α}
    {m : List β} (h : List.Forall₂ R l m) (hpairs : m.Pairwise Q)
    (himp : ∀ a b c d, R a c → R b d → Q c d → P a b) : l.Pairwise P := by
  induction h with
  | nil => exact .nil
  | cons hfirst hrest ih =>
    rw [List.pairwise_cons] at hpairs ⊢
    refine ⟨fun b hb => ?_, ih hpairs.2⟩
    obtain ⟨d, hd, hR⟩ := forall₂_mem hrest b hb
    exact himp _ _ _ _ hfirst hR (hpairs.1 d hd)

/-- What the title promises of a layout with the window at an offset. -/
structure Tidy (width : Char → ℕ) (area : Rect) (tabs : List (Tab T S)) (separator : Text) (active : ℕ)
    (markerStyle : S) (layout : TitleTabLayout T S) (offset : ℕ) : Prop where
  line : layout.line = (shown width area tabs separator markerStyle offset).map (·.span)
  narrow : textWidth width (layout.line.flatMap (·.content)) ≤ available area
  covers : List.Forall₂ (Covers area tabs) layout.hitboxes
    (placed width (area.x.toNat + 1) (shown width area tabs separator markerStyle offset))
  ordered : ((placed width (area.x.toNat + 1) (shown width area tabs separator markerStyle offset)).map
    (·.1)).Pairwise (· < ·)
  apart : layout.hitboxes.Pairwise fun a b => a.area.right ≤ b.area.x.toNat
  columns : ∀ hitbox ∈ layout.hitboxes, area.x ≤ hitbox.area.x ∧ hitbox.area.right ≤ area.right
  row : area.height ≠ 0 →
    ∀ hitbox ∈ layout.hitboxes, hitbox.area.y = area.y ∧ hitbox.area.bottom ≤ area.bottom
  home : totalWidth width tabs separator ≤ available area → offset = 0
  visible : ∀ tab, tabs[min active (tabs.length - 1)]? = some tab → 0 < textWidth width tab.label →
    textWidth width tab.label ≤ available area - 2 * overflowMarkerWidth (available area) →
    ∃ piece ∈ shown width area tabs separator markerStyle offset,
      piece.owner = some (min active (tabs.length - 1)) ∧
      textWidth width piece.span.content = textWidth width tab.label ∧
      ((∀ character ∈ tab.label, 0 < width character) → piece.span.content = tab.label)

theorem textWidth_spans (pieces : List (Piece S)) :
    textWidth width ((pieces.map (·.span)).flatMap (·.content)) = pieceWidth width pieces := by
  induction pieces with
  | nil => rfl
  | cons piece rest ih => simpa [pieceWidth] using ih

/-- The columns of a hitbox, counted from the corner of the area. -/
theorem covers_inside {hitbox : TitleTabHitbox T} {columns : ℕ × ℕ × ℕ} (h : Covers area tabs hitbox columns)
    (hwide : 0 < available area)
    (hbounds : area.x.toNat + 1 ≤ columns.2.1 ∧ columns.2.2 ≤ area.x.toNat + 1 + available area) :
    (area.x ≤ hitbox.area.x ∧ hitbox.area.right ≤ area.right) ∧
      (area.height ≠ 0 → hitbox.area.y = area.y ∧ hitbox.area.bottom ≤ area.bottom) := by
  obtain ⟨-, hleft, hright, htop, hbottom⟩ := h
  have hx := u16_le area.x
  refine ⟨⟨?_, ?_⟩, fun hheight => ⟨htop, ?_⟩⟩
  · rw [UInt16.le_iff_toNat_le, hleft]
    omega
  · simp only [available, Rect.right] at hwide hbounds hright ⊢
    omega
  · have hpos : 0 < area.height.toNat := by
      rw [Nat.pos_iff_ne_zero]
      intro hzero
      exact hheight (UInt16.toNat_inj.mp hzero)
    rw [hbottom]
    simp only [Rect.bottom]
    omega

/-- Where the window at an offset ends. -/
def shownEnd (width : Char → ℕ) (area : Rect) (tabs : List (Tab T S)) (separator : Text) (offset : ℕ) : ℕ :=
  min (offset + capacityAt (available area) (totalWidth width tabs separator) offset)
    (totalWidth width tabs separator)

def activeExtent (width : Char → ℕ) (tabs : List (Tab T S)) (separator : Text) (active : ℕ) : ℕ × ℕ :=
  tabExtent (tabWidths width tabs) (textWidth width separator)
    (min active (tabs.length - 1))

theorem tabExtent_le (separator : Text) {tabs : List (Tab T S)} {place : ℕ} {tab : Tab T S}
    (htab : tabs[place]? = some tab) :
    let extent := tabExtent (tabWidths width tabs) (textWidth width separator) place
    extent.2 = extent.1 + textWidth width tab.label ∧ extent.2 ≤ totalWidth width tabs separator := by
  have hat := @tabWidths_at T S width tabs place tab htab
  obtain ⟨before, after, hsplit, hwidth⟩ := @segments_split T S width separator tabs place tab htab 0
  have htotal := @segments_width T S width separator 0 tabs
  rw [hsplit] at htotal
  simp only [tabExtent, hat, ← hwidth, true_and]
  simp only [streamWidth, List.map_append, List.map_cons, List.sum_append, List.sum_cons] at htotal hwidth ⊢
  omega

/-- The window that a layout moves to shows an active tab that fits beside both markers. -/
theorem moved_shows (viewport : TitleTabViewport) {tab : Tab T S}
    (htab : tabs[min active (tabs.length - 1)]? = some tab) (hlabel : 0 < textWidth width tab.label)
    (hnarrow : textWidth width tab.label ≤ available area - 2 * overflowMarkerWidth (available area)) :
    viewport.moved width area tabs separator active ≤ (activeExtent width tabs separator active).1 ∧
      (activeExtent width tabs separator active).2 ≤
        shownEnd width area tabs separator (viewport.moved width area tabs separator active) := by
  obtain ⟨hextent, hinside⟩ := @tabExtent_le T S width separator tabs _ tab htab
  rw [← activeExtent] at hextent hinside
  have hmarker := overflowMarkerWidth_cases (available area)
  by_cases hall : totalWidth width tabs separator ≤ available area
  · have hhome : viewport.moved width area tabs separator active = 0 := by simp [TitleTabViewport.moved, hall]
    rw [hhome]
    have hcapacity : capacityAt (available area) (totalWidth width tabs separator) 0 = available area := by
      simp only [capacityAt, viewportMetrics, decide_eq_true_eq]
      split_ifs <;> omega
    refine ⟨Nat.zero_le _, ?_⟩
    rw [shownEnd, hcapacity]
    omega
  · have hfits : Fits (available area) (totalWidth width tabs separator)
        (activeExtent width tabs separator active).1 (activeExtent width tabs separator active).2 :=
      ⟨by omega, by omega, by omega, hinside, by omega⟩
    have hshows : Shows (available area) (totalWidth width tabs separator)
        (activeExtent width tabs separator active).1 (activeExtent width tabs separator active).2
        (viewport.moved width area tabs separator active) := by
      have hfollowed := hfits.alignEnd_shows
        (@Fits.follow_shows _ _ _ _ (decide (min active (tabs.length - 1) < viewport.lastActive)) hfits 1
          (min viewport.offset (totalWidth width tabs separator - 1)))
      simp only [TitleTabViewport.moved, if_neg hall]
      split_ifs
      · exact revealLeft_shows hfollowed
      · exact hfollowed
    obtain ⟨hstart, hend⟩ := hshows
    exact ⟨hstart, by simp only [shownEnd]; omega⟩

/-- With no column to draw in, or no tab, nothing is drawn. -/
theorem shown_nothing (hnothing : available area = 0 ∨ tabs = []) :
    shown width area tabs separator markerStyle 0 = [] := by
  rcases hnothing with hnarrow | rfl
  · simp [shown, viewportMetrics, hnarrow, cut_closed]
  · simp [shown, viewportMetrics, segments, cut, totalWidth, tabWidths]

theorem layout_tidy (h : UnicodeWidth width) (viewport : TitleTabViewport) :
    Tidy width area tabs separator active markerStyle
      (viewport.layout width area tabs separator active markerStyle).1
      (viewport.layout width area tabs separator active markerStyle).2.offset := by
  unfold TitleTabViewport.layout
  split_ifs with hnothing
  · have hshown := @shown_nothing T S width area tabs separator markerStyle hnothing
    have hmarker := overflowMarkerWidth_cases (available area)
    refine ⟨by rw [hshown]; rfl, Nat.zero_le _, ?_, ?_, .nil, nofun, fun _ => nofun, fun _ => rfl, ?_⟩
    · rw [hshown]
      exact .nil
    · rw [hshown]
      exact .nil
    · rintro tab htab hlabel hnarrow
      rcases hnothing with hzero | rfl
      · omega
      · simp at htab
  · obtain ⟨hwide, -⟩ := not_or.mp hnothing
    have hcovers := @drawLayout_covers T S width area tabs separator markerStyle
      (viewport.moved width area tabs separator active) h
    have hbounds := @placed_bounds S width (area.x.toNat + 1)
      (shown width area tabs separator markerStyle (viewport.moved width area tabs separator active))
    have hwidth := @shown_width T S width area tabs separator markerStyle
      (viewport.moved width area tabs separator active) h
    have hinside : ∀ hitbox ∈ (drawLayout width area tabs separator markerStyle
        (viewport.moved width area tabs separator active)).hitboxes,
        (area.x ≤ hitbox.area.x ∧ hitbox.area.right ≤ area.right) ∧
          (area.height ≠ 0 → hitbox.area.y = area.y ∧ hitbox.area.bottom ≤ area.bottom) := by
      intro hitbox hmem
      obtain ⟨columns, hcolumns, hcover⟩ := forall₂_mem hcovers hitbox hmem
      have := hbounds columns hcolumns
      exact covers_inside hcover (Nat.pos_of_ne_zero hwide) (by omega)
    refine ⟨drawLayout_line h, ?_, hcovers, ?_, ?_, fun hitbox hmem => (hinside hitbox hmem).1,
      fun hheight hitbox hmem => (hinside hitbox hmem).2 hheight, ?_, ?_⟩
    · rw [drawLayout_line h, textWidth_spans]
      exact hwidth
    · rw [placed_owners]
      exact shown_owners h
    · refine forall₂_pairwise hcovers (placed_apart _ _) fun a b c d ha hb hcd => ?_
      rw [ha.right, hb.left]
      omega
    · intro hall
      simp [TitleTabViewport.moved, hall]
    · intro tab htab hlabel hnarrow
      have hmoved := @moved_shows T S width area tabs separator active viewport tab htab hlabel hnarrow
      have hpiece := cut_whole separator htab hlabel hmoved
      refine ⟨_, List.mem_append_left _ (List.mem_append_right _ hpiece), rfl, ?_,
        fun hvisible => clip_whole hvisible⟩
      exact clip_width h.space (by omega)

end Drawn

/-! ## Sequences of layouts -/

section Calls

structure Call (T S : Type*) where
  area : Rect
  tabs : List (Tab T S)
  separator : Text
  active : ℕ
  markerStyle : S

def Call.layout (width : Char → ℕ) (viewport : TitleTabViewport) (call : Call T S) :
    TitleTabLayout T S × TitleTabViewport :=
  viewport.layout width call.area call.tabs call.separator call.active call.markerStyle

/-- The viewport after some calls. -/
def layouts (width : Char → ℕ) (calls : List (Call T S)) : TitleTabViewport :=
  calls.foldl (fun viewport call => (call.layout width viewport).2) {}

/-- Whatever was laid out before, the title fits, the hitboxes are where the labels are drawn, one
after the other and inside the area, and an active tab that fits beside both markers is shown whole. -/
theorem layouts_tidy (h : UnicodeWidth width) (calls : List (Call T S)) (call : Call T S) :
    Tidy width call.area call.tabs call.separator call.active call.markerStyle
      (call.layout width (layouts width calls)).1 (call.layout width (layouts width calls)).2.offset :=
  layout_tidy h (layouts width calls)

/-- Widths of printable characters of one column. -/
def plainWidth (character : Char) : ℕ := if character.toNat < 32 then 0 else 1

theorem plainWidth_unicode : UnicodeWidth plainWidth := ⟨rfl, rfl, rfl⟩

def fourTabs (area : Rect) (active : ℕ) : Call Char Unit where
  area := area
  tabs := ['A', 'B', 'C', 'D'].map fun value => ⟨value, List.replicate 5 value, ()⟩
  separator := ['-']
  active := active
  markerStyle := ()

/-- From the first tab to the third, in a panel of thirteen columns. -/
theorem layouts_tidy_third :
    let before := [fourTabs ⟨0, 0, 13, 4⟩ 0]
    let drawn := (fourTabs ⟨0, 0, 13, 4⟩ 2).layout plainWidth (layouts plainWidth before)
    drawn.1.line.flatMap (·.content) = " ← CCCCC → ".toList ∧ drawn.2.offset = 12 ∧
      Tidy plainWidth ⟨0, 0, 13, 4⟩ (fourTabs ⟨0, 0, 13, 4⟩ 2).tabs ['-'] 2 () drawn.1 drawn.2.offset :=
  ⟨by decide, by decide,
    layouts_tidy plainWidth_unicode [fourTabs ⟨0, 0, 13, 4⟩ 0] (fourTabs ⟨0, 0, 13, 4⟩ 2)⟩

/-- An area without rows gets hitboxes of one row. -/
theorem hitbox_below_flat_area :
    ¬ ∀ (calls : List (Call Char Unit)) (call : Call Char Unit),
      ∀ hitbox ∈ (call.layout plainWidth (layouts plainWidth calls)).1.hitboxes,
        hitbox.area.bottom ≤ call.area.bottom := by
  intro h
  have hflat := h [] (fourTabs ⟨0, 0, 13, 0⟩ 0) ⟨'A', ⟨1, 0, 5, 1⟩⟩ (by decide)
  simp [Rect.bottom, fourTabs] at hflat

end Calls

end Lasper.Tui.TitleTabs
