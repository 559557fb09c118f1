import Mathlib.Data.List.Basic
import Mathlib.Data.UInt

/-! Sparse files. Every byte of a file lies in data or in a hole, and a hole reads as
zeros. Seeking finds the next data or the next hole; a write past the end leaves a hole
before it. -/

namespace Lasper.Lib

structure Cell where
  byte : UInt8
  isData : Bool
  hole_zero : isData = false → byte = 0

instance : DecidableEq Cell := fun c d =>
  decidable_of_iff (c.byte = d.byte ∧ c.isData = d.isData) (by
    cases c
    cases d
    simp)

def Cell.hole : Cell := ⟨0, false, fun _ => rfl⟩

def Cell.data (byte : UInt8) : Cell := ⟨byte, true, nofun⟩

structure SparseFile where
  cells : List Cell
  bounded : cells.length < 2 ^ 63

namespace SparseFile

def content (file : SparseFile) : List UInt8 := file.cells.map (·.byte)

def length (file : SparseFile) : ℕ := file.cells.length

/-- Is there data at this offset? -/
def isData (file : SparseFile) (offset : ℕ) : Bool := file.cells[offset]?.any (·.isData)

/-- The least offset from `offset` on at which there is data. -/
def seekData (file : SparseFile) (offset : ℕ) : Option ℕ :=
  ((file.cells.drop offset).findIdx? (·.isData)).map (offset + ·)

/-- The least offset from `offset` on at which there is a hole; the end of the file is one. -/
def seekHole (file : SparseFile) (offset : ℕ) : Option ℕ :=
  if offset < file.length then some (offset + (file.cells.drop offset).findIdx (! ·.isData)) else none

variable {file : SparseFile} {offset data hole : ℕ}

@[simp]
theorem length_content : file.content.length = file.length := by simp [content, length]

theorem isData_lt (h : file.isData data = true) : data < file.length := by
  rw [isData, Option.any_eq_true] at h
  obtain ⟨cell, hcell, -⟩ := h
  exact (List.getElem?_eq_some_iff.mp hcell).1

theorem bytes_of_holes {cells : List Cell} (h : ∀ cell ∈ cells, cell.isData = false) :
    cells.map (·.byte) = List.replicate cells.length 0 := by
  rw [List.eq_replicate_iff]
  refine ⟨by simp, fun byte hbyte => ?_⟩
  obtain ⟨cell, hcell, rfl⟩ := List.mem_map.mp hbyte
  exact cell.hole_zero (h cell hcell)

/-- Data is found at or after the offset, and only zeros come before it. -/
theorem seekData_eq_some (h : file.seekData offset = some data) :
    offset ≤ data ∧ file.isData data = true ∧
      file.content.take data = file.content.take offset ++ List.replicate (data - offset) 0 := by
  rw [seekData, Option.map_eq_some_iff] at h
  obtain ⟨i, hi, rfl⟩ := h
  obtain ⟨hlength, hdata, hbefore⟩ := List.findIdx?_eq_some_iff_getElem.mp hi
  have hholes : ∀ cell ∈ (file.cells.drop offset).take i, cell.isData = false := by
    intro cell hcell
    obtain ⟨j, hj, rfl⟩ := List.mem_iff_getElem.mp hcell
    rw [List.length_take] at hj
    rw [List.getElem_take]
    simpa using hbefore j (by omega)
  have hzeros : (file.content.drop offset).take i = List.replicate i 0 := by
    have hbytes := bytes_of_holes hholes
    rw [List.length_take_of_le hlength.le] at hbytes
    rw [← hbytes, content, ← List.map_drop, ← List.map_take]
  refine ⟨Nat.le_add_right _ _, ?_, ?_⟩
  · rw [List.getElem_drop] at hdata
    rw [List.length_drop] at hlength
    simp [isData, List.getElem?_eq_getElem (show offset + i < file.cells.length by omega), hdata]
  · rw [List.take_add, hzeros, Nat.add_sub_cancel_left]

/-- Without data left there are only zeros. -/
theorem seekData_eq_none (h : file.seekData offset = none) :
    file.content = file.content.take offset ++ List.replicate (file.length - offset) 0 := by
  rw [seekData, Option.map_eq_none_iff, List.findIdx?_eq_none_iff] at h
  have hzeros : file.content.drop offset = List.replicate (file.length - offset) 0 := by
    have hbytes := bytes_of_holes h
    rw [List.length_drop] at hbytes
    rw [content, ← List.map_drop, hbytes, length]
  rw [← hzeros, List.take_append_drop]

theorem seekHole_eq_some (h : file.seekHole offset = some hole) :
    offset < file.length ∧ offset ≤ hole ∧ hole ≤ file.length ∧ (file.isData offset = true → offset < hole) := by
  unfold seekHole at h
  split at h
  · rename_i hlength
    have hlt : offset < file.cells.length := hlength
    cases h
    have hle : (file.cells.drop offset).findIdx (! ·.isData) ≤ _ := List.findIdx_le_length
    rw [List.length_drop] at hle
    refine ⟨hlt, Nat.le_add_right _ _, by rw [length]; omega, fun hdata => ?_⟩
    have hcons : file.cells.drop offset = file.cells[offset] :: file.cells.drop (offset + 1) :=
      List.drop_eq_getElem_cons hlt
    simp only [isData, List.getElem?_eq_getElem hlt, Option.any_some] at hdata
    rw [hcons, List.findIdx_cons, hdata]
    simp
  · cases h

end SparseFile

/-- Bytes written at a position, after zeros where the file ended before it. -/
def writeAt (file : List UInt8) (position : ℕ) (bytes : List UInt8) : List UInt8 :=
  file.take position ++ List.replicate (position - file.length) 0 ++ bytes ++ file.drop (position + bytes.length)

def setLen (file : List UInt8) (size : ℕ) : List UInt8 :=
  file.take size ++ List.replicate (size - file.length) 0

variable {file bytes : List UInt8} {position size : ℕ}

@[simp]
theorem length_setLen : (setLen file size).length = size := by
  simp [setLen]
  omega

theorem setLen_of_length (h : file.length = size) : setLen file size = file := by
  simp [setLen, ← h]

/-- Growing a file that has grown before. -/
theorem setLen_of_le (hlength : file.length ≤ position) (h : position ≤ size) :
    setLen file size = setLen file position ++ List.replicate (size - position) 0 := by
  have hsize : size - file.length = (position - file.length) + (size - position) := by omega
  rw [setLen, setLen, List.take_of_length_le (by omega), List.take_of_length_le hlength, hsize,
    List.replicate_add, List.append_assoc]

/-- A write at or past the end. -/
theorem writeAt_of_le (h : file.length ≤ position) : writeAt file position bytes = setLen file position ++ bytes := by
  have hdrop : file.drop (position + bytes.length) = [] := List.drop_eq_nil_of_le (by omega)
  rw [writeAt, setLen, hdrop, List.append_nil]

end Lasper.Lib
