import Ralloc.Mapping.Reopen

/-!
# The range that is reported for a region

`RP_region_range` adds the length of the file to the start of the heap, not to the start of the
file. `region_range_iff`: what it reports is never inside the mapping, because the heap starts
behind the header.
-/

namespace Ralloc

open Lib RegionIndex

variable {numSb : ℕ} {i : RegionIndex} {o : Opened (i.filesize numSb)}

/-- The number of a region. -/
def RegionIndex.num : RegionIndex → ℕ
  | DESC_IDX => 0
  | SB_IDX => 1
  | META_IDX => 2

/-- `Regions::regions_address` of an open region. -/
def Opened.address {filesize : ℕ} (o : Opened filesize) : ℕ := fetchStart o.now.addr o.file

/-- `Regions::in_range`. -/
def Opened.inRange {filesize : ℕ} (o : Opened filesize) (ptr : ℕ) : Bool :=
  o.address ≤ ptr ∧ ptr < currAddr o.now.addr o.file

/-- `RP_region_range` when `curIdx` regions are open: what is stored at `start_addr` and `end_addr`,
unless it returns 1. -/
def rpRegionRange (curIdx : ℕ) (i : RegionIndex) (o : Opened (i.filesize numSb))
    (startNull endNull : Bool) : Option (ℕ × ℕ) :=
  if startNull || endNull || curIdx ≤ i.num then none
  else some (o.address, (o.address + i.filesize numSb) % WORD)

/-- The heap starts behind the header. -/
lemma FileRun.start_pos (run : FileRun numSb i o) : 0 < load o.file 8 8 := by
  induction run with
  | @create p file first expand =>
    obtain ⟨-, lo, pos, hi, -⟩ := create_spec first expand
    have bound := first.bound
    unfold ADDR at bound
    have off : storeHeapStart first.addr p = p - first.addr := by
      rw [storeHeapStart]
      unfold WORD
      omega
    rw [storeStart, off, load_store (by omega)]
    omega
  | @expand o p file run alignment size call ih =>
    obtain ⟨-, -, -, rfl⟩ := regionAllocator_some call
    rw [load_setCurrAddr_start]
    exact ih
  | @use o run file header ih =>
    rw [load_congr fun x _ hx => header x (by unfold PAGESIZE; omega)]
    exact ih
  | @reopen o run now ih =>
    have pages := two_pages_le numSb i
    unfold PAGESIZE at pages
    rw [load_remap (by omega)]
    exact ih

/-- The heap start in any mapping. -/
lemma FileRun.address_eq (run : FileRun numSb i o) : o.address = o.now.addr + load o.file 8 8 := by
  have bound := o.now.bound
  have lt := run.start_lt
  unfold ADDR at bound
  rw [Opened.address, fetchStart, fetchHeapStart, Nat.add_comm, Nat.mod_eq_of_lt]
  unfold WORD
  omega

/-- What is reported lies inside the mapping and contains the addresses in use. -/
def Opened.Reports {filesize : ℕ} (o : Opened filesize) (range : ℕ × ℕ) : Prop :=
  o.now.addr ≤ range.1 ∧ range.2 ≤ o.now.addr + filesize ∧
    ∀ ptr, o.inRange ptr = true → range.1 ≤ ptr ∧ ptr < range.2

/-- The end that is reported. -/
lemma FileRun.end_gt (run : FileRun numSb i o) :
    o.now.addr + i.filesize numSb < (o.address + i.filesize numSb) % WORD := by
  have bound := o.now.bound
  have lt := run.start_lt
  have pos := run.start_pos
  unfold ADDR at bound
  rw [run.address_eq, Nat.mod_eq_of_lt]
  · omega
  · unfold WORD
    omega

/-- `RP_region_range` reports the mapping only when it returns 1 and reports nothing. -/
theorem region_range_iff (run : FileRun numSb i o) (curIdx : ℕ) (startNull endNull : Bool) :
    (∀ range, rpRegionRange curIdx i o startNull endNull = some range → o.Reports range) ↔
      startNull = true ∨ endNull = true ∨ curIdx ≤ i.num := by
  have past := run.end_gt
  by_cases h : startNull = true ∨ endNull = true ∨ curIdx ≤ i.num
  · refine iff_of_true (fun range e => ?_) h
    rw [rpRegionRange, if_pos (by simpa [or_assoc] using h)] at e
    cases e
  · refine iff_of_false (fun all => ?_) h
    have reports := all _ (if_neg (by simpa [or_assoc] using h))
    exact absurd reports.2.1 (by omega)

/-- Without a place for the start nothing is reported. -/
theorem region_range_null : ∃ o : Opened (SB_IDX.filesize 16384), FileRun 16384 SB_IDX o ∧
    ∀ range, rpRegionRange 3 SB_IDX o true false = some range → o.Reports range := by
  obtain ⟨o, run, -, -⟩ := tight_created
  exact ⟨o, run, (region_range_iff run 3 true false).2 (.inl rfl)⟩

/-- The superblock region of a new heap: the reported end is behind the end of the mapping. -/
theorem region_range_past : ∃ o : Opened (SB_IDX.filesize 16384), FileRun 16384 SB_IDX o ∧
    ∃ range, rpRegionRange 3 SB_IDX o false false = some range ∧
      o.now.addr + SB_IDX.filesize 16384 < range.2 := by
  obtain ⟨o, run, -, -⟩ := tight_created
  exact ⟨o, run, _, rfl, run.end_gt⟩

end Ralloc
