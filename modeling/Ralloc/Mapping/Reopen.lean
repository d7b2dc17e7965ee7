import Ralloc.Model.RegionFile

/-!
# Reopening a region

`__remap_persistent_region` writes a byte at the end of the file before it maps it, to make sure
that the file is long enough. The file of a region that is in use is long enough already, so the
byte is written over whatever is there. `kept_iff`: the contents of the region survive exactly when
the last byte of the file is behind `curr_addr` or is 0 anyway.

`FileRun` is the history of a file: created, expanded any number of times, used, closed and opened
again anywhere.
-/

namespace Ralloc

open Lib RegionIndex

variable {numSb : ℕ} {i : RegionIndex}

/-- A region file that is mapped. -/
structure Opened (filesize : ℕ) where
  now : MapAddr filesize
  file : Mem

/-- The region that an open file is. -/
def Opened.region {filesize : ℕ} (o : Opened filesize) : Region := ⟨o.now.addr, filesize⟩

/-- Region `i` of a heap of `numSb` superblocks after any history. -/
inductive FileRun (numSb : ℕ) (i : RegionIndex) : Opened (i.filesize numSb) → Prop
  | create {p file} (first : MapAddr (i.filesize numSb))
    (expand : regionAllocator ⟨first.addr, i.filesize numSb⟩
      (mapPersistentRegion (i.filesize numSb) first.addr) i.alignment (i.firstSize numSb) =
        some (p, file)) :
    FileRun numSb i ⟨first, storeStart first.addr file p⟩
  | expand {o p file} (run : FileRun numSb i o) (alignment size : ℕ)
    (call : regionAllocator o.region o.file alignment size = some (p, file)) :
    FileRun numSb i ⟨o.now, file⟩
  | use {o} (run : FileRun numSb i o) (file : Mem) (header : ∀ x < PAGESIZE, file x = o.file x) :
    FileRun numSb i ⟨o.now, file⟩
  | reopen {o} (run : FileRun numSb i o) (now : MapAddr (i.filesize numSb)) :
    FileRun numSb i ⟨now, remapPersistentRegion (i.filesize numSb) o.file⟩

/-- Opening the file again leaves the heap and the header as they were. -/
structure Opened.Kept {filesize : ℕ} (o : Opened filesize) : Prop where
  heap : ∀ x < filesize, fetchStart o.now.addr o.file ≤ o.now.addr + x →
    o.now.addr + x < currAddr o.now.addr o.file → remapPersistentRegion filesize o.file x = o.file x
  curr : load (remapPersistentRegion filesize o.file) 0 8 = load o.file 0 8
  start : load (remapPersistentRegion filesize o.file) 8 8 = load o.file 8 8
  size : load (remapPersistentRegion filesize o.file) 16 8 = load o.file 16 8

/-- A file has a header and at least a page behind it. -/
lemma two_pages_le (numSb : ℕ) (i : RegionIndex) : 2 * PAGESIZE ≤ i.filesize numSb :=
  Nat.mul_le_mul_right _ (Nat.le_add_left ..)

/-- The header is not at the end of the file. -/
lemma load_remap {filesize : ℕ} {file : Mem} {a n : ℕ} (h : a + n < filesize) :
    load (remapPersistentRegion filesize file) a n = load file a n :=
  load_congr fun _ _ _ => Function.update_of_ne (by omega) ..

/-- The byte that is written. -/
lemma remap_last (filesize : ℕ) (file : Mem) :
    remapPersistentRegion filesize file (filesize - 1) = 0 := Function.update_self ..

/-- What a successful `__nvm_region_allocator` does. -/
lemma regionAllocator_some {r : Region} {file file' : Mem} {alignment size p : ℕ}
    (e : regionAllocator r file alignment size = some (p, file')) :
    argsOk alignment size = true ∧ r.fits (currAddr r.base file) alignment size = true ∧
      p = alignAdj (currAddr r.base file) alignment ∧
      file' = setCurrAddr r.base file (bumpNext (currAddr r.base file) alignment size) := by
  rw [regionAllocator] at e
  split at e
  case isTrue h =>
    cases e
    exact ⟨h.1, h.2, rfl, rfl⟩
  case isFalse => cases e

/-- The first expansion is shorter than the address space. -/
lemma firstSize_lt (first : MapAddr (i.filesize numSb)) : i.firstSize numSb < ADDR := by
  have bound := first.bound
  have lt : i.bytes numSb < i.filesize numSb := by
    rw [RegionIndex.filesize, fileSize]
    unfold PAGESIZE
    omega
  cases i with
  | SB_IDX =>
    show SB_REGION_EXPAND_SIZE < ADDR
    decide
  | DESC_IDX => exact lt_of_lt_of_le lt (by omega)
  | META_IDX => exact lt_of_lt_of_le lt (by omega)

/-- Alignments are small powers of two. -/
lemma alignment_eq (i : RegionIndex) : ∃ k ≤ 16, i.alignment = 2 ^ k := by
  cases i with
  | SB_IDX => exact ⟨16, le_rfl, rfl⟩
  | DESC_IDX => exact ⟨6, by decide, rfl⟩
  | META_IDX => exact ⟨6, by decide, rfl⟩

/-- `curr_addr` of a new file. -/
lemma currAddr_map {filesize : ℕ} (first : MapAddr filesize) (two : 2 * PAGESIZE ≤ filesize) :
    currAddr first.addr (mapPersistentRegion filesize first.addr) = first.addr + PAGESIZE := by
  have bound := first.bound
  unfold PAGESIZE at two
  have lt : first.addr + PAGESIZE < ADDR := by
    unfold PAGESIZE
    omega
  have hcurr : mapCurrAddr first.addr = first.addr + PAGESIZE :=
    Nat.mod_eq_of_lt (lt_trans lt (by decide))
  rw [currAddr, mapPersistentRegion, load_store_out (by omega), hcurr]
  exact currAddr_setCurrAddr lt (by omega)

section firstExpand

variable {file₀ : Mem} (first : MapAddr (i.filesize numSb))
  (hcurr : currAddr first.addr file₀ = first.addr + PAGESIZE)

/-- The addresses of the first expansion do not wrap around. -/
lemma firstExpand_eq : alignAdj (first.addr + PAGESIZE) i.alignment =
      alignUp (first.addr + PAGESIZE) i.alignment ∧
    bumpNext (first.addr + PAGESIZE) i.alignment (i.firstSize numSb) =
      alignUp (first.addr + PAGESIZE) i.alignment + i.firstSize numSb ∧
    Region.limit ⟨first.addr, i.filesize numSb⟩ = first.addr + i.filesize numSb ∧
    first.addr < alignUp (first.addr + PAGESIZE) i.alignment := by
  have two := two_pages_le numSb i
  have bound := first.bound
  have size := firstSize_lt first
  obtain ⟨k, hk, al⟩ := alignment_eq i
  have hle : 2 ^ k ≤ 2 ^ 16 := Nat.pow_le_pow_right (by decide) hk
  have h1 := alignUp_lt (n := first.addr + PAGESIZE) (Nat.two_pow_pos k)
  have h2 := le_alignUp (n := first.addr + PAGESIZE) (Nat.two_pow_pos k)
  unfold PAGESIZE at two h1 h2
  unfold ADDR at bound size
  have hadj : alignAdj (first.addr + PAGESIZE) i.alignment =
      alignUp (first.addr + PAGESIZE) i.alignment := by
    rw [al, alignAdj_eq (by unfold WORD PAGESIZE; omega)]
    exact Nat.mod_eq_of_lt (by unfold WORD PAGESIZE; omega)
  refine ⟨hadj, ?_, Nat.mod_eq_of_lt ?_, ?_⟩
  · rw [bumpNext, hadj]
    refine Nat.mod_eq_of_lt ?_
    rw [al]
    unfold WORD PAGESIZE
    omega
  · show first.addr + i.filesize numSb < WORD
    unfold WORD
    omega
  · rw [al]
    unfold PAGESIZE
    omega

include hcurr

/-- The first expansion of a file that has a header only. -/
lemma firstExpand_spec {file : Mem} {p : ℕ}
    (expand : regionAllocator ⟨first.addr, i.filesize numSb⟩ file₀ i.alignment (i.firstSize numSb) =
        some (p, file)) :
    p = alignUp (first.addr + PAGESIZE) i.alignment ∧ first.addr < p ∧ 0 < i.firstSize numSb ∧
      p + i.firstSize numSb ≤ first.addr + i.filesize numSb ∧
      file = setCurrAddr first.addr file₀ (p + i.firstSize numSb) := by
  obtain ⟨args, fits, hp, hfile⟩ := regionAllocator_some expand
  obtain ⟨adj, next, limit, above⟩ := firstExpand_eq first
  rw [hcurr] at fits hp hfile
  rw [adj] at hp
  rw [next, ← hp] at hfile
  rw [Region.fits, next, limit, decide_eq_true_eq] at fits
  simp only [argsOk, decide_eq_true_eq] at args
  exact ⟨hp, hp ▸ above, Nat.pos_of_ne_zero args.1, hp ▸ fits, hfile⟩

/-- It succeeds if there is room. -/
lemma firstExpand_some (pos : 0 < i.firstSize numSb)
    (room : alignUp (first.addr + PAGESIZE) i.alignment + i.firstSize numSb ≤
      first.addr + i.filesize numSb) :
    ∃ r, regionAllocator ⟨first.addr, i.filesize numSb⟩ file₀ i.alignment (i.firstSize numSb) =
      some r := by
  obtain ⟨-, next, limit, -⟩ := firstExpand_eq first
  have args : argsOk i.alignment (i.firstSize numSb) = true := by
    have al : i.alignment &&& ((WORD - i.alignment) % WORD) = i.alignment ∧ 8 ≤ i.alignment := by
      cases i <;> decide
    simp only [argsOk, decide_eq_true_eq]
    exact ⟨pos.ne', al⟩
  have fits : Region.fits ⟨first.addr, i.filesize numSb⟩ (first.addr + PAGESIZE) i.alignment
      (i.firstSize numSb) = true := by
    rw [Region.fits, next, limit, decide_eq_true_eq]
    exact room
  rw [regionAllocator, hcurr]
  exact ⟨_, if_pos ⟨args, fits⟩⟩

end firstExpand

/-- The first expansion of a new file. -/
lemma create_spec {file : Mem} {p : ℕ} (first : MapAddr (i.filesize numSb))
    (expand : regionAllocator ⟨first.addr, i.filesize numSb⟩
      (mapPersistentRegion (i.filesize numSb) first.addr) i.alignment (i.firstSize numSb) =
        some (p, file)) :
    p = alignUp (first.addr + PAGESIZE) i.alignment ∧ first.addr < p ∧ 0 < i.firstSize numSb ∧
      p + i.firstSize numSb ≤ first.addr + i.filesize numSb ∧
      file = setCurrAddr first.addr (mapPersistentRegion (i.filesize numSb) first.addr)
        (p + i.firstSize numSb) :=
  firstExpand_spec first (currAddr_map first (two_pages_le numSb i)) expand

/-- The heap starts inside the file. -/
lemma FileRun.start_lt {o : Opened (i.filesize numSb)} (run : FileRun numSb i o) :
    load o.file 8 8 < i.filesize numSb := by
  have pages := two_pages_le numSb i
  unfold PAGESIZE at pages
  induction run with
  | @create p file first expand =>
    obtain ⟨-, lo, pos, hi, -⟩ := create_spec first expand
    have bound := first.bound
    unfold ADDR at bound
    have off : storeHeapStart first.addr p = p - first.addr := by
      rw [storeHeapStart]
      unfold WORD
      omega
    rw [storeStart, off, load_store (by omega)]
    omega
  | @expand o p file run alignment size call ih =>
    obtain ⟨-, -, -, rfl⟩ := regionAllocator_some call
    rw [load_setCurrAddr_start]
    exact ih
  | @use o run file header ih =>
    rw [load_congr fun x _ hx => header x (by unfold PAGESIZE; omega)]
    exact ih
  | @reopen o run now ih =>
    rw [load_remap (by omega)]
    exact ih

/-- The heap start that is read back lies in the mapping. -/
lemma FileRun.fetchStart_lt {o : Opened (i.filesize numSb)} (run : FileRun numSb i o) :
    fetchStart o.now.addr o.file < o.now.addr + i.filesize numSb := by
  have bound := o.now.bound
  have lt := run.start_lt
  have start : fetchStart o.now.addr o.file = load o.file 8 8 + o.now.addr := by
    unfold ADDR at bound
    exact Nat.mod_eq_of_lt (by unfold WORD; omega)
  omega

/-- Opening a region again keeps its contents exactly when its last byte is not in use or is 0. -/
theorem kept_iff {o : Opened (i.filesize numSb)} (run : FileRun numSb i o) :
    o.Kept ↔ currAddr o.now.addr o.file < o.now.addr + i.filesize numSb ∨
      o.file (i.filesize numSb - 1) = 0 := by
  have pages := two_pages_le numSb i
  unfold PAGESIZE at pages
  have start := run.fetchStart_lt
  constructor
  · intro kept
    refine or_iff_not_imp_left.2 fun full => ?_
    have last := kept.heap (i.filesize numSb - 1) (by omega) (by omega) (by omega)
    rw [← last, remap_last]
  · intro h
    refine ⟨fun x hx lo hi => ?_, load_remap (by omega), load_remap (by omega),
      load_remap (by omega)⟩
    by_cases e : x = i.filesize numSb - 1
    · rw [e, remap_last]
      rcases h with below | zero
      · omega
      · exact zero.symm
    · exact Function.update_of_ne e ..

/-- A superblock file for 1 GiB that is first mapped two pages below a multiple of `SBSIZE`. -/
def tightFirst : MapAddr (SB_IDX.filesize 16384) := ⟨2 ^ 40 + 57344, by decide, by decide⟩

/-- When it is created its superblocks fill it to the end. -/
lemma tight_created : ∃ o : Opened (SB_IDX.filesize 16384), FileRun 16384 SB_IDX o ∧
    o.now = tightFirst ∧ currAddr o.now.addr o.file = o.now.addr + SB_IDX.filesize 16384 := by
  have some : (regionAllocator ⟨tightFirst.addr, SB_IDX.filesize 16384⟩
      (mapPersistentRegion (SB_IDX.filesize 16384) tightFirst.addr) SB_IDX.alignment
        (SB_IDX.firstSize 16384)).isSome = true := by decide +kernel
  obtain ⟨⟨p, file⟩, expand⟩ := Option.isSome_iff_exists.1 some
  obtain ⟨hp, -, -, -, hfile⟩ := create_spec tightFirst expand
  refine ⟨_, .create tightFirst expand, rfl, ?_⟩
  have hp : p = 2 ^ 40 + 2 ^ 16 := hp.trans (by decide +kernel)
  show currAddr tightFirst.addr _ = _
  rw [currAddr, load_storeStart_curr, ← currAddr, hfile, hp, currAddr_setCurrAddr] <;>
    decide +kernel

/-- The last byte of the last superblock is written, and reopening the file clears it. -/
theorem reopen_clears_byte : ∃ o : Opened (SB_IDX.filesize 16384), FileRun 16384 SB_IDX o ∧
    ∃ x < SB_IDX.filesize 16384, fetchStart o.now.addr o.file ≤ o.now.addr + x ∧
      o.now.addr + x < currAddr o.now.addr o.file ∧
      remapPersistentRegion (SB_IDX.filesize 16384) o.file x ≠ o.file x := by
  obtain ⟨o, run, -, full⟩ := tight_created
  have size : SB_IDX.filesize 16384 = 2 ^ 30 + 8192 := by decide +kernel
  let file := Function.update o.file (2 ^ 30 + 8191) 1
  have same : ∀ x < PAGESIZE, file x = o.file x :=
    fun x hx => Function.update_of_ne (by unfold PAGESIZE at hx; omega) ..
  have used := run.use file same
  have curr : currAddr o.now.addr file = currAddr o.now.addr o.file := by
    rw [currAddr, load_congr fun x _ hx => same x (by unfold PAGESIZE; omega), ← currAddr]
  have start : fetchStart o.now.addr file < o.now.addr + SB_IDX.filesize 16384 := used.fetchStart_lt
  refine ⟨_, used, 2 ^ 30 + 8191, by omega, ?_, ?_, ?_⟩
  · show fetchStart o.now.addr file ≤ o.now.addr + _
    omega
  · show o.now.addr + _ < currAddr o.now.addr file
    omega
  · have last := remap_last (SB_IDX.filesize 16384) file
    rw [show SB_IDX.filesize 16384 - 1 = 2 ^ 30 + 8191 by omega] at last
    have one : file (2 ^ 30 + 8191) = 1 := Function.update_self ..
    exact fun e => absurd (last.symm.trans (e.trans one)) (by decide)

/-- Reopening the file once more changes nothing. -/
theorem reopen_again : ∃ o : Opened (SB_IDX.filesize 16384), FileRun 16384 SB_IDX o ∧ o.Kept := by
  obtain ⟨o, run, -, -⟩ := tight_created
  have again := run.reopen tightFirst
  exact ⟨_, again, (kept_iff again).2 (.inr (remap_last (SB_IDX.filesize 16384) o.file))⟩

end Ralloc
