import Ralloc.Recovery.InitSteps
import Ralloc.Recovery.Mark

/-!
# Crashes during the first initialisation

The process dies after any number of the steps of the first `RP_init`; the next one calls `RP_init`
and `RP_recover`. `Initialised` is what an uninterrupted first `RP_init` leaves behind.

`restarts_iff`: the next process finds or makes an initialised heap exactly when no file was left
without the size in its header, `_basemd` was not left without the heap start of the superblocks,
and, if there was no `_basemd` yet, the first superblocks fit where the next process maps their
file.

Before `_basemd` is created (`crash_early`) the next process runs the constructor again. From then
on it takes `_basemd` for a constructed one: until the heap start is stored (`crash_unset`) the heap
is lost, and after that (`crash_late`) the garbage collection makes the list of free superblocks
again.

`rpInit_succeeds_iff` is about the first `RP_init` itself, which needs room for the first
superblocks between the padding in front of them and the end of the file.
-/

namespace Ralloc

namespace Init

open Lib RegionIndex

variable {numSb : ℕ} {p q : Proc numSb} {s s' : State} {f : Mem} {d : Disk} {fuel : ℕ}

/-- What the first `RP_init` is for: the heap start of the superblocks is set, the heaps know
their size classes, the roots are null, and the superblocks from number 1 on are in `avail_sb`,
each once. The heap start and `curr_addr` of the descriptor region are not part of it. -/
structure Initialised (p : Proc numSb) (s : State) (f : Mem) : Prop where
  file : s.disk.file SB_IDX = some f
  set : p.addr SB_IDX < fetchStart (p.addr SB_IDX) f
  address : s.address SB_IDX = fetchStart (p.addr SB_IDX) f
  curr : currAddr (p.addr SB_IDX) f = fetchStart (p.addr SB_IDX) f + SB_REGION_EXPAND_SIZE
  scIdx : ∀ sc < MAX_SZ_IDX, s.disk.scIdx sc = sc
  part : ∀ sc < MAX_SZ_IDX, (s.disk.part sc).ptr = none
  roots : ∀ i < MAX_ROOTS, s.disk.roots i = 0
  avail : ∃ D, IsList (fun d => (s.disk.desc d).nextFree) s.disk.avail.ptr D ∧ D.Nodup ∧
    ∀ d, d ∈ D ↔ 0 < d ∧ fetchStart (p.addr SB_IDX) f + d * SBSIZE < currAddr (p.addr SB_IDX) f

/-- `RP_init` and `RP_recover` on `d` end as the first `RP_init`. -/
def Restarts (q : Proc numSb) (fuel : ℕ) (d : Disk) : Prop :=
  ∃ s s' f, rpInit q d = some s ∧ rpRecover fuel q s = some s' ∧ Initialised q s' f

/-- There is room for the first superblocks where the file is mapped. -/
def WarmFits (q : Proc numSb) : Prop :=
  alignUp (q.addr SB_IDX + PAGESIZE) SBSIZE + SB_REGION_EXPAND_SIZE ≤
    q.addr SB_IDX + SB_IDX.filesize numSb

section construct

/-- The superblock after the first one has number 1. -/
lemma sbIndex_one (start : ℕ) : sbIndex start (start + SBSIZE) = 1 := by
  have h : (start + SBSIZE) >>> SB_SHIFT = start >>> SB_SHIFT + 1 := by
    rw [Nat.shiftRight_eq_div_pow, Nat.shiftRight_eq_div_pow]
    exact Nat.add_div_right _ (by decide)
  rw [sbIndex, h]
  unfold WORD
  omega

/-- The numbers of the superblocks below `curr_addr`. -/
lemma mem_warm {start d : ℕ} : d ∈ List.range' 1 WARM_SBS ↔
    0 < d ∧ start + d * SBSIZE < start + SB_REGION_EXPAND_SIZE := by
  rw [List.mem_range'_1]
  have h1 : 1 + WARM_SBS = 16384 := rfl
  have h2 : SB_REGION_EXPAND_SIZE = 16384 * 65536 := rfl
  rw [h1, h2, SBSIZE_eq]
  omega

/-- `curr_addr` of a file that has a header only. -/
lemma Header.currAddr_page (hd : Header f PAGESIZE 0 (SB_IDX.filesize numSb)) (p : Proc numSb) :
    currAddr (p.addr SB_IDX) f = p.addr SB_IDX + PAGESIZE := by
  obtain ⟨h1, h2⟩ := filesize_bounds p SB_IDX
  refine hd.currAddr_eq (by decide) (by decide) ?_
  unfold PAGESIZE WORD
  omega

/-- When the constructor can expand the superblock region. -/
lemma exists_warm_iff (hd : Header f PAGESIZE 0 (SB_IDX.filesize numSb)) :
    (∃ r, regionAllocator ⟨p.addr SB_IDX, SB_IDX.filesize numSb⟩ f SB_IDX.alignment
      (SB_IDX.firstSize numSb) = some r) ↔ WarmFits p := by
  have hcurr := hd.currAddr_page p
  constructor
  · rintro ⟨⟨t, f'⟩, alloc⟩
    obtain ⟨rfl, -, -, fits, -⟩ := firstExpand_spec (p.map SB_IDX) hcurr alloc
    exact fits
  · intro fits
    exact firstExpand_some (p.map SB_IDX) hcurr (show 0 < SB_REGION_EXPAND_SIZE by decide) fits

/-- The file when the constructor has expanded the region and has stored the heap start. -/
lemma warm_header {r : ℕ × Mem} (hd : Header f PAGESIZE 0 (SB_IDX.filesize numSb))
    (alloc : regionAllocator ⟨p.addr SB_IDX, SB_IDX.filesize numSb⟩ f SB_IDX.alignment
      (SB_IDX.firstSize numSb) = some r) :
    ∃ st, r.1 = p.addr SB_IDX + st ∧ 0 < st ∧ st < 2 ^ 20 ∧
      Header (storeStart (p.addr SB_IDX) r.2 r.1) (st + SB_REGION_EXPAND_SIZE) st
        (SB_IDX.filesize numSb) := by
  obtain ⟨t, f'⟩ := r
  obtain ⟨ht, above, -, -, hf'⟩ := firstExpand_spec (p.map SB_IDX) (hd.currAddr_page p) alloc
  change t = alignUp (p.addr SB_IDX + PAGESIZE) SBSIZE at ht
  change p.addr SB_IDX < t at above
  change f' = setCurrAddr (p.addr SB_IDX) f (t + SB_REGION_EXPAND_SIZE) at hf'
  have below := alignUp_lt (n := p.addr SB_IDX + PAGESIZE) (show 0 < SBSIZE by decide)
  rw [← ht, SBSIZE_eq] at below
  unfold PAGESIZE at below
  obtain ⟨h1, h2⟩ := filesize_bounds p SB_IDX
  have expand : SB_REGION_EXPAND_SIZE = 2 ^ 30 := rfl
  obtain ⟨st, rfl⟩ := Nat.exists_eq_add_of_le above.le
  have hc : Header f' (st + SB_REGION_EXPAND_SIZE) 0 (SB_IDX.filesize numSb) := by
    rw [hf', Nat.add_assoc]
    refine hd.setCurr (by omega) ?_
    unfold ADDR
    omega
  refine ⟨st, rfl, by omega, by omega, hc.setStart ?_⟩
  unfold WORD
  omega

/-- The state after `__store_heap_start` in the constructor. -/
def started (p : Proc numSb) (s : State) : State :=
  { s.modFile SB_IDX fun f => storeStart (p.addr SB_IDX) f s.space with
    address := Function.update s.address SB_IDX s.space }

/-- The step after which the heap start of the superblocks is known. -/
lemma exec_storeSbStart (new : s.existed META_IDX = false) :
    exec p s .storeSbStart = some (started p s) := by
  rw [exec, State.ifNew, new, if_neg (by decide), started]

/-- The whole constructor. -/
lemma run_constructorSteps (new : s.existed META_IDX = false) (hf : s.disk.file SB_IDX = some f) :
    run p constructorSteps s = (regionAllocator ⟨p.addr SB_IDX, SB_IDX.filesize numSb⟩ f
      SB_IDX.alignment (SB_IDX.firstSize numSb)).bind fun r =>
        run p organizeSteps (started p (constructed p s r)) := by
  rw [constructorSteps, run_append, run_metaSteps new hf, Option.bind_map]
  congr 1
  funext r
  rw [Function.comp_apply, run, exec_storeSbStart (by exact new), Option.bind_some]

/-- The list that `organize_sb_list` makes. -/
lemma chained_isList (a m : ℕ) (desc : ℕ → Descriptor) :
    IsList (fun d => (chained a m none desc d).nextFree) (some a) (List.range' a (m + 1)) := by
  have h : ∀ d, a ≤ d → d ≤ a + m →
      (chained a m none desc d).nextFree = if d < a + m then some (d + 1) else none := by
    intro d h1 h2
    rw [chained, if_pos ⟨h1, h2⟩]
  rw [← List.append_nil (List.range' a (m + 1))]
  refine IsList.range_append (isList_nil.2 rfl) (fun j hj => ?_) ?_
  · rw [h _ (by omega) (by omega), if_pos (by omega)]
  · rw [h _ (by omega) (by omega), if_neg (by omega)]

/-- The first superblock is skipped. -/
lemma started_firstDesc (p : Proc numSb) (s : State) : (started p s).firstDesc = 1 := by
  have h : (started p s).address SB_IDX = s.space := by simp [started]
  rw [State.firstDesc, h]
  exact sbIndex_one s.space

/-- `curr_addr` and the heap start in any process, when the constructor has stored both. -/
lemma Header.warm {st : ℕ} (hd : Header f (st + SB_REGION_EXPAND_SIZE) st (SB_IDX.filesize numSb))
    (lt : st < 2 ^ 20) (p : Proc numSb) :
    fetchStart (p.addr SB_IDX) f = p.addr SB_IDX + st ∧
      currAddr (p.addr SB_IDX) f = p.addr SB_IDX + st + SB_REGION_EXPAND_SIZE := by
  obtain ⟨h1, h2⟩ := filesize_bounds p SB_IDX
  have expand : SB_REGION_EXPAND_SIZE = 2 ^ 30 := rfl
  refine ⟨hd.fetchStart_eq ?_, ?_⟩
  · unfold WORD
    omega
  · rw [hd.currAddr_eq (by omega) (by unfold ADDR; omega) (by unfold WORD; omega), Nat.add_assoc]

/-- The constructor leaves an initialised heap. -/
lemma construct_initialised (new : s.existed META_IDX = false) (hf : s.disk.file SB_IDX = some f)
    (hd : Header f PAGESIZE 0 (SB_IDX.filesize numSb)) (empty : s.disk.avail.ptr = none)
    (e : run p constructorSteps s = some s') :
    s'.disk.mtx = .held p.pid ∧ ∃ f', Initialised p s' f' := by
  rw [run_constructorSteps new hf] at e
  obtain ⟨r, alloc, e⟩ := Option.bind_eq_some_iff.1 e
  obtain ⟨st, hr, pos, lt, hdr⟩ := warm_header hd alloc
  obtain ⟨start, curr⟩ := hdr.warm lt p
  have init : (started p (constructed p s r)).disk.avail.ptr = none := empty
  rw [run_organizeSteps (by exact new), started_firstDesc, init] at e
  obtain rfl := Option.some.inj e
  have file : (started p (constructed p s r)).disk.file SB_IDX =
      some (storeStart (p.addr SB_IDX) r.2 r.1) := by
    simp [started, constructed, State.modFile]
  refine ⟨rfl, _, file, by omega, ?_, by omega, fun sc h => if_pos h, fun sc h => ?_,
    fun i h => if_pos h, List.range' 1 WARM_SBS, ?_, List.nodup_range', fun d => ?_⟩
  · rw [start, ← hr]
    exact Function.update_self SB_IDX r.1 s.address
  · show (if sc < MAX_SZ_IDX then (⟨none, 0⟩ : PtrCnt) else _).ptr = none
    rw [if_pos h]
  · exact chained_isList 1 (WARM_SBS - 1) _
  · rw [start, curr]
    exact mem_warm

end construct

/-- `RP_init` region by region. -/
lemma rpInit_eq (q : Proc numSb) (d : Disk) :
    rpInit q d = (run q (regionSteps DESC_IDX true) (.new d)).bind fun s =>
      (run q (regionSteps SB_IDX false) s).bind fun s =>
        (run q (regionSteps META_IDX true) s).bind (run q constructorSteps) := by
  rw [rpInit, initSteps, run_append]
  congr 1
  funext s
  rw [run_append]
  congr 1
  funext s
  rw [run_append, constructorSteps]

section early

/-- The descriptors, if their file is there, have the right size; the superblocks, if their file is
there, have a header only; there is no `_basemd`. -/
structure HeadersOnly (numSb : ℕ) (d : Disk) : Prop where
  desc : ∀ f, d.file DESC_IDX = some f → load f 16 8 = DESC_IDX.filesize numSb
  sb : ∀ f, d.file SB_IDX = some f → Header f PAGESIZE 0 (SB_IDX.filesize numSb)
  base : d.file META_IDX = none

/-- Opening the region of the descriptors. -/
lemma HeadersOnly.run_desc (h : HeadersOnly numSb d) (pos : 0 < numSb) (q : Proc numSb) :
    ∃ s, run q (regionSteps DESC_IDX true) (.new d) = some s := by
  cases hf : d.file DESC_IDX with
  | none =>
    obtain ⟨-, -, s, e, -⟩ := run_region_new (p := q) (s := .new d) pos (by decide) hf
    exact ⟨s, e⟩
  | some f => exact ⟨_, run_region_old (s := .new d) hf (h.desc f hf) true⟩

/-- Opening the region of the superblocks. -/
lemma run_sb_headers (h : ∀ f, s.disk.file SB_IDX = some f →
    Header f PAGESIZE 0 (SB_IDX.filesize numSb))
    (q : Proc numSb) :
    ∃ s' f, run q (regionSteps SB_IDX false) s = some s' ∧ s'.disk.file SB_IDX = some f ∧
      Header f PAGESIZE 0 (SB_IDX.filesize numSb) := by
  cases hf : s.disk.file SB_IDX with
  | none =>
    refine ⟨_, _, run_region_sb hf, ?_, header_map q SB_IDX⟩
    simp [created]
  | some f =>
    have big := (filesize_bounds q SB_IDX).1
    have hd := (h f hf).remap (show 24 < SB_IDX.filesize numSb by omega)
    refine ⟨_, _, run_region_old hf (h f hf).size false, ?_, hd⟩
    simp [reopened]

/-- Opening all of them. -/
lemma HeadersOnly.open_regions (h : HeadersOnly numSb d) (pos : 0 < numSb) (q : Proc numSb) :
    ∃ s f, rpInit q d = run q constructorSteps s ∧ s.existed META_IDX = false ∧
      s.disk.file SB_IDX = some f ∧ Header f PAGESIZE 0 (SB_IDX.filesize numSb) ∧
      s.disk.avail.ptr = none := by
  obtain ⟨s₁, e₁⟩ := h.run_desc pos q
  have t₁ := run_touched (List.Subset.refl _) e₁
  have sb₁ : s₁.disk.file SB_IDX = d.file SB_IDX := t₁.file SB_IDX (by decide)
  obtain ⟨s₂, f, e₂, hf, hd⟩ := run_sb_headers (s := s₁) (fun f hf => h.sb f (sb₁ ▸ hf)) q
  have t₂ := run_touched (List.Subset.refl _) e₂
  have none₂ : s₂.disk.file META_IDX = none :=
    ((t₂.file META_IDX (by decide)).trans (t₁.file META_IDX (by decide))).trans h.base
  obtain ⟨-, -, s₃, e₃, new, avail, -⟩ := run_region_new (p := q) pos (by decide) none₂
  have t₃ := run_touched (List.Subset.refl _) e₃
  refine ⟨s₃, f, ?_, new, (t₃.file SB_IDX (by decide)).trans hf, hd, ?_⟩
  · rw [rpInit_eq, e₁, Option.bind_some, e₂, Option.bind_some, e₃, Option.bind_some]
  · rw [avail]
    rfl

/-- `RP_recover` in the process that has just made the heap. -/
lemma rpRecover_held (h : s.disk.mtx = .held q.pid) : rpRecover fuel q s = some s := by
  obtain ⟨⟨file, mtx, avail, part, scIdx, roots, desc⟩, existed, space, address⟩ := s
  cases h
  rfl

/-- Without `_basemd` the next process starts again. -/
lemma HeadersOnly.restarts_iff_fits (h : HeadersOnly numSb d) (pos : 0 < numSb) :
    Restarts q fuel d ↔ WarmFits q := by
  obtain ⟨s, f, e, new, hf, hd, empty⟩ := h.open_regions pos q
  rw [← exists_warm_iff hd]
  constructor
  · rintro ⟨s', -, -, e', -⟩
    rw [e, run_constructorSteps new hf] at e'
    obtain ⟨r, alloc, -⟩ := Option.bind_eq_some_iff.1 e'
    exact ⟨r, alloc⟩
  · rintro ⟨r, alloc⟩
    obtain ⟨s', e'⟩ : ∃ s', run q constructorSteps s = some s' := by
      rw [run_constructorSteps new hf, alloc, Option.bind_some, run_organizeSteps (by exact new)]
      exact ⟨_, rfl⟩
    obtain ⟨held, f', init⟩ := construct_initialised new hf hd empty e'
    exact ⟨s', s', f', e.trans e', rpRecover_held held, init⟩

end early

section bad

/-- A file of the descriptors whose size is not yet written. -/
lemma not_restarts_desc (hf : d.file DESC_IDX = some f) (size : load f 16 8 = 0) :
    ¬Restarts q fuel d := by
  rintro ⟨s, -, -, e, -⟩
  have big := (filesize_bounds q DESC_IDX).1
  rw [rpInit_eq, run_region_bad (s := .new d) hf (by omega) true] at e
  cases e

/-- A file of the superblocks whose size is not yet written. -/
lemma not_restarts_sb (hf : d.file SB_IDX = some f) (size : load f 16 8 = 0) :
    ¬Restarts q fuel d := by
  rintro ⟨s, -, -, e, -⟩
  have big := (filesize_bounds q SB_IDX).1
  rw [rpInit_eq] at e
  obtain ⟨s₁, e₁, e⟩ := Option.bind_eq_some_iff.1 e
  have t₁ := run_touched (List.Subset.refl _) e₁
  have sb₁ : s₁.disk.file SB_IDX = some f := (t₁.file SB_IDX (by decide)).trans hf
  rw [run_region_bad sb₁ (by omega) false] at e
  cases e

/-- A region whose file is there, if it can be opened. -/
lemma run_region_reopened {i : RegionIndex} {imm : Bool} (hf : s.disk.file i = some f)
    (e : run q (regionSteps i imm) s = some s') : s' = reopened q i f s := by
  by_cases size : load f 16 8 = i.filesize numSb
  · rw [run_region_old hf size] at e
    exact (Option.some.inj e).symm
  · rw [run_region_bad hf size] at e
    cases e

/-- The garbage collection does not write to the files' headers. -/
lemma gc_file (e : gc fuel q s = some s') : s'.disk.file = s.disk.file := by
  obtain ⟨f, -, e⟩ := Option.bind_eq_some_iff.1 e
  split at e
  · cases e
    rfl
  · cases e

/-- `RP_recover` leaves the files alone. -/
lemma rpRecover_file (e : rpRecover fuel q s = some s') : s'.disk.file = s.disk.file := by
  rw [rpRecover] at e
  generalize isDirty q.pid s.disk.mtx = r at e
  obtain ⟨dirty, m⟩ := r
  obtain ⟨s₁, e₁, e⟩ := Option.bind_eq_some_iff.1 e
  obtain ⟨m', -, rfl⟩ := Option.map_eq_some_iff.1 e
  cases dirty with
  | true =>
    rw [if_pos rfl] at e₁
    have kept := gc_file e₁
    exact kept
  | false =>
    cases e₁
    rfl

/-- With `_basemd` there the heap start is not set any more. -/
lemma not_restarts_base {g : Mem} (hg : d.file META_IDX = some g) (hf : d.file SB_IDX = some f)
    (unset : load f 8 8 = 0) : ¬Restarts q fuel d := by
  rintro ⟨s, s', f', e, rec, init⟩
  rw [rpInit_eq] at e
  obtain ⟨s₁, e₁, e⟩ := Option.bind_eq_some_iff.1 e
  obtain ⟨s₂, e₂, e⟩ := Option.bind_eq_some_iff.1 e
  obtain ⟨s₃, e₃, e⟩ := Option.bind_eq_some_iff.1 e
  have t₁ := run_touched (List.Subset.refl _) e₁
  have t₂ := run_touched (List.Subset.refl _) e₂
  have t₃ := run_touched (List.Subset.refl _) e₃
  have sb₁ : s₁.disk.file SB_IDX = some f := (t₁.file SB_IDX (by decide)).trans hf
  have base₂ : s₂.disk.file META_IDX = some g :=
    ((t₂.file META_IDX (by decide)).trans (t₁.file META_IDX (by decide))).trans hg
  have old : s₃.existed META_IDX = true := by
    rw [run_region_reopened base₂ e₃]
    simp [reopened]
  rw [run_skip (List.Subset.refl _) old] at e
  have sb : s'.disk.file SB_IDX = some (remapPersistentRegion (SB_IDX.filesize numSb) f) := by
    rw [rpRecover_file rec, ← Option.some.inj e, t₃.file SB_IDX (by decide),
      run_region_reopened sb₁ e₂]
    simp [reopened]
  cases init.file.symm.trans sb
  obtain ⟨big, bound⟩ := filesize_bounds q SB_IDX
  have set := init.set
  rw [fetchStart, load_remap (by omega), unset, fetchHeapStart] at set
  unfold WORD at set
  omega

end bad

section late

/-- The sweep when nothing is marked, in the middle: it puts every superblock on `avail_sb`. -/
lemma sweepLoopFrom_unmarked (start fuel k : ℕ) :
    ∀ {h : Heap} {j n : ℕ} {av : Option ℕ} {D : List ℕ}, k < n →
      IsList (fun d => (h.desc d).nextFree) av D → (∀ d ∈ D, d < j) →
    ∃ w, sweepLoopFrom start fuel (start + (j + k) * SBSIZE) n
        ⟨h, start + j * SBSIZE, j, [], av⟩ = .done w ∧ w.marks = [] ∧ w.heap.head = h.head ∧
      IsList (fun d => (w.heap.desc d).nextFree) w.avail ((List.range' j k).reverse ++ D) := by
  induction k with
  | zero =>
    intro h j n av D hn list below
    obtain ⟨n, rfl⟩ := Nat.exists_eq_succ_of_ne_zero (by omega : n ≠ 0)
    refine ⟨⟨h, start + j * SBSIZE, j, [], av⟩, ?_, rfl, rfl, list⟩
    rw [sweepLoopFrom, if_neg (by rw [Nat.add_zero]; exact lt_irrefl _)]
  | succ k ih =>
    intro h j n av D hn list below
    obtain ⟨n, rfl⟩ := Nat.exists_eq_succ_of_ne_zero (by omega : n ≠ 0)
    have turn : sweepTurnFrom start fuel ⟨h, start + j * SBSIZE, j, [], av⟩ =
        .done ⟨h.setDesc j { Descriptor.reset with nextFree := av }, start +
        (j + 1) * SBSIZE, j + 1, [],
          some j⟩ := by
      rw [sweepTurnFrom, Nat.succ_mul, ← Nat.add_assoc]
      rfl
    have list' : IsList (fun d =>
        ((h.setDesc j { Descriptor.reset with nextFree := av }).desc d).nextFree)
        (some j) (j :: D) := by
      refine ⟨rfl, ?_⟩
      simp only [Heap.desc_setDesc_self]
      refine list.congr fun d hd => ?_
      simp only [Heap.desc_setDesc_ne (below d hd).ne]
    have below' : ∀ d ∈ j :: D, d < j + 1 := by
      intro d hd
      rcases List.mem_cons.1 hd with rfl | hd
      · omega
      · exact (below d hd).trans (by omega)
    obtain ⟨w, e, marks, head, res⟩ := ih (n := n) (by omega) list' below'
    refine ⟨w, ?_, marks, head, ?_⟩
    · rw [sweepLoopFrom, if_pos, turn, Outcome.bind_done, show j + (k + 1) = j + 1 + k by omega, e]
      rw [SBSIZE_eq]
      show start + j * 65536 < _
      omega
    · rw [List.range'_succ, List.reverse_cons, List.append_assoc]
      exact res

/-- A garbage collection when all roots are null. -/
lemma collectFrom_unmarked (start : ℕ) {k : ℕ} {h : Heap}
    (curr : h.currAddr = start + (k + 1) * SBSIZE) (roots : ∀ i < MAX_ROOTS, h.roots i = 0)
    (enough : (k + 1) * SBSIZE < fuel) :
    ∃ w D, collectFrom start fuel h = .done (∅, w) ∧ (∀ sc, (w.heap.head (.part sc)).ptr = none) ∧
      IsList (fun d => (w.heap.desc d).nextFree) (w.heap.head .avail).ptr D ∧ D.Nodup ∧
      ∀ d, d ∈ D ↔ d ∈ List.range' 1 k := by
  have closed : Mark.Closed start (clearLists h) ∅ := by
    exact ⟨fun i hi ne => absurd (roots i hi) ne, fun a ha => absurd ha (Set.notMem_empty a)⟩
  obtain ⟨m, e, -, least⟩ := Mark.conservative_isLeast (.refl _)
    (show (clearLists h).currAddr - start < fuel by
      rw [show (clearLists h).currAddr = _ from curr]
      omega)
  have unmarked : m.markedBlk = ∅ :=
    Finset.coe_eq_empty.1 (Set.subset_empty_iff.1 (least.2 closed))
  have small : k < fuel := by
    rw [SBSIZE_eq] at enough
    omega
  have nil : IsList (fun d => ((clearLists h).desc d).nextFree) none [] := isList_nil.2 rfl
  obtain ⟨w, e', marks, head, list⟩ := sweepLoopFrom_unmarked start fuel k (j := 1) small nil
    (fun d hd => absurd hd List.not_mem_nil)
  rw [List.append_nil] at list
  refine ⟨{ w with heap := w.heap.setHead .avail ⟨w.avail, 0⟩ }, _, ?_, fun sc => ?_, list,
    List.nodup_reverse.2 List.nodup_range', fun d => List.mem_reverse⟩
  · rw [collectFrom, collectWith, e, Outcome.bind_done, unmarked, Finset.sort_empty, sweepFrom,
      sbIndex_one, curr, Nat.add_comm k 1]
    rw [Nat.one_mul] at e'
    rw [e', Outcome.bind_done, if_pos marks, Outcome.bind_done]
  · show (w.heap.head (.part sc)).ptr = none
    rw [head]
    rfl

/-- What is on disk when the heap start is stored and the process has died. -/
structure Constructed (numSb : ℕ) (d : Disk) : Prop where
  desc : ∃ f, d.file DESC_IDX = some f ∧ load f 16 8 = DESC_IDX.filesize numSb
  sb : ∃ f st, d.file SB_IDX = some f ∧ 0 < st ∧ st < 2 ^ 20 ∧
    Header f (st + SB_REGION_EXPAND_SIZE) st (SB_IDX.filesize numSb)
  base : ∃ f, d.file META_IDX = some f ∧ load f 16 8 = META_IDX.filesize numSb
  mtx : d.mtx = .orphaned
  scIdx : ∀ sc < MAX_SZ_IDX, d.scIdx sc = sc
  roots : ∀ i < MAX_ROOTS, d.roots i = 0

/-- Opening its regions. -/
lemma Constructed.rpInit (h : Constructed numSb d) (q : Proc numSb) :
    ∃ s f st, rpInit q d = some s ∧ s.disk.file SB_IDX = some f ∧ 0 < st ∧ st < 2 ^ 20 ∧
      Header f (st + SB_REGION_EXPAND_SIZE) st (SB_IDX.filesize numSb) ∧
      s.address SB_IDX = fetchStart (q.addr SB_IDX) f ∧ s.disk.mtx = .orphaned ∧
      s.disk.scIdx = d.scIdx ∧ s.disk.roots = d.roots := by
  obtain ⟨f₁, hf₁, size₁⟩ := h.desc
  obtain ⟨f₂, st, hf₂, pos, lt, hd⟩ := h.sb
  obtain ⟨f₃, hf₃, size₃⟩ := h.base
  have big := (filesize_bounds q SB_IDX).1
  have e₁ := run_region_old (p := q) (s := .new d) hf₁ size₁ true
  have e₂ : run q (regionSteps SB_IDX false) (reopened q DESC_IDX f₁ (.new d)) = _ :=
    run_region_old (by simp [reopened, State.new, hf₂]) hd.size false
  have e₃ : run q (regionSteps META_IDX true)
      (reopened q SB_IDX f₂ (reopened q DESC_IDX f₁ (.new d))) = _ :=
    run_region_old (by simp [reopened, State.new, hf₃]) size₃ true
  have hd' := hd.remap (show 24 < SB_IDX.filesize numSb by omega)
  refine ⟨reopened q META_IDX f₃ (reopened q SB_IDX f₂ (reopened q DESC_IDX f₁ (.new d))), _, st,
    ?_, ?_, pos, lt, hd', ?_, h.mtx, rfl, rfl⟩
  · rw [rpInit_eq, e₁, Option.bind_some, e₂, Option.bind_some, e₃, Option.bind_some]
    exact run_skip (List.Subset.refl _) (by simp [reopened])
  · simp [reopened]
  · rw [(hd'.warm lt q).1, ← (hd.warm lt q).1]
    simp [reopened]

/-- The state after a garbage collection. -/
def swept (s : State) (w : Sweep) : State :=
  { s with
    disk.avail := w.heap.head .avail
    disk.part := fun sc => w.heap.head (.part sc)
    disk.desc := w.heap.desc }

/-- `RP_recover` after a crash. -/
lemma rpRecover_orphaned {M : Finset ℕ} {w : Sweep} (mtx : s.disk.mtx = .orphaned)
    (hf : s.disk.file SB_IDX = some f)
    (e : collectFrom (s.address SB_IDX) fuel (heapOf q { s with disk.mtx := .held q.pid } f) =
      .done (M, w)) :
    rpRecover fuel q s = some (swept { s with disk.mtx := .held q.pid } w) := by
  have dirty : isDirty q.pid s.disk.mtx = (true, .held q.pid) := by
    rw [mtx]
    rfl
  have collected : gc fuel q { s with disk.mtx := .held q.pid } =
      some (swept { s with disk.mtx := .held q.pid } w) := by
    simp only [gc, hf, Option.bind_some, e, swept]
  rw [rpRecover, dirty]
  simp only [if_true, collected, Option.bind_some]
  rfl

/-- The next process collects garbage, which makes the list again. -/
lemma Constructed.restarts (h : Constructed numSb d) (enough : SB_REGION_EXPAND_SIZE < fuel) :
    Restarts q fuel d := by
  obtain ⟨s, f, st, e, hf, pos, lt, hd, address, mtx, scIdx, roots⟩ := h.rpInit q
  obtain ⟨start, curr⟩ := hd.warm lt q
  have size : (WARM_SBS + 1) * SBSIZE = SB_REGION_EXPAND_SIZE := rfl
  have top : (heapOf q { s with disk.mtx := .held q.pid } f).currAddr =
      s.address SB_IDX + (WARM_SBS + 1) * SBSIZE := by
    rw [size, address, start]
    exact curr
  obtain ⟨w, D, ew, part, list, nodup, mem⟩ := collectFrom_unmarked (s.address SB_IDX) top
    (fun i hi => (congrFun roots i).trans (h.roots i hi)) (size ▸ enough)
  refine ⟨s, _, f, e, rpRecover_orphaned mtx hf ew, hf, by omega, address, by omega,
    fun sc hsc => (congrFun scIdx sc).trans (h.scIdx sc hsc), fun sc _ => part sc,
    fun i hi => (congrFun roots i).trans (h.roots i hi), D, list, nodup, fun d => ?_⟩
  rw [mem, start, curr]
  exact mem_warm

end late

section crash

variable {n : ℕ}

/-- A process that dies after `n` steps dies in one part or the other. -/
lemma run_take (p : Proc numSb) (as bs : List Step) (n : ℕ) (s : State) :
    run p ((as ++ bs).take n) s =
      (run p (as.take n) s).bind (run p (bs.take (n - as.length))) := by
  rw [List.take_append, run_append]

/-- The states between the regions in an interrupted first `RP_init`. -/
lemma exists_stages (e : run p (initSteps.take n) (.new .none) = some s) :
    ∃ s₁ s₂ s₃, run p ((regionSteps DESC_IDX true).take n) (.new .none) = some s₁ ∧
      run p ((regionSteps SB_IDX false).take (n - 8)) s₁ = some s₂ ∧
      run p ((regionSteps META_IDX true).take (n - 14)) s₂ = some s₃ ∧
      run p (constructorSteps.take (n - 22)) s₃ = some s := by
  rw [initSteps, run_take] at e
  obtain ⟨s₁, e₁, e⟩ := Option.bind_eq_some_iff.1 e
  rw [run_take] at e
  obtain ⟨s₂, e₂, e⟩ := Option.bind_eq_some_iff.1 e
  rw [run_take] at e
  obtain ⟨s₃, e₃, e⟩ := Option.bind_eq_some_iff.1 e
  rw [Nat.sub_sub] at e₃ e
  rw [Nat.sub_sub] at e
  exact ⟨s₁, s₂, s₃, e₁, e₂, e₃, e⟩

/-- A crash before `_basemd` is created. -/
lemma crash_early (pos : 0 < numSb) (hn : n < 16)
    (e : run p (initSteps.take n) (.new .none) = some s) :
    Restarts q fuel (s.disk.die p.pid) ↔
      ¬(2 ≤ n ∧ n < 5) ∧ ¬(10 ≤ n ∧ n < 13) ∧ WarmFits q := by
  obtain ⟨s₁, s₂, s₃, e₁, e₂, e₃, e⟩ := exists_stages e
  have m₁ := partlyMade (s := .new .none) rfl e₁
  have none₁ : ∀ j, j ≠ DESC_IDX → s₁.disk.file j = none := fun j ne => m₁.touched.file j ne
  have m₂ := partlyMade (none₁ SB_IDX (by decide)) e₂
  have none₂ : s₂.disk.file META_IDX = none :=
    (m₂.touched.file META_IDX (by decide)).trans (none₁ META_IDX (by decide))
  have m₃ := partlyMade none₂ e₃
  have disk : s.disk = s₂.disk := by
    rw [show n - 22 = 0 by omega, List.take_zero] at e
    cases e
    exact m₃.none (by omega)
  rw [disk]
  -- what is left to show when there are only headers
  have again : HeadersOnly numSb (s₂.disk.die p.pid) → ¬(2 ≤ n ∧ n < 5) → ¬(10 ≤ n ∧ n < 13) →
      (Restarts q fuel (s₂.disk.die p.pid) ↔ ¬(2 ≤ n ∧ n < 5) ∧ ¬(10 ≤ n ∧ n < 13) ∧ WarmFits q) :=
    fun h h1 h2 => (h.restarts_iff_fits pos).trans ⟨fun w => ⟨h1, h2, w⟩, fun h => h.2.2⟩
  have desc₂ : s₂.disk.file DESC_IDX = s₁.disk.file DESC_IDX := m₂.touched.file DESC_IDX (by decide)
  by_cases h2 : n < 2
  · refine again ⟨fun f hf => ?_, fun f hf => ?_, none₂⟩ (by omega) (by omega)
    · have file : s₂.disk.file DESC_IDX = none := by
        rw [desc₂, m₁.none h2]
        rfl
      exact absurd (file.symm.trans hf) (by simp)
    · have file : s₂.disk.file SB_IDX = none := by
        rw [m₂.none (by omega)]
        exact none₁ SB_IDX (by decide)
      exact absurd (file.symm.trans hf) (by simp)
  obtain ⟨f₁, hf₁, zero₁, size₁⟩ := m₁.some (by omega)
  by_cases h5 : n < 5
  · exact iff_of_false (not_restarts_desc (desc₂.trans hf₁) (zero₁ h5)) fun h => h.1 ⟨by omega, h5⟩
  have desc : ∀ f, s₂.disk.file DESC_IDX = some f → load f 16 8 = DESC_IDX.filesize numSb := by
    intro f hf
    rw [desc₂, hf₁] at hf
    cases hf
    exact size₁ (by omega)
  by_cases h10 : n < 10
  · refine again ⟨desc, fun f hf => ?_, none₂⟩ (by omega) (by omega)
    have file : s₂.disk.file SB_IDX = none := by
      rw [m₂.none (by omega)]
      exact none₁ SB_IDX (by decide)
    exact absurd (file.symm.trans hf) (by simp)
  by_cases h13 : n < 13
  · obtain ⟨f₂, hf₂, zero₂, -⟩ := m₂.some (by omega)
    exact iff_of_false (not_restarts_sb hf₂ (zero₂ (by omega))) fun h => h.2.1 ⟨by omega, h13⟩
  · obtain ⟨f₂, hf₂, hd⟩ := sb_header (by omega) (none₁ SB_IDX (by decide)) e₂
    refine again ⟨desc, fun f hf => ?_, none₂⟩ (by omega) (by omega)
    cases hf₂.symm.trans hf
    exact hd

/-- How many steps the first part of the constructor takes. -/
lemma metaSteps_length : metaSteps.length = 1107 := by decide +kernel

/-- A crash after `_basemd` was created and before the heap start of the superblocks is stored. -/
lemma crash_unset (h16 : 16 ≤ n) (hn : n < 1130)
    (e : run p (initSteps.take n) (.new .none) = some s) : ¬Restarts q fuel (s.disk.die p.pid) := by
  obtain ⟨s₁, s₂, s₃, e₁, e₂, e₃, e⟩ := exists_stages e
  have t₁ := run_touched (List.take_subset ..) e₁
  have t₂ := run_touched (List.take_subset ..) e₂
  have t₃ := run_touched (List.take_subset ..) e₃
  obtain ⟨f₂, hf₂, hd⟩ := sb_header (by omega) (t₁.file SB_IDX (by decide)) e₂
  have none₂ : s₂.disk.file META_IDX = none :=
    (t₂.file META_IDX (by decide)).trans (t₁.file META_IDX (by decide))
  obtain ⟨f₃, hf₃, -⟩ := (partlyMade none₂ e₃).some (by omega)
  rw [constructorSteps, List.take_append_of_le_length (by rw [metaSteps_length]; omega)] at e
  have kept := run_startKept (List.take_subset ..) e
  obtain ⟨f, hf, start⟩ := kept.sb f₂ ((t₃.file SB_IDX (by decide)).trans hf₂)
  exact not_restarts_base ((kept.file META_IDX (by decide)).trans hf₃) hf (start.trans hd.start)

/-- A crash after that. -/
lemma crash_late (pos : 0 < numSb) (enough : SB_REGION_EXPAND_SIZE < fuel) (hn : 1130 ≤ n)
    (e : run p (initSteps.take n) (.new .none) = some s) : Restarts q fuel (s.disk.die p.pid) := by
  obtain ⟨s₁, s₂, s₃, e₁, e₂, e₃, e⟩ := exists_stages e
  have t₁ := run_touched (List.take_subset ..) e₁
  have t₂ := run_touched (List.take_subset ..) e₂
  have t₃ := run_touched (List.take_subset ..) e₃
  obtain ⟨f₁, hf₁, -, size₁⟩ := (partlyMade (s := .new .none) rfl e₁).some (by omega)
  obtain ⟨f₂, hf₂, hd⟩ := sb_header (by omega) (t₁.file SB_IDX (by decide)) e₂
  have none₂ : s₂.disk.file META_IDX = none :=
    (t₂.file META_IDX (by decide)).trans (t₁.file META_IDX (by decide))
  obtain ⟨f₃, hf₃, -, size₃⟩ := (partlyMade none₂ e₃).some (by omega)
  have new : s₃.existed META_IDX = false := by
    obtain ⟨-, -, s₃', e₃', new, -⟩ := run_region_new (p := p) pos (by decide) none₂
    rw [List.take_of_length_le (by show 8 ≤ _; omega)] at e₃
    cases e₃.symm.trans e₃'
    exact new
  have sb₃ : s₃.disk.file SB_IDX = some f₂ := (t₃.file SB_IDX (by decide)).trans hf₂
  obtain ⟨k, hk⟩ : ∃ k, n - 22 = metaSteps.length + (k + 1) :=
    ⟨n - 1130, by rw [metaSteps_length]; omega⟩
  rw [hk, constructorSteps, List.take_length_add_append, List.take_succ_cons, run_append,
    run_metaSteps new sb₃] at e
  obtain ⟨s₄, e₄, e⟩ := Option.bind_eq_some_iff.1 e
  obtain ⟨r, alloc, rfl⟩ := Option.map_eq_some_iff.1 e₄
  rw [run, exec_storeSbStart (by exact new), Option.bind_some] at e
  have kept := run_baseKept (List.take_subset ..) e
  obtain ⟨st, hr, stpos, lt, hdr⟩ := warm_header hd alloc
  have other : ∀ j, j ≠ SB_IDX → s.disk.file j = s₃.disk.file j := by
    intro j ne
    rw [kept.file]
    simp [started, constructed, State.modFile, ne]
  refine Constructed.restarts ⟨⟨f₁, ?_, size₁ (by omega)⟩, ⟨_, st, ?_, stpos, lt, hdr⟩,
    ⟨f₃, (other META_IDX (by decide)).trans hf₃, size₃ (by omega)⟩, ?_, fun sc h => ?_,
    fun i h => ?_⟩
    enough
  · exact (other DESC_IDX (by decide)).trans ((t₃.file DESC_IDX (by decide)).trans
      ((t₂.file DESC_IDX (by decide)).trans hf₁))
  · show s.disk.file SB_IDX = _
    rw [kept.file]
    simp [started, constructed, State.modFile]
  · show s.disk.mtx.die p.pid = .orphaned
    rw [kept.mtx]
    exact Mutex.die_held
  · show s.disk.scIdx sc = sc
    rw [kept.scIdx]
    exact if_pos h
  · show s.disk.roots i = 0
    rw [kept.roots]
    exact if_pos h

/-- A crash anywhere. -/
lemma crash_iff (pos : 0 < numSb) (enough : SB_REGION_EXPAND_SIZE < fuel)
    (e : run p (initSteps.take n) (.new .none) = some s) :
    Restarts q fuel (s.disk.die p.pid) ↔ ¬(2 ≤ n ∧ n < 5) ∧ ¬(10 ≤ n ∧ n < 13) ∧
      ¬(16 ≤ n ∧ n < 1130) ∧ (n < 16 → WarmFits q) := by
  by_cases h16 : n < 16
  · rw [crash_early pos h16 e]
    exact and_congr_right fun _ => and_congr_right fun _ =>
      ⟨fun w => ⟨by omega, fun _ => w⟩, fun h => h.2 h16⟩
  by_cases h : n < 1130
  · exact iff_of_false (crash_unset (by omega) h e) fun c => c.2.2.1 ⟨by omega, h⟩
  · exact iff_of_true (crash_late pos enough (by omega) e)
      ⟨by omega, by omega, by omega, fun lt => absurd lt h16⟩

/-- Where a step stands. -/
lemma mem_take_iff {a : Step} (k : ℕ) (mem : a ∈ initSteps) (idx : initSteps.idxOf a = k) :
    a ∈ initSteps.take n ↔ k < n := by
  rw [List.mem_take_iff_idxOf_lt mem, idx]

end crash

/-- The first initialisation of a heap survives a crash exactly when every file that was created has
its size in the header, the heap start of the superblocks is stored if `_basemd` was created, and
otherwise the first superblocks fit where the next process maps them. -/
theorem restarts_iff {n : ℕ} (pos : 0 < numSb) (enough : SB_REGION_EXPAND_SIZE < fuel)
    (crash : run p (initSteps.take n) (.new .none) = some s) :
    Restarts q fuel (s.disk.die p.pid) ↔
      (.openFile DESC_IDX ∈ initSteps.take n → .storeSize DESC_IDX ∈ initSteps.take n) ∧
      (.openFile SB_IDX ∈ initSteps.take n → .storeSize SB_IDX ∈ initSteps.take n) ∧
      (.openFile META_IDX ∈ initSteps.take n → .storeSbStart ∈ initSteps.take n) ∧
      (.openFile META_IDX ∉ initSteps.take n → WarmFits q) := by
  rw [crash_iff pos enough crash, mem_take_iff 1 (by decide +kernel) (by decide +kernel),
    mem_take_iff 4 (by decide +kernel) (by decide +kernel),
    mem_take_iff 9 (by decide +kernel) (by decide +kernel),
    mem_take_iff 12 (by decide +kernel) (by decide +kernel),
    mem_take_iff 15 (by decide +kernel) (by decide +kernel),
    mem_take_iff 1129 (by decide +kernel) (by decide +kernel), not_lt]
  refine and_congr ?_ (and_congr ?_ (and_congr ?_ ?_))
  · omega
  · omega
  · omega
  · rw [Nat.lt_succ_iff]

/-- No files at all. -/
lemma headersOnly_none (numSb : ℕ) : HeadersOnly numSb .none :=
  ⟨fun f hf => absurd hf (by simp [Disk.none]), fun f hf => absurd hf (by simp [Disk.none]), rfl⟩

/-- Without files `RP_init` succeeds exactly when the first superblocks fit. -/
lemma exists_rpInit_iff (pos : 0 < numSb) : (∃ s, rpInit p .none = some s) ↔ WarmFits p := by
  have headers := headersOnly_none numSb
  constructor
  · rintro ⟨s, e⟩
    obtain ⟨s₀, f, e₀, new, hf, hd, -⟩ := headers.open_regions pos p
    rw [e₀, run_constructorSteps new hf] at e
    obtain ⟨r, alloc, -⟩ := Option.bind_eq_some_iff.1 e
    exact (exists_warm_iff hd).1 ⟨r, alloc⟩
  · intro fits
    have restarts : Restarts p 0 .none := (headers.restarts_iff_fits pos).2 fits
    obtain ⟨s, -, -, e, -⟩ := restarts
    exact ⟨s, e⟩

/-- The prefixes of a first `RP_init`. -/
lemma exists_run_take (pos : 0 < numSb) (fits : WarmFits p) (n : ℕ) :
    ∃ s, run p (initSteps.take n) (.new .none) = some s := by
  obtain ⟨s, e⟩ := (exists_rpInit_iff pos).2 fits
  rw [rpInit, ← List.take_append_drop n initSteps, run_append] at e
  obtain ⟨s', e', -⟩ := Option.bind_eq_some_iff.1 e
  exact ⟨s', e'⟩

/-- A heap that is a superblock larger than the smallest one, with its files far apart. -/
def roomy (pid : ℕ) : Proc 16385 where
  pid := pid
  addr
    | DESC_IDX => 2 ^ 40
    | SB_IDX => 2 ^ 41
    | META_IDX => 2 ^ 42
  page i := by cases i <;> decide
  bound i := by cases i <;> decide

/-- The warm-up expansion fits into the sample. -/
lemma roomy_fits (pid : ℕ) : WarmFits (roomy pid) := by
  show alignUp (2 ^ 41 + PAGESIZE) SBSIZE + SB_REGION_EXPAND_SIZE ≤ 2 ^ 41 + SB_IDX.filesize 16385
  decide

/-- The process dies when it has written the header of the superblock region, and the next one
starts again. -/
theorem restarts_roomy : ∃ s, run (roomy 1) (initSteps.take 13) (.new .none) = some s ∧
    (Restarts (roomy 2) (2 ^ 31) (s.disk.die 1) ↔
      (.openFile DESC_IDX ∈ initSteps.take 13 → .storeSize DESC_IDX ∈ initSteps.take 13) ∧
      (.openFile SB_IDX ∈ initSteps.take 13 → .storeSize SB_IDX ∈ initSteps.take 13) ∧
      (.openFile META_IDX ∈ initSteps.take 13 → .storeSbStart ∈ initSteps.take 13) ∧
      (.openFile META_IDX ∉ initSteps.take 13 → WarmFits (roomy 2))) := by
  obtain ⟨s, e⟩ := exists_run_take (by decide) (roomy_fits 1) 13
  exact ⟨s, e, restarts_iff (by decide) (by decide) e⟩

/-- The process dies in the constructor of `BaseMeta`, while it clears the roots: no later process
finds an initialised heap. -/
theorem constructor_crash : ∃ s, run (roomy 1) (initSteps.take 1000) (.new .none) = some s ∧
    ∀ fuel, ¬Restarts (roomy 2) fuel (s.disk.die 1) := by
  obtain ⟨s, e⟩ := exists_run_take (by decide) (roomy_fits 1) 1000
  exact ⟨s, e, fun fuel => crash_unset (by decide) (by decide) e⟩

/-- The first superblocks fit if there is one more superblock than they are, or if the file is
mapped at most two pages below a multiple of `SBSIZE`. -/
lemma warmFits_iff (lo : EXPAND_SBS ≤ numSb) :
    WarmFits p ↔ EXPAND_SBS < numSb ∨ SBSIZE - 2 * PAGESIZE ≤ p.addr SB_IDX % SBSIZE := by
  have page := p.page SB_IDX
  have size : SB_IDX.filesize numSb = numSb * 65536 + 8192 := by
    show (numSb * SBSIZE / PAGESIZE + 2) * PAGESIZE = _
    rw [SBSIZE_eq]
    unfold PAGESIZE
    omega
  have e1 : EXPAND_SBS = 16384 := rfl
  have e2 : SB_REGION_EXPAND_SIZE = 16384 * 65536 := rfl
  rw [WarmFits, size, alignUp_eq (by decide), e1, e2, SBSIZE_eq]
  rw [e1] at lo
  unfold PAGESIZE at page ⊢
  split <;> omega

/-- The first `RP_init` succeeds exactly when the size is one superblock above the smallest one, or
the file of the superblocks is mapped at most two pages below a multiple of `SBSIZE`. -/
theorem rpInit_succeeds_iff {size : ℕ} (num : numSb = size / SBSIZE)
    (lo : MIN_SB_REGION_SIZE ≤ size) (p : Proc numSb) :
    (∃ s, rpInit p .none = some s) ↔
      SB_REGION_EXPAND_SIZE + SBSIZE ≤ size ∨ SBSIZE - 2 * PAGESIZE ≤ p.addr SB_IDX % SBSIZE := by
  have e1 : MIN_SB_REGION_SIZE = 16384 * 65536 := rfl
  have e2 : SB_REGION_EXPAND_SIZE = 16384 * 65536 := rfl
  have e3 : EXPAND_SBS = 16384 := rfl
  have many : EXPAND_SBS ≤ numSb := by
    rw [num, e3, SBSIZE_eq]
    omega
  have more : EXPAND_SBS < numSb ↔ SB_REGION_EXPAND_SIZE + SBSIZE ≤ size := by
    rw [num, e2, e3, SBSIZE_eq]
    omega
  rw [exists_rpInit_iff (lt_of_lt_of_le (by decide) many), warmFits_iff many, more]

/-- A size of one superblock more, at any page. -/
theorem rpInit_succeeds_roomy : (∃ s, rpInit (roomy 1) .none = some s) ↔
    SB_REGION_EXPAND_SIZE + SBSIZE ≤ 16385 * 65536 ∨
      SBSIZE - 2 * PAGESIZE ≤ (roomy 1).addr SB_IDX % SBSIZE :=
  rpInit_succeeds_iff (show 16385 = 16385 * 65536 / SBSIZE by decide) (by decide) (roomy 1)

/-- A heap of the smallest size whose superblock file is mapped at a multiple of `SBSIZE`. -/
def smallest : Proc 16384 where
  pid := 1
  addr
    | DESC_IDX => 2 ^ 40
    | SB_IDX => 2 ^ 41
    | META_IDX => 2 ^ 42
  page i := by cases i <;> decide
  bound i := by cases i <;> decide

/-- The assertion on the first expansion fails. -/
theorem smallest_fails : 16384 = MIN_SB_REGION_SIZE / SBSIZE ∧ ∀ s, rpInit smallest .none ≠
    some s := by
  refine ⟨by decide, fun s e => ?_⟩
  have fits : WarmFits smallest := (exists_rpInit_iff (by decide)).1 ⟨s, e⟩
  rw [warmFits_iff (by decide)] at fits
  exact absurd fits (by decide)

end Init

end Ralloc
