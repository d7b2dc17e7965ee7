import Ralloc.Machine.Conservation
import Ralloc.Mapping.Files

/-!
# Position independence

`Heap.view` is the state of a heap in terms that have nothing to do with addresses. `view_moved`: if
the heap satisfies the invariant of the machine, the program finds this state in its files wherever
they are mapped. The heads and cross pointers are offsets, so they only need that the offsets fit
their words. The links are distances, so they need that both ends are in the same file; that is
where the invariant comes in, because only the first `anchor.count` links of a free list mean
anything.
-/

namespace Ralloc

open Lib SuperblockState RegionIndex

/-- The descriptors on a list of a heap from `o` on. -/
def Heap.listFrom (h : Heap) (l : ListId) : ℕ → Option ℕ → List ℕ
  | n + 1, some d => d :: h.listFrom l n ((h.desc d).next l)
  | _, _ => []

/-- How many superblocks a heap has below `curr_addr`. -/
def Heap.sbCount (cfg : Cfg) (h : Heap) : ℕ := (h.currAddr - cfg.heapStart) / SBSIZE

/-- The number of the superblock that a descriptor names. The first superblock cannot be named: its
`CrossPtr` is the null pointer. -/
def Cfg.sbNumber (cfg : Cfg) (superblock : Option ℕ) : Option ℕ :=
  if superblockWord cfg.heapStart superblock = 0 then none
  else some (superblockWord cfg.heapStart superblock / SBSIZE)

/-- The state of a heap without addresses. -/
def Heap.view (cfg : Cfg) (numSb : ℕ) (h : Heap) : View where
  avail := (h.listFrom .avail (h.sbCount cfg) (h.head .avail).ptr, (h.head .avail).cnt)
  part sc := (h.listFrom (.part sc) (h.sbCount cfg) (h.head (.part sc)).ptr,
    (h.head (.part sc)).cnt)
  used d :=
    if d < h.sbCount cfg then
      (h.desc d).heap.map fun sc => (cfg.sbNumber (h.desc d).superblock, sc)
    else none
  free d :=
    if d < h.sbCount cfg ∧ (h.desc d).heap.any (· ≠ 0) then
      ((freeBlocks h d).take (h.desc d).anchor.count).map fun b =>
        (b - (h.desc d).superblock.getD 0) / (h.desc d).blockSize
    else []
  start := startOff cfg
  curr := currOff cfg numSb h

variable {cfg : Cfg} {numSb d : ℕ} {F : Files} {B B' : Bases} {h : Heap} {L : Ledger} {s : State}

/-- A list of the heap is read off its links. -/
lemma Heap.listFrom_eq {l : ListId} {D : List ℕ} {o : Option ℕ}
    (hD : IsList (fun d => (h.desc d).next l) o D) {n : ℕ} (hn : D.length ≤ n) :
    h.listFrom l n o = D := by
  induction D generalizing o n with
  | nil =>
    obtain rfl : o = none := hD
    cases n <;> rfl
  | cons d D ih =>
    obtain ⟨rfl, hD⟩ := hD
    cases n with
    | zero => cases hn
    | succ n => rw [Heap.listFrom, ih hD (by simpa using hn)]

/-- The number of superblocks is the one of the ledger. -/
lemma Rep.sbCount_eq (rep : Rep cfg h L) : h.sbCount cfg = L.n := by
  rw [Heap.sbCount, rep.curr, Cfg.sb, Nat.add_sub_cancel_left]
  exact Nat.mul_div_cancel _ (by decide)

/-- A list has at most as many descriptors as there are superblocks. -/
lemma Ledger.Ok.length_listed_le (ok : L.Ok cfg) (l : ListId) :
    (L.sbs.items l.role).length ≤ L.n := by
  have sub := List.subperm_of_subset (ok.sbs _ l.role_tracked).nodup
    fun d hd => List.mem_range.2 (ok.listed_lt hd).2
  have le := sub.length_le
  rwa [List.length_range] at le

namespace Holds

variable (H : Holds cfg numSb F B h)
include H

/-- The superblocks have descriptors. -/
lemma le_numSb (ok : L.Ok cfg) : L.n ≤ numSb := ok.le_numSb H.size

/-- Where the heap of a region starts. -/
lemma startOf_eq (B' : Bases) (i : RegionIndex) :
    startOf F B' i = (B' i).addr + startOff cfg i := by
  have lt := (B' i).lt
  have hoff : startOff cfg i < ADDR := by
    have h1 := cfg.warm
    have h2 := cfg.bound
    have h3 : 0 < SB_REGION_EXPAND_SIZE := by decide
    cases i with
    | SB_IDX => show cfg.heapStart - cfg.base < ADDR; omega
    | DESC_IDX => exact show PAGESIZE < ADDR by decide
    | META_IDX => exact show PAGESIZE < ADDR by decide
  rw [startOf, readAt, Nat.add_sub_cancel_left, H.start, fetchHeapStart]
  unfold ADDR at lt hoff
  unfold WORD
  omega

/-- Where its space ends. -/
lemma currOf_eq (B' : Bases) (rep : Rep cfg h L) (ok : L.Ok cfg) (i : RegionIndex) :
    currOf F B' i = (B' i).addr + currOff cfg numSb h i := by
  have lt := (B' i).lt
  have bounds : 0 < currOff cfg numSb h i ∧ currOff cfg numSb h i < ADDR := by
    have few := H.few
    unfold MAX_DESC_AMOUNT_BITS at few
    cases i with
    | SB_IDX =>
      have h1 := cfg.header
      have h2 := ok.inside
      have h3 := H.size
      have h4 : cfg.heapStart ≤ cfg.sb L.n := Nat.le_add_right ..
      show 0 < h.currAddr - cfg.base ∧ h.currAddr - cfg.base < ADDR
      rw [rep.curr]
      unfold fileSize PAGESIZE at h3
      unfold PAGESIZE at h1
      unfold ADDR
      rw [SBSIZE_eq] at h3
      omega
    | DESC_IDX =>
      show 0 < PAGESIZE + numSb * DESCSIZE ∧ PAGESIZE + numSb * DESCSIZE < ADDR
      unfold PAGESIZE DESCSIZE CACHELINE_SIZE ADDR
      omega
    | META_IDX =>
      exact show 0 < PAGESIZE + BASEMETA_SIZE ∧ PAGESIZE + BASEMETA_SIZE < ADDR by decide
  rw [currOf, readAt, Nat.sub_self, H.curr]
  unfold ADDR at lt bounds
  refine fromPptrOff_moved (by omega) ?_ ?_ (by omega) ?_
  · unfold ADDR; omega
  · unfold ADDR; omega
  · unfold WORD; omega

/-- The address of a descriptor. -/
lemma descAt_eq (B' : Bases) (d : ℕ) : descAt F B' d = descPtr (B' DESC_IDX).addr (some d) := by
  rw [descAt, H.startOf_eq]
  rfl

omit H in
/-- A field of a descriptor is read at its place in the file. -/
lemma readAt_desc (F : Files) (B' : Bases) (d o n : ℕ) :
    readAt F B' DESC_IDX (descPtr (B' DESC_IDX).addr (some d) + o) n =
      load (F DESC_IDX) (PAGESIZE + d * DESCSIZE + o) n := by
  rw [readAt, descPtr]
  congr 1
  omega

/-- The head of a list. -/
lemma headAt_eq (B' : Bases) {l : ListId} (known : l.Known) (hc : (h.head l).cnt < CNT)
    (hd : ∀ d ∈ (h.head l).ptr, 0 < d ∧ d < numSb) :
    headAt F B' l = (descPtr (B' DESC_IDX).addr (h.head l).ptr, (h.head l).cnt) := by
  have few := H.few
  have off := descOff_lt fun d e => lt_trans (hd d e).2 few
  have hread : readAt F B' META_IDX (startOf F B' META_IDX + l.headOff) 8 =
      countedWord (h.head l) := by
    rw [H.startOf_eq, readAt, ← H.head l known]
    refine congrArg (load (F META_IDX) · 8) ?_
    simp only [startOff]
    omega
  rw [headAt, hread, AtomicCrossPtrCnt.unpack, countedWord, wordOff_counted off,
    wordCnt_counted off, Nat.mod_eq_of_lt hc]
  refine congrArg (·, (h.head l).cnt) ?_
  cases e : (h.head l).ptr with
  | none => rfl
  | some d =>
    obtain ⟨pos, lt⟩ := hd d e
    have hlt := (B' DESC_IDX).lt
    rw [castCross, isNullCross_descOff pos, if_neg (by decide), descOff, translate, H.startOf_eq]
    show ((B' DESC_IDX).addr + PAGESIZE + d * DESCSIZE) % WORD = _
    refine Nat.mod_eq_of_lt ?_
    unfold MAX_DESC_AMOUNT_BITS at few
    unfold ADDR at hlt
    unfold DESCSIZE CACHELINE_SIZE PAGESIZE WORD
    omega

/-- A link of a list. -/
lemma nextAt_eq (B' : Bases) {l : ListId} (hd : d < numSb)
    (hn : ∀ e ∈ (h.desc d).next l, e < numSb) :
    nextAt F B' l (descPtr (B' DESC_IDX).addr (some d)) =
      descPtr (B' DESC_IDX).addr ((h.desc d).next l) := by
  have hl := (H.desc d hd).link l
  rw [nextAt, readAt_desc]
  cases e : (h.desc d).next l with
  | none =>
    rw [e] at hl
    rcases hl with hw | ⟨-, hw⟩
    · rw [hw]
      exact fromPptrOff_pos 0 _
    · rw [hw]
      rfl
  | some c =>
    have hc := hn c e
    have few := H.few
    have hlt := (B' DESC_IDX).lt
    rw [e] at hl
    unfold MAX_DESC_AMOUNT_BITS at few
    unfold ADDR at hlt
    have hoff : l.linkOff ≤ 8 := by cases l <;> simp [ListId.linkOff]
    rcases hl with hw | ⟨h0, -⟩
    · rw [hw]
      simp only [descPtr]
      unfold DESCSIZE CACHELINE_SIZE PAGESIZE
      refine fromPptrOff_moved (by omega) ?_ ?_ (by omega) ?_
      · unfold ADDR; omega
      · unfold ADDR; omega
      · unfold WORD; omega
    · simp only [descPtr] at h0
      unfold PAGESIZE at h0
      omega

/-- The number of a descriptor. -/
lemma descIndex_descPtr (B' : Bases) (hd : d < numSb) :
    descIndex (startOf F B' DESC_IDX) (descPtr (B' DESC_IDX).addr (some d)) = d := by
  have few := H.few
  have hlt := (B' DESC_IDX).lt
  have hp := (B' DESC_IDX).page
  rw [H.startOf_eq]
  refine descIndex_eq ?_ ?_
  · show ((B' DESC_IDX).addr + PAGESIZE) % DESCSIZE = 0
    unfold PAGESIZE at hp ⊢
    unfold DESCSIZE CACHELINE_SIZE
    omega
  · show (B' DESC_IDX).addr + PAGESIZE + d * DESCSIZE < WORD
    unfold MAX_DESC_AMOUNT_BITS at few
    unfold ADDR at hlt
    unfold DESCSIZE CACHELINE_SIZE PAGESIZE WORD
    omega

/-- A list of descriptors is read as it is. -/
lemma listFrom_eq (B' : Bases) {l : ListId} {D : List ℕ} {o : Option ℕ}
    (hD : IsList (fun d => (h.desc d).next l) o D) (hlt : ∀ d ∈ D, d < numSb) {n : ℕ}
    (hn : D.length ≤ n) : listFrom F B' l n (descPtr (B' DESC_IDX).addr o) = D := by
  induction D generalizing o n with
  | nil =>
    obtain rfl : o = none := hD
    cases n <;> rfl
  | cons d D ih =>
    obtain ⟨rfl, hD⟩ := hD
    cases n with
    | zero => cases hn
    | succ n =>
      have hd := hlt d List.mem_cons_self
      have hrest : ∀ e ∈ D, e < numSb := fun e he => hlt e (List.mem_cons_of_mem _ he)
      have hne : descPtr (B' DESC_IDX).addr (some d) ≠ 0 := by
        simp only [descPtr]
        unfold PAGESIZE
        omega
      have hhead : (h.desc d).next l = D.head? := hD.head_eq
      have hnext : ∀ e ∈ (h.desc d).next l, e < numSb := fun e he => by
        rw [hhead] at he
        exact hrest e (List.mem_of_head? he)
      rw [listFrom, if_neg hne, H.descIndex_descPtr B' hd, H.nextAt_eq B' hd hnext,
        ih hD hrest (by simpa using hn)]

omit H in
/-- A cross pointer is read as its offset. -/
lemma crossPtr_eq (F : Files) (B' : Bases) (i : RegionIndex) {off : ℕ} (lt : off < WORD) :
    (crossPtr F B' i off).map (untranslate (startOf F B' i)) =
      if off = 0 then none else some off := by
  have start_lt : startOf F B' i < WORD := Nat.mod_lt _ (by decide)
  rw [crossPtr]
  split
  · rfl
  · rw [Option.map_some, untranslate_translate start_lt lt]

/-- How many superblocks there are. -/
lemma sbCount_eq (B' : Bases) (rep : Rep cfg h L) (ok : L.Ok cfg) : sbCount F B' = L.n := by
  have h1 := cfg.header
  rw [sbCount, H.startOf_eq, H.currOf_eq B' rep ok]
  show ((B' SB_IDX).addr + (h.currAddr - cfg.base) -
    ((B' SB_IDX).addr + (cfg.heapStart - cfg.base))) / SBSIZE = L.n
  rw [rep.curr, Cfg.sb, SBSIZE_eq]
  omega

/-- The words of the `superblock` and the `heap` of a descriptor determine what is read. -/
lemma used_eq (B' : Bases) (hd : d < numSb) :
    (superblockAt F B' (descAt F B' d)).map (untranslate (startOf F B' SB_IDX)) =
        (if superblockWord cfg.heapStart (h.desc d).superblock = 0 then none
          else some (superblockWord cfg.heapStart (h.desc d).superblock)) ∧
      (heapAt F B' (descAt F B' d)).map (untranslate (startOf F B' META_IDX)) =
        if heapWord (h.desc d).heap = 0 then none else some (heapWord (h.desc d).heap) := by
  have lt : ∀ o, load (F DESC_IDX) (PAGESIZE + d * DESCSIZE + o) 8 < WORD := fun o =>
    lt_of_lt_of_eq (load_lt ..) (by decide)
  have h1 := crossPtr_eq F B' SB_IDX (lt 24)
  have h2 := crossPtr_eq F B' META_IDX (lt 32)
  rw [(H.desc d hd).superblock] at h1
  rw [(H.desc d hd).heap] at h2
  rw [superblockAt, heapAt, H.descAt_eq, readAt_desc, readAt_desc, (H.desc d hd).superblock,
    (H.desc d hd).heap]
  exact ⟨h1, h2⟩

/-- The link word of a block, read where the block is now. -/
lemma linkAt_eq (B' : Bases) {b c : ℕ} (lo : cfg.heapStart ≤ b) (hi : b + 8 ≤ h.currAddr)
    (hb : b < ADDR) (e : h.link b = c) (hc : cfg.heapStart ≤ c) (hca : c < ADDR) :
    linkAt F B' ((B' SB_IDX).addr + (b - cfg.base)) = (B' SB_IDX).addr + (c - cfg.base) := by
  have hh := cfg.header
  have hlt := (B' SB_IDX).lt
  have pos : 0 < PAGESIZE := by decide
  have bytes : load (F SB_IDX) (b - cfg.base) 8 = load h.mem b 8 := by
    refine load_shift fun i hi' => ?_
    have := H.mem (b + i) (by omega) (by omega)
    rwa [show b + i - cfg.base = b - cfg.base + i by omega] at this
  rw [linkAt, readAt, Nat.add_sub_cancel_left, bytes]
  refine fromPptrOff_move e (by omega) (lt_of_lt_of_eq (load_lt ..) (by decide)) hb hca
    (by omega) ?_
  unfold ADDR at hlt hca
  unfold WORD
  omega

/-- The bits of the anchor of an assigned superblock. -/
lemma anchorAt_eq (B' : Bases) (hd : d < numSb) (ha : (h.desc d).anchor.avail < 2 ^ 31)
    (hc : (h.desc d).anchor.count < 2 ^ 31) :
    anchorAt F B' (descAt F B' d) % 2 ^ 31 = (h.desc d).anchor.avail ∧
      anchorAt F B' (descAt F B' d) / 2 ^ 31 % 2 ^ 31 = (h.desc d).anchor.count := by
  rw [anchorAt, H.descAt_eq, readAt_desc, (H.desc d hd).anchor, anchorWord]
  omega

/-- The `ProcHeap` of a descriptor is read as its index. -/
lemma heapIndex_eq (B' : Bases) (hd : d < numSb) :
    (heapAt F B' (descAt F B' d)).map (heapIndex F B') = (h.desc d).heap := by
  have h1 := congrArg (Option.map fun w => (w - HEAPS_OFF) / PROCHEAP_SIZE) (H.used_eq B' hd).2
  rw [Option.map_map] at h1
  refine h1.trans ?_
  cases (h.desc d).heap with
  | none => rfl
  | some sc =>
    have pos : 0 < PROCHEAP_SIZE := by decide
    rw [heapWord, if_neg (Nat.add_pos_left (by decide) _).ne', Option.map_some,
      Nat.add_sub_cancel_left, Nat.mul_div_cancel _ pos]

/-- The superblock of a descriptor is read as its number, as far as it has one. -/
lemma sbNumber_eq (B' : Bases) (hd : d < numSb) :
    (superblockAt F B' (descAt F B' d)).map (sbNumber F B') =
      cfg.sbNumber (h.desc d).superblock := by
  have h1 := congrArg (Option.map fun w => w / SBSIZE) (H.used_eq B' hd).1
  rw [Option.map_map] at h1
  refine h1.trans ?_
  unfold Cfg.sbNumber
  split <;> rfl

/-- Where the superblock of an assigned descriptor is now. -/
lemma superblockAt_eq (B' : Bases) (hd : d < numSb) (h0 : d ≠ 0) (inside : cfg.Inside d)
    (hs : (h.desc d).superblock = some (cfg.sb d)) :
    superblockAt F B' (descAt F B' d) = some ((B' SB_IDX).addr + (cfg.sb d - cfg.base)) := by
  have hh := cfg.header
  have hlt := (B' SB_IDX).lt
  have hsb := inside.lt (a := cfg.sb d) (by simp [SBSIZE_eq])
  have word : superblockWord cfg.heapStart (some (cfg.sb d)) = d * SBSIZE := by
    simp only [superblockWord, assignCross, untranslate, Cfg.sb] at hsb ⊢
    unfold ADDR at hsb
    unfold WORD
    omega
  have ne : d * SBSIZE ≠ 0 := Nat.mul_ne_zero h0 (by decide)
  rw [superblockAt, H.descAt_eq, readAt_desc, (H.desc d hd).superblock, hs, word, crossPtr,
    if_neg ne, translate, H.startOf_eq]
  simp only [startOff, Cfg.sb] at hsb ⊢
  unfold ADDR at hlt hsb
  unfold WORD
  congr 1
  omega

omit H in
/-- What the anchor of an assigned superblock says about its free list. -/
lemma anchor_free (rep : Rep cfg h L) (ok : L.Ok cfg) {sc o} (hr : L.role d = .small sc o) :
    (h.desc d).anchor.avail < 2 ^ 31 ∧ (h.desc d).anchor.count < 2 ^ 31 ∧
      (h.desc d).anchor.count ≤ (L.blks.items (.free d)).length ∧
      (0 < (h.desc d).anchor.count →
        (L.blks.items (.free d)).head? = some (cfg.blk sc d (h.desc d).anchor.avail)) := by
  have hsc := ok.cls hr
  have hm := hsc.maxcount_lt
  have ha := rep.anchor hr
  cases o with
  | full =>
    rw [ha.1]
    exact ⟨hm, Nat.two_pow_pos 31, Nat.zero_le _, fun hc => absurd hc (lt_irrefl 0)⟩
  | fresh u =>
    rw [ha.1]
    exact ⟨by decide, by decide, Nat.zero_le _, fun hc => absurd hc (lt_irrefl 0)⟩
  | listed =>
    obtain ⟨h1, h2, h3⟩ := ha
    exact ⟨by omega, by omega, by omega, fun _ => h1⟩
  | thr u =>
    obtain ⟨h1, h2, h3⟩ := ha
    exact ⟨by omega, by omega, by omega, fun _ => h1⟩

omit H in
/-- The links of free blocks lie inside their superblock. -/
lemma free_bounds (ok : L.Ok cfg) {sc o b} (hr : L.role d = .small sc o)
    (hb : b ∈ L.blks.items (.free d)) : cfg.sb d ≤ b ∧ b + 8 ≤ cfg.sb d + SBSIZE := by
  have hsc := ok.cls hr
  obtain ⟨i, hi, rfl⟩ := Cfg.mem_blocks.1 (ok.free_sub hr hb)
  have := Cfg.blk_bounds cfg d hsc hi
  have := hsc.eight_le
  omega

/-- The walk along the free blocks at the new place is the image of the one at the old place. -/
lemma walk_free (B' : Bases) (rep : Rep cfg h L) (ok : L.Ok cfg) {sc o}
    (hr : L.role d = .small sc o) :
    walk (linkAt F B') ((B' SB_IDX).addr + (cfg.sb d - cfg.base) +
        (h.desc d).anchor.avail * blockSize sc) (h.desc d).anchor.count =
      ((L.blks.items (.free d)).take (h.desc d).anchor.count).map fun b =>
        (B' SB_IDX).addr + (b - cfg.base) := by
  have inside := ok.insideOf hr (by simp)
  have born := (ok.born_lt (d := d) (by simp [hr])).2
  have hh := cfg.header
  obtain ⟨-, -, hle, hhead⟩ := anchor_free rep ok hr
  generalize (h.desc d).anchor.count = n at hle hhead
  have sbLo : cfg.heapStart ≤ cfg.sb d := Nat.le_add_right ..
  have sbHi : cfg.sb d + SBSIZE ≤ h.currAddr := by
    rw [rep.curr, ← Cfg.sb_succ]
    exact Cfg.sb_le_sb.2 born
  have linked : Linked h.link ((L.blks.items (.free d)).take n) := by
    have := rep.free d
    rw [← List.take_append_drop n (L.blks.items (.free d))] at this
    exact this.left
  refine Linked.walk_eq' (linked.map fun a ha hna => ?_) (fun hne => ?_) ?_
  · have ba := free_bounds ok hr (List.mem_of_mem_take ha)
    have bn := free_bounds ok hr (List.mem_of_mem_take hna)
    exact H.linkAt_eq B' (by omega) (by omega) (inside.lt (by omega)) rfl (by omega)
      (inside.lt (by omega))
  · have hpos : 0 < n := by
      refine Nat.pos_of_ne_zero fun h0 => hne ?_
      rw [h0]
      rfl
    rw [List.head?_map, List.head?_take, if_neg hpos.ne', hhead hpos, Option.map_some, Cfg.blk]
    refine congrArg some ?_
    omega
  · rw [List.length_map, List.length_take]
    omega

/-- The free blocks of an assigned superblock are found wherever it is. -/
lemma freeAt_eq (B' : Bases) (rep : Rep cfg h L) (ok : L.Ok cfg) (hd : d < numSb) {sc o}
    (hr : L.role d = .small sc o) :
    freeAt F B' (descAt F B' d) ((superblockAt F B' (descAt F B' d)).getD 0) =
      ((freeBlocks h d).take (h.desc d).anchor.count).map fun b =>
        (b - (h.desc d).superblock.getD 0) / (h.desc d).blockSize := by
  obtain ⟨-, hbs, -, hs⟩ := rep.small hr
  have inside := ok.insideOf hr (by simp)
  have born := (ok.born_lt (d := d) (by simp [hr])).1
  have hh := cfg.header
  have sbLo : cfg.heapStart ≤ cfg.sb d := Nat.le_add_right ..
  obtain ⟨ha, hc, -⟩ := anchor_free rep ok hr
  obtain ⟨e1, e2⟩ := H.anchorAt_eq B' hd ha hc
  have e3 : blockSizeAt F B' (descAt F B' d) = blockSize sc := by
    rw [blockSizeAt, H.descAt_eq, readAt_desc, (H.desc d hd).blockSize, hbs]
  rw [freeAt, e1, e2, e3, H.superblockAt_eq B' hd (by omega) inside hs, Option.getD_some,
    rep.freeBlocks_eq hr, hs, hbs, Option.getD_some, H.walk_free B' rep ok hr, List.map_map]
  refine List.map_congr_left fun b hb => ?_
  have := free_bounds ok hr (List.mem_of_mem_take hb)
  refine congrArg (· / blockSize sc) ?_
  show (B' SB_IDX).addr + (b - cfg.base) - ((B' SB_IDX).addr + (cfg.sb d - cfg.base)) = b - cfg.sb d
  omega

/-- A list of the program is found wherever the files are. -/
lemma list_eq (B' : Bases) (rep : Rep cfg h L) (ok : L.Ok cfg) {l : ListId} (known : l.Known) :
    (listFrom F B' l (sbCount F B') (headAt F B' l).1, (headAt F B' l).2) =
      (h.listFrom l (h.sbCount cfg) (h.head l).ptr, (h.head l).cnt) := by
  have le := H.le_numSb ok
  have ptr : ∀ d ∈ (h.head l).ptr, 0 < d ∧ d < numSb := fun d hd =>
    ⟨(rep.head_lt ok hd).1, lt_of_lt_of_le (rep.head_lt ok hd).2 le⟩
  have lt : ∀ d ∈ L.sbs.items l.role, d < numSb := fun d hd =>
    lt_of_lt_of_le (ok.listed_lt hd).2 le
  rw [H.headAt_eq B' known (rep.cnt_lt l) ptr, H.sbCount_eq B' rep ok, rep.sbCount_eq,
    H.listFrom_eq B' (rep.list l) lt (ok.length_listed_le l),
    Heap.listFrom_eq (rep.list l) (ok.length_listed_le l)]

/-- The use of a superblock is found wherever the files are. -/
lemma use_eq (B' : Bases) (hd : d < numSb) :
    ((heapAt F B' (descAt F B' d)).map fun q =>
        ((superblockAt F B' (descAt F B' d)).map (sbNumber F B'), heapIndex F B' q)) =
      (h.desc d).heap.map fun sc => (cfg.sbNumber (h.desc d).superblock, sc) := by
  rw [H.sbNumber_eq B' hd, ← H.heapIndex_eq B' hd, Option.map_map]
  rfl

/-- Whether a superblock is in use for small blocks is found wherever the files are. -/
lemma any_heap_eq (B' : Bases) (hd : d < numSb) :
    (heapAt F B' (descAt F B' d)).any (heapIndex F B' · ≠ 0) = (h.desc d).heap.any (· ≠ 0) := by
  rw [← H.heapIndex_eq B' hd, Option.any_map]

end Holds

/-- At every place the program finds the state of the heap in the files. -/
lemma Holds.view_eq (held : Holds cfg numSb F B h) (B' : Bases) (rep : Rep cfg h L)
    (ok : L.Ok cfg) :
    Ralloc.view F B' = h.view cfg numSb := by
  have le := held.le_numSb ok
  simp only [Ralloc.view, Heap.view, View.mk.injEq]
  refine ⟨?_, funext fun sc => ?_, funext fun d => ?_, funext fun d => ?_, funext fun i => ?_,
    funext fun i => ?_⟩
  · exact held.list_eq B' rep ok (l := .avail) trivial
  · exact held.list_eq B' rep ok (l := .part sc) sc.isLt
  · rw [held.sbCount_eq B' rep ok, rep.sbCount_eq]
    split
    · next hd => rw [held.use_eq B' (by omega)]
    · rfl
  · rw [held.sbCount_eq B' rep ok, rep.sbCount_eq]
    by_cases hd : d < L.n
    · rw [held.any_heap_eq B' (by omega)]
      split
      · next hu =>
        obtain ⟨sc, hh, h0⟩ := (Option.any_eq_true _ _).1 hu.2
        obtain ⟨o, hr⟩ := rep.role_of_assigned ⟨hh, of_decide_eq_true h0⟩
        rw [held.freeAt_eq B' rep ok (by omega) hr]
      · rfl
    · rw [if_neg (fun hc => hd hc.1), if_neg (fun hc => hd hc.1)]
  · rw [held.startOf_eq B', Nat.add_sub_cancel_left]
  · rw [held.currOf_eq B' rep ok, Nat.add_sub_cancel_left]

/-- A place some pages up from `2 ^ 40`, `2 ^ 41` or `2 ^ 42` is one for a file. -/
lemma samplePlace_ok {b : ℕ} (hb : b ∈ [2 ^ 40, 2 ^ 41, 2 ^ 42]) {k : ℕ} (hk : k < 2048) :
    (b + k * PAGESIZE) % PAGESIZE = 0 ∧ b + k * PAGESIZE < ADDR := by
  simp only [List.mem_cons, List.not_mem_nil, or_false] at hb
  unfold PAGESIZE ADDR
  omega

/-- The place `k` pages up from `b`. -/
def placeAt (b : ℕ) (hb : b ∈ [2 ^ 40, 2 ^ 41, 2 ^ 42]) (k : Fin 2048) : PageAddr :=
  ⟨b + k * PAGESIZE, (samplePlace_ok hb k.isLt).1, (samplePlace_ok hb k.isLt).2⟩

/-- Places for the files of `sample`, those of the superblocks and of the descriptors `i` and `j`
pages up from fixed ones. -/
def samplePlace (i j : Fin 2048) : Bases
  | SB_IDX => placeAt (2 ^ 40) (.head _) i
  | DESC_IDX => placeAt (2 ^ 41) (.tail _ (.head _)) j
  | META_IDX => placeAt (2 ^ 42) (.tail _ (.tail _ (.head _))) 0

/-- The files of a heap hold its state, at the place where they were written and at every other. -/
theorem view_moved (inv : Inv cfg s L) (held : Holds cfg numSb F B s.heap) (B' : Bases) :
    view F B' = s.heap.view cfg numSb ∧ view F B' = view F B := by
  have here := held.view_eq B inv.rep inv.ok
  have there := held.view_eq B' inv.rep inv.ok
  exact ⟨there, there.trans here.symm⟩

/-- A thread has taken a block of 14336 bytes and given the other three blocks of the superblock
back at its exit. The files are written at one place and mapped at another. -/
theorem view_moved_sample : ∃ s F, Reach sample s ∧ Holds sample 32768 F (samplePlace 0 0) s.heap ∧
    view F (samplePlace 7 14) = view F (samplePlace 0 0) ∧
    (view F (samplePlace 7 14)).part ⟨39, by decide⟩ = ([1], 1) ∧
    (view F (samplePlace 7 14)).used 1 = some (some 1, 39) ∧
    (view F (samplePlace 7 14)).free 1 = [1, 2, 3] := by
  obtain ⟨s, hs, ht⟩ := reach_of_test
    (.malloc 0 14336 :: List.replicate 12 (.run 0 false) ++
      .exit 0 :: List.replicate 50 (.run 0 false))
    (fun s => decide ((s.heap.view sample 32768).part ⟨39, by decide⟩ = ([1], 1) ∧
      (s.heap.view sample 32768).used 1 = some (some 1, 39) ∧
      (s.heap.view sample 32768).free 1 = [1, 2, 3])) (by decide +kernel)
  obtain ⟨L, inv⟩ := hs.inv
  have held : Holds sample 32768 (encode sample 32768 (samplePlace 0 0) s.heap) (samplePlace 0 0)
      s.heap := by
    refine (hs.fits (by decide)).holds rfl (by decide) (by decide) fun i => ?_
    cases i with
    | SB_IDX =>
      have inside : s.heap.currAddr ≤ sample.base + sample.filesize := inv.rep.curr ▸ inv.ok.inside
      have lt : sample.base + sample.filesize < ADDR := by decide
      show sample.base + (s.heap.currAddr - sample.base) < ADDR
      omega
    | DESC_IDX => exact show 2 ^ 41 + (PAGESIZE + 32768 * DESCSIZE) < ADDR by decide
    | META_IDX => exact show 2 ^ 42 + (PAGESIZE + BASEMETA_SIZE) < ADDR by decide
  obtain ⟨state, same⟩ := view_moved inv held (samplePlace 7 14)
  obtain ⟨part, used, free⟩ := of_decide_eq_true ht
  refine ⟨s, _, hs, held, same, ?_⟩
  rw [state]
  exact ⟨part, used, free⟩

end Ralloc
