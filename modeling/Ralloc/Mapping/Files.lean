import Ralloc.Model.Image
import Ralloc.Machine.Effect

/-!
# The files of a reachable heap

`Holds cfg numSb F B h`: the files `F`, mapped at `B`, hold the heap `h`. Every word is what the
assignment operators and stores of the four pointer types write at these addresses.

A heap has such files (`encode`) if every field fits the bits it has in its word (`Fits`). Every
reachable heap does (`Reach.fits`): the counters and the heads are in the invariant of the machine,
and a step only writes fields that fit, because the number of a descriptor that it stores is below
`curr_addr` or was loaded from a list word.
-/

namespace Ralloc

open Lib SuperblockState RegionIndex

/-- The lists that the program has. -/
def ListId.Known : ListId → Prop
  | .avail => True
  | .part sc => sc < MAX_SZ_IDX

/-- The word of the `CrossPtr` to a superblock when the superblocks start at `start`. -/
def superblockWord (start : ℕ) : Option ℕ → ℕ
  | none => 0
  | some a => assignCross start a

/-- The word of the `CrossPtr` to a `ProcHeap`. -/
def heapWord : Option ℕ → ℕ
  | none => 0
  | some sc => HEAPS_OFF + sc * PROCHEAP_SIZE

/-- The number of a state. -/
def SuperblockState.code : SuperblockState → ℕ
  | SB_ERROR => 0
  | SB_FULL => 1
  | SB_PARTIAL => 2
  | SB_EMPTY => 3

/-- The bits of an anchor. -/
def anchorWord (a : Anchor) : ℕ := a.avail + a.count * 2 ^ 31 + a.state.code * 2 ^ 62

/-- A `Descriptor*` when the descriptor file is mapped at `b`. -/
def descPtr (b : ℕ) : Option ℕ → ℕ
  | none => 0
  | some d => b + PAGESIZE + d * DESCSIZE

/-- The word of an `atomic_pptr` at `p` with the value `v`. Before a descriptor is constructed for
the first time it is zero. -/
def HoldsPptr (w v p : ℕ) : Prop := w = toPptrOff v p ∨ v = 0 ∧ w = 0

/-- Descriptor `d` in the file `f`, which is mapped at `b`. -/
structure HoldsDesc (start b : ℕ) (f : Mem) (d : ℕ) (D : Descriptor) : Prop where
  link : ∀ l : ListId, HoldsPptr (load f (PAGESIZE + d * DESCSIZE + l.linkOff) 8)
    (descPtr b (D.next l)) (b + PAGESIZE + d * DESCSIZE + l.linkOff)
  anchor : load f (PAGESIZE + d * DESCSIZE + 16) 8 = anchorWord D.anchor
  superblock : load f (PAGESIZE + d * DESCSIZE + 24) 8 = superblockWord start D.superblock
  heap : load f (PAGESIZE + d * DESCSIZE + 32) 8 = heapWord D.heap
  blockSize : load f (PAGESIZE + d * DESCSIZE + 40) 4 = D.blockSize
  maxcount : load f (PAGESIZE + d * DESCSIZE + 44) 4 = D.maxcount

/-- The offset of the heap start in a file. -/
def startOff (cfg : Cfg) : RegionIndex → ℕ
  | SB_IDX => cfg.heapStart - cfg.base
  | DESC_IDX | META_IDX => PAGESIZE

/-- The offset of `curr_addr` in a file. -/
def currOff (cfg : Cfg) (numSb : ℕ) (h : Heap) : RegionIndex → ℕ
  | SB_IDX => h.currAddr - cfg.base
  | DESC_IDX => PAGESIZE + numSb * DESCSIZE
  | META_IDX => PAGESIZE + BASEMETA_SIZE

/-- The files `F`, mapped at `B`, hold the heap `h` of `numSb` superblocks. -/
structure Holds (cfg : Cfg) (numSb : ℕ) (F : Files) (B : Bases) (h : Heap) : Prop where
  base : (B SB_IDX).addr = cfg.base
  /-- the size that `_RP_init` asks for and admits -/
  size : cfg.filesize ≤ fileSize (numSb * SBSIZE)
  few : numSb < 2 ^ MAX_DESC_AMOUNT_BITS
  start : ∀ i, load (F i) 8 8 = startOff cfg i
  curr : ∀ i, load (F i) 0 8 = toPptrOff ((B i).addr + currOff cfg numSb h i) (B i).addr
  head : ∀ l : ListId, l.Known →
    load (F META_IDX) (PAGESIZE + l.headOff) 8 = countedWord (h.head l)
  desc : ∀ d < numSb, HoldsDesc cfg.heapStart (B DESC_IDX).addr (F DESC_IDX) d (h.desc d)
  mem : ∀ a, cfg.heapStart ≤ a → a < h.currAddr → F SB_IDX (a - cfg.base) = h.mem a

/-- The words of a descriptor. -/
def descWords (start b d : ℕ) (D : Descriptor) : ℕ → ℕ
  | 0 => toPptrOff (descPtr b D.nextFree) (b + PAGESIZE + d * DESCSIZE)
  | 1 => toPptrOff (descPtr b D.nextPartial) (b + PAGESIZE + d * DESCSIZE + 8)
  | 2 => anchorWord D.anchor
  | 3 => superblockWord start D.superblock
  | 4 => heapWord D.heap
  | 5 => D.blockSize + D.maxcount * 2 ^ 32
  | _ => 0

/-- The words of a file. -/
def fileWords (cfg : Cfg) (numSb : ℕ) (B : Bases) (h : Heap) (i : RegionIndex) (k : ℕ) : ℕ :=
  if k = 0 then toPptrOff ((B i).addr + currOff cfg numSb h i) (B i).addr
  else if k = 1 then startOff cfg i
  else match i with
    | SB_IDX => 0
    | DESC_IDX => descWords cfg.heapStart (B DESC_IDX).addr ((k - 512) / 8) (h.desc ((k - 512) / 8))
        ((k - 512) % 8)
    | META_IDX => if k = 512 then countedWord (h.head .avail)
        else countedWord (h.head (.part ((k - 512) / 8 - 1)))

/-- Files for a heap. -/
def encode (cfg : Cfg) (numSb : ℕ) (B : Bases) (h : Heap) (i : RegionIndex) : Mem := fun o =>
  if i = SB_IDX ∧ startOff cfg SB_IDX ≤ o then h.mem (cfg.base + o)
  else ofWords (fileWords cfg numSb B h i) o

/-- Every field of a descriptor fits its bits when there are `n` descriptors. -/
structure Descriptor.Fits (n : ℕ) (D : Descriptor) : Prop where
  next : ∀ l, ∀ e ∈ D.next l, e < n
  anchor : D.anchor.avail < 2 ^ 31 ∧ D.anchor.count < 2 ^ 31
  heap : ∀ sc ∈ D.heap, sc < MAX_SZ_IDX
  blockSize : D.blockSize < 2 ^ 32
  maxcount : D.maxcount < 2 ^ 32

/-- Every field of the heap fits its word. -/
structure Fits (numSb : ℕ) (h : Heap) : Prop where
  cnt : ∀ l, (h.head l).cnt < CNT
  ptr : ∀ l, ∀ d ∈ (h.head l).ptr, d < numSb
  desc : ∀ d, (h.desc d).Fits numSb

variable {cfg : Cfg} {numSb d : ℕ} {B : Bases} {h : Heap} {L : Ledger} {s : State}

section encode

variable (fits : Fits numSb h)
include fits

/-- The words of a descriptor are words. -/
lemma Fits.descWords_lt (B : Bases) (hd : d < numSb)
    (hb : (B DESC_IDX).addr + PAGESIZE + numSb * DESCSIZE < ADDR) (k : ℕ) :
    descWords cfg.heapStart (B DESC_IDX).addr d (h.desc d) k < 256 ^ 8 := by
  have ptr : ∀ l, descPtr (B DESC_IDX).addr ((h.desc d).next l) < ADDR := by
    intro l
    cases e : (h.desc d).next l with
    | none => exact show 0 < ADDR by decide
    | some c =>
      have := (fits.desc d).next l c e
      simp only [descPtr]
      unfold DESCSIZE CACHELINE_SIZE at hb ⊢
      omega
  have at_lt : (B DESC_IDX).addr + PAGESIZE + d * DESCSIZE + 8 < ADDR := by
    unfold DESCSIZE CACHELINE_SIZE at hb ⊢
    omega
  have word : WORD = 256 ^ 8 := by decide
  match k with
  | 0 => exact word ▸ toPptrOff_lt (ptr .avail) (by omega)
  | 1 => exact word ▸ toPptrOff_lt (ptr (.part 0)) at_lt
  | 2 =>
    obtain ⟨h1, h2⟩ := (fits.desc d).anchor
    have h3 : (h.desc d).anchor.state.code ≤ 3 := by
      cases (h.desc d).anchor.state <;> decide
    simp only [descWords, anchorWord]
    omega
  | 3 =>
    rw [descWords, ← word]
    cases (h.desc d).superblock with
    | none => exact show 0 < WORD by decide
    | some a => exact Nat.mod_lt _ (by decide)
  | 4 =>
    simp only [descWords]
    cases e : (h.desc d).heap with
    | none => exact show 0 < 256 ^ 8 by decide
    | some sc =>
      have := (fits.desc d).heap sc e
      simp only [heapWord]
      unfold HEAPS_OFF PROCHEAP_SIZE CACHELINE_SIZE
      unfold MAX_SZ_IDX at this
      omega
  | 5 =>
    have h1 := (fits.desc d).blockSize
    have h2 := (fits.desc d).maxcount
    simp only [descWords]
    omega
  | _ + 6 => exact show 0 < 256 ^ 8 by decide

/-- The counted words are words. -/
lemma Fits.countedWord_lt (few : numSb < 2 ^ MAX_DESC_AMOUNT_BITS) (l : ListId) :
    countedWord (h.head l) < 256 ^ 8 := by
  have h1 := descOff_lt fun d e => lt_trans (fits.ptr l d e) few
  have h2 : cntPrefix (h.head l).cnt < 2 ^ 64 := Nat.mod_lt _ (by decide)
  exact Nat.or_lt_two_pow (lt_trans h1 (by decide)) h2

omit fits in
/-- Bytes of a word of a file. -/
lemma load_encode {i : RegionIndex} {k j n : ℕ} (hj : j + n ≤ 8)
    (hi : i = SB_IDX → 8 * k + j + n ≤ startOff cfg SB_IDX) :
    load (encode cfg numSb B h i) (8 * k + j) n =
      fileWords cfg numSb B h i k / 256 ^ j % 256 ^ n := by
  rw [← load_ofWords hj]
  refine load_congr fun x h1 h2 => if_neg ?_
  rintro ⟨e, hx⟩
  have := hi e
  omega

omit fits in
/-- A whole word of a file. -/
lemma load_encode_word {i : RegionIndex} {k : ℕ} (lt : fileWords cfg numSb B h i k < 256 ^ 8)
    (hi : i = SB_IDX → 8 * k + 8 ≤ startOff cfg SB_IDX) :
    load (encode cfg numSb B h i) (8 * k) 8 = fileWords cfg numSb B h i k := by
  have word : load (encode cfg numSb B h i) (8 * k + 0) 8 = _ := load_encode le_rfl hi
  rwa [Nat.add_zero, pow_zero, Nat.div_one, Nat.mod_eq_of_lt lt] at word

/-- The descriptor file holds the descriptors. -/
lemma Fits.holdsDesc (B : Bases) (hb : (B DESC_IDX).addr + PAGESIZE + numSb * DESCSIZE < ADDR)
    (hd : d < numSb) : HoldsDesc cfg.heapStart (B DESC_IDX).addr (encode cfg numSb B h DESC_IDX) d
      (h.desc d) := by
  have at_word : ∀ k < 8, ∀ j n, j + n ≤ 8 →
      load (encode cfg numSb B h DESC_IDX) (PAGESIZE + d * DESCSIZE + 8 * k + j) n =
        descWords cfg.heapStart (B DESC_IDX).addr d (h.desc d) k / 256 ^ j % 256 ^ n := by
    intro k hk j n hj
    rw [show PAGESIZE + d * DESCSIZE + 8 * k + j = 8 * (512 + d * 8 + k) + j by
      unfold PAGESIZE DESCSIZE CACHELINE_SIZE; omega, load_encode hj (fun e => by cases e),
        fileWords,
      if_neg (by omega), if_neg (by omega)]
    simp only [show (512 + d * 8 + k - 512) / 8 = d by omega,
      show (512 + d * 8 + k - 512) % 8 = k by omega]
  have whole : ∀ k < 8, load (encode cfg numSb B h DESC_IDX) (PAGESIZE + d * DESCSIZE + 8 * k) 8 =
      descWords cfg.heapStart (B DESC_IDX).addr d (h.desc d) k := by
    intro k hk
    have := at_word k hk 0 8 le_rfl
    rwa [Nat.add_zero, pow_zero, Nat.div_one,
      Nat.mod_eq_of_lt (fits.descWords_lt B hd hb k)] at this
  refine ⟨fun l => .inl ?_, whole 2 (by decide), whole 3 (by decide), whole 4 (by decide), ?_, ?_⟩
  · cases l with
    | avail => exact whole 0 (by decide)
    | part sc => exact whole 1 (by decide)
  · have := at_word 5 (by decide) 0 4 (by decide)
    have h1 := (fits.desc d).blockSize
    simp only [descWords] at this
    refine this.trans ?_
    omega
  · have := at_word 5 (by decide) 4 4 (by decide)
    have h1 := (fits.desc d).blockSize
    have h2 := (fits.desc d).maxcount
    simp only [descWords] at this
    refine this.trans ?_
    omega

/-- Every heap whose fields fit has files. -/
lemma Fits.holds (base : (B SB_IDX).addr = cfg.base)
    (size : cfg.filesize ≤ fileSize (numSb * SBSIZE)) (few : numSb < 2 ^ MAX_DESC_AMOUNT_BITS)
    (inside : ∀ i, (B i).addr + currOff cfg numSb h i < ADDR) :
    Holds cfg numSb (encode cfg numSb B h) B h := by
  have hh : 4096 ≤ startOff cfg SB_IDX := by
    have := cfg.header
    show 4096 ≤ cfg.heapStart - cfg.base
    unfold PAGESIZE at this
    omega
  have word : WORD = 256 ^ 8 := by decide
  have hdesc := inside DESC_IDX
  refine ⟨base, size, few, fun i => ?_, fun i => ?_, fun l known => ?_, fun d hd => ?_,
    fun a h1 h2 => ?_⟩
  · refine load_encode_word (k := 1) ?_ (fun _ => by omega)
    unfold fileWords
    rw [if_neg (by decide), if_pos rfl]
    cases i with
    | SB_IDX =>
      have h1 := cfg.warm
      have h2 := cfg.bound
      have h3 : 0 < SB_REGION_EXPAND_SIZE := by decide
      show cfg.heapStart - cfg.base < 256 ^ 8
      unfold ADDR at h2
      omega
    | DESC_IDX => exact show PAGESIZE < 256 ^ 8 by decide
    | META_IDX => exact show PAGESIZE < 256 ^ 8 by decide
  · refine load_encode_word (k := 0) ?_ (fun _ => by omega)
    exact word ▸ toPptrOff_lt (inside i) (B i).lt
  · cases l with
    | avail =>
      exact load_encode_word (k := 512) (fits.countedWord_lt few .avail) fun e => by cases e
    | part sc =>
      have hw : fileWords cfg numSb B h META_IDX (512 + 8 * (sc + 1)) =
          countedWord (h.head (.part sc)) := by
        unfold fileWords
        rw [if_neg (by omega), if_neg (by omega)]
        simp only [if_neg (show 512 + 8 * (sc + 1) ≠ 512 by omega)]
        rw [show (512 + 8 * (sc + 1) - 512) / 8 - 1 = sc by omega]
      rw [← hw, ← load_encode_word (hw ▸ fits.countedWord_lt few (.part sc)) fun e => by cases e]
      congr 1
      show PAGESIZE + (HEAPS_OFF + sc * PROCHEAP_SIZE) = 8 * (512 + 8 * (sc + 1))
      unfold PAGESIZE HEAPS_OFF PROCHEAP_SIZE CACHELINE_SIZE
      omega
  · refine fits.holdsDesc B ?_ hd
    rwa [Nat.add_assoc]
  · have lo := cfg.header
    rw [encode, if_pos ⟨rfl, show cfg.heapStart - cfg.base ≤ a - cfg.base by omega⟩,
      show cfg.base + (a - cfg.base) = a by omega]

end encode

section run

variable {t : ℕ} {pc pc' : PC}

/-- The superblocks have descriptors. -/
lemma Ledger.Ok.le_numSb (ok : L.Ok cfg) (size : cfg.filesize ≤ fileSize (numSb * SBSIZE)) :
    L.n ≤ numSb := by
  have h1 := cfg.header
  have h2 := ok.inside
  rw [Cfg.sb, SBSIZE_eq] at h2
  unfold fileSize at size
  unfold PAGESIZE at h1 size
  rw [SBSIZE_eq] at size
  omega

/-- A superblock with a role lies between the first one and `curr_addr`. -/
lemma Ledger.Ok.born_lt (ok : L.Ok cfg) (hr : L.role d ≠ .unborn) : 0 < d ∧ d < L.n := by
  have : ¬(d = 0 ∨ L.n ≤ d) := fun hc => hr ((ok.born d).2 hc)
  omega

/-- So does one on a list. -/
lemma Ledger.Ok.listed_lt (ok : L.Ok cfg) {l : ListId} (hd : d ∈ L.sbs.items l.role) :
    0 < d ∧ d < L.n := by
  refine ok.born_lt ?_
  rw [(ok.mem_sbs l.role_tracked).1 hd]
  cases l <;> exact Role.noConfusion

/-- So does the first one. -/
lemma Rep.head_lt (rep : Rep cfg h L) (ok : L.Ok cfg) {l : ListId} (hd : d ∈ (h.head l).ptr) :
    0 < d ∧ d < L.n := by
  rw [(rep.list l).head_eq] at hd
  exact ok.listed_lt (List.mem_of_head? hd)

/-- The counters fit. -/
lemma Rep.cnt_lt (rep : Rep cfg h L) (l : ListId) : (h.head l).cnt < CNT := by
  rw [rep.cnt]
  exact Nat.mod_lt _ (by decide)

/-- What a thread in a push has loaded from the list word fits a link field. -/
def PC.SeenBelow (n : ℕ) : PC → Prop
  | .pushStore _ _ _ old _ | .pushCas _ _ _ old _ => ∀ e ∈ old.ptr, e < n
  | _ => True

/-- It stays like that. -/
lemma PC.SeenBelow.leads (seen : pc.SeenBelow numSb) (head : ∀ l, ∀ d ∈ (h.head l).ptr, d < numSb)
    (st : Leads cfg h pc pc') : pc'.SeenBelow numSb := by
  cases st with
  | bare out =>
    unfold PC.SeenBelow
    split <;> first | exact trivial | exact out.elim
  | see => exact head _
  | push => exact seen
  | _ => exact trivial

/-- The fields of a constructed descriptor fit. -/
lemma Descriptor.fits_reset : Descriptor.reset.Fits numSb where
  next l e he := by cases l <;> cases he
  anchor := ⟨Nat.two_pow_pos 31, Nat.two_pow_pos 31⟩
  heap sc hsc := by cases hsc
  blockSize := Nat.two_pow_pos 32
  maxcount := Nat.two_pow_pos 32

namespace Descriptor.Fits

variable {D : Descriptor} (fits : D.Fits numSb)
include fits

/-- A link is stored. -/
lemma setNext {l : ListId} {o : Option ℕ} (lt : ∀ e ∈ o, e < numSb) :
    (D.setNext l o).Fits numSb := by
  refine ⟨fun l' e he => ?_, ?_, ?_, ?_, ?_⟩
  · cases l <;> cases l'
    · exact lt e he
    · exact fits.next (.part 0) e he
    · exact fits.next .avail e he
    · exact lt e he
  all_goals cases l
  exacts [fits.anchor, fits.anchor, fits.heap, fits.heap, fits.blockSize, fits.blockSize,
    fits.maxcount, fits.maxcount]

/-- An anchor is stored. -/
lemma setAnchor {a : Anchor} (avail : a.avail < 2 ^ 31) (count : a.count < 2 ^ 31) :
    { D with anchor := a }.Fits numSb :=
  ⟨fun l => by cases l; exacts [fits.next .avail, fits.next (.part 0)], ⟨avail, count⟩, fits.heap,
    fits.blockSize, fits.maxcount⟩

/-- The plain fields are stored. -/
lemma setPlain {sb : Option ℕ} {sc size count : ℕ} (small : sc < MAX_SZ_IDX) (hs : size < 2 ^ 32)
    (hc : count < 2 ^ 32) : { D with
      superblock := sb, heap := some sc, blockSize := size, maxcount := count }.Fits numSb :=
  ⟨fun l => by cases l; exacts [fits.next .avail, fits.next (.part 0)], fits.anchor,
    fun _ e => Option.some.inj e ▸ small, hs, hc⟩

/-- A step of the constructor. -/
lemma ctorWrite (ph : CtorPhase) : (ctorWrite D ph).Fits numSb := by
  cases ph with
  | nextFree => exact fits.setNext (l := .avail) fun e he => by cases he
  | nextPartial => exact fits.setNext (l := .part 0) fun e he => by cases he
  | fields =>
    refine ⟨fun l => ?_, ⟨Nat.two_pow_pos 31, Nat.two_pow_pos 31⟩, fun sc hsc => (by cases hsc),
      Nat.two_pow_pos 32, Nat.two_pow_pos 32⟩
    cases l
    exacts [fits.next .avail, fits.next (.part 0)]
  | flush => exact fits
  | fence => exact fits

end Descriptor.Fits

/-- The descriptors of a heap fit. -/
def DescsFit (n : ℕ) (h : Heap) : Prop := ∀ d, (h.desc d).Fits n

/-- Nothing else matters. -/
lemma DescsFit.congr {h' : Heap} (fits : DescsFit numSb h) (e : h'.desc = h.desc) :
    DescsFit numSb h' := fun d => e ▸ fits d

/-- An expansion. -/
lemma DescsFit.setCurr (fits : DescsFit numSb h) (a : ℕ) :
    DescsFit numSb { h with currAddr := a } := fits

/-- A descriptor is written. -/
lemma DescsFit.setDesc {D : Descriptor} (fits : DescsFit numSb h) (new : D.Fits numSb) :
    DescsFit numSb (h.setDesc d D) := by
  intro e
  by_cases he : e = d
  · subst he
    rw [Heap.desc_setDesc_self]
    exact new
  · rw [Heap.desc_setDesc_ne he]
    exact fits e

/-- The run of blocks that `flush_cache` gives back has no more blocks than a superblock. -/
lemma RunOk.count_le {sc : ℕ} {r : Run} (ok : L.Ok cfg)
    (run : RunOk cfg h (L.blks.items (.hands t sc)) sc r) : r.count ≤ maxcount sc := by
  have le := (List.subperm_of_subset (ok.blks (.hands t sc) trivial).nodup run.sub).length_le
  rwa [Cfg.length_blocks, run.count] at le

/-- A superblock has fewer blocks than an anchor can count. -/
lemma SmallClass.maxcount_lt {sc : ℕ} (small : SmallClass sc) : maxcount sc < 2 ^ 31 :=
  lt_of_le_of_lt small.maxcount_le (by decide)

/-- A superblock gives all its blocks away. -/
lemma DescsFit.setFull {sc : ℕ} (fits : DescsFit numSb h) (small : SmallClass sc) (d : ℕ) :
    DescsFit numSb (h.setDesc d { h.desc d with anchor := .full (maxcount sc) }) :=
  fits.setDesc ((fits d).setAnchor small.maxcount_lt (Nat.two_pow_pos 31))

/-- A superblock gets a run of blocks back. -/
lemma DescsFit.setGiven {sc : ℕ} {r : Run} {old : Anchor} (fits : DescsFit numSb h) (ok : L.Ok cfg)
    (run : RunOk cfg h (L.blks.items (.hands t sc)) sc r) (hold : OldOk sc old) :
    DescsFit numSb (h.setDesc r.d { h.desc r.d with
      anchor := giveAnchor old r.idx r.count (h.desc r.d).maxcount }) := by
  have room : old.count + r.count < 2 ^ 31 := by
    have h1 := run.count_le ok
    have h2 := hold.count
    have h3 := run.small.maxcount_le
    rw [MAX_BLOCKS_eq] at h3
    omega
  have idx : r.idx < 2 ^ 31 := lt_trans run.idx_lt run.small.maxcount_lt
  refine fits.setDesc ((fits r.d).setAnchor ?_ ?_) <;> unfold giveAnchor <;> split
  · exact idx
  · exact idx
  · dsimp only
    omega
  · exact room

/-- `organize_sb_list` links to a superblock of its own run. -/
lemma ThInv.orgLink_lt {start count i : ℕ} {k : PushK} (ok : L.Ok cfg)
    (th : ThInv cfg h L t (.orgLink start count i k)) : start + i + 1 < L.n := by
  have hi := th.known.2.2.1
  refine (ok.born_lt ?_).2
  rw [th.role_raw ok (List.mem_append_left _ (List.mem_range'_1.2 ⟨by omega, by omega⟩))]
  exact Role.noConfusion

/-- A step only writes what fits. -/
lemma exec_fits (ok : L.Ok cfg) (th : ThInv cfg h L t pc) (le : L.n ≤ numSb)
    (fits : DescsFit numSb h) (seen : pc.SeenBelow numSb) (spur : Bool) :
    DescsFit numSb (exec cfg t spur h pc).1 := by
  cases pc with
  | popCas l sc old p next =>
    rw [exec]
    split <;> exact fits.congr rfl
  | anchorLoad sc d =>
    rw [exec, anchorTest_fst]
    exact fits
  | anchorCas sc d old maxc bsize sb =>
    obtain ⟨filling, -, rfl, -⟩ := th.known
    have new := fits.setFull filling.small d
    rw [exec]
    split
    · refine check_fst new ?_
      rw [filled_fst]
      exact new.congr rfl
    · rw [anchorTest_fst]
      exact fits
  | growCheck sc cur =>
    rw [exec]
    split
    · exact fits
    · exact check_fst (P := DescsFit numSb) fits fits
  | growCas sc cur =>
    rw [exec]
    split
    · exact fits.setCurr _
    · exact fits
  | newSet sc sb =>
    obtain ⟨filling, -⟩ := th.known
    have size := filling.small.le_max
    rw [exec]
    refine check_fst fits (fits.setDesc ((fits _).setPlain filling.small.2 ?_ ?_))
    · exact lt_of_le_of_lt size (by decide)
    · exact lt_trans filling.small.maxcount_lt (by decide)
  | newAnchor sc d sb =>
    obtain ⟨filling, -⟩ := th.known
    rw [exec]
    exact check_fst fits ((fits.setFull filling.small d).congr rfl)
  | ctor d ph k =>
    rw [exec]
    exact fits.setDesc ((fits d).ctorWrite ph)
  | orgLink start count i k =>
    rw [exec]
    refine fits.setDesc ((fits (start + i)).setNext (l := .avail) fun e he => ?_)
    obtain rfl := Option.some.inj he
    exact lt_of_lt_of_le (th.orgLink_lt ok) le
  | heapPushPartial d k =>
    rw [exec]
    split <;> exact fits
  | pushStore l first last old k =>
    rw [exec]
    exact check_fst fits (fits.setDesc ((fits last).setNext seen))
  | pushCas l first last old k =>
    rw [exec]
    split <;> exact fits.congr rfl
  | flushHead sc k =>
    rw [exec]
    split
    · exact fits
    · refine check_fst fits ?_
      split <;> exact fits.congr rfl
  | flushCas sc r old k =>
    obtain ⟨run, hold, -⟩ := th.known
    have new := fits.setGiven ok run hold
    rw [exec]
    split
    · exact check_fst new new
    · exact fits
  | largeCas sbs cur =>
    rw [exec]
    split
    · exact fits.setCurr _
    · exact fits
  | largeSet sbs res =>
    rw [exec]
    refine check_fst fits (fits.setDesc ((fits _).setPlain (by decide) ?_ (by decide)))
    exact lt_of_lt_of_le (Nat.mod_lt _ (by decide)) (by decide)
  | largeAnchor sbs res =>
    rw [exec]
    exact fits.setDesc ((fits _).setAnchor (Nat.two_pow_pos 31) (Nat.two_pow_pos 31))
  | flushStore | popBlock | rootSet =>
    rw [exec]
    exact check_fst (P := DescsFit numSb) (fits.congr rfl) (fits.congr rfl)
  | newFence | largeLoad =>
    rw [exec]
    exact check_fst (P := DescsFit numSb) fits fits
  | _ => exact fits.congr rfl

/-- The descriptors of the initial heap fit. -/
lemma descsFit_init (cfg : Cfg) (le : EXPAND_SBS ≤ numSb) : DescsFit numSb (init cfg).heap := by
  intro d
  show (if 1 ≤ d ∧ d < 1 + (EXPAND_SBS - 1) then _ else _ : Descriptor).Fits numSb
  split
  · refine Descriptor.fits_reset.setNext (l := .avail) fun e he => ?_
    split at he
    · next hlt =>
      obtain rfl := Option.some.inj he
      omega
    · cases he
  · exact Descriptor.fits_reset

/-- The descriptors of every reachable heap fit, and so does what is going to be written. -/
lemma Reach.descsFit (hs : Reach cfg s) (size : cfg.filesize ≤ fileSize (numSb * SBSIZE)) :
    DescsFit numSb s.heap ∧ ∀ t, (s.pc t).SeenBelow numSb := by
  induction hs with
  | refl => exact ⟨descsFit_init cfg ((initLedger_ok cfg).le_numSb size), fun _ => trivial⟩
  | @tail s s' hs st ih =>
    obtain ⟨L, inv⟩ := Reach.inv hs
    obtain ⟨a, -, st⟩ := st
    have le := inv.ok.le_numSb size
    refine ⟨?_, fun t => ?_⟩
    · rcases step_heap st with ⟨u, spur, e⟩ | ⟨e, -⟩
      · rw [e]
        exact exec_fits inv.ok (inv.thread u) le ih.1 (ih.2 u) spur
      · exact ih.1.congr e
    · rcases step_leads st t with e | lead
      · rw [e]
        exact ih.2 t
      · exact (ih.2 t).leads (fun l d hd => lt_of_lt_of_le (inv.rep.head_lt inv.ok hd).2 le) lead

/-- Every reachable heap fits its files. -/
theorem Reach.fits (hs : Reach cfg s) (size : cfg.filesize ≤ fileSize (numSb * SBSIZE)) :
    Fits numSb s.heap := by
  obtain ⟨L, inv⟩ := hs.inv
  have le := inv.ok.le_numSb size
  exact ⟨inv.rep.cnt_lt, fun l d hd => lt_of_lt_of_le (inv.rep.head_lt inv.ok hd).2 le,
    (hs.descsFit size).1⟩

end run

end Ralloc
