import Ralloc.Model.CrossPtr
import Ralloc.Recovery.FirstInit

/-!
# Every superblock has a descriptor

`SbRun` is what the superblock region hands out from the first `RP_init` on: the superblocks that
the constructor of `BaseMeta` links, those of each later expansion, and the first one of each large
block.

`sb_slots`: all of them are at multiples of `SBSIZE` behind the heap start and none is number 0;
each number below `curr_addr` has a descriptor inside the descriptor region, at an offset that fits
a list word.
-/

namespace Ralloc

namespace Init

open Lib RegionIndex

variable {numSb : ℕ} {p : Proc numSb} {s s' : State} {f : Mem} {H : List ℕ}

/-- The superblock region. -/
def Proc.sbRegion (p : Proc numSb) : Region := ⟨p.addr SB_IDX, SB_IDX.filesize numSb⟩

/-- The file of the superblock region, and the superblocks that were handed out so far in a run that
has begun in `s`. -/
inductive SbRun (p : Proc numSb) (s : State) : Mem → List ℕ → Prop
  /-- the constructor of `BaseMeta` has linked some superblocks -/
  | warm {f : Mem} {D : List ℕ} (file : s.disk.file SB_IDX = some f)
    (list : IsList (fun d => (s.disk.desc d).nextFree) s.disk.avail.ptr D) :
    SbRun p s f (D.map (sbLookup (s.address SB_IDX)))
  /-- `small_sb_alloc` expands the region; it returns the first superblock and links the others -/
  | small {f f' : Mem} {H : List ℕ} {t : ℕ} (run : SbRun p s f H)
    (call : regionAllocator p.sbRegion f PAGESIZE SB_REGION_EXPAND_SIZE = some (t, f')) :
    SbRun p s f' (H ++ (List.range EXPAND_SBS).map (t + · * SBSIZE))
  /-- `expand_get_large_sb` for a request of `size` bytes -/
  | large {f f' : Mem} {H : List ℕ} {t : ℕ} (size : ℕ) (le : size ≤ SB_IDX.filesize numSb)
    (run : SbRun p s f H)
    (call : regionAllocator p.sbRegion f PAGESIZE (roundUp size SBSIZE) = some (t, f')) :
    SbRun p s f' (H ++ [t])

/-- What the constructor leaves of the other files, and where the superblocks start. -/
lemma construct_address (new : s.existed META_IDX = false) (hf : s.disk.file SB_IDX = some f)
    (hd : Header f PAGESIZE 0 (SB_IDX.filesize numSb)) (e : run p constructorSteps s = some s') :
    (∀ j, j ≠ SB_IDX → s'.disk.file j = s.disk.file j ∧ s'.address j = s.address j) ∧
      s'.address SB_IDX = alignUp (p.addr SB_IDX + PAGESIZE) SBSIZE ∧
      s'.address SB_IDX + SB_REGION_EXPAND_SIZE ≤ p.addr SB_IDX + SB_IDX.filesize numSb := by
  rw [run_constructorSteps new hf] at e
  obtain ⟨⟨t, f'⟩, alloc, e⟩ := Option.bind_eq_some_iff.1 e
  obtain ⟨ht, -, -, fits, -⟩ := firstExpand_spec (p.map SB_IDX) (hd.currAddr_page p) alloc
  rw [run_organizeSteps (by exact new)] at e
  obtain rfl := Option.some.inj e
  have address : (started p (constructed p s (t, f'))).address SB_IDX = t := by
    simp [started, constructed]
  refine ⟨fun j ne => ⟨?_, ?_⟩, ?_, ?_⟩
  · show (started p (constructed p s (t, f'))).disk.file j = _
    simp [started, constructed, State.modFile, ne]
  · show (started p (constructed p s (t, f'))).address j = _
    simp [started, constructed, ne]
  · exact address.trans ht
  · show (started p (constructed p s (t, f'))).address SB_IDX + _ ≤ _
    rw [address]
    exact fits

/-- The descriptor region after the first `RP_init`. -/
lemma desc_region {r : ℕ × Mem}
    (alloc : regionAllocator ⟨p.addr DESC_IDX, DESC_IDX.filesize numSb⟩
      (mapPersistentRegion (DESC_IDX.filesize numSb) (p.addr DESC_IDX)) DESC_IDX.alignment
      (DESC_IDX.firstSize numSb) = some r) :
    currAddr (p.addr DESC_IDX) (storeStart (p.addr DESC_IDX) r.2 r.1) =
      fetchStart (p.addr DESC_IDX) (storeStart (p.addr DESC_IDX) r.2 r.1) + numSb * DESCSIZE := by
  obtain ⟨t, f'⟩ := r
  obtain ⟨ht, -, -, -, hf'⟩ := create_spec (p.map DESC_IDX) alloc
  change t = alignUp (p.addr DESC_IDX + PAGESIZE) CACHELINE_SIZE at ht
  change f' = setCurrAddr (p.addr DESC_IDX) _ (t + numSb * DESCSIZE) at hf'
  rw [alignUp_page] at ht
  subst ht
  have bound := p.bound DESC_IDX
  have bytes : DESC_IDX.bytes numSb = numSb * DESCSIZE := rfl
  rw [RegionIndex.filesize, fileSize, bytes] at bound
  unfold PAGESIZE ADDR at bound
  have hc : Header f' (PAGESIZE + numSb * DESCSIZE) 0 (DESC_IDX.filesize numSb) := by
    rw [hf', Nat.add_assoc]
    refine (header_map p DESC_IDX).setCurr (Nat.add_pos_left (by decide) _) ?_
    unfold PAGESIZE ADDR
    omega
  have hd := hc.setStart (show p.addr DESC_IDX + PAGESIZE < WORD by unfold PAGESIZE WORD; omega)
  rw [hd.currAddr_eq (Nat.add_pos_left (by decide) _) (by unfold PAGESIZE ADDR; omega)
    (by unfold PAGESIZE WORD; omega), hd.fetchStart_eq (by unfold PAGESIZE WORD; omega),
      Nat.add_assoc]

/-- What the first `RP_init` leaves. -/
lemma rpInit_spec (pos : 0 < numSb) (init : rpInit p .none = some s) :
    (∃ f, Initialised p s f) ∧ s.address SB_IDX = alignUp (p.addr SB_IDX + PAGESIZE) SBSIZE ∧
      s.address SB_IDX + SB_REGION_EXPAND_SIZE ≤ p.addr SB_IDX + SB_IDX.filesize numSb ∧
      ∃ fd, s.disk.file DESC_IDX = some fd ∧ s.address DESC_IDX = fetchStart (p.addr DESC_IDX) fd ∧
        currAddr (p.addr DESC_IDX) fd = s.address DESC_IDX + numSb * DESCSIZE := by
  obtain ⟨r, alloc, s₁, e₁, -, -, fd, ad⟩ :=
    run_region_new (p := p) (s := .new .none) (i := DESC_IDX) pos (by decide) rfl
  have t₁ := run_touched (List.Subset.refl _) e₁
  have e₂ := run_region_sb (p := p) (s := s₁) (t₁.file SB_IDX (by decide))
  have t₂ := run_touched (List.Subset.refl _) e₂
  have none₂ : (created p SB_IDX s₁).disk.file META_IDX = none :=
    (t₂.file META_IDX (by decide)).trans (t₁.file META_IDX (by decide))
  obtain ⟨-, -, s₃, e₃, new, avail, -⟩ := run_region_new (p := p) pos (by decide) none₂
  have t₃ := run_touched (List.Subset.refl _) e₃
  rw [rpInit_eq, e₁, Option.bind_some, e₂, Option.bind_some, e₃, Option.bind_some] at init
  have sb : s₃.disk.file SB_IDX =
      some (mapPersistentRegion (SB_IDX.filesize numSb) (p.addr SB_IDX)) := by
    rw [t₃.file SB_IDX (by decide)]
    simp [created]
  have empty : s₃.disk.avail.ptr = none := by
    rw [avail]
    rfl
  obtain ⟨-, made⟩ := construct_initialised new sb (header_map p SB_IDX) empty init
  obtain ⟨others, start, fits⟩ := construct_address new sb (header_map p SB_IDX) init
  obtain ⟨file, address⟩ := others DESC_IDX (by decide)
  have address' : s.address DESC_IDX = s₁.address DESC_IDX :=
    (address.trans (t₃.address DESC_IDX (by decide))).trans (t₂.address DESC_IDX (by decide))
  refine ⟨made, start, fits, _, ((file.trans (t₃.file DESC_IDX (by decide))).trans
    (t₂.file DESC_IDX (by decide))).trans fd, address'.trans ad, ?_⟩
  rw [desc_region alloc, address', ad]

/-- The region in the middle of a run: it has `k` superblocks. -/
structure Whole (p : Proc numSb) (s : State) (f : Mem) (H : List ℕ) (k : ℕ) : Prop where
  pos : 0 < k
  curr : currAddr (p.addr SB_IDX) f = s.address SB_IDX + k * SBSIZE
  inside : s.address SB_IDX + k * SBSIZE ≤ p.addr SB_IDX + SB_IDX.filesize numSb
  handed : ∀ sb ∈ H, ∃ n, 0 < n ∧ n < k ∧ sb = s.address SB_IDX + n * SBSIZE

/-- The superblocks that were handed out are still there when there are more. -/
lemma Whole.handed_lt {k k' sb : ℕ} (w : Whole p s f H k) (le : k ≤ k') (hsb : sb ∈ H) :
    ∃ n, 0 < n ∧ n < k' ∧ sb = s.address SB_IDX + n * SBSIZE := by
  obtain ⟨n, pos, lt, e⟩ := w.handed sb hsb
  exact ⟨n, pos, lt.trans_le le, e⟩

/-- A `curr_addr` behind the base reads back. -/
lemma currAddr_setCurrAddr_add {base c : ℕ} (hc : 0 < c) (hlt : c < ADDR) (hb : base + c < WORD) :
    currAddr base (setCurrAddr base f (base + c)) = base + c := by
  rw [currAddr, setCurrAddr, toPptrOff_add base hc, load_store (toPptrOff_lt hlt (by decide))]
  exact fromPptrOff_moved (by omega) (by omega) (by omega) (by omega) hb

section expand

variable {k m : ℕ} (w : Whole p s f H k) (aligned : s.address SB_IDX % SBSIZE = 0)
  (hm : m * SBSIZE ≤ 2 * ADDR)
include w aligned hm

/-- What `__nvm_region_allocator` computes for an expansion by whole superblocks. -/
lemma Whole.expand_eq :
    alignAdj (s.address SB_IDX + k * SBSIZE) PAGESIZE = s.address SB_IDX + k * SBSIZE ∧
      bumpNext (s.address SB_IDX + k * SBSIZE) PAGESIZE (m * SBSIZE) =
        s.address SB_IDX + (k + m) * SBSIZE ∧
      p.sbRegion.limit = p.addr SB_IDX + SB_IDX.filesize numSb := by
  have bound := p.bound SB_IDX
  have inside := w.inside
  unfold ADDR at bound hm
  have adj : alignAdj (s.address SB_IDX + k * SBSIZE) PAGESIZE = s.address SB_IDX + k * SBSIZE := by
    refine alignAdj_page ?_
    rw [Nat.add_mul_mod_self_right, aligned]
  refine ⟨adj, ?_, Nat.mod_eq_of_lt ?_⟩
  · rw [bumpNext, adj, Nat.add_mul, Nat.add_assoc, Nat.mod_eq_of_lt]
    unfold WORD
    omega
  · show p.addr SB_IDX + SB_IDX.filesize numSb < WORD
    unfold WORD
    omega

/-- An expansion by whole superblocks. -/
lemma Whole.expand {f' : Mem} {t : ℕ} (above : p.addr SB_IDX < s.address SB_IDX)
    (hfs : SB_IDX.filesize numSb < ADDR)
    (call : regionAllocator p.sbRegion f PAGESIZE (m * SBSIZE) = some (t, f')) :
    t = s.address SB_IDX + k * SBSIZE ∧ 0 < m ∧
      currAddr (p.addr SB_IDX) f' = s.address SB_IDX + (k + m) * SBSIZE ∧
      s.address SB_IDX + (k + m) * SBSIZE ≤ p.addr SB_IDX + SB_IDX.filesize numSb := by
  have bound := p.bound SB_IDX
  obtain ⟨adj, next, limit⟩ := w.expand_eq aligned hm
  unfold ADDR at bound hm hfs
  obtain ⟨args, fits, ht, hf'⟩ := regionAllocator_some call
  change t = alignAdj (currAddr (p.addr SB_IDX) f) PAGESIZE at ht
  change f' = setCurrAddr (p.addr SB_IDX) f
    (bumpNext (currAddr (p.addr SB_IDX) f) PAGESIZE _) at hf'
  change Region.fits _ (currAddr (p.addr SB_IDX) f) PAGESIZE _ = true at fits
  rw [w.curr] at ht hf' fits
  rw [Region.fits, next, limit, decide_eq_true_eq] at fits
  refine ⟨ht.trans adj, ?_, ?_, fits⟩
  · simp only [argsOk, decide_eq_true_eq] at args
    exact Nat.pos_of_ne_zero fun e => args.1 (by rw [e, Nat.zero_mul])
  · obtain ⟨c, hc⟩ := Nat.exists_eq_add_of_lt (lt_of_lt_of_le above
      (Nat.le_add_right _ ((k + m) * SBSIZE)))
    rw [hf', next, hc, Nat.add_assoc]
    refine currAddr_setCurrAddr_add (by omega) ?_ ?_
    · unfold ADDR
      omega
    · unfold WORD
      omega

/-- It succeeds if there is room. -/
lemma Whole.exists_expand (pos : 0 < m)
    (room : s.address SB_IDX + (k + m) * SBSIZE ≤ p.addr SB_IDX + SB_IDX.filesize numSb) :
    ∃ r, regionAllocator p.sbRegion f PAGESIZE (m * SBSIZE) = some r := by
  obtain ⟨-, next, limit⟩ := w.expand_eq aligned hm
  have curr : currAddr p.sbRegion.base f = s.address SB_IDX + k * SBSIZE := w.curr
  have args : argsOk PAGESIZE (m * SBSIZE) = true := by
    simp only [argsOk, decide_eq_true_eq]
    exact ⟨(Nat.mul_pos pos (by decide)).ne', by decide, by decide⟩
  refine ⟨_, if_pos ⟨args, ?_⟩⟩
  rwa [curr, Region.fits, next, limit, decide_eq_true_eq]

end expand

/-- The beginning of a run. -/
lemma whole_warm {D : List ℕ} (made : Initialised p s f)
    (fits : s.address SB_IDX + SB_REGION_EXPAND_SIZE ≤ p.addr SB_IDX + SB_IDX.filesize numSb)
    (list : IsList (fun d => (s.disk.desc d).nextFree) s.disk.avail.ptr D) :
    Whole p s f (D.map (sbLookup (s.address SB_IDX))) EXPAND_SBS := by
  have bound := p.bound SB_IDX
  unfold ADDR at bound
  obtain ⟨D', list', -, mem⟩ := made.avail
  cases list.unique list'
  refine ⟨by decide, ?_, fits, fun sb hsb => ?_⟩
  · rw [made.curr, made.address]
    rfl
  · obtain ⟨d, hd, rfl⟩ := List.mem_map.1 hsb
    obtain ⟨dpos, below⟩ := (mem d).1 hd
    rw [made.curr, ← made.address, EXPAND_eq] at below
    have lt : d < EXPAND_SBS := by
      rw [SBSIZE_eq] at below
      omega
    refine ⟨d, dpos, lt, sbLookup_eq ?_⟩
    rw [EXPAND_eq] at fits
    unfold WORD
    omega

section step

variable {f' : Mem} {k t : ℕ} (w : Whole p s f H k) (aligned : s.address SB_IDX % SBSIZE = 0)
  (above : p.addr SB_IDX < s.address SB_IDX) (hfs : SB_IDX.filesize numSb < ADDR)
include w aligned above hfs

/-- An expansion of `small_sb_alloc`. -/
lemma Whole.small
    (call : regionAllocator p.sbRegion f PAGESIZE SB_REGION_EXPAND_SIZE = some (t, f')) :
    t = s.address SB_IDX + k * SBSIZE ∧
      Whole p s f' (H ++ (List.range EXPAND_SBS).map (t + · * SBSIZE)) (k + EXPAND_SBS) := by
  rw [EXPAND_eq] at call
  obtain ⟨rfl, -, curr, inside⟩ := w.expand aligned (by decide) above hfs call
  refine ⟨rfl, w.pos.trans_le (Nat.le_add_right _ _), curr, inside, fun sb hsb => ?_⟩
  rcases List.mem_append.1 hsb with old | new
  · exact w.handed_lt (Nat.le_add_right _ _) old
  · obtain ⟨i, hi, rfl⟩ := List.mem_map.1 new
    refine ⟨k + i, Nat.add_pos_left w.pos _, Nat.add_lt_add_left (List.mem_range.1 hi) k, ?_⟩
    rw [Nat.add_mul, Nat.add_assoc]

/-- An expansion for a large block. -/
lemma Whole.large {size : ℕ} (le : size ≤ SB_IDX.filesize numSb)
    (call : regionAllocator p.sbRegion f PAGESIZE (roundUp size SBSIZE) = some (t, f')) :
    t = s.address SB_IDX + k * SBSIZE ∧ ∃ m, Whole p s f' (H ++ [t]) (k + m) := by
  have small : size < ADDR := lt_of_le_of_lt le hfs
  unfold ADDR at small
  rw [roundUp_eq (by rw [SBSIZE_eq]; unfold WORD; omega)] at call
  obtain ⟨rfl, mpos, curr, inside⟩ := w.expand aligned
    (by rw [SBSIZE_eq]; unfold ADDR; omega) above hfs call
  refine ⟨rfl, _, w.pos.trans_le (Nat.le_add_right _ _), curr, inside, fun sb hsb => ?_⟩
  rcases List.mem_append.1 hsb with old | new
  · exact w.handed_lt (Nat.le_add_right _ _) old
  · obtain rfl := List.mem_singleton.1 new
    exact ⟨k, w.pos, Nat.lt_add_of_pos_right mpos, rfl⟩

end step

/-- Every run. -/
lemma SbRun.whole (pos : 0 < numSb) (hfs : SB_IDX.filesize numSb < ADDR)
    (init : rpInit p .none = some s) (run : SbRun p s f H) : ∃ k, Whole p s f H k := by
  obtain ⟨⟨f₀, made⟩, start, fits, -⟩ := rpInit_spec pos init
  have aligned : s.address SB_IDX % SBSIZE = 0 := start ▸ alignUp_mod _ SBSIZE
  have above : p.addr SB_IDX < s.address SB_IDX := made.address ▸ made.set
  induction run with
  | warm file list =>
    cases made.file.symm.trans file
    exact ⟨_, whole_warm made fits list⟩
  | small run call ih =>
    obtain ⟨k, w⟩ := ih
    exact ⟨_, (w.small aligned above hfs call).2⟩
  | large size le run call ih =>
    obtain ⟨k, w⟩ := ih
    obtain ⟨-, m, w'⟩ := w.large aligned above hfs le call
    exact ⟨_, w'⟩

/-- Whatever the superblock region was asked for since the first `RP_init`: a superblock that was
handed out has a number, which is not 0; every number below `curr_addr` is a whole superblock and
one of the heap, its descriptor is inside the descriptor region, and its offset fits a list word and
is not the one of `nullptr`. -/
theorem sb_slots {size : ℕ} (num : numSb = size / SBSIZE) (lo : MIN_SB_REGION_SIZE ≤ size)
    (hi : size < MAX_SB_REGION_SIZE) (init : rpInit p .none = some s) (run : SbRun p s f H) :
    (∀ sb ∈ H, ∃ n, 0 < n ∧ sb = s.address SB_IDX + n * SBSIZE ∧ sb < currAddr (p.addr SB_IDX) f) ∧
      ∃ fd, s.disk.file DESC_IDX = some fd ∧
        ∀ n, s.address SB_IDX + n * SBSIZE < currAddr (p.addr SB_IDX) f →
          s.address SB_IDX + (n + 1) * SBSIZE ≤ currAddr (p.addr SB_IDX) f ∧ n < size / SBSIZE ∧
            s.address DESC_IDX + (n + 1) * DESCSIZE ≤ currAddr (p.addr DESC_IDX) fd ∧
            n * DESCSIZE < 2 ^ MAX_DESC_OFFSET_BITS ∧
            (0 < n → descOff (some n) ≠ descOff none) := by
  have e1 : MIN_SB_REGION_SIZE = 16384 * 65536 := rfl
  have e2 : MAX_SB_REGION_SIZE = 2 ^ 40 := rfl
  have pos : 0 < numSb := by
    rw [num, SBSIZE_eq]
    omega
  have filesize : SB_IDX.filesize numSb = (numSb * SBSIZE / PAGESIZE + 2) * PAGESIZE := rfl
  obtain ⟨⟨f₀, made⟩, -, -, fd, file, -, curr⟩ := rpInit_spec pos init
  have above : p.addr SB_IDX < s.address SB_IDX := made.address ▸ made.set
  have hfs : SB_IDX.filesize numSb < ADDR := by
    rw [filesize, num, SBSIZE_eq]
    unfold ADDR PAGESIZE
    omega
  obtain ⟨k, w⟩ := run.whole pos hfs init
  have inside := w.inside
  rw [filesize, SBSIZE_eq] at inside
  unfold PAGESIZE at inside
  have kle : k ≤ numSb := by omega
  refine ⟨fun sb hsb => ?_, fd, file, fun n hn => ?_⟩
  · obtain ⟨n, npos, nlt, rfl⟩ := w.handed sb hsb
    refine ⟨n, npos, rfl, ?_⟩
    rw [w.curr]
    exact Nat.add_lt_add_left (Nat.mul_lt_mul_of_pos_right nlt (by decide)) _
  · rw [w.curr] at hn ⊢
    have nlt : n < k := Nat.lt_of_mul_lt_mul_right (Nat.lt_of_add_lt_add_left hn)
    refine ⟨Nat.add_le_add_left (Nat.mul_le_mul_right _ nlt) _, num ▸ nlt.trans_le kle, ?_, ?_,
      fun npos => ?_⟩
    · rw [curr]
      exact Nat.add_le_add_left (Nat.mul_le_mul_right _ (nlt.trans_le kle)) _
    · rw [num, SBSIZE_eq] at kle
      show n * 64 < 2 ^ 30
      omega
    · show n * 64 ≠ 0
      omega

/-- With room for another expansion the regions still end below the 48 bit limit. -/
lemma spacious_bound (i : RegionIndex) : (roomy 1).addr i + i.filesize 49153 ≤ ADDR := by
  cases i <;> decide

/-- A heap with room for two expansions behind the first one. -/
def spacious : Proc 49153 where
  pid := 1
  addr := (roomy 1).addr
  page := (roomy 1).page
  bound := spacious_bound

/-- After the first `RP_init` of this heap `small_sb_alloc` has expanded the region once more, and a
large block has followed. -/
lemma exists_grown : ∃ s f H, rpInit spacious .none = some s ∧ SbRun spacious s f H ∧
    s.address SB_IDX + EXPAND_SBS * SBSIZE ∈ H ∧
    s.address SB_IDX + (EXPAND_SBS + EXPAND_SBS) * SBSIZE ∈ H := by
  have pos : 0 < 49153 := by decide
  have hfs : SB_IDX.filesize 49153 < ADDR := by decide
  obtain ⟨s, init⟩ := (exists_rpInit_iff (p := spacious) pos).2
    (show alignUp (2 ^ 41 + PAGESIZE) SBSIZE + SB_REGION_EXPAND_SIZE ≤
      2 ^ 41 + SB_IDX.filesize 49153 by decide)
  obtain ⟨⟨f, made⟩, start, fits, -⟩ := rpInit_spec pos init
  obtain ⟨D, list, -⟩ := made.avail
  have start' : s.address SB_IDX = 2 ^ 41 + SBSIZE := start.trans (by decide)
  have aligned : s.address SB_IDX % SBSIZE = 0 := start ▸ alignUp_mod _ SBSIZE
  have above : spacious.addr SB_IDX < s.address SB_IDX := made.address ▸ made.set
  have room : ∀ k ≤ EXPAND_SBS + EXPAND_SBS + 1, s.address SB_IDX + k * SBSIZE ≤
      spacious.addr SB_IDX + SB_IDX.filesize 49153 := by
    intro k hk
    refine le_trans (Nat.add_le_add_left (Nat.mul_le_mul_right _ hk) _) ?_
    rw [start']
    exact show 2 ^ 41 + SBSIZE + (EXPAND_SBS + EXPAND_SBS + 1) * SBSIZE ≤
      2 ^ 41 + SB_IDX.filesize 49153 by decide
  have w := whole_warm made fits list
  obtain ⟨⟨t, f₁⟩, call⟩ := w.exists_expand aligned (m := EXPAND_SBS) (by decide) (by decide)
    (room _ (Nat.le_succ _))
  obtain ⟨rfl, w⟩ := w.small aligned above hfs call
  have grown := (SbRun.warm made.file list).small call
  obtain ⟨⟨t, f₂⟩, call'⟩ := w.exists_expand aligned (m := 1) (by decide) (by decide)
    (room _ le_rfl)
  obtain ⟨rfl, -⟩ := w.expand aligned (by decide) above hfs call'
  -- 20000 bytes are rounded up to one superblock
  have last := grown.large 20000 (by decide) (show regionAllocator spacious.sbRegion f₁ PAGESIZE
    (roundUp 20000 SBSIZE) = _ from call')
  refine ⟨s, f₂, _, init, last, ?_, ?_⟩
  · refine List.mem_append_left _ (List.mem_append_right _ (List.mem_map.2 ⟨0, ?_, ?_⟩))
    · exact List.mem_range.2 (by decide)
    · rw [Nat.zero_mul, Nat.add_zero]
  · exact List.mem_append_right _ (List.mem_singleton.2 rfl)

/-- The first superblock of the later expansion and the large block behind it have descriptors. -/
theorem sb_slots_grown : ∃ s f H fd, rpInit spacious .none = some s ∧ SbRun spacious s f H ∧
    s.disk.file DESC_IDX = some fd ∧ s.address SB_IDX + EXPAND_SBS * SBSIZE ∈ H ∧
    s.address SB_IDX + (EXPAND_SBS + EXPAND_SBS) * SBSIZE ∈ H ∧
    EXPAND_SBS + EXPAND_SBS < 49153 ∧
    s.address DESC_IDX + (EXPAND_SBS + EXPAND_SBS + 1) * DESCSIZE ≤ currAddr (2 ^ 40) fd ∧
    descOff (some (EXPAND_SBS + EXPAND_SBS)) ≠ descOff none := by
  obtain ⟨s, f, H, init, run, first, last⟩ := exists_grown
  obtain ⟨handed, fd, file, slots⟩ := sb_slots (show 49153 = 49153 * 65536 / SBSIZE by decide)
    (by decide) (by decide) init run
  obtain ⟨-, -, -, lt⟩ := handed _ last
  obtain ⟨-, few, desc, -, ne⟩ := slots _ lt
  exact ⟨s, f, H, fd, init, run, file, first, last, few, desc, ne (by decide)⟩

end Init

end Ralloc
