import Ralloc.Model.Mapping

/-!
# Lookups after a restart

`desc_lookup` divides absolute addresses by the size of a superblock. That is the number of the
superblock only as long as the first superblock is aligned, which the constructor of `BaseMeta` sees
to when the heap is created. `mmap` only promises pages, so the alignment need not survive a
restart. `lookups_iff`: the lookups are right exactly when the superblock region is mapped at the
same distance from an aligned address as on the first run. `sb_lookup` is always right.
-/

namespace Ralloc

variable {filesize N : ℕ}

/-- The lookups of superblock `n` are right: every address in it leads to descriptor `n`, which
leads back to its start. -/
structure LookupsOk (descs sbs n : ℕ) : Prop where
  desc : ∀ o < SBSIZE, descLookup descs sbs (sbs + n * SBSIZE + o) = descs + n * DESCSIZE
  sb : sbLookupDesc descs sbs (descs + n * DESCSIZE) = sbs + n * SBSIZE

/-- `sb_lookup` does not depend on the alignment of the superblocks. -/
lemma sbLookupDesc_eq {descs sbs n : ℕ} (al : descs % DESCSIZE = 0)
    (hd : descs + n * DESCSIZE < WORD) (hs : sbs + n * SBSIZE < WORD) :
    sbLookupDesc descs sbs (descs + n * DESCSIZE) = sbs + n * SBSIZE := by
  rw [sbLookupDesc, descIndex_eq al hd, sbLookup_eq hs]

/-- With an aligned first superblock the lookups are right. -/
lemma lookupsOk_of_aligned {descs sbs n : ℕ} (al : descs % DESCSIZE = 0) (sal : sbs % SBSIZE = 0)
    (hd : descs + n * DESCSIZE < WORD) (hs : sbs + (n + 1) * SBSIZE < WORD) :
    LookupsOk descs sbs n := by
  have hn : (n + 1) * SBSIZE = n * SBSIZE + SBSIZE := Nat.succ_mul ..
  refine ⟨fun o ho => ?_, sbLookupDesc_eq al hd (by omega)⟩
  rw [descLookup, sbIndex_eq sal ho (by omega), Nat.mod_eq_of_lt hd]

/-- With any other one, the end of the first superblock is taken for the second one. -/
lemma aligned_of_lookupsOk {descs sbs : ℕ} (hd : descs + DESCSIZE < WORD)
    (ok : LookupsOk descs sbs 0) : sbs % SBSIZE = 0 := by
  by_contra ne
  have hr := Nat.mod_lt sbs (show 0 < SBSIZE by decide)
  have h := ok.desc (SBSIZE - sbs % SBSIZE) (by omega)
  have idx : sbIndex sbs (sbs + 0 * SBSIZE + (SBSIZE - sbs % SBSIZE)) = 1 := by
    unfold sbIndex SB_SHIFT
    rw [SBSIZE_eq] at ne hr ⊢
    rw [Nat.shiftRight_eq_div_pow, Nat.shiftRight_eq_div_pow]
    unfold WORD
    omega
  rw [descLookup, idx, Nat.one_mul, Nat.mod_eq_of_lt hd] at h
  unfold DESCSIZE CACHELINE_SIZE at h
  omega

/-- The first superblock is aligned again exactly when the base is congruent to the first one. -/
lemma regionsAddress_aligned (first now : MapAddr filesize) :
    regionsAddress SBSIZE first.addr now.addr % SBSIZE = 0 ↔
      now.addr % SBSIZE = first.addr % SBSIZE := by
  have h1 := alignUp_mod (first.addr + PAGESIZE) SBSIZE
  have h2 := le_alignUp (n := first.addr + PAGESIZE) (show 0 < SBSIZE by decide)
  rw [regionsAddress_sbs first now]
  rw [SBSIZE_eq] at h1 h2 ⊢
  omega

/-- The superblocks of a heap and their descriptors fit their files. -/
lemma inside_files {numSb : ℕ} (first now : SbAddr numSb) (dfirst dnow : DescAddr numSb)
    (fits : regionsAddress SBSIZE first.addr first.addr + N * SBSIZE ≤
      first.addr + fileSize (numSb * SBSIZE)) :
    regionsAddress SBSIZE first.addr now.addr + N * SBSIZE ≤ ADDR ∧
      regionsAddress CACHELINE_SIZE dfirst.addr dnow.addr + N * DESCSIZE ≤ ADDR := by
  have hle := le_alignUp (n := first.addr + PAGESIZE) (show 0 < SBSIZE by decide)
  have hb := now.bound
  have hdb := dnow.bound
  have hf : fileSize (numSb * SBSIZE) = numSb * 65536 + 8192 := by
    unfold fileSize PAGESIZE
    rw [SBSIZE_eq]
    omega
  have hdf : numSb * DESCSIZE + PAGESIZE ≤ fileSize (numSb * DESCSIZE) := by
    unfold fileSize PAGESIZE
    omega
  have hN : N * SBSIZE = N * 65536 := by rw [SBSIZE_eq]
  have hp : PAGESIZE = 4096 := rfl
  rw [regionsAddress_descs dfirst dnow, regionsAddress_sbs first now]
  rw [regionsAddress_sbs first first] at fits
  have hD : N * DESCSIZE ≤ numSb * DESCSIZE := Nat.mul_le_mul_right _ (by omega)
  omega

/-- For a heap created with its superblocks mapped at `first.addr` and reopened at `now.addr`, and
with `N` superblocks below `curr_addr`, the lookups are right for every superblock exactly when the
two addresses are congruent modulo the size of a superblock. -/
theorem lookups_iff {numSb : ℕ} (first now : SbAddr numSb) (dfirst dnow : DescAddr numSb)
    (pos : 0 < N) (fits : regionsAddress SBSIZE first.addr first.addr + N * SBSIZE ≤
      first.addr + fileSize (numSb * SBSIZE)) :
    (∀ n < N, LookupsOk (regionsAddress CACHELINE_SIZE dfirst.addr dnow.addr)
      (regionsAddress SBSIZE first.addr now.addr) n) ↔
      now.addr % SBSIZE = first.addr % SBSIZE := by
  obtain ⟨hs, hd⟩ := inside_files first now dfirst dnow fits
  have lt : ∀ {x}, x ≤ ADDR → x < WORD := fun h => lt_of_le_of_lt h (by decide)
  have upto : ∀ n < N, (n + 1) * SBSIZE ≤ N * SBSIZE ∧ (n + 1) * DESCSIZE ≤ N * DESCSIZE :=
    fun n hn => ⟨Nat.mul_le_mul_right _ hn, Nat.mul_le_mul_right _ hn⟩
  rw [← regionsAddress_aligned first now]
  refine ⟨fun ok => aligned_of_lookupsOk (lt ?_) (ok 0 pos), fun al n hn => ?_⟩
  · have h := (upto 0 pos).2
    omega
  · obtain ⟨h1, h2⟩ := upto n hn
    rw [Nat.succ_mul] at h2
    refine lookupsOk_of_aligned ?_ al (lt (by omega)) (lt (by omega))
    have hp := dnow.page
    rw [regionsAddress_descs dfirst dnow]
    unfold PAGESIZE at hp ⊢
    unfold DESCSIZE CACHELINE_SIZE
    omega

/-- The page-aligned address `k` pages behind `2 ^ 40`, for a file of at most 1 TiB. -/
def pageAddr {filesize : ℕ} (le : filesize ≤ 2 ^ 40) (k : Fin 1024) : MapAddr filesize where
  addr := 2 ^ 40 + k * PAGESIZE
  page := by unfold PAGESIZE; omega
  bound := by unfold PAGESIZE ADDR; omega

/-- Such an address for a heap of 2 GiB. -/
def sbAddr (k : Fin 1024) : SbAddr 32768 := pageAddr (by decide) k

/-- Such an address for its descriptors. -/
def descAddr (k : Fin 1024) : DescAddr 32768 := pageAddr (by decide) k

/-- A restart one page further. The descriptors are where they were, but the byte 61440 of
superblock 1 is looked up in descriptor 2. -/
theorem lookup_lost :
    descLookup (regionsAddress CACHELINE_SIZE (descAddr 0).addr (descAddr 0).addr)
        (regionsAddress SBSIZE (sbAddr 0).addr (sbAddr 1).addr)
        (regionsAddress SBSIZE (sbAddr 0).addr (sbAddr 1).addr + 1 * SBSIZE + 61440) =
      regionsAddress CACHELINE_SIZE (descAddr 0).addr (descAddr 0).addr + 2 * DESCSIZE ∧
    ¬LookupsOk (regionsAddress CACHELINE_SIZE (descAddr 0).addr (descAddr 0).addr)
      (regionsAddress SBSIZE (sbAddr 0).addr (sbAddr 1).addr) 1 := by
  refine ⟨by decide, fun ok => ?_⟩
  have h := ok.desc 61440 (by decide)
  revert h
  decide

/-- A restart 16 pages further keeps the lookups. -/
theorem lookups_kept : (sbAddr 16).addr % SBSIZE = (sbAddr 0).addr % SBSIZE ∧ ∀ n < EXPAND_SBS,
    LookupsOk (regionsAddress CACHELINE_SIZE (descAddr 0).addr (descAddr 3).addr)
      (regionsAddress SBSIZE (sbAddr 0).addr (sbAddr 16).addr) n := by
  have same : (sbAddr 16).addr % SBSIZE = (sbAddr 0).addr % SBSIZE := by decide
  exact ⟨same, (lookups_iff (sbAddr 0) (sbAddr 16) (descAddr 0) (descAddr 3) (by decide)
    (by decide)).2 same⟩

end Ralloc
