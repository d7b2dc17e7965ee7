import Ralloc.Machine.Step

/-!
# The bytes of blocks

`mallocSize` is what `RP_malloc_size` reports. A block in use, small or large, owns the
`mallocSize` bytes from its address on: they lie in superblocks of the region (`Rep.block`) and two
blocks in use do not share any (`Rep.disjoint`). From this follows that a client that writes inside
a block it holds does not disturb the allocator (`Trans.write`).
-/

namespace Ralloc

open Lib SuperblockState

variable {cfg : Cfg} {t : ℕ} {h h' : Heap} {L L' : Ledger}

/-- `RP_malloc_size`. -/
def mallocSize (cfg : Cfg) (h : Heap) (p : ℕ) : ℕ := (h.desc (sbIndex cfg.heapStart p)).blockSize

/-- Where a block in use is: it fills a part of the superblocks `d .. d + m - 1`, which are all its
own, or it is one of the blocks of superblock `d`. -/
structure Extent (cfg : Cfg) (L : Ledger) (p size d m : ℕ) : Prop where
  pos : 0 < m
  lo : cfg.sb d ≤ p
  hi : p + size ≤ cfg.sb (d + m)
  large : ∀ j, d ≤ j → j < d + m → (∀ sc o, L.role j ≠ .small sc o) → L.role j = .large p
  small : ∀ {j sc o}, d ≤ j → j < d + m → L.role j = .small sc o →
    m = 1 ∧ size = blockSize sc ∧ ∃ i < maxcount sc, p = cfg.blk sc d i
  born : ∀ j, d ≤ j → j < d + m → L.role j ≠ .unborn

/-- A block of a class. -/
lemma Rep.extent_small (rep : Rep cfg h L) (ok : L.Ok cfg) {p sc d o} (hr : L.role d = .small sc o)
    (hm : p ∈ cfg.blocks sc d) : mallocSize cfg h p = blockSize sc ∧
      Extent cfg L p (mallocSize cfg h p) d 1 := by
  have hsc := ok.cls hr
  have hsize : mallocSize cfg h p = blockSize sc := by
    rw [mallocSize, ok.sbIndex_of_mem hr hm, (rep.small hr).2.1]
  obtain ⟨i, hi, rfl⟩ := Cfg.mem_blocks.1 hm
  have hb := Cfg.blk_bounds cfg d hsc hi
  have only_d : ∀ {j}, d ≤ j → j < d + 1 → j = d := by omega
  refine ⟨hsize, ⟨by omega, hb.1, ?_, fun j h1 h2 h3 => ?_, fun {j _ _} h1 h2 h3 => ?_,
    fun j h1 h2 => ?_⟩⟩
  · rw [hsize, Cfg.sb_succ]
    exact hb.2
  · cases only_d h1 h2
    exact absurd hr (h3 sc o)
  · cases only_d h1 h2
    rw [hr] at h3
    cases h3
    exact ⟨rfl, hsize, i, hi, rfl⟩
  · cases only_d h1 h2
    simp [hr]

/-- A large block. -/
lemma Rep.extent_large (rep : Rep cfg h L) (ok : L.Ok cfg) {p d} (hd : L.role d = .large p) :
    ∃ e k, 0 < k ∧ p = cfg.sb e ∧ mallocSize cfg h p = k * SBSIZE ∧
      Extent cfg L p (mallocSize cfg h p) e k := by
  obtain ⟨e, rfl, he⟩ := ok.largeStart hd
  obtain ⟨k, hk, hitems, hb⟩ := rep.large he
  have hsize : mallocSize cfg h (cfg.sb e) = k * SBSIZE := by
    rw [mallocSize, (ok.insideOf he (by simp)).sbIndex_sb, hb]
  have role : ∀ j, e ≤ j → j < e + k → L.role j = .large (cfg.sb e) := by
    intro j h1 h2
    refine (ok.mem_sbs (r := .large (cfg.sb e)) trivial).1 ?_
    rw [hitems, List.mem_range'_1]
    exact ⟨h1, h2⟩
  refine ⟨e, k, hk, rfl, hsize, ⟨hk, le_rfl, ?_, fun j h1 h2 _ => role j h1 h2, ?_,
    fun j h1 h2 => ?_⟩⟩
  · rw [hsize, Cfg.sb_add]
  · intro j sc o h1 h2 h3
    rw [role j h1 h2] at h3
    cases h3
  · simp [role j h1 h2]

/-- A block in use is a block of a class or a large block. -/
lemma Ledger.Ok.block (ok : L.Ok cfg) {p} (hp : L.place p ≠ .none) :
    (∃ sc d o, L.role d = .small sc o ∧ p ∈ cfg.blocks sc d) ∨
      L.place p = .held ∧ ∃ d, L.role d = .large p := by
  have hh := ok.home p
  cases hpl : L.place p with
  | none => exact absurd hpl hp
  | held =>
    rw [hpl] at hh
    rcases hh with ⟨sc, d, o, hr, hm⟩ | hd
    · exact .inl ⟨sc, d, o, hr, hm⟩
    · exact .inr ⟨rfl, hd⟩
  | freeing u sc =>
    rw [hpl] at hh
    obtain ⟨d, o, hr, hm⟩ := hh
    exact .inl ⟨sc, d, o, hr, hm⟩
  | cached u sc =>
    rw [hpl] at hh
    obtain ⟨d, o, hr, hm⟩ := hh
    exact .inl ⟨sc, d, o, hr, hm⟩
  | hands u sc =>
    rw [hpl] at hh
    obtain ⟨d, o, hr, hm⟩ := hh
    exact .inl ⟨sc, d, o, hr, hm⟩
  | free d =>
    rw [hpl] at hh
    obtain ⟨sc, o, hr, hm⟩ := hh
    exact .inl ⟨sc, d, o, hr, hm⟩

/-- The clients know of the blocks they hold. -/
lemma Rep.held_iff (rep : Rep cfg h L) {p} : h.client p = .held ↔ L.place p = .held := by
  rw [rep.client]
  cases L.place p <;> simp [Place.client]

/-- Every block in use has an extent. -/
lemma Rep.extent (rep : Rep cfg h L) (ok : L.Ok cfg) {p} (hp : L.place p ≠ .none) :
    ∃ d m, Extent cfg L p (mallocSize cfg h p) d m := by
  rcases ok.block hp with ⟨sc, d, o, hr, hm⟩ | ⟨-, d, hd⟩
  · exact ⟨d, 1, (rep.extent_small ok hr hm).2⟩
  · obtain ⟨e, k, -, -, -, hx⟩ := rep.extent_large ok hd
    exact ⟨e, k, hx⟩

/-- Two blocks in use have no byte in common. -/
theorem Rep.disjoint (rep : Rep cfg h L) (ok : L.Ok cfg) {p q} (hp : L.place p ≠ .none)
    (hq : L.place q ≠ .none) (ne : p ≠ q) :
    p + mallocSize cfg h p ≤ q ∨ q + mallocSize cfg h q ≤ p := by
  obtain ⟨d, m, xp⟩ := rep.extent ok hp
  obtain ⟨e, k, xq⟩ := rep.extent ok hq
  by_cases sep : d + m ≤ e ∨ e + k ≤ d
  · -- different superblocks
    rcases sep with h1 | h1
    · have h2 : cfg.sb (d + m) ≤ cfg.sb e := Cfg.sb_le_sb.2 h1
      have h3 := xp.hi
      have h4 := xq.lo
      omega
    · have h2 : cfg.sb (e + k) ≤ cfg.sb d := Cfg.sb_le_sb.2 h1
      have h3 := xq.hi
      have h4 := xp.lo
      omega
  · have hm := xp.pos
    have hk := xq.pos
    obtain ⟨j, hj⟩ : ∃ j, j = max d e := ⟨_, rfl⟩
    have jp : d ≤ j ∧ j < d + m := by omega
    have jq : e ≤ j ∧ j < e + k := by omega
    by_cases hs : ∀ sc o, L.role j ≠ .small sc o
    · have h1 := xp.large j jp.1 jp.2 hs
      rw [xq.large j jq.1 jq.2 hs] at h1
      cases h1
      exact absurd rfl ne
    · -- two blocks of one superblock
      simp only [not_forall, not_not] at hs
      obtain ⟨sc, o, hr⟩ := hs
      obtain ⟨rfl, s1, i, -, p1⟩ := xp.small jp.1 jp.2 hr
      obtain ⟨rfl, s2, i', -, p2⟩ := xq.small jq.1 jq.2 hr
      obtain rfl : d = e := by omega
      rw [s1, s2, p1, p2]
      refine Cfg.blk_disjoint ?_
      rintro rfl
      exact ne (p1.trans p2.symm)

/-- A listed block has room for its link word. -/
lemma Rep.eight_le (rep : Rep cfg h L) (ok : L.Ok cfg) {b c} (hb : L.place b = c) (hc : c.Tracked) :
    8 ≤ mallocSize cfg h b := by
  have hne : L.place b ≠ .none := by
    rw [hb]
    rintro rfl
    exact hc
  rcases ok.block hne with ⟨sc, d, o, hr, hm⟩ | ⟨hpl, -⟩
  · rw [(rep.extent_small ok hr hm).1]
    exact (ok.cls hr).eight_le
  · rw [hb] at hpl
    subst hpl
    exact hc.elim

/-- A byte outside the first word of a block is not part of its link. -/
lemma Heap.link_write {h : Heap} {a b : ℕ} {v : UInt8} (out : a < b ∨ b + 8 ≤ a) :
    ({ h with mem := Function.update h.mem a v } : Heap).link b = h.link b := by
  have e : load (Function.update h.mem a v) b 8 = load h.mem b 8 :=
    load_congr fun i h1 h2 => Function.update_of_ne (by omega) ..
  exact congrArg (fromPptrOff · b) e

/-- A client writes a byte of a block it holds. -/
theorem Rep.write (rep : Rep cfg h L) (ok : L.Ok cfg) {p a v} (hp : L.place p = .held)
    (lo : p ≤ a) (hi : a < p + mallocSize cfg h p) (u : ℕ) :
    Rep cfg { h with mem := Function.update h.mem a v } L ∧
      Frame u h L { h with mem := Function.update h.mem a v } L := by
  have link : ∀ {b c}, L.place b = c → c.Tracked →
      ({ h with mem := Function.update h.mem a v } : Heap).link b = h.link b := by
    intro b c hb hc
    refine Heap.link_write ?_
    have hne : p ≠ b := by
      rintro rfl
      rw [hp] at hb
      subst hb
      exact hc
    have hb' : L.place b ≠ .none := by
      rw [hb]
      rintro rfl
      exact hc
    have := rep.eight_le ok hb hc
    rcases rep.disjoint ok (by simp [hp]) hb' hne with h1 | h1 <;> omega
  have linked : ∀ {c : Place}, c.Tracked → Linked h.link (L.blks.items c) →
      Linked ({ h with mem := Function.update h.mem a v } : Heap).link (L.blks.items c) :=
    fun hc hl => hl.congr fun b hb =>
      link ((ok.mem_items hc).1 (List.dropLast_subset _ hb)) hc
  constructor
  · refine { rep with
      free := fun d => linked (c := .free d) trivial (rep.free d)
      cache := fun u sc => ?_ }
    have c := rep.cache u sc
    exact ⟨c.num, c.head, linked (c := .cached u sc) trivial c.linked, c.le⟩
  · exact { Frame.refl u h L with link := fun hb => link hb trivial }

end Ralloc
