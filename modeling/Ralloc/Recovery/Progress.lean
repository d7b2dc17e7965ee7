import Ralloc.Recovery.Marks

/-!
# How far the sweep is

`Progress cfg h₀ M d h av`: the sweep of heap `h₀` for the marks `M` has come to superblock `d` with
heap `h` and local list `av`. The superblocks before `d` are as they will stay (`Settled`), the
lists have exactly those of them that belong there, and nothing from `d` on has changed. Each of the
three kinds of turn has one lemma that takes `Progress` to the next superblock.
-/

namespace Ralloc

open Lib SuperblockState

variable {cfg : Cfg} {h₀ h h' : Heap} {N d e k sc : ℕ} {M : Finset ℕ} {av : Option ℕ}

/-- How the sweep leaves a small superblock in which it has freed the blocks `C`. -/
structure UsedRep (cfg : Cfg) (h₀ h : Heap) (d sc : ℕ) (C : List ℕ) : Prop where
  plain : (h.desc d).plain = (h₀.desc d).plain
  nextFree : (h.desc d).nextFree = none
  full : C = [] → (h.desc d).anchor = .full (maxcount sc)
  part : C ≠ [] → ∃ i, C.getLast? = some (cfg.blk sc d i) ∧
    (h.desc d).anchor = ⟨i, C.length, SB_PARTIAL⟩
  inside : ∀ c ∈ C, c + 8 ≤ cfg.sb (d + 1)
  linked : Linked h.link C.reverse

/-- The descriptor of a large block that is kept. -/
def Descriptor.keep (D : Descriptor) : Descriptor :=
  { D with nextFree := none, nextPartial := none, anchor := ⟨0, 0, SB_FULL⟩ }

/-- How the sweep leaves superblock `e`. -/
structure Settled (cfg : Cfg) (h₀ : Heap) (M : Finset ℕ) (h : Heap) (e : ℕ) : Prop where
  reclaimed : Reclaimed cfg h₀ M e →
    h.desc e = { Descriptor.reset with nextFree := (h.desc e).nextFree }
  used : ∀ sc, Used cfg h₀ M e sc → UsedRep cfg h₀ h e sc (freedBlocks cfg M e sc)
  kept : ∀ k, Kept cfg h₀ M e k → h.desc e = (h₀.desc e).keep
  covered : Covered cfg h₀ M e → h.desc e = h₀.desc e

/-- The sweep has come to superblock `d`. -/
structure Progress (cfg : Cfg) (h₀ : Heap) (M : Finset ℕ) (d : ℕ) (h : Heap) (av : Option ℕ) :
    Prop where
  rest : ∀ e, d ≤ e → h.desc e = h₀.desc e
  settled : ∀ e, 0 < e → e < d → Settled cfg h₀ M h e
  avail : ∃ D, IsList (fun e => (h.desc e).next .avail) av D ∧ D.Nodup ∧
    ∀ e, e ∈ D ↔ (0 < e ∧ e < d) ∧ Reclaimed cfg h₀ M e
  part : ∀ sc, ∃ P, h.Lists (.part sc) P ∧ P.Nodup ∧
    ∀ e, e ∈ P ↔ (0 < e ∧ e < d) ∧ Used cfg h₀ M e sc ∧ freedBlocks cfg M e sc ≠ []
  mem : ∀ a, (∀ e sc, 0 < e → e < d → Used cfg h₀ M e sc → ∀ c ∈ freedBlocks cfg M e sc,
    a < c ∨ c + 8 ≤ a) → h.mem a = h₀.mem a

/-- Only descriptor `d` has changed, and memory only from superblock `d` on. -/
structure OnlyFrom (cfg : Cfg) (d : ℕ) (h h' : Heap) : Prop where
  desc : ∀ e, e ≠ d → h'.desc e = h.desc e
  mem : ∀ a, a < cfg.sb d → h'.mem a = h.mem a

/-- Writing descriptor `d` changes nothing before it. -/
lemma OnlyFrom.setDesc (cfg : Cfg) (h : Heap) (d : ℕ) (D : Descriptor) :
    OnlyFrom cfg d h (h.setDesc d D) :=
  ⟨fun _ ne => Heap.desc_setDesc_ne ne, fun _ _ => rfl⟩

/-- Settled superblocks are not touched again. -/
lemma Settled.mono (st : Settled cfg h₀ M h e) (o : OnlyFrom cfg d h h') (lt : e < d) :
    Settled cfg h₀ M h' e := by
  have hd := o.desc e (by omega)
  constructor
  case reclaimed => rw [hd]; exact st.reclaimed
  case kept => rw [hd]; exact st.kept
  case covered => rw [hd]; exact st.covered
  case used =>
    intro sc hu
    obtain ⟨h1, h2, h3, h4, h5, h6⟩ := st.used sc hu
    refine ⟨by rwa [hd], by rwa [hd], by rwa [hd], by rwa [hd], h5, h6.congr fun c hc => ?_⟩
    have hc := h5 c (List.mem_reverse.1 (List.dropLast_subset _ hc))
    have hle : cfg.sb (e + 1) ≤ cfg.sb d := Cfg.sb_le_sb.2 lt
    unfold Heap.link
    rw [load_congr fun a _ ha => o.mem a (by omega)]

/-- A list of superblocks before `d` is still there. -/
lemma OnlyFrom.isList {l : ListId} {hd : Option ℕ} {D : List ℕ} (o : OnlyFrom cfg d h h')
    (hl : IsList (fun e => (h.desc e).next l) hd D) (lt : ∀ e ∈ D, e < d) :
    IsList (fun e => (h'.desc e).next l) hd D := by
  refine hl.congr fun e he => ?_
  have := lt e he
  rw [o.desc e (by omega)]

/-- The superblocks before `d` with a property are those before `n` if none in between has it. -/
lemma range_ext {p : ℕ → Prop} {n : ℕ} (le : d ≤ n) (no : ∀ e, d ≤ e → e < n → ¬p e) (e : ℕ) :
    ((0 < e ∧ e < d) ∧ p e) ↔ ((0 < e ∧ e < n) ∧ p e) := by
  refine ⟨fun ⟨h1, h2⟩ => ⟨⟨h1.1, by omega⟩, h2⟩, fun ⟨h1, h2⟩ => ⟨⟨h1.1, ?_⟩, h2⟩⟩
  by_contra hlt
  exact no e (by omega) h1.2 h2

/-- The superblocks before `d` with a property, and `d` itself. -/
lemma range_cons {p : ℕ → Prop} {D : List ℕ} (mem : ∀ e, e ∈ D ↔ (0 < e ∧ e < d) ∧ p e)
    (pos : 0 < d) (hd : p d) (e : ℕ) : e ∈ d :: D ↔ (0 < e ∧ e < d + 1) ∧ p e := by
  rw [List.mem_cons, mem]
  constructor
  · rintro (rfl | ⟨h1, h2⟩)
    · exact ⟨⟨pos, by omega⟩, hd⟩
    · exact ⟨⟨h1.1, by omega⟩, h2⟩
  · rintro ⟨h1, h2⟩
    by_cases h3 : e = d
    · exact .inl h3
    · exact .inr ⟨⟨h1.1, by omega⟩, h2⟩

/-- The sweep has freed superblock `d`. -/
lemma Progress.reclaim (pr : Progress cfg h₀ M d h av) (pos : 0 < d) (hr : Reclaimed cfg h₀ M d) :
    Progress cfg h₀ M (d + 1) (h.setDesc d { Descriptor.reset with nextFree := av }) (some d) := by
  have o := OnlyFrom.setDesc cfg h d { Descriptor.reset with nextFree := av }
  have only : ∀ {e}, d ≤ e → e < d + 1 → e = d := by omega
  constructor
  case rest =>
    intro e he
    rw [o.desc e (by omega)]
    exact pr.rest e (by omega)
  case settled =>
    intro e h1 h2
    by_cases hlt : e < d
    · exact (pr.settled e h1 hlt).mono o hlt
    · obtain rfl : e = d := by omega
      refine ⟨fun _ => ?_, fun sc hu => absurd hu (hr.used sc), fun k hk => absurd hk (hr.kept k),
        fun hc => absurd hc hr.covered⟩
      rw [Heap.desc_setDesc_self]
  case avail =>
    obtain ⟨D, hl, nd, mem⟩ := pr.avail
    have lt : ∀ e ∈ D, e < d := fun e he => ((mem e).1 he).1.2
    refine ⟨d :: D, ⟨rfl, ?_⟩, List.nodup_cons.2 ⟨fun hd => absurd (lt d hd) (by omega), nd⟩,
      range_cons mem pos hr⟩
    simp only [Heap.desc_setDesc_self]
    exact o.isList hl lt
  case part =>
    intro sc
    obtain ⟨P, hl, nd, mem⟩ := pr.part sc
    refine ⟨P, o.isList hl fun e he => ((mem e).1 he).1.2, nd, fun e => (mem e).trans ?_⟩
    refine range_ext (p := fun e => Used cfg h₀ M e sc ∧ freedBlocks cfg M e sc ≠ [])
      (Nat.le_succ d) (fun e h1 h2 hu => ?_) e
    cases only h1 h2
    exact hr.used sc hu.1
  case mem =>
    exact fun a ha => pr.mem a fun e sc h1 h2 => ha e sc h1 (by omega)

/-- The sweep has kept the large block at superblock `d`. -/
lemma Progress.keep (pr : Progress cfg h₀ M d h av) (rc : Sweepable cfg h₀ N M) (pos : 0 < d)
    (lt : d < N) (hk : Kept cfg h₀ M d k) :
    Progress cfg h₀ M (d + k) (h.setDesc d (h.desc d).keep) av := by
  have o := OnlyFrom.setDesc cfg h d (h.desc d).keep
  have kpos := hk.large.pos
  have none : ∀ {e}, d < e → e < d + k → (h₀.desc e).heap = none :=
    fun h1 h2 => rc.interior pos lt hk h1 h2
  have cov : ∀ {e}, d < e → e < d + k → Covered cfg h₀ M e :=
    fun h1 h2 => ⟨d, k, pos, hk, h1, h2⟩
  have noUsed : ∀ e sc, d ≤ e → e < d + k → ¬Used cfg h₀ M e sc := by
    intro e sc h1 h2 hu
    by_cases he : e = d
    · subst he
      exact hu.small.not_large hk.large
    · have := hu.small.heap
      rw [none (by omega) h2] at this
      cases this
  have noReclaimed : ∀ e, d ≤ e → e < d + k → ¬Reclaimed cfg h₀ M e := by
    intro e h1 h2 hr
    by_cases he : e = d
    · subst he
      exact hr.kept k hk
    · exact hr.covered (cov (by omega) h2)
  constructor
  case rest =>
    intro e he
    rw [o.desc e (by omega)]
    exact pr.rest e (by omega)
  case settled =>
    intro e h1 h2
    by_cases hlt : e < d
    · exact (pr.settled e h1 hlt).mono o hlt
    refine ⟨fun hr => absurd hr (noReclaimed e (by omega) h2),
      fun sc hu => absurd hu (noUsed e sc (by omega) h2), fun k' hk' => ?_, fun hc => ?_⟩
    · by_cases he : e = d
      · subst he
        rw [Heap.desc_setDesc_self, pr.rest e le_rfl]
      · have := hk'.large.heap
        rw [none (by omega) h2] at this
        cases this
    · by_cases he : e = d
      · -- the first superblock of a large block is not inside another one
        subst he
        obtain ⟨e', k', pos', hk', h3, h4⟩ := hc
        have := rc.interior pos' (by omega) hk' h3 h4
        rw [hk.large.heap] at this
        cases this
      · rw [o.desc e he]
        exact pr.rest e (by omega)
  case avail =>
    obtain ⟨D, hl, nd, mem⟩ := pr.avail
    refine ⟨D, o.isList hl fun e he => ((mem e).1 he).1.2, nd, fun e => (mem e).trans ?_⟩
    exact range_ext (by omega) noReclaimed e
  case part =>
    intro sc
    obtain ⟨P, hl, nd, mem⟩ := pr.part sc
    refine ⟨P, o.isList hl fun e he => ((mem e).1 he).1.2, nd, fun e => (mem e).trans ?_⟩
    exact range_ext (p := fun e => Used cfg h₀ M e sc ∧ freedBlocks cfg M e sc ≠ []) (by omega)
      (fun e h1 h2 hu => noUsed e sc h1 h2 hu.1) e
  case mem =>
    exact fun a ha => pr.mem a fun e sc h1 h2 => ha e sc h1 (by omega)

/-- The last block that the sweep frees in superblock `d` starts at a multiple of `block_size`. -/
def LastAligned (cfg : Cfg) (M : Finset ℕ) (d sc : ℕ) : Prop :=
  ∀ c ∈ (freedBlocks cfg M d sc).getLast?, (c - cfg.sb d) % blockSize sc = 0

/-- Nothing is freed, or there is a last block, and the others end before it starts. -/
lemma freedBlocks_cases (cfg : Cfg) (M : Finset ℕ) (d : ℕ) (hsc : SmallClass sc) :
    freedBlocks cfg M d sc = [] ∨ ∃ l z, freedBlocks cfg M d sc = l ++ [z] ∧
      ∀ c ∈ l, c + blockSize sc ≤ z := by
  rcases List.eq_nil_or_concat (freedBlocks cfg M d sc) with e | ⟨l, z, e⟩
  · exact .inl e
  · rw [List.concat_eq_append] at e
    have sp := freedBlocks_spaced cfg M d hsc
    rw [e] at sp
    exact .inr ⟨l, z, e, fun c hc => (List.pairwise_append.1 sp).2.2 c hc z (by simp)⟩

/-- Then the words of all its freed blocks lie inside the superblock. -/
lemma LastAligned.inside (al : LastAligned cfg M d sc) (hsc : SmallClass sc) {c}
    (hc : c ∈ freedBlocks cfg M d sc) : c + 8 ≤ cfg.sb (d + 1) := by
  have h8 := hsc.eight_le
  rcases freedBlocks_cases cfg M d hsc with e | ⟨l, z, e, before⟩
  · rw [e] at hc
    cases hc
  have hin := inSb_of_mem_freedBlocks hsc (show z ∈ freedBlocks cfg M d sc by simp [e])
  have last : z + 8 ≤ cfg.sb (d + 1) := by
    have h1 : 8 ∣ z - cfg.sb d := (Nat.dvd_of_mod_eq_zero hsc.aligned).trans
      (Nat.dvd_of_mod_eq_zero (al z (by simp [e])))
    have h2 := cfg.sb_mod d
    have h3 := cfg.sb_mod (d + 1)
    rw [SBSIZE_eq] at h2 h3
    have h4 := hin.1
    have h5 := hin.2
    omega
  rw [e, List.mem_append, List.mem_singleton] at hc
  rcases hc with hc | rfl
  · have := before c hc
    omega
  · exact last

/-- The descriptor lists and the memory after a turn that has rebuilt superblock `d`. -/
lemma Progress.use (pr : Progress cfg h₀ M d h av) (rc : Sweepable cfg h₀ N M) (pos : 0 < d)
    (lt : d < N) (hu : Used cfg h₀ M d sc) (o : OnlyFrom cfg d h h')
    (used : UsedRep cfg h₀ h' d sc (freedBlocks cfg M d sc))
    (part : ∀ sc', ∃ P, h'.Lists (.part sc') P ∧ P.Nodup ∧ ∀ e, e ∈ P ↔
      (0 < e ∧ e < d + 1) ∧ Used cfg h₀ M e sc' ∧ freedBlocks cfg M e sc' ≠ [])
    (mem : ∀ a, (∀ c ∈ freedBlocks cfg M d sc, a < c ∨ c + 8 ≤ a) → h'.mem a = h.mem a) :
    Progress cfg h₀ M (d + 1) h' av := by
  have only : ∀ {e}, d ≤ e → e < d + 1 → e = d := by omega
  have noReclaimed : ¬Reclaimed cfg h₀ M d := fun hr => hr.used sc hu
  refine ⟨fun e he => ?_, fun e h1 h2 => ?_, ?_, part, fun a ha => ?_⟩
  · rw [o.desc e (by omega)]
    exact pr.rest e (by omega)
  · by_cases hlt : e < d
    · exact (pr.settled e h1 hlt).mono o hlt
    obtain rfl : e = d := by omega
    refine ⟨fun hr => absurd hr noReclaimed, fun sc' hu' => ?_,
      fun k hk => absurd hk.large hu.small.not_large, fun hc => ?_⟩
    · rw [← hu.small.unique hu'.small]
      exact used
    · obtain ⟨e', k', pos', hk', h3, h4⟩ := hc
      have := rc.interior pos' (by omega) hk' h3 h4
      rw [hu.small.heap] at this
      cases this
  · obtain ⟨D, hl, nd, mem⟩ := pr.avail
    refine ⟨D, o.isList hl fun e he => ((mem e).1 he).1.2, nd, fun e => (mem e).trans ?_⟩
    refine range_ext (Nat.le_succ d) (fun e h1 h2 => ?_) e
    cases only h1 h2
    exact noReclaimed
  · rw [mem a (ha d sc pos (by omega) hu)]
    exact pr.mem a fun e sc h1 h2 => ha e sc h1 (by omega)

/-- A partial list does not change when a superblock that is not on it is rebuilt. -/
lemma Progress.part_keep (pr : Progress cfg h₀ M d h av) (o : OnlyFrom cfg d h h')
    (hhead : h'.head (.part sc) = h.head (.part sc))
    (no : Used cfg h₀ M d sc → freedBlocks cfg M d sc = []) :
    ∃ P, h'.Lists (.part sc) P ∧ P.Nodup ∧ ∀ e, e ∈ P ↔
      (0 < e ∧ e < d + 1) ∧ Used cfg h₀ M e sc ∧ freedBlocks cfg M e sc ≠ [] := by
  obtain ⟨P, hl, nd, mem⟩ := pr.part sc
  refine ⟨P, ?_, nd, fun e => (mem e).trans ?_⟩
  · rw [Heap.Lists, hhead]
    exact o.isList hl fun e he => ((mem e).1 he).1.2
  · refine range_ext (p := fun e => Used cfg h₀ M e sc ∧ freedBlocks cfg M e sc ≠ [])
      (Nat.le_succ d) (fun e h1 h2 hu => ?_) e
    obtain rfl : e = d := by omega
    exact hu.2 (no hu.1)

/-- A superblock that is rebuilt with free blocks goes to the front of its partial list. -/
lemma Progress.part_push (pr : Progress cfg h₀ M d h av) (pos : 0 < d) (o : OnlyFrom cfg d h h')
    (hhead : (h'.head (.part sc)).ptr = some d)
    (hnext : (h'.desc d).nextPartial = (h.head (.part sc)).ptr)
    (hu : Used cfg h₀ M d sc) (hne : freedBlocks cfg M d sc ≠ []) :
    ∃ P, h'.Lists (.part sc) P ∧ P.Nodup ∧ ∀ e, e ∈ P ↔
      (0 < e ∧ e < d + 1) ∧ Used cfg h₀ M e sc ∧ freedBlocks cfg M e sc ≠ [] := by
  obtain ⟨P, hl, nd, mem⟩ := pr.part sc
  have lt : ∀ e ∈ P, e < d := fun e he => ((mem e).1 he).1.2
  refine ⟨d :: P, ⟨hhead, ?_⟩, List.nodup_cons.2 ⟨fun hd => absurd (lt d hd) (by omega), nd⟩,
    range_cons mem pos ⟨hu, hne⟩⟩
  show IsList _ (h'.desc d).nextPartial P
  rw [hnext]
  exact o.isList hl lt

/-- No superblock is on its partial list before it is rebuilt. -/
lemma Progress.head_ne (pr : Progress cfg h₀ M d h av) : (h.head (.part sc)).ptr ≠ some d := by
  obtain ⟨P, hl, -, mem⟩ := pr.part sc
  intro e
  rw [hl.head_eq] at e
  exact absurd ((mem d).1 (List.mem_of_head? e)).1.2 (by omega)

section finish

variable {ms B : List ℕ}

/-- A small superblock whose marks leave nothing free. -/
lemma Progress.finish_full (pr : Progress cfg h₀ M d h av) (rc : Sweepable cfg h₀ N M)
    (pos : 0 < d) (lt : d < N) (hu : Used cfg h₀ M d sc) (hC : freedBlocks cfg M d sc = []) :
    ∃ h', finishSmall (.at cfg h d ms av) (h.desc d) B
        (FreeList.pushAll ⟨h, 0, 0⟩ (freedBlocks cfg M d sc)) = .done (.at cfg h' (d + 1) B av) ∧
      Progress cfg h₀ M (d + 1) h' av := by
  have hD : h.desc d = h₀.desc d := pr.rest d le_rfl
  have o := OnlyFrom.setDesc cfg h d { h.desc d with
    nextFree := none
    nextPartial := none
    anchor := .full (h.desc d).maxcount }
  refine ⟨_, ?_, pr.use rc pos lt hu o ?_ (fun sc' => pr.part_keep o rfl fun hu' => ?_)
    fun _ _ => rfl⟩
  · have hcount : (FreeList.pushAll ⟨h, 0, 0⟩ []).count = 0 := rfl
    rw [hC, finishSmall, if_pos hcount]
    simp only [Sweep.at, Cfg.sb_succ]
    rfl
  · rw [hC]
    refine ⟨?_, ?_, fun _ => ?_, fun h => absurd rfl h, by simp, linked_nil⟩
    · rw [Heap.desc_setDesc_self, hD]
      rfl
    · rw [Heap.desc_setDesc_self]
    · rw [Heap.desc_setDesc_self, hD, hu.small.maxcount]
  · rw [← hu.small.unique hu'.small]
    exact hC

/-- The free list of superblock `d` after its loops. -/
lemma pushed (rc : Sweepable cfg h₀ N M) (lt : d < N) (h : Heap) (hsc : SmallClass sc) :
    FreeList.Pushed ⟨h, 0, 0⟩ (freedBlocks cfg M d sc)
      (FreeList.pushAll ⟨h, 0, 0⟩ (freedBlocks cfg M d sc)) := by
  have h8 := hsc.eight_le
  refine FreeList.pushAll_spec _ ((freedBlocks_spaced cfg M d hsc).imp fun h => by omega)
    fun c hc => ?_
  refine (rc.insideOf lt).lt ?_
  have := (inSb_of_mem_freedBlocks hsc hc).2
  rwa [Cfg.sb_succ] at this

/-- What `heap_push_partial` does. -/
lemma pushPartial_spec {D : Descriptor} (hptr : (h.head (.part sc)).ptr ≠ some d) :
    ∃ h', pushPartial h d sc D = .done h' ∧
      h'.desc d = { D with nextPartial := (h.head (.part sc)).ptr } ∧
      (∀ e, e ≠ d → h'.desc e = h.desc e) ∧ h'.mem = h.mem ∧
      (h'.head (.part sc)).ptr = some d ∧ ∀ l, l ≠ .part sc → h'.head l = h.head l := by
  refine ⟨_, if_neg hptr, Heap.desc_setDesc_self .., ?_, rfl, ?_, ?_⟩
  · exact fun e ne => Heap.desc_setDesc_ne ne
  · simp [Heap.setHead]
  · intro l ne
    simp [Heap.setHead, ne, Heap.setDesc]

/-- A small superblock in which the sweep frees blocks. -/
lemma Progress.finish_partial (pr : Progress cfg h₀ M d h av) (rc : Sweepable cfg h₀ N M)
    (pos : 0 < d) (lt : d < N) (hu : Used cfg h₀ M d sc) (hne : freedBlocks cfg M d sc ≠ [])
    (al : LastAligned cfg M d sc) :
    ∃ h', finishSmall (.at cfg h d ms av) (h.desc d) B
        (FreeList.pushAll ⟨h, 0, 0⟩ (freedBlocks cfg M d sc)) = .done (.at cfg h' (d + 1) B av) ∧
      Progress cfg h₀ M (d + 1) h' av := by
  have hsc := hu.small.cls
  have hD : h.desc d = h₀.desc d := pr.rest d le_rfl
  obtain ⟨l, z, hC, -⟩ := (freedBlocks_cases cfg M d hsc).resolve_left hne
  have hlast : (freedBlocks cfg M d sc).getLast? = some z := by simp [hC]
  have hz := inSb_of_mem_freedBlocks hsc (List.mem_of_getLast? hlast)
  have hmod := al z hlast
  have hblk : z = cfg.blk sc d ((z - cfg.sb d) / blockSize sc) := by
    rw [Cfg.blk, Nat.div_mul_cancel (Nat.dvd_of_mod_eq_zero hmod)]
    have := hz.1
    omega
  have p := pushed (M := M) rc lt h hsc
  set r := FreeList.pushAll ⟨h, 0, 0⟩ (freedBlocks cfg M d sc)
  have hhead : r.head = z := by rw [p.head, hlast]; rfl
  have hcount : r.count = (freedBlocks cfg M d sc).length := by rw [p.count]; exact Nat.zero_add _
  have hdesc : r.heap.desc = h.desc := by rw [p.heap]
  have hheads : r.heap.head = h.head := by rw [p.heap]
  have hsize : (h.desc d).blockSize = blockSize sc := by rw [hD, hu.small.size]
  have hheap : (h.desc d).heap.getD 0 = sc := by rw [hD, hu.small.heap]; rfl
  have hptr : (r.heap.head (.part sc)).ptr ≠ some d := by rw [hheads]; exact pr.head_ne
  obtain ⟨h', hpush, hd, hother, hmem, hfirst, hlists⟩ := pushPartial_spec (D := { h.desc d with
    nextFree := none
    anchor := ⟨(r.head - cfg.sb d) / (h.desc d).blockSize, r.count, SB_PARTIAL⟩ }) hptr
  refine ⟨h', ?_, ?_⟩
  · have h0 : r.count ≠ 0 := by rw [hcount]; exact (List.length_pos_iff.2 hne).ne'
    have h1 : r.head ≠ 0 := by
      have := cfg.sb_pos d
      have := hz.1
      omega
    have h2 : ¬(r.head - cfg.sb d) % (h.desc d).blockSize ≠ 0 := by
      rw [hhead, hsize]
      exact not_not.2 hmod
    simp only [finishSmall, Sweep.at, if_neg h0, if_neg h1, if_neg h2, hheap, hpush,
      Outcome.bind_done, Cfg.sb_succ]
  · have o : OnlyFrom cfg d h h' := by
      refine ⟨fun e ne => by rw [hother e ne, hdesc], fun a ha => ?_⟩
      rw [hmem]
      exact p.mem a fun c hc => .inl (lt_of_lt_of_le ha (inSb_of_mem_freedBlocks hsc hc).1)
    refine pr.use rc pos lt hu o ?_ (fun sc' => ?_) fun a ha => by rw [hmem]; exact p.mem a ha
    · refine ⟨by rw [hd, ← hD]; rfl, by rw [hd], fun e => absurd e hne, fun _ => ?_,
        fun c hc => al.inside hsc hc, ?_⟩
      · refine ⟨(z - cfg.sb d) / blockSize sc, by rw [hlast, ← hblk], ?_⟩
        rw [hd, hhead, hsize, hcount]
      · have hlink : h'.link = r.heap.link := by
          funext b
          rw [Heap.link, Heap.link, hmem]
        rw [hlink]
        exact p.linked
    · by_cases e : sc' = sc
      · subst e
        refine pr.part_push pos o hfirst ?_ hu hne
        rw [hd, hheads]
      · refine pr.part_keep o ?_ fun hu' => absurd (hu'.small.unique hu.small) e
        rw [hlists _ (by simpa using e), hheads]

/-- A small superblock in which the last freed block is not aligned. -/
lemma finish_unaligned (rc : Sweepable cfg h₀ N M) (lt : d < N) (hD : h.desc d = h₀.desc d)
    (hu : Used cfg h₀ M d sc) (al : ¬LastAligned cfg M d sc) :
    finishSmall (.at cfg h d ms av) (h.desc d) B
        (FreeList.pushAll ⟨h, 0, 0⟩ (freedBlocks cfg M d sc)) = .failed .aligned := by
  have hsc := hu.small.cls
  simp only [LastAligned, Option.mem_def, not_forall] at al
  obtain ⟨z, hlast, hmod⟩ := al
  have hz := inSb_of_mem_freedBlocks hsc (List.mem_of_getLast? hlast)
  have p := pushed (M := M) rc lt h hsc
  set r := FreeList.pushAll ⟨h, 0, 0⟩ (freedBlocks cfg M d sc)
  have hhead : r.head = z := by rw [p.head, hlast]; rfl
  have h0 : r.count ≠ 0 := by
    rw [p.count]
    have := List.length_pos_iff.2 (List.ne_nil_of_mem (List.mem_of_getLast? hlast))
    omega
  have h1 : r.head ≠ 0 := by
    have := cfg.sb_pos d
    have := hz.1
    omega
  have h2 : (r.head - cfg.sb d) % (h.desc d).blockSize ≠ 0 := by
    rw [hhead, hD, hu.small.size]
    exact hmod
  rw [finishSmall, if_neg h0, if_neg h1]
  exact if_pos h2

end finish

end Ralloc
