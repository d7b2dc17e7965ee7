import Ralloc.Durable.Log
import Ralloc.Recovery.Rebuilt

/-!
# Recovery that is interrupted

A crash can also come while the sweep is at work. `Torn cfg N M h h'`: the heap `h'` can be left of
a sweep of `h` for the marks `M` that has not come to its end. Blocks that are marked and their
superblocks are as they were; a superblock that is given up has each field as it was or as the
constructor writes it; free blocks may have a new link. This is so in the course of any turn
(`Passes.torn`) and for every crash image of such heaps (`Torn.image`).

A torn heap is as good as the first one: the sweep can start again (`Torn.rebuildable`), any number
of times, and in the end comes to the same result (`interrupted_result`).
-/

namespace Ralloc

open Lib SuperblockState

variable {cfg : Cfg} {h h' h₀ : Heap} {N d e k sc fuel n : ℕ} {M : Finset ℕ} {av : Option ℕ}

/-- A heap that the sweep for the marks `M` can rebuild. -/
structure Rebuildable (cfg : Cfg) (h : Heap) (N : ℕ) (M : Finset ℕ) : Prop where
  sweepable : Sweepable cfg h N M
  precise : Precise cfg h N M
  unborn : ∀ d, d = 0 ∨ N ≤ d → h.desc d = .reset
  interior : ∀ d, Covered cfg h M d → h.desc d = .reset

/-- Each plain field is as it was or as after construction. -/
structure Descriptor.Mixed (D D' : Descriptor) : Prop where
  superblock : D'.superblock = D.superblock ∨ D'.superblock = none
  heap : D'.heap = D.heap ∨ D'.heap = none
  blockSize : D'.blockSize = D.blockSize ∨ D'.blockSize = 0
  maxcount : D'.maxcount = D.maxcount ∨ D'.maxcount = 0

/-- What can be left of a sweep of `h` for the marks `M`. -/
structure Torn (cfg : Cfg) (N : ℕ) (M : Finset ℕ) (h h' : Heap) : Prop where
  same : h.SameRoots h'
  mixed : ∀ e, (h.desc e).Mixed (h'.desc e)
  plain : ∀ e, ¬Reclaimed cfg h M e → (h'.desc e).plain = (h.desc e).plain
  outside : ∀ e, e = 0 ∨ N ≤ e → h'.desc e = h.desc e
  covered : ∀ e, Covered cfg h M e → h'.desc e = h.desc e
  mem : ∀ a, (∀ e sc, 0 < e → e < N → Used cfg h M e sc → ∀ c ∈ freedBlocks cfg M e sc,
    a < c ∨ c + 8 ≤ a) → h'.mem a = h.mem a

/-- With the same plain fields. -/
lemma Descriptor.mixed_of_plain {D D' : Descriptor} (e : D'.plain = D.plain) : D.Mixed D' := by
  simp only [Descriptor.plain, Prod.mk.injEq] at e
  exact ⟨.inl e.1, .inl e.2.1, .inl e.2.2.1, .inl e.2.2.2⟩

section mixed

/-- A mixed descriptor that is in use for a class has been so before. -/
lemma Descriptor.Mixed.isSmall (mx : (h.desc d).Mixed (h'.desc d)) (hs : IsSmall cfg h' d sc) :
    IsSmall cfg h d sc := by
  obtain ⟨cls, heap, superblock, size, maxcount⟩ := hs
  have h8 := cls.eight_le
  have h4 := cls.four_le
  refine ⟨cls, ?_, ?_, ?_, ?_⟩
  · rcases mx.heap with e | e
    · rw [← e, heap]
    · rw [e] at heap
      cases heap
  · rcases mx.superblock with e | e
    · rw [← e, superblock]
    · rw [e] at superblock
      cases superblock
  · rcases mx.blockSize with e | e
    · rw [← e, size]
    · omega
  · rcases mx.maxcount with e | e
    · rw [← e, maxcount]
    · omega

/-- What looks like a large block was one. -/
lemma Descriptor.Mixed.isLarge (mx : (h.desc d).Mixed (h'.desc d)) (hl : IsLarge cfg h' d k) :
    IsLarge cfg h d k := by
  obtain ⟨pos, heap, superblock, size, maxcount⟩ := hl
  refine ⟨pos, ?_, ?_, ?_, ?_⟩
  · rcases mx.heap with e | e
    · rw [← e, heap]
    · rw [e] at heap
      cases heap
  · rcases mx.superblock with e | e
    · rw [← e, superblock]
    · rw [e] at superblock
      cases superblock
  · rcases mx.blockSize with e | e
    · rw [← e, size]
    · have := Nat.mul_pos pos (show 0 < SBSIZE by simp [SBSIZE_eq])
      omega
  · rcases mx.maxcount with e | e
    · rw [← e, maxcount]
    · omega

/-- What is in use depends on the plain fields. -/
lemma IsSmall.of_plain (hs : IsSmall cfg h d sc) (e : (h'.desc d).plain = (h.desc d).plain) :
    IsSmall cfg h' d sc := by
  simp only [Descriptor.plain, Prod.mk.injEq] at e
  exact ⟨hs.cls, e.2.1.trans hs.heap, e.1.trans hs.superblock, e.2.2.1.trans hs.size,
    e.2.2.2.trans hs.maxcount⟩

/-- The plain fields say what is large. -/
lemma IsLarge.of_plain (hl : IsLarge cfg h d k) (e : (h'.desc d).plain = (h.desc d).plain) :
    IsLarge cfg h' d k := by
  simp only [Descriptor.plain, Prod.mk.injEq] at e
  exact ⟨hl.pos, e.2.1.trans hl.heap, e.1.trans hl.superblock, e.2.2.1.trans hl.size,
    e.2.2.2.trans hl.maxcount⟩

end mixed

section torn

variable (tn : Torn cfg N M h h')
include tn

/-- The sweep has to do the same as before. -/
lemma Torn.used_iff : Used cfg h' M d sc ↔ Used cfg h M d sc := by
  refine ⟨fun hu => ⟨(tn.mixed d).isSmall hu.small, hu.marked⟩,
    fun hu => ⟨hu.small.of_plain ?_, hu.marked⟩⟩
  exact tn.plain d fun hr => hr.used sc hu

/-- The same large blocks are kept. -/
lemma Torn.kept_same_iff : Kept cfg h' M d k ↔ Kept cfg h M d k := by
  refine ⟨fun hk => ⟨(tn.mixed d).isLarge hk.large, hk.marked⟩,
    fun hk => ⟨hk.large.of_plain ?_, hk.marked⟩⟩
  exact tn.plain d fun hr => hr.kept k hk

/-- The same superblocks lie inside a large block. -/
lemma Torn.covered_iff : Covered cfg h' M d ↔ Covered cfg h M d := by
  refine exists_congr fun e => exists_congr fun k => ?_
  rw [tn.kept_same_iff]

/-- The same superblocks are reclaimed. -/
lemma Torn.reclaimed_iff : Reclaimed cfg h' M d ↔ Reclaimed cfg h M d := by
  refine ⟨fun hr => ⟨fun sc => ?_, fun k => ?_, ?_⟩, fun hr => ⟨fun sc => ?_, fun k => ?_, ?_⟩⟩
  · exact fun hu => hr.used sc (tn.used_iff.2 hu)
  · exact fun hk => hr.kept k (tn.kept_same_iff.2 hk)
  · exact fun hc => hr.covered (tn.covered_iff.2 hc)
  · exact fun hu => hr.used sc (tn.used_iff.1 hu)
  · exact fun hk => hr.kept k (tn.kept_same_iff.1 hk)
  · exact fun hc => hr.covered (tn.covered_iff.1 hc)

/-- What was unused still is. -/
lemma Torn.heap_none (e : (h.desc d).heap = none) : (h'.desc d).heap = none := by
  rcases (tn.mixed d).heap with same | none
  · exact same.trans e
  · exact none

/-- The sweep can start again. -/
lemma Torn.rebuildable (rd : Rebuildable cfg h N M) : Rebuildable cfg h' N M := by
  have rc := rd.sweepable
  have small : ∀ {d sc}, Marked cfg M d → IsSmall cfg h d sc → IsSmall cfg h' d sc :=
    fun hm hs => (tn.used_iff.2 ⟨hs, hm⟩).small
  have large : ∀ {d k}, Marked cfg M d → IsLarge cfg h d k → IsLarge cfg h' d k :=
    fun hm hl => (tn.kept_same_iff.2 ⟨hl, hm⟩).large
  constructor
  case sweepable =>
    refine ⟨rc.pos, tn.same.currAddr.trans rc.curr, rc.inside, fun d h1 h2 hm => ?_,
      fun h1 h2 hk => ?_, fun h1 h2 hk h3 h4 => ?_⟩
    · rcases rc.kind d h1 h2 hm with none | ⟨sc, hs⟩ | ⟨k, hl⟩
      · exact .inl (tn.heap_none none)
      · exact .inr (.inl ⟨sc, small hm hs⟩)
      · exact .inr (.inr ⟨k, large hm hl⟩)
    · exact rc.fits h1 h2 (tn.kept_same_iff.1 hk)
    · have hk := tn.kept_same_iff.1 hk
      rw [tn.covered _ ⟨_, _, h1, hk, h3, h4⟩]
      exact rc.interior h1 h2 hk h3 h4
  case precise =>
    intro m hm
    rcases rd.precise m hm with (⟨d, sc, hd, hs, hb⟩ | ⟨d, k, hd, hl, rfl⟩) | ⟨d, hd,
      hin, none, out⟩
    · exact .inl (.inl ⟨d, sc, hd, small ⟨m, hm, inSb_of_mem_blocks hs.cls hb⟩ hs, hb⟩)
    · exact .inl (.inr ⟨d, k, hd, large ⟨_, hm, inSb_sb cfg d⟩ hl, rfl⟩)
    · exact .inr ⟨d, hd, hin, tn.heap_none none, fun e k pos hl => out e k pos
        ((tn.mixed e).isLarge hl)⟩
  case unborn => exact fun d out => (tn.outside d out).trans (rd.unborn d out)
  case interior =>
    intro d hc
    have hc := tn.covered_iff.1 hc
    exact (tn.covered d hc).trans (rd.interior d hc)

end torn

/-- A sweep that has not begun. -/
lemma Torn.refl (cfg : Cfg) (N : ℕ) (M : Finset ℕ) (h : Heap) : Torn cfg N M h h :=
  ⟨⟨rfl, rfl⟩, fun _ => Descriptor.mixed_of_plain rfl, fun _ _ => rfl, fun _ _ => rfl,
    fun _ _ => rfl, fun _ _ => rfl⟩

/-- One interrupted sweep after another. -/
lemma Torn.trans {h₁ h₂ h₃ : Heap} (a : Torn cfg N M h₁ h₂) (b : Torn cfg N M h₂ h₃) :
    Torn cfg N M h₁ h₃ := by
  have rest : ∀ {e}, ¬Reclaimed cfg h₁ M e → ¬Reclaimed cfg h₂ M e :=
    fun no hr => no (a.reclaimed_iff.1 hr)
  constructor
  case same => exact a.same.trans b.same
  case mixed =>
    intro e
    obtain ⟨a1, a2, a3, a4⟩ := a.mixed e
    obtain ⟨b1, b2, b3, b4⟩ := b.mixed e
    constructor
    · rcases b1 with e | e
      · rwa [e]
      · exact .inr e
    · rcases b2 with e | e
      · rwa [e]
      · exact .inr e
    · rcases b3 with e | e
      · rwa [e]
      · exact .inr e
    · rcases b4 with e | e
      · rwa [e]
      · exact .inr e
  case plain => exact fun e no => (b.plain e (rest no)).trans (a.plain e no)
  case outside => exact fun e out => (b.outside e out).trans (a.outside e out)
  case covered => exact fun e hc => (b.covered e (a.covered_iff.2 hc)).trans (a.covered e hc)
  case mem =>
    intro x out
    refine (b.mem x fun e sc h1 h2 hu => out e sc h1 h2 (a.used_iff.1 hu)).trans (a.mem x out)

section course

/-- The first `n` turns of the sweep. -/
def sweepTurns (cfg : Cfg) (fuel sbEnd : ℕ) : ℕ → Sweep → Outcome Sweep
  | 0, w => .done w
  | n + 1, w =>
    if w.sb < sbEnd then (sweepTurn cfg fuel w).bind (sweepTurns cfg fuel sbEnd n) else .done w

/-- The locals of the sweep before its first turn. -/
def sweepStart (cfg : Cfg) (h : Heap) (marks : List ℕ) : Sweep :=
  ⟨clearLists h, cfg.heapStart + SBSIZE, sbIndex cfg.heapStart (cfg.heapStart + SBSIZE),
    marks, none⟩

/-- A heap in the course of a turn at descriptor `d` that leads from `h` to `h'`. Whatever is not
transient is as before the turn or as after it. -/
structure Between (d : ℕ) (h h' g : Heap) : Prop where
  same : h.SameRoots g
  desc : ∀ e, e ≠ d → g.desc e = h.desc e
  superblock : (g.desc d).superblock = (h.desc d).superblock ∨
    (g.desc d).superblock = (h'.desc d).superblock
  heap : (g.desc d).heap = (h.desc d).heap ∨ (g.desc d).heap = (h'.desc d).heap
  blockSize : (g.desc d).blockSize = (h.desc d).blockSize ∨
    (g.desc d).blockSize = (h'.desc d).blockSize
  maxcount : (g.desc d).maxcount = (h.desc d).maxcount ∨ (g.desc d).maxcount = (h'.desc d).maxcount
  mem : ∀ a, g.mem a = h.mem a ∨ g.mem a = h'.mem a

/-- The heaps that a sweep of `h` goes through. -/
inductive Passes (cfg : Cfg) (fuel : ℕ) (M : Finset ℕ) (h : Heap) : Heap → Prop
  | start : Passes cfg fuel M h h
  | turn {n : ℕ} {w w' : Sweep} {g : Heap}
    (before : sweepTurns cfg fuel h.currAddr n (sweepStart cfg h M.sort) = .done w)
    (lt : w.sb < h.currAddr) (turn : sweepTurn cfg fuel w = .done w')
    (bt : Between w.desc w.heap w'.heap g) : Passes cfg fuel M h g

/-- The heap `h'` can be left of `h` after any number of recoveries that all have the marks `M` and
are all interrupted by a crash. -/
inductive Interrupted (cfg : Cfg) (fuel : ℕ) (M : Finset ℕ) (h : Heap) : Heap → Prop
  | never : Interrupted cfg fuel M h h
  | crash {h₁ h₂ : Heap} {ℓ : HeapLog} (before : Interrupted cfg fuel M h h₁)
    (hist : ∀ k ≤ ℓ.now, Passes cfg fuel M h₁ (ℓ.hist k)) (im : CrashImage ℓ h₂) :
    Interrupted cfg fuel M h h₂

/-- The sweep starts behind the skipped superblock. -/
lemma sweepStart_eq (rc : Sweepable cfg h N M) (marks : List ℕ) :
    sweepStart cfg h marks = .at cfg (clearLists h) 1 marks none := by
  have hsb : cfg.heapStart + SBSIZE = cfg.sb 1 := by simp [Cfg.sb]
  have hidx := Cfg.sbIndex_sb_le (le_trans (Cfg.sb_le_sb.2 rc.pos) rc.inside)
  rw [sweepStart, hsb, hidx]
  rfl

/-- Some turns of a sweep with admissible marks. -/
lemma sweepTurns_inTime (rc : Sweepable cfg h₀ N M) (hfuel : SBSIZE < fuel) {m : ℕ}
    (t : InTime cfg h₀ N M m d h av) (adm : AdmissibleFrom cfg h₀ N M d) {w : Sweep}
    (e : sweepTurns cfg fuel (cfg.sb N) n (.at cfg h d (marksFrom cfg M d) av) = .done w) :
    ∃ m' d' h' av', w = .at cfg h' d' (marksFrom cfg M d') av' ∧ InTime cfg h₀ N M m' d' h' av' ∧
      d ≤ d' ∧ LoopFrame h h' := by
  induction n generalizing m d h av with
  | zero =>
    cases e
    exact ⟨m, d, h, av, rfl, t, le_rfl, .refl h⟩
  | succ n ih =>
    rw [sweepTurns] at e
    rcases Nat.eq_or_lt_of_le t.le with rfl | lt
    · rw [if_neg (show ¬(Sweep.at cfg h d (marksFrom cfg M d) av).sb <
        cfg.sb d from lt_irrefl _)] at e
      cases e
      exact ⟨m, d, h, av, rfl, t, le_rfl, .refl h⟩
    · have hlt : cfg.sb d < cfg.sb N :=
        lt_of_not_ge fun hle => absurd (Cfg.sb_le_sb.1 hle) (by omega)
      obtain ⟨m, rfl⟩ := Nat.exists_eq_add_one.2 (Nat.zero_lt_of_lt t.turns)
      obtain ⟨d₁, h₁, av₁, ts⟩ := t.turns_on rc lt adm hfuel
      have fr : TurnFrame d h h₁ := sweepTurn_frame ts.turn
      rw [if_pos (show (Sweep.at cfg h d (marksFrom cfg M d) av).sb < cfg.sb N from hlt),
        ts.turn] at e
      obtain ⟨m', d', h', av', ew, t', le, fr'⟩ := ih ts.inTime (adm.mono ts.le) e
      exact ⟨m', d', h', av', ew, t', ts.le.trans le, (fr.loop t.pos).trans fr'⟩

/-- A superblock that is not given up is in use. -/
lemma exists_of_not_reclaimed (no : ¬Reclaimed cfg h M e) :
    (∃ sc, Used cfg h M e sc) ∨ (∃ k, Kept cfg h M e k) ∨ Covered cfg h M e := by
  by_contra none
  push Not at none
  exact no ⟨none.1, none.2.1, none.2.2⟩

/-- The superblocks that the sweep has dealt with. -/
lemma Settled.plain_eq (st : Settled cfg h M h' e) (no : ¬Reclaimed cfg h M e) :
    (h'.desc e).plain = (h.desc e).plain := by
  rcases exists_of_not_reclaimed no with ⟨sc, hu⟩ | ⟨k, hk⟩ | hc
  · exact (st.used sc hu).plain
  · rw [st.kept k hk]
    rfl
  · rw [st.covered hc]

/-- What is left between two turns. -/
lemma Progress.torn (pr : Progress cfg h M d h' av) (le : d ≤ N)
    (fr : LoopFrame (clearLists h) h') :
    Torn cfg N M h h' := by
  have settled : ∀ {e}, ¬d ≤ e → e ≠ 0 → Settled cfg h M h' e :=
    fun h1 h2 => pr.settled _ (by omega) (by omega)
  have plain : ∀ e, ¬Reclaimed cfg h M e → (h'.desc e).plain = (h.desc e).plain := by
    intro e no
    by_cases behind : d ≤ e
    · rw [pr.rest e behind]
    by_cases first : e = 0
    · rw [first, fr.first]
      rfl
    · exact (settled behind first).plain_eq no
  constructor
  case same => exact ⟨fr.same.currAddr, fr.same.roots⟩
  case plain => exact plain
  case mixed =>
    intro e
    by_cases hr : Reclaimed cfg h M e
    · by_cases behind : d ≤ e
      · exact Descriptor.mixed_of_plain (by rw [pr.rest e behind])
      by_cases first : e = 0
      · exact Descriptor.mixed_of_plain (by rw [first, fr.first]; rfl)
      · rw [(settled behind first).reclaimed hr]
        exact ⟨.inr rfl, .inr rfl, .inr rfl, .inr rfl⟩
    · exact Descriptor.mixed_of_plain (plain e hr)
  case outside =>
    rintro e (rfl | behind)
    · exact fr.first
    · exact pr.rest e (le.trans behind)
  case covered =>
    intro e hc
    by_cases behind : d ≤ e
    · exact pr.rest e behind
    · have pos : e ≠ 0 := by
        obtain ⟨_, _, _, _, h1, _⟩ := hc
        omega
      exact (settled behind pos).covered hc
  case mem => exact fun a out => pr.mem a fun e sc h1 h2 => out e sc h1 (by omega)

/-- What is left in the course of a turn. -/
lemma Torn.between {h₁ h₂ : Heap} (a : Torn cfg N M h h₁) (b : Torn cfg N M h h₂)
    (bt : Between d h₁ h₂ h') (hd : 0 < d ∧ d < N) (nc : ¬Covered cfg h M d) :
    Torn cfg N M h h' := by
  constructor
  case same => exact a.same.trans bt.same
  case mixed =>
    intro e
    by_cases ed : e = d
    · subst ed
      have m₁ := a.mixed e
      have m₂ := b.mixed e
      constructor
      · rcases bt.superblock with e | e
        · exact e ▸ m₁.superblock
        · exact e ▸ m₂.superblock
      · rcases bt.heap with e | e
        · exact e ▸ m₁.heap
        · exact e ▸ m₂.heap
      · rcases bt.blockSize with e | e
        · exact e ▸ m₁.blockSize
        · exact e ▸ m₂.blockSize
      · rcases bt.maxcount with e | e
        · exact e ▸ m₁.maxcount
        · exact e ▸ m₂.maxcount
    · rw [bt.desc e ed]
      exact a.mixed e
  case plain =>
    intro e no
    by_cases ed : e = d
    · subst ed
      have p₁ := a.plain e no
      have p₂ := b.plain e no
      simp only [Descriptor.plain, Prod.mk.injEq] at p₁ p₂ ⊢
      refine ⟨?_, ?_, ?_, ?_⟩
      · exact bt.superblock.elim (·.trans p₁.1) (·.trans p₂.1)
      · exact bt.heap.elim (·.trans p₁.2.1) (·.trans p₂.2.1)
      · exact bt.blockSize.elim (·.trans p₁.2.2.1) (·.trans p₂.2.2.1)
      · exact bt.maxcount.elim (·.trans p₁.2.2.2) (·.trans p₂.2.2.2)
    · rw [bt.desc e ed]
      exact a.plain e no
  case outside =>
    intro e out
    rw [bt.desc e (by omega)]
    exact a.outside e out
  case covered =>
    intro e hc
    rw [bt.desc e fun ed => nc (ed ▸ hc)]
    exact a.covered e hc
  case mem =>
    intro x out
    rcases bt.mem x with e | e
    · rw [e, a.mem x out]
    · rw [e, b.mem x out]

/-- What is left at any time of the sweep. -/
lemma Passes.torn (rd : Rebuildable cfg h N M) (hfuel : N + SBSIZE < fuel)
    (p : Passes cfg fuel M h h') :
    Torn cfg N M h h' := by
  have hf : SBSIZE < fuel := by omega
  have rc := rd.sweepable
  have adm := rd.precise.admissible rc
  cases p with
  | start => exact .refl ..
  | @turn n w w' g before lt turn bt =>
    rw [sweepStart_eq rc, sort_eq_marksFrom adm.first, rc.curr] at before
    obtain ⟨m, d, h₁, av, rfl, t, le, fr⟩ := sweepTurns_inTime rc hf (inTime_one rc hfuel)
      adm.rest before
    rw [rc.curr] at lt
    have lt : d < N := lt_of_not_ge fun hle => absurd (Cfg.sb_le_sb.2 hle) (not_le.2 lt)
    obtain ⟨m, rfl⟩ := Nat.exists_eq_add_one.2 (Nat.zero_lt_of_lt t.turns)
    obtain ⟨d₁, h₂, av₁, ts⟩ := t.turns_on rc lt (adm.rest.mono le) hf
    have fr' : TurnFrame d h₁ h₂ := sweepTurn_frame ts.turn
    rw [ts.turn] at turn
    cases turn
    exact (t.progress.torn t.le fr).between
      (ts.inTime.progress.torn ts.inTime.le (fr.trans (fr'.loop t.pos)))
      bt ⟨t.pos, lt⟩ t.covered

/-- A descriptor that is settled is left as it is. -/
lemma CrashImage.desc_eq {ℓ : HeapLog} {m : Heap} (im : CrashImage ℓ m) {D : Descriptor}
    (st : ℓ.Settled (.desc d) fun h => h.desc d = D) : m.desc d = D := by
  have f1 := im.sat (.nextFree d) (P := (· = D.nextFree))
    (st.imp fun _ e => congrArg Descriptor.nextFree e)
  have f2 := im.sat (.nextPartial d) (P := (· = D.nextPartial))
    (st.imp fun _ e => congrArg Descriptor.nextPartial e)
  have f3 := im.sat (.anchor d) (P := (· = D.anchor))
    (st.imp fun _ e => congrArg Descriptor.anchor e)
  have f4 := im.sat (.superblock d) (P := (· = D.superblock))
    (st.imp fun _ e => congrArg Descriptor.superblock e)
  have f5 := im.sat (.heap d) (P := (· = D.heap)) (st.imp fun _ e => congrArg Descriptor.heap e)
  have f6 := im.sat (.blockSize d) (P := (· = D.blockSize))
    (st.imp fun _ e => congrArg Descriptor.blockSize e)
  have f7 := im.sat (.maxcount d) (P := (· = D.maxcount))
    (st.imp fun _ e => congrArg Descriptor.maxcount e)
  cases D
  cases e : m.desc d
  simp only [Heap.read, e] at f1 f2 f3 f4 f5 f6 f7
  rw [f1, f2, f3, f4, f5, f6, f7]

/-- What a crash leaves of torn heaps is torn. -/
lemma Torn.image {ℓ : HeapLog} (hist : ∀ k ≤ ℓ.now, Torn cfg N M h (ℓ.hist k))
    (im : CrashImage ℓ h') :
    Torn cfg N M h h' := by
  have sat : ∀ (l : Loc) {P : l.Val → Prop}, (∀ g, Torn cfg N M h g → P (g.read l)) →
      P (h'.read l) :=
    fun l P hP => im.sat l fun k _ le => hP _ (hist k le)
  have whole : ∀ e (D : Descriptor), (∀ g, Torn cfg N M h g → g.desc e = D) → h'.desc e = D :=
    fun e D hD => im.desc_eq fun k _ le => hD _ (hist k le)
  constructor
  case same =>
    refine ⟨sat .currAddr (P := (· = h.currAddr)) fun g tn => tn.same.currAddr, funext fun i => ?_⟩
    exact sat (.root i) (P := (· = h.roots i)) fun g tn => congrFun tn.same.roots i
  case mixed =>
    intro e
    constructor
    · exact sat (.superblock e) (P := fun v => v = (h.desc e).superblock ∨ v = none) fun g tn =>
        (tn.mixed e).superblock
    · exact sat (.heap e) (P := fun v => v = (h.desc e).heap ∨ v = none) fun g tn =>
        (tn.mixed e).heap
    · exact sat (.blockSize e) (P := fun v => v = (h.desc e).blockSize ∨ v = (0 : ℕ)) fun g tn =>
        (tn.mixed e).blockSize
    · exact sat (.maxcount e) (P := fun v => v = (h.desc e).maxcount ∨ v = (0 : ℕ)) fun g tn =>
        (tn.mixed e).maxcount
  case plain =>
    intro e no
    have p : ∀ g, Torn cfg N M h g → _ := fun g tn => tn.plain e no
    simp only [Descriptor.plain, Prod.mk.injEq] at p ⊢
    refine ⟨?_, ?_, ?_, ?_⟩
    · exact sat (.superblock e) (P := (· = (h.desc e).superblock)) fun g tn => (p g tn).1
    · exact sat (.heap e) (P := (· = (h.desc e).heap)) fun g tn => (p g tn).2.1
    · exact sat (.blockSize e) (P := (· = (h.desc e).blockSize)) fun g tn => (p g tn).2.2.1
    · exact sat (.maxcount e) (P := (· = (h.desc e).maxcount)) fun g tn => (p g tn).2.2.2
  case outside => exact fun e out => whole e _ fun g tn => tn.outside e out
  case covered => exact fun e hc => whole e _ fun g tn => tn.covered e hc
  case mem => exact fun a out => sat (.byte a) (P := (· = h.mem a)) fun g tn => tn.mem a out

/-- What is left after any number of interrupted recoveries. -/
lemma Interrupted.torn (rd : Rebuildable cfg h N M) (hfuel : N + SBSIZE < fuel)
    (it : Interrupted cfg fuel M h h') :
    Torn cfg N M h h' := by
  induction it with
  | never => exact .refl ..
  | crash _ hist im ih =>
    exact ih.trans (.image (fun k le => (hist k le).torn (ih.rebuildable rd) hfuel) im)

end course

section result

/-- The same heap, up to the order of the lists. -/
structure SameResult (h h' : Heap) : Prop where
  same : h.SameRoots h'
  mem : h'.mem = h.mem
  plain : ∀ d, (h'.desc d).plain = (h.desc d).plain
  anchor : ∀ d, (h'.desc d).anchor = (h.desc d).anchor
  lists : ∀ l, ∃ D D', h.Lists l D ∧ h'.Lists l D' ∧ D.Perm D'

/-- Where links are written it does not matter what was there. -/
lemma linkAll_congr {ls : List (ℕ × ℕ)} {m m' : Mem} {x : ℕ}
    (or : m x = m' x ∨ ∃ g ∈ ls, g.1 ≤ x ∧ x < g.1 + 8) : linkAll ls m x = linkAll ls m' x := by
  induction ls generalizing m m' with
  | nil =>
    rcases or with e | ⟨g, hg, -⟩
    · exact e
    · cases hg
  | cons g ls ih =>
    rw [linkAll_cons, linkAll_cons]
    apply ih
    by_cases here : g.1 ≤ x ∧ x < g.1 + 8
    · left
      unfold store
      rw [if_pos here, if_pos here]
    · rcases or with e | ⟨g', hg', hx⟩
      · left
        rw [store_out (by omega), store_out (by omega), e]
      · rcases List.mem_cons.1 hg' with rfl | hg'
        · exact absurd hx here
        · exact .inr ⟨g', hg', hx⟩

variable (rd : Rebuildable cfg h N M)
include rd

/-- The sweep comes to its end. -/
lemma Rebuildable.sweeps (hfuel : N + SBSIZE < fuel) : ∃ w, sweep cfg fuel h M.sort = .done w ∧
    Rebuilt cfg h N M w.heap ∧ w.heap.mem = relinked cfg h M N ∧ h.SameRoots w.heap := by
  have rc := rd.sweepable
  have adm := rd.precise.admissible rc
  have range : ∀ m ∈ M, cfg.heapStart ≤ m ∧ m < h.currAddr := by
    intro m hm
    obtain ⟨d, hd, hin⟩ := rd.precise.inSb hm
    rw [rc.curr]
    exact ⟨le_trans (Nat.le_add_right ..) hin.1, lt_of_lt_of_le hin.2 (Cfg.sb_le_sb.2 hd.2)⟩
  rcases sweep_outcome rc range hfuel with ⟨-, w, e, -, -, -⟩ | ⟨nadm, -⟩
  · obtain ⟨mem, same⟩ := sweep_writes rc adm (fun m hm => rc.curr ▸ (range m hm).2) hfuel e
    exact ⟨w, e, sweep_rebuilt rc rd.precise hfuel e, mem, same⟩
  · exact absurd adm nadm

variable (tn : Torn cfg N M h h')
include tn

/-- The same blocks are freed. -/
lemma Torn.freedIn_eq (pos : 0 < d) (lt : d < N) : freedIn cfg h' M d = freedIn cfg h M d := by
  by_cases used : ∃ sc, Used cfg h M d sc
  · obtain ⟨sc, hu⟩ := used
    rw [hu.freedIn_eq, (tn.used_iff.2 hu).freedIn_eq]
  · rw [not_exists] at used
    rw [rd.sweepable.freedIn_nil pos lt used,
      (tn.rebuildable rd).sweepable.freedIn_nil pos lt fun sc hu => used sc (tn.used_iff.1 hu)]

/-- A byte that differs will be written with a link. -/
lemma Torn.relinked_eq_or (pos : 0 < d) (le : d ≤ N) (x : ℕ) :
    relinked cfg h' M d x = relinked cfg h M d x ∨
      ∃ e sc, (d ≤ e ∧ e < N) ∧ Used cfg h M e sc ∧ ∃ c ∈ freedBlocks cfg M e sc, c ≤ x ∧
      x < c + 8 := by
  induction d, pos using Nat.le_induction with
  | base =>
    by_contra no
    push Not at no
    refine no.1 (tn.mem x fun e sc h1 h2 hu c hc => ?_)
    have := no.2 e sc ⟨h1, h2⟩ hu c hc
    omega
  | succ d pos ih =>
    rw [relinked_succ pos, relinked_succ pos, tn.freedIn_eq rd pos le]
    rcases ih (by omega) with e | ⟨e, sc, he, hu, c, hc, hx⟩
    · exact .inl (linkAll_congr (.inl e))
    rcases Nat.eq_or_lt_of_le he.1 with rfl | lt
    · -- the link is written in this turn
      rw [hu.freedIn_eq]
      have hc : c ∈ ((freedBlocks cfg M d sc).zip (0 :: freedBlocks cfg M d sc)).map Prod.fst := by
        rwa [List.map_fst_zip (by simp)]
      obtain ⟨g, hg, rfl⟩ := List.mem_map.1 hc
      exact .inl (linkAll_congr (.inr ⟨g, hg, hx⟩))
    · exact .inr ⟨e, sc, ⟨lt, he.2⟩, hu, c, hc, hx⟩

/-- And linked in the same way. -/
lemma Torn.relinked_eq : relinked cfg h' M N = relinked cfg h M N := by
  funext x
  rcases tn.relinked_eq_or rd rd.sweepable.pos le_rfl x with e | ⟨e, sc, he, -⟩
  · exact e
  · omega

variable {g g' : Heap}

omit rd in
/-- Both sweeps leave each superblock alike. -/
lemma Torn.rebuilt_desc (rb : Rebuilt cfg h N M g) (rb' : Rebuilt cfg h' N M g') (d : ℕ) :
    (g'.desc d).plain = (g.desc d).plain ∧ (g'.desc d).anchor = (g.desc d).anchor := by
  by_cases out : d = 0 ∨ N ≤ d
  · rw [rb.outside d out, rb'.outside d out, tn.outside d out]
    exact ⟨rfl, rfl⟩
  have st := rb.swept.settled d (by omega) (by omega)
  have st' := rb'.swept.settled d (by omega) (by omega)
  by_cases hr : Reclaimed cfg h M d
  · rw [st.reclaimed hr, st'.reclaimed (tn.reclaimed_iff.2 hr)]
    exact ⟨rfl, rfl⟩
  have plain : (g'.desc d).plain = (g.desc d).plain := by
    rw [st.plain_eq hr, st'.plain_eq fun hr' => hr (tn.reclaimed_iff.1 hr'), tn.plain d hr]
  refine ⟨plain, ?_⟩
  rcases exists_of_not_reclaimed hr with ⟨sc, hu⟩ | ⟨k, hk⟩ | hc
  · have u := st.used sc hu
    have u' := st'.used sc (tn.used_iff.2 hu)
    by_cases hC : freedBlocks cfg M d sc = []
    · rw [u.full hC, u'.full hC]
    · obtain ⟨i, hi, e⟩ := u.part hC
      obtain ⟨i', hi', e'⟩ := u'.part hC
      rw [hi, Option.some.injEq] at hi'
      rw [e, e', (Cfg.blk_inj hu.small.cls).1 hi']
  · rw [st.kept k hk, st'.kept k (tn.kept_same_iff.2 hk)]
    rfl
  · rw [st.covered hc, st'.covered (tn.covered_iff.2 hc), tn.covered d hc]

omit rd in
/-- And each list has the same superblocks. -/
lemma Torn.rebuilt_lists (rb : Rebuilt cfg h N M g) (rb' : Rebuilt cfg h' N M g') (l : ListId) :
    ∃ D D', g.Lists l D ∧ g'.Lists l D' ∧ D.Perm D' := by
  cases l with
  | avail =>
    obtain ⟨D, hl, nd, mem⟩ := rb.swept.avail
    obtain ⟨D', hl', nd', mem'⟩ := rb'.swept.avail
    refine ⟨D, D', hl, hl', (List.perm_ext_iff_of_nodup nd nd').2 fun d => ?_⟩
    rw [mem, mem', tn.reclaimed_iff]
  | part sc =>
    obtain ⟨D, hl, nd, mem⟩ := rb.swept.part sc
    obtain ⟨D', hl', nd', mem'⟩ := rb'.swept.part sc
    refine ⟨D, D', hl, hl', (List.perm_ext_iff_of_nodup nd nd').2 fun d => ?_⟩
    rw [mem, mem', tn.used_iff]

end result

/-- However often a recovery is interrupted, the one that comes to its end leaves what the first one
would have left. The heap is one that the sweep can rebuild: a mark is the start of a block or lies
in a superblock that is not in use. -/
theorem interrupted_result (rd : Rebuildable cfg h N M) (hfuel : N + SBSIZE < fuel)
    (it : Interrupted cfg fuel M h h') : ∃ w w',
      sweep cfg fuel h M.sort = .done w ∧ sweep cfg fuel h' M.sort = .done w' ∧
      SameResult w.heap w'.heap := by
  have tn := it.torn rd hfuel
  obtain ⟨w, e, rb, mem, same⟩ := rd.sweeps hfuel
  obtain ⟨w', e', rb', mem', same'⟩ := (tn.rebuildable rd).sweeps hfuel
  refine ⟨w, w', e, e', ?_, ?_, fun d => (tn.rebuilt_desc rb rb' d).1,
    fun d => (tn.rebuilt_desc rb rb' d).2, tn.rebuilt_lists rb rb'⟩
  · have := tn.same.trans same'
    exact ⟨this.currAddr.trans same.currAddr.symm, this.roots.trans same.roots.symm⟩
  · rw [mem, mem', tn.relinked_eq rd]

/-- A mark phase that has found one block of `swept`. -/
lemma swept_rebuildable : Rebuildable sample swept 5 {sample.blk 39 1 1} := by
  have marked : ∀ {d}, Marked sample {sample.blk 39 1 1} d → d = 1 := by
    rintro d ⟨m, hm, hin⟩
    rw [Finset.mem_singleton] at hm
    exact hin.unique (hm ▸ inSb_of_mem_blocks (by decide) (Cfg.blk_mem (by decide)))
  refine ⟨swept_recoverable.sweepable _, fun m hm => ?_, fun d out => ?_, fun d hc => ?_⟩
  · rw [Finset.mem_singleton] at hm
    exact .inl (.inl ⟨1, 39, by decide, swept_small, hm ▸ Cfg.blk_mem (by decide)⟩)
  · have h1 : d ≠ 1 := by omega
    have h2 : d ≠ 2 := by omega
    simp only [swept, if_neg h1, if_neg h2]
  · obtain ⟨e, k, -, hk, -⟩ := hc
    obtain rfl := marked hk.marked
    exact absurd hk.large swept_small.not_large

/-- A recovery that has rebuilt one superblock when the machine crashes, and another one. -/
theorem interrupted_result_sample : ∃ h', Interrupted sample 70000 {sample.blk 39 1 1} swept h' ∧
    (h'.desc 1).anchor.state = SB_PARTIAL ∧ (swept.desc 1).anchor.state = SB_ERROR ∧
    ∃ w w', sweep sample 70000 swept (({sample.blk 39 1 1} : Finset ℕ).sort) = .done w ∧
      sweep sample 70000 h' (({sample.blk 39 1 1} : Finset ℕ).sort) = .done w' ∧
      SameResult w.heap w'.heap := by
  have rd := swept_rebuildable
  have rc := rd.sweepable
  have adm := rd.precise.admissible rc
  have used : Used sample swept {sample.blk 39 1 1} 1 39 :=
    ⟨swept_small, _, Finset.mem_singleton_self _, inSb_of_mem_blocks (by decide)
      (Cfg.blk_mem (by decide))⟩
  have t : InTime sample swept 5 {sample.blk 39 1 1} 70000 1 (clearLists swept) none :=
    inTime_one rc (by decide)
  obtain ⟨h', ts⟩ : ∃ h', Turns sample swept 5 {sample.blk 39 1 1} 70000 69999 1 (clearLists swept)
      none 2 h' none :=
    turns_use rc t (by decide) adm.rest (by decide) used
  have start := sweepStart_eq rc (({sample.blk 39 1 1} : Finset ℕ).sort)
  rw [sort_eq_marksFrom adm.first] at start
  have fr : TurnFrame 1 (clearLists swept) h' := sweepTurn_frame ts.turn
  have turn : sweepTurn sample 70000
    (sweepStart sample swept (({sample.blk 39 1 1} : Finset ℕ).sort)) =
      .done (.at sample h' 2 (marksFrom sample {sample.blk 39 1 1} 2) none) := by
    rw [sort_eq_marksFrom adm.first, start]
    exact ts.turn
  have passes : Passes sample 70000 {sample.blk 39 1 1} swept h' := by
    refine .turn (n := 0) rfl (by decide) turn
      ⟨?_, ?_, .inr rfl, .inr rfl, .inr rfl, .inr rfl, fun _ => .inr rfl⟩
    · exact ⟨fr.same.currAddr, fr.same.roots⟩
    · rw [show (sweepStart sample swept _).desc = 1 by decide]
      exact fr.desc
  have it : Interrupted sample 70000 {sample.blk 39 1 1} swept h' :=
    .crash (ℓ := Log.start h') .never (fun _ _ => passes) Log.image_cur
  have free : freedBlocks sample {sample.blk 39 1 1} 1 39 ≠ [] :=
    (rd.precise.freed_ne_nil used).2 ⟨sample.blk 39 1 0, Cfg.blk_mem (by decide), by decide⟩
  obtain ⟨i, -, anchor⟩ :=
    ((ts.inTime.progress.settled 1 (by decide) (by decide)).used 39 used).part free
  exact ⟨h', it, by rw [anchor], rfl, interrupted_result rd (by decide) it⟩

end Ralloc
