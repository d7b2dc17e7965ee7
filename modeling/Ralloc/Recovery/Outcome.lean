import Ralloc.Recovery.Progress

/-!
# What the sweep does

`sweep_outcome`: on a recoverable heap the sweep ends, and it ends with a result exactly when the
marks are `Admissible`. No mark may lie in the skipped first superblock, none in a later superblock
of a large block that is kept, and in a small superblock the last block freed has to be aligned.
A mark that the sweep has passed by stops the mark cursor for good: every later superblock is taken
for unmarked (`sweepLoop_stuck`) and the final assertion fails.
-/

namespace Ralloc

open Lib SuperblockState

variable {cfg : Cfg} {h₀ h : Heap} {N d e k sc fuel n : ℕ} {M : Finset ℕ} {av : Option ℕ}

/-- The marks from superblock `d` on do not make the sweep fail. -/
structure AdmissibleFrom (cfg : Cfg) (h₀ : Heap) (N : ℕ) (M : Finset ℕ) (d : ℕ) : Prop where
  inner : ∀ e k, d ≤ e → e < N → Kept cfg h₀ M e k → ∀ m ∈ M,
    ¬(cfg.sb (e + 1) ≤ m ∧ m < cfg.sb (e + k))
  aligned : ∀ e sc, d ≤ e → e < N → Used cfg h₀ M e sc → LastAligned cfg M e sc

/-- Superblocks that are neither kept nor rebuilt do not matter. -/
lemma admissibleFrom_skip {n : ℕ} (le : d ≤ n) (kept : ∀ e k, d ≤ e → e < n → ¬Kept cfg h₀ M e k)
    (used : ∀ e sc, d ≤ e → e < n → ¬Used cfg h₀ M e sc) :
    AdmissibleFrom cfg h₀ N M d ↔ AdmissibleFrom cfg h₀ N M n := by
  refine ⟨fun a => ⟨fun e k h1 => a.inner e k (by omega), fun e sc h1 => a.aligned e sc (by omega)⟩,
    fun a => ⟨fun e k h1 h2 hk => ?_, fun e sc h1 h2 hu => ?_⟩⟩
  · by_cases hlt : e < n
    · exact absurd hk (kept e k h1 hlt)
    · exact a.inner e k (by omega) h2 hk
  · by_cases hlt : e < n
    · exact absurd hu (used e sc h1 hlt)
    · exact a.aligned e sc (by omega) h2 hu

/-- `desc_lookup` at the end of a superblock of the region. -/
lemma Cfg.sbIndex_sb_le {n : ℕ} (hn : cfg.sb n ≤ cfg.base + cfg.filesize) :
    sbIndex cfg.heapStart (cfg.sb n) = n := by
  have hb := cfg.bound
  unfold ADDR at hb
  have hw : cfg.sb n < WORD := by
    unfold WORD
    omega
  have e : cfg.sb n = cfg.heapStart + n * SBSIZE + 0 := rfl
  rw [e] at hw ⊢
  exact sbIndex_eq cfg.aligned (Nat.zero_lt_succ _) hw

/-- A mark that was passed by is never consumed. -/
lemma sweepLoop_stuck {x : ℕ} {xs : List ℕ} (hx : x < cfg.sb d) (hd : d ≤ N) (hn : N - d < n) :
    ∃ w, sweepLoop cfg fuel (cfg.sb N) n (.at cfg h d (x :: xs) av) = .done w ∧
      w.marks = x :: xs := by
  induction n generalizing d h av with
  | zero => omega
  | succ n ih =>
    rw [sweepLoop_succ]
    split
    case isTrue hlt =>
      have turn : sweepTurn cfg fuel (.at cfg h d ([] ++ x :: xs) av) = _ :=
        sweepTurn_free (splits_behind hx) (.inl rfl)
      rw [List.nil_append] at turn
      rw [turn, Outcome.bind_done]
      have hd' : ¬N ≤ d := fun hle => absurd hlt (not_lt.2 (Cfg.sb_le_sb.2 hle))
      exact ih (lt_of_lt_of_le hx (Cfg.sb_le_sb.2 (Nat.le_succ d))) (by omega) (by omega)
    case isFalse => exact ⟨_, rfl, rfl⟩

/-- What the sweep never writes. -/
structure Heap.SameRoots (h h' : Heap) : Prop where
  currAddr : h'.currAddr = h.currAddr
  roots : h'.roots = h.roots

/-- One step after another. -/
lemma Heap.SameRoots.trans {h₁ h₂ h₃ : Heap} (a : h₁.SameRoots h₂) (b : h₂.SameRoots h₃) :
    h₁.SameRoots h₃ :=
  ⟨b.currAddr.trans a.currAddr, b.roots.trans a.roots⟩

/-- The end of a turn writes descriptors and list heads only. -/
lemma finishSmall_rest {w w' : Sweep} {D : Descriptor} {ms : List ℕ} {l : FreeList}
    (e : finishSmall w D ms l = .done w') :
    w'.heap.mem = l.heap.mem ∧ l.heap.SameRoots w'.heap := by
  rw [finishSmall, pushPartial] at e
  split at e
  · cases e
    exact ⟨rfl, rfl, rfl⟩
  split at e
  · cases e
  split at e
  · cases e
  split at e
  · cases e
  · cases e
    exact ⟨rfl, rfl, rfl⟩

/-- The superblock behind one that is not kept is not inside a kept large block. -/
lemma not_covered_succ (hc : ¬Covered cfg h₀ M d) (hk : ∀ k, ¬Kept cfg h₀ M d k) :
    ¬Covered cfg h₀ M (d + 1) := by
  rintro ⟨e, k, pos, hke, h1, h2⟩
  by_cases he : e = d
  · exact hk k (he ▸ hke)
  · exact hc ⟨e, k, pos, hke, by omega, by omega⟩

/-- The superblock behind a kept large block is not inside another one. -/
lemma not_covered_add (rc : Sweepable cfg h₀ N M) (pos : 0 < d) (lt : d < N)
    (hk : Kept cfg h₀ M d k) (hc : ¬Covered cfg h₀ M d) : ¬Covered cfg h₀ M (d + k) := by
  rintro ⟨e, k', pos', hke, h1, h2⟩
  rcases lt_trichotomy e d with h3 | rfl | h3
  · exact hc ⟨e, k', pos', hke, h3, by omega⟩
  · rw [hk.large.unique hke.large] at h2
    omega
  · have := rc.interior pos lt hk h3 h1
    rw [hke.large.heap] at this
    cases this

/-- The sweep has come to superblock `d` in time and has `n` turns left. -/
structure InTime (cfg : Cfg) (h₀ : Heap) (N : ℕ) (M : Finset ℕ) (n d : ℕ) (h : Heap)
    (av : Option ℕ) : Prop where
  pos : 0 < d
  le : d ≤ N
  turns : N - d < n
  covered : ¬Covered cfg h₀ M d
  progress : Progress cfg h₀ M d h av

/-- What is left to do from superblock `d` on. -/
def remaining (cfg : Cfg) (fuel N : ℕ) (M : Finset ℕ) (n d : ℕ) (h : Heap) (av : Option ℕ) :
    Outcome Sweep :=
  sweepLoop cfg fuel (cfg.sb N) n (.at cfg h d (marksFrom cfg M d) av)

/-- The sweep takes a turn and comes to superblock `d'`. -/
structure Advance (cfg : Cfg) (h₀ : Heap) (N : ℕ) (M : Finset ℕ) (fuel n d : ℕ) (h : Heap)
    (av : Option ℕ) (d' : ℕ) (h' : Heap) (av' : Option ℕ) : Prop where
  turn : remaining cfg fuel N M (n + 1) d h av = remaining cfg fuel N M n d' h' av'
  inTime : InTime cfg h₀ N M n d' h' av'
  adm : AdmissibleFrom cfg h₀ N M d ↔ AdmissibleFrom cfg h₀ N M d'
  mem : h.mem = relinked cfg h₀ M d → h'.mem = relinked cfg h₀ M d'
  same : h.SameRoots h'

/-- The sweep does not end well. -/
def Fails (cfg : Cfg) (h₀ : Heap) (N : ℕ) (M : Finset ℕ) (d : ℕ) (r : Outcome Sweep) : Prop :=
  ¬AdmissibleFrom cfg h₀ N M d ∧ ((∃ w, r = .done w ∧ w.marks ≠ []) ∨ ∃ a, r = .failed a)

section turn

variable (rc : Sweepable cfg h₀ N M) (t : InTime cfg h₀ N M (n + 1) d h av) (lt : d < N)
  (hfuel : SBSIZE < fuel)

include lt in
/-- The loop takes another turn. -/
lemma remaining_succ : remaining cfg fuel N M (n + 1) d h av =
    (sweepTurn cfg fuel (.at cfg h d (marksIn cfg M d ++ marksFrom cfg M (d + 1)) av)).bind
      (sweepLoop cfg fuel (cfg.sb N) n) := by
  have hlt : cfg.sb d < cfg.sb N := lt_of_not_ge fun hle => absurd (Cfg.sb_le_sb.1 hle) (by omega)
  rw [remaining, sweepLoop_succ, marksFrom_succ]
  exact if_pos hlt

include rc t lt

/-- A superblock that is not in use or has no mark. -/
lemma turn_reclaim (hfree : marksIn cfg M d = [] ∨ (h.desc d).heap = none) :
    ∃ h', Advance cfg h₀ N M fuel n d h av (d + 1) h' (some d) := by
  have pr := t.progress
  have hD := pr.rest d le_rfl
  have only : ∀ {e}, d ≤ e → e < d + 1 → e = d := by omega
  have used : ∀ sc, ¬Used cfg h₀ M d sc := by
    intro sc hu
    rcases hfree with e | e
    · exact marksIn_ne_nil.2 hu.marked e
    · rw [hD, hu.small.heap] at e
      cases e
  have kept : ∀ k, ¬Kept cfg h₀ M d k := by
    intro k hk
    rcases hfree with e | e
    · exact marksIn_ne_nil.2 hk.marked e
    · rw [hD, hk.large.heap] at e
      cases e
  refine ⟨_, ?_, ⟨Nat.succ_pos d, lt, by have := t.turns; omega, not_covered_succ t.covered kept,
    pr.reclaim t.pos ⟨used, kept, t.covered⟩⟩, ?_, fun e => ?_, rfl, rfl⟩
  · rw [remaining_succ lt, sweepTurn_free splits_marks hfree]
    rfl
  · exact admissibleFrom_skip (Nat.le_succ d) (fun e k h1 h2 => only h1 h2 ▸ kept k)
      fun e sc h1 h2 => only h1 h2 ▸ used sc
  · rw [relinked_succ t.pos, rc.freedIn_nil t.pos lt used]
    exact e

include hfuel

/-- A small superblock with marks. -/
lemma turn_use (hu : Used cfg h₀ M d sc) :
    (∃ h', Advance cfg h₀ N M fuel n d h av (d + 1) h' av) ∨
      Fails cfg h₀ N M d (remaining cfg fuel N M (n + 1) d h av) := by
  have pr := t.progress
  have hD := pr.rest d le_rfl
  have hsm := hu.small
  have hin : ∀ m ∈ marksIn cfg M d, cfg.sb d ≤ m ∧ m < cfg.sb d + SBSIZE := by
    intro m hm
    have := (mem_marksIn.1 hm).2
    rwa [InSb, Cfg.sb_succ] at this
  have turn : remaining cfg fuel N M (n + 1) d h av = _ := remaining_succ lt
  rw [sweepTurn_small splits_marks (marksIn_ne_nil.2 hu.marked) hsm.cls
    (hD ▸ hsm.heap) (hD ▸ hsm.superblock) (hD ▸ hsm.maxcount) (hD ▸ hsm.size) hin hfuel,
    show gaps _ _ _ _ = freedBlocks cfg M d sc from rfl] at turn
  by_cases al : LastAligned cfg M d sc
  · have fin : ∃ h', finishSmall (.at cfg h d (marksIn cfg M d ++ marksFrom cfg M (d + 1)) av)
        (h.desc d) (marksFrom cfg M (d + 1))
        (FreeList.pushAll ⟨h, 0, 0⟩ (freedBlocks cfg M d sc)) =
          .done (.at cfg h' (d + 1) (marksFrom cfg M (d + 1)) av) ∧
        Progress cfg h₀ M (d + 1) h' av := by
      by_cases hC : freedBlocks cfg M d sc = []
      · exact pr.finish_full rc t.pos lt hu hC
      · exact pr.finish_partial rc t.pos lt hu hC al
    obtain ⟨h', e, pr'⟩ := fin
    obtain ⟨hmem, hsame⟩ := finishSmall_rest e
    rw [e] at turn
    refine .inl ⟨h', turn, ⟨Nat.succ_pos d, lt, by have := t.turns; omega,
      not_covered_succ t.covered fun k hk => hsm.not_large hk.large, pr'⟩,
      ⟨fun a => ⟨fun e k h1 => a.inner e k (by omega), fun e sc h1 => a.aligned e sc (by omega)⟩,
        fun a => ⟨fun e k h1 h2 hk => ?_, fun e sc' h1 h2 hu' => ?_⟩⟩, fun e => ?_, ?_⟩
    · by_cases he : e = d
      · subst he
        exact absurd hk.large hsm.not_large
      · exact a.inner e k (by omega) h2 hk
    · by_cases he : e = d
      · subst he
        rw [hu'.small.unique hsm]
        exact al
      · exact a.aligned e sc' (by omega) h2 hu'
    · rw [relinked_succ t.pos, hu.freedIn_eq, ← e]
      exact hmem.trans (FreeList.pushAll_mem ..)
    · refine .trans ?_ hsame
      rw [(pushed rc lt h hsm.cls).heap]
      exact ⟨rfl, rfl⟩
  · rw [finish_unaligned rc lt hD hu al] at turn
    exact .inr ⟨fun a => al (a.aligned d sc le_rfl lt hu), .inr ⟨_, turn⟩⟩

omit hfuel

/-- A large block with a mark in its first superblock. -/
lemma turn_keep (hk : Kept cfg h₀ M d k) :
    (∃ h', Advance cfg h₀ N M fuel n d h av (d + k) h' av) ∨
      Fails cfg h₀ N M d (remaining cfg fuel N M (n + 1) d h av) := by
  have pr := t.progress
  have hD := pr.rest d le_rfl
  have hlg := hk.large
  have hend := rc.fits t.pos lt hk
  have kpos := hlg.pos
  have hidx := Cfg.sbIndex_sb_le (le_trans (Cfg.sb_le_sb.2 hend) rc.inside)
  have turn : remaining cfg fuel N M (n + 1) d h av = _ := remaining_succ lt
  rw [sweepTurn_large splits_marks (marksIn_ne_nil.2 hk.marked)
    (hD ▸ hlg.heap) (hD ▸ hlg.superblock) (hD ▸ hlg.maxcount) (hD ▸ hlg.size) hidx,
    Outcome.bind_done] at turn
  by_cases inner : ∃ m ∈ M, cfg.sb (d + 1) ≤ m ∧ m < cfg.sb (d + k)
  · -- the mark behind the first superblock is passed by
    obtain ⟨m, hm, hin⟩ := inner
    obtain ⟨x, xs, e, hx⟩ := marksFrom_head (show d + 1 ≤ d + k by omega) hm hin
    rw [e] at turn
    obtain ⟨w, hw, hms⟩ := sweepLoop_stuck (n := n) (h := h.setDesc d (h.desc d).keep) hx hend
      (by have := t.turns; omega)
    exact .inr ⟨fun a => a.inner d k le_rfl lt hk m hm hin,
      .inl ⟨w, turn.trans hw, by simp [hms]⟩⟩
  have no : ∀ m ∈ M, ¬(cfg.sb (d + 1) ≤ m ∧ m < cfg.sb (d + k)) :=
    fun m hm hin => inner ⟨m, hm, hin⟩
  have noUsed : ∀ e sc, d ≤ e → e < d + k → ¬Used cfg h₀ M e sc := by
    intro e sc h1 h2 hu
    rcases Nat.eq_or_lt_of_le h1 with rfl | h1
    · exact hu.small.not_large hlg
    · have := rc.interior t.pos lt hk h1 h2
      rw [hu.small.heap] at this
      cases this
  rw [marksFrom_skip (show d + 1 ≤ d + k by omega) no] at turn
  refine .inl ⟨_, turn, ⟨by omega, hend, by have := t.turns; omega,
    not_covered_add rc t.pos lt hk t.covered, pr.keep rc t.pos lt hk⟩,
    ⟨fun a => ⟨fun e k h1 => a.inner e k (by omega), fun e sc h1 => a.aligned e sc (by omega)⟩,
      fun a => ⟨fun e k' h1 h2 hk' => ?_, fun e sc h1 h2 hu => ?_⟩⟩, fun e => ?_, rfl, rfl⟩
  · by_cases he : e = d
    · subst he
      rw [← hlg.unique hk'.large]
      exact no
    · by_cases hlt : e < d + k
      · have := rc.interior t.pos lt hk (by omega) hlt
        rw [hk'.large.heap] at this
        cases this
      · exact a.inner e k' (by omega) h2 hk'
  · by_cases hlt : e < d + k
    · exact absurd hu (noUsed e sc h1 hlt)
    · exact a.aligned e sc (by omega) h2 hu
  · rw [rc.relinked_skip t.pos hend noUsed]
    exact e

include hfuel

/-- Every turn goes on or fails. -/
lemma InTime.advance : (∃ d' h' av', Advance cfg h₀ N M fuel n d h av d' h' av') ∨
    Fails cfg h₀ N M d (remaining cfg fuel N M (n + 1) d h av) := by
  by_cases hA : marksIn cfg M d = []
  · exact .inl ⟨_, _, _, (turn_reclaim rc t lt (.inl hA)).choose_spec⟩
  have hm := marksIn_ne_nil.1 hA
  rcases rc.kind d t.pos lt hm with hnone | ⟨sc, hsm⟩ | ⟨k, hlg⟩
  · have hfree : (h.desc d).heap = none := t.progress.rest d le_rfl ▸ hnone
    exact .inl ⟨_, _, _, (turn_reclaim rc t lt (.inr hfree)).choose_spec⟩
  · exact (turn_use rc t lt hfuel ⟨hsm, hm⟩).imp_left fun ⟨h', adv⟩ => ⟨_, h', _, adv⟩
  · exact (turn_keep rc t lt ⟨hlg, hm⟩).imp_left fun ⟨h', adv⟩ => ⟨_, h', _, adv⟩

end turn

/-- How the loop can end: with all marks consumed, or not. -/
def LoopOutcome (cfg : Cfg) (h₀ : Heap) (N : ℕ) (M : Finset ℕ) (d : ℕ) (r : Outcome Sweep) : Prop :=
  (AdmissibleFrom cfg h₀ N M d ∧ ∃ h av, r = .done (.at cfg h N [] av) ∧
    Progress cfg h₀ M N h av) ∨
  (¬AdmissibleFrom cfg h₀ N M d ∧ ((∃ w, r = .done w ∧ w.marks ≠ []) ∨ ∃ a, r = .failed a))

/-- The end of the region. -/
lemma remaining_end (hM : ∀ m ∈ M, m < cfg.sb N) :
    remaining cfg fuel N M (n + 1) N h av = .done (.at cfg h N [] av) := by
  have hnil : marksFrom cfg M N = [] :=
    List.filter_eq_nil_iff.2 fun m hm => by simpa using hM m ((Finset.mem_sort _).1 hm)
  rw [remaining, sweepLoop_succ, hnil]
  exact if_neg (lt_irrefl _)

/-- The loop from a superblock that is reached in time. -/
theorem sweepLoop_outcome (rc : Sweepable cfg h₀ N M) (hM : ∀ m ∈ M, m < cfg.sb N)
    (hfuel : SBSIZE < fuel) (t : InTime cfg h₀ N M n d h av) :
    LoopOutcome cfg h₀ N M d (remaining cfg fuel N M n d h av) := by
  induction n generalizing d h av with
  | zero => exact absurd t.turns (by omega)
  | succ n ih =>
    rcases Nat.eq_or_lt_of_le t.le with rfl | lt
    · exact .inl ⟨⟨fun e k h1 h2 => absurd h1 (by omega), fun e sc h1 h2 => absurd h1 (by omega)⟩,
        h, av, remaining_end hM, t.progress⟩
    rcases t.advance rc lt hfuel with ⟨d', h', av', adv⟩ | fails
    · rw [LoopOutcome, adv.turn, adv.adm]
      exact ih adv.inTime
    · exact .inr fails

/-- What the loop writes from superblock `d` on. -/
lemma sweepLoop_writes {h' : Heap} {av' : Option ℕ} (rc : Sweepable cfg h₀ N M)
    (hM : ∀ m ∈ M, m < cfg.sb N) (hfuel : SBSIZE < fuel) (t : InTime cfg h₀ N M n d h av)
    (hmem : h.mem = relinked cfg h₀ M d)
    (e : remaining cfg fuel N M n d h av = .done (.at cfg h' N [] av')) :
    h'.mem = relinked cfg h₀ M N ∧ h.SameRoots h' := by
  induction n generalizing d h av with
  | zero => exact absurd t.turns (by omega)
  | succ n ih =>
    rcases Nat.eq_or_lt_of_le t.le with rfl | lt
    · rw [remaining_end hM] at e
      cases e
      exact ⟨hmem, rfl, rfl⟩
    rcases t.advance rc lt hfuel with ⟨d', h₁, av₁, adv⟩ | ⟨-, ⟨w, ew, hw⟩ | ⟨a, ea⟩⟩
    · rw [adv.turn] at e
      obtain ⟨h1, h2⟩ := ih adv.inTime (adv.mem hmem) e
      exact ⟨h1, adv.same.trans h2⟩
    · rw [ew] at e
      cases e
      exact absurd rfl hw
    · rw [ea] at e
      cases e

/-- The marks do not make the sweep fail. -/
structure Admissible (cfg : Cfg) (h₀ : Heap) (N : ℕ) (M : Finset ℕ) : Prop where
  first : ∀ m ∈ M, cfg.sb 1 ≤ m
  rest : AdmissibleFrom cfg h₀ N M 1

/-- The heap `h` after a sweep of `h₀`. -/
structure Swept (cfg : Cfg) (h₀ : Heap) (N : ℕ) (M : Finset ℕ) (h : Heap) : Prop where
  settled : ∀ e, 0 < e → e < N → Settled cfg h₀ M h e
  avail : ∃ D, h.Lists .avail D ∧ D.Nodup ∧ ∀ e, e ∈ D ↔ (0 < e ∧ e < N) ∧ Reclaimed cfg h₀ M e
  part : ∀ sc, ∃ P, h.Lists (.part sc) P ∧ P.Nodup ∧
    ∀ e, e ∈ P ↔ (0 < e ∧ e < N) ∧ Used cfg h₀ M e sc ∧ freedBlocks cfg M e sc ≠ []
  mem : ∀ a, (∀ e sc, 0 < e → e < N → Used cfg h₀ M e sc → ∀ c ∈ freedBlocks cfg M e sc,
    a < c ∨ c + 8 ≤ a) → h.mem a = h₀.mem a

/-- The end of the sweep stores the head of `avail_sb`. -/
lemma Progress.swept (pr : Progress cfg h₀ M N h av) :
    Swept cfg h₀ N M (h.setHead .avail ⟨av, 0⟩) := by
  refine ⟨fun e h1 h2 => ?_, ?_, fun sc => ?_, pr.mem⟩
  · exact (pr.settled e h1 h2).mono (d := N) ⟨fun _ _ => rfl, fun _ _ => rfl⟩ h2
  · obtain ⟨D, hl, nd, mem⟩ := pr.avail
    refine ⟨D, ?_, nd, mem⟩
    rw [Heap.Lists, show ((h.setHead .avail ⟨av, 0⟩).head .avail) = ⟨av, 0⟩ by simp [Heap.setHead]]
    exact hl
  · obtain ⟨P, hl, nd, mem⟩ := pr.part sc
    refine ⟨P, ?_, nd, mem⟩
    rw [Heap.Lists, show ((h.setHead .avail ⟨av, 0⟩).head (.part sc)) = h.head (.part sc) by
      simp [Heap.setHead]]
    exact hl

/-- The sweep starts with nothing done. -/
lemma progress_one (cfg : Cfg) (h : Heap) (M : Finset ℕ) :
    Progress cfg h M 1 (clearLists h) none := by
  have no : ∀ {e}, ¬(0 < e ∧ e < 1) := by omega
  exact ⟨fun _ _ => rfl, fun e h1 h2 => absurd ⟨h1, h2⟩ no,
    ⟨[], rfl, List.nodup_nil, fun e => ⟨fun he => (by cases he), fun he => absurd he.1 no⟩⟩,
    fun sc => ⟨[], rfl, List.nodup_nil, fun e => ⟨fun he => (by cases he),
      fun he => absurd he.1 no⟩⟩, fun _ _ => rfl⟩

/-- The loop of the sweep starts at superblock 1. -/
lemma sweep_eq (rc : Sweepable cfg h N M) : sweep cfg fuel h M.sort =
    (sweepLoop cfg fuel (cfg.sb N) fuel (.at cfg (clearLists h) 1 M.sort none)).bind fun w =>
      if w.marks = [] then .done { w with heap := w.heap.setHead .avail ⟨w.avail, 0⟩ }
      else .failed .marks := by
  have hsb : cfg.heapStart + SBSIZE = cfg.sb 1 := by simp [Cfg.sb]
  have hidx : sbIndex cfg.heapStart (cfg.sb 1) = 1 := by
    refine Cfg.sbIndex_sb_le (le_trans ?_ cfg.warm)
    rw [← hsb, SBSIZE_eq]
    exact Nat.add_le_add_left (by decide) _
  rw [sweep, sweepFrom, hsb, hidx, rc.curr]
  rfl

/-- All marks, if there is none in the skipped superblock. -/
lemma sort_eq_marksFrom (first : ∀ m ∈ M, cfg.sb 1 ≤ m) : M.sort = marksFrom cfg M 1 :=
  (List.filter_eq_self.2 fun m hm => by simpa using first m ((Finset.mem_sort _).1 hm)).symm

/-- The start of the sweep. -/
lemma inTime_one (rc : Sweepable cfg h N M) (hfuel : N + SBSIZE < fuel) :
    InTime cfg h N M fuel 1 (clearLists h) none :=
  ⟨Nat.one_pos, rc.pos, by omega, fun ⟨d, k, h1, _, h2, _⟩ => by omega, progress_one cfg h M⟩

/-- The sweep of a recoverable heap ends with a result if its marks are admissible, and with a
failed assertion otherwise. -/
theorem sweep_outcome (rc : Sweepable cfg h N M)
    (hM : ∀ m ∈ M, cfg.heapStart ≤ m ∧ m < h.currAddr) (hfuel : N + SBSIZE < fuel) :
    (Admissible cfg h N M ∧ ∃ w, sweep cfg fuel h M.sort = .done w ∧ w.sb = h.currAddr ∧
      w.marks = [] ∧ Swept cfg h N M w.heap) ∨
    (¬Admissible cfg h N M ∧ ∃ a, sweep cfg fuel h M.sort = .failed a) := by
  have pos := rc.pos
  have hlt : ∀ m ∈ M, m < cfg.sb N := fun m hm => rc.curr ▸ (hM m hm).2
  rw [sweep_eq rc]
  by_cases first : ∀ m ∈ M, cfg.sb 1 ≤ m
  · rw [sort_eq_marksFrom first]
    have hf : SBSIZE < fuel := by omega
    rcases sweepLoop_outcome rc hlt hf (inTime_one rc hfuel) with ⟨adm, h', av, e, pr⟩ | ⟨nadm, out⟩
    · rw [remaining] at e
      rw [e]
      exact .inl ⟨⟨first, adm⟩, _, rfl, rc.curr.symm, rfl, pr.swept⟩
    · refine .inr ⟨fun a => nadm a.rest, ?_⟩
      rcases out with ⟨w, e, hne⟩ | ⟨a, e⟩
      · rw [remaining] at e
        rw [e, Outcome.bind_done, if_neg hne]
        exact ⟨_, rfl⟩
      · rw [remaining] at e
        rw [e]
        exact ⟨a, rfl⟩
  · -- a mark in the skipped superblock is never consumed
    refine .inr ⟨fun a => first a.first, ?_⟩
    simp only [not_forall, not_le] at first
    obtain ⟨m, hm, hm1⟩ := first
    have hms : M.sort = marksFrom cfg M 0 := by
      refine (List.filter_eq_self.2 fun x hx => ?_).symm
      have := (hM x ((Finset.mem_sort _).1 hx)).1
      simpa [Cfg.sb] using this
    obtain ⟨x, xs, e, hx⟩ := marksFrom_head (Nat.zero_le 1) hm
      ⟨by simpa [Cfg.sb] using (hM m hm).1, hm1⟩
    rw [hms, e]
    obtain ⟨w, hw, hms'⟩ := sweepLoop_stuck (n := fuel) (h := clearLists h) hx pos (by omega)
    rw [hw, Outcome.bind_done, if_neg (by simp [hms'])]
    exact ⟨_, rfl⟩

/-- What a sweep with admissible marks writes. -/
lemma sweep_writes (rc : Sweepable cfg h N M) (adm : Admissible cfg h N M)
    (hM : ∀ m ∈ M, m < cfg.sb N) (hfuel : N + SBSIZE < fuel) {w : Sweep}
    (e : sweep cfg fuel h M.sort = .done w) :
    w.heap.mem = relinked cfg h M N ∧ h.SameRoots w.heap := by
  have hf : SBSIZE < fuel := by omega
  have t := inTime_one (M := M) rc hfuel
  rw [sweep_eq rc, sort_eq_marksFrom adm.first] at e
  rcases sweepLoop_outcome rc hM hf t with ⟨-, h', av, e', -⟩ | ⟨nadm, -⟩
  · obtain ⟨hmem, same⟩ := sweepLoop_writes rc hM hf t rfl e'
    rw [remaining] at e'
    rw [e'] at e
    cases e
    exact ⟨hmem, same.currAddr, same.roots⟩
  · exact absurd adm.rest nadm

end Ralloc
