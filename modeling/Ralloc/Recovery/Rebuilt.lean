import Ralloc.Recovery.Exact

/-!
# What the sweep leaves alone

A turn of the sweep writes links of blocks, its own descriptor, and the head of one partial list
(`sweepTurn_frame`). So a sweep leaves the descriptors outside the region as they are, and the list
counters agree with the pushes (`sweep_rebuilt`).
-/

namespace Ralloc

open Lib SuperblockState

variable {cfg : Cfg} {h h' h₀ : Heap} {N d e k sc fuel n : ℕ} {M : Finset ℕ} {av : Option ℕ}

/-- Every list counter says how often the list was pushed to. -/
def Heap.Counted (h : Heap) : Prop := ∀ l, (h.head l).cnt = h.pushes l % CNT

/-- What a turn at descriptor `d` leaves alone. -/
structure TurnFrame (d : ℕ) (h h' : Heap) : Prop where
  same : h.SameRoots h'
  desc : ∀ e, e ≠ d → h'.desc e = h.desc e
  counted : h.Counted → h'.Counted
  pushes : h'.pushes .avail = h.pushes .avail

section frame

/-- Only memory has changed. -/
def MemOnly (h h' : Heap) : Prop := h' = { h with mem := h'.mem }

/-- One change after another. -/
lemma MemOnly.trans {h₁ h₂ h₃ : Heap} (a : MemOnly h₁ h₂) (b : MemOnly h₂ h₃) : MemOnly h₁ h₃ := by
  rw [MemOnly, b, a]

/-- A loop that frees blocks writes links. -/
lemma freeLoop_memOnly {step bound b : ℕ} {l l' : FreeList}
    (e : freeLoop step bound fuel b l = .done l') : MemOnly l.heap l'.heap := by
  induction fuel generalizing b l with
  | zero => cases e
  | succ n ih =>
    rw [freeLoop] at e
    split at e
    · exact .trans (show MemOnly l.heap (l.push b).heap from rfl) (ih e)
    · cases e
      rfl

/-- A result comes from a result. -/
lemma Outcome.bind_eq_done {α β : Type} {o : Outcome α} {f : α → Outcome β} {y : β}
    (e : o.bind f = .done y) : ∃ x, o = .done x ∧ f x = .done y := by
  cases o with
  | timeout => cases e
  | failed a => cases e
  | done x => exact ⟨x, rfl, e⟩

/-- The turn for one mark writes links. -/
lemma scanMark_memOnly {sb m : ℕ} {D : Descriptor} {c c' : Scan}
    (e : scanMark fuel sb D m c = .done c') : MemOnly c.list.heap c'.list.heap := by
  rw [scanMark] at e
  split at e
  · split at e
    · split at e <;> cases e
      rfl
    · obtain ⟨l, el, e⟩ := Outcome.bind_eq_done e
      cases e
      exact freeLoop_memOnly el
  · cases e
    rfl

/-- So do the turns for all marks of a superblock. -/
lemma scanMarks_memOnly {sb : ℕ} {D : Descriptor} {ms : List ℕ} {c : Scan} {r : Scan × List ℕ}
    (e : scanMarks fuel sb D ms c = .done r) : MemOnly c.list.heap r.1.list.heap := by
  induction ms generalizing c with
  | nil =>
    cases e
    rfl
  | cons m ms ih =>
    rw [scanMarks] at e
    split at e
    · obtain ⟨c', ec, e⟩ := Outcome.bind_eq_done e
      exact (scanMark_memOnly ec).trans (ih e)
    · cases e
      rfl

/-- A turn that writes memory and one descriptor. -/
lemma MemOnly.setDesc (mo : MemOnly h h') (d : ℕ) (D : Descriptor) :
    TurnFrame d h (h'.setDesc d D) := by
  rw [mo]
  exact ⟨⟨rfl, rfl⟩, fun e ne => Heap.desc_setDesc_ne ne, fun c => c, rfl⟩

/-- The push on a partial list counts. -/
lemma MemOnly.pushPartial (mo : MemOnly h h') {D : Descriptor} {h'' : Heap}
    (e : pushPartial h' d sc D = .done h'') : TurnFrame d h h'' := by
  rw [Ralloc.pushPartial] at e
  split at e
  · cases e
  cases e
  rw [mo]
  refine ⟨⟨rfl, rfl⟩, fun e ne => Heap.desc_setDesc_ne ne, fun counted l => ?_, ?_⟩
  · have old := counted l
    by_cases hl : l = .part sc
    · subst hl
      simp only [Heap.setHead, Heap.setDesc, Function.update_self, old, Nat.mod_add_mod]
    · simpa only [Heap.setHead, Heap.setDesc, Function.update_of_ne hl] using old
  · exact Function.update_of_ne (f := h.pushes) (show ListId.avail ≠ .part sc by simp)
      (h.pushes (.part sc) + 1)

/-- The end of a turn. -/
lemma finishSmall_frame {w w' : Sweep} {D : Descriptor} {ms : List ℕ} {l : FreeList}
    (mo : MemOnly w.heap l.heap) (e : finishSmall w D ms l = .done w') :
    TurnFrame w.desc w.heap w'.heap := by
  rw [finishSmall] at e
  split at e
  · cases e
    exact mo.setDesc ..
  split at e
  · cases e
  split at e
  · cases e
  obtain ⟨h', eh, e⟩ := Outcome.bind_eq_done e
  cases e
  exact mo.pushPartial eh

/-- A turn writes its own descriptor only. -/
lemma sweepTurn_frame {w w' : Sweep} (e : sweepTurn cfg fuel w = .done w') :
    TurnFrame w.desc w.heap w'.heap := by
  rw [sweepTurn, sweepTurnFrom] at e
  obtain ⟨⟨c, ms⟩, ec, e⟩ := Outcome.bind_eq_done e
  have mo : MemOnly w.heap c.list.heap := scanMarks_memOnly ec
  dsimp only at e
  split at e
  · cases e
    exact mo.setDesc ..
  split at e
  · cases e
    exact mo.setDesc ..
  · obtain ⟨l, el, e⟩ := Outcome.bind_eq_done e
    exact finishSmall_frame (mo.trans (freeLoop_memOnly el)) e

end frame

section rest

/-- Further on there is less to ask for. -/
lemma AdmissibleFrom.mono {d' : ℕ} (adm : AdmissibleFrom cfg h₀ N M d) (le : d ≤ d') :
    AdmissibleFrom cfg h₀ N M d' :=
  ⟨fun e k h1 => adm.inner e k (le.trans h1), fun e sc h1 => adm.aligned e sc (le.trans h1)⟩

variable (rc : Sweepable cfg h₀ N M) (t : InTime cfg h₀ N M (n + 1) d h av) (lt : d < N)
  (adm : AdmissibleFrom cfg h₀ N M d)

/-- The turn leads to superblock `d'`. -/
structure Turns (cfg : Cfg) (h₀ : Heap) (N : ℕ) (M : Finset ℕ) (fuel n d : ℕ) (h : Heap)
    (av : Option ℕ) (d' : ℕ) (h' : Heap) (av' : Option ℕ) : Prop where
  turn : sweepTurn cfg fuel (.at cfg h d (marksFrom cfg M d) av) =
    .done (.at cfg h' d' (marksFrom cfg M d') av')
  inTime : InTime cfg h₀ N M n d' h' av'
  le : d ≤ d'

include t lt

/-- A turn that reclaims a superblock. -/
lemma turns_reclaim (hfree : marksIn cfg M d = [] ∨ (h₀.desc d).heap = none) :
    ∃ h', Turns cfg h₀ N M fuel n d h av (d + 1) h' (some d) := by
  have hD := t.progress.rest d le_rfl
  have used : ∀ sc, ¬Used cfg h₀ M d sc := by
    intro sc hu
    rcases hfree with e | e
    · exact marksIn_ne_nil.2 hu.marked e
    · rw [hu.small.heap] at e
      cases e
  have kept : ∀ k, ¬Kept cfg h₀ M d k := by
    intro k hk
    rcases hfree with e | e
    · exact marksIn_ne_nil.2 hk.marked e
    · rw [hk.large.heap] at e
      cases e
  refine ⟨_, ?_, ⟨Nat.succ_pos d, lt, by have := t.turns; omega, not_covered_succ t.covered kept,
    t.progress.reclaim t.pos ⟨used, kept, t.covered⟩⟩, Nat.le_succ d⟩
  rw [marksFrom_succ]
  exact sweepTurn_free splits_marks (by rwa [hD])

include rc adm

/-- A turn that skips a large block. -/
lemma turns_keep (hk : Kept cfg h₀ M d k) :
    ∃ h', Turns cfg h₀ N M fuel n d h av (d + k) h' av := by
  have hD := t.progress.rest d le_rfl
  have hlg := hk.large
  have hend := rc.fits t.pos lt hk
  have kpos := hlg.pos
  have hidx := Cfg.sbIndex_sb_le (le_trans (Cfg.sb_le_sb.2 hend) rc.inside)
  refine ⟨_, ?_, ⟨by omega, hend, by have := t.turns; omega,
    not_covered_add rc t.pos lt hk t.covered, t.progress.keep rc t.pos lt hk⟩, by omega⟩
  rw [marksFrom_succ, sweepTurn_large splits_marks (marksIn_ne_nil.2 hk.marked) (hD ▸ hlg.heap)
    (hD ▸ hlg.superblock) (hD ▸ hlg.maxcount) (hD ▸ hlg.size) hidx,
    marksFrom_skip (show d + 1 ≤ d + k by omega) (adm.inner d k le_rfl lt hk)]
  rfl

/-- A turn that frees the unmarked blocks of a small superblock. -/
lemma turns_use (hfuel : SBSIZE < fuel) (hu : Used cfg h₀ M d sc) :
    ∃ h', Turns cfg h₀ N M fuel n d h av (d + 1) h' av := by
  have hD := t.progress.rest d le_rfl
  have hsm := hu.small
  have hin : ∀ m ∈ marksIn cfg M d, cfg.sb d ≤ m ∧ m < cfg.sb d + SBSIZE := by
    intro m hm
    have := (mem_marksIn.1 hm).2
    rwa [InSb, Cfg.sb_succ] at this
  have fin : ∃ h', finishSmall (.at cfg h d (marksIn cfg M d ++ marksFrom cfg M (d + 1)) av)
      (h.desc d) (marksFrom cfg M (d + 1))
      (FreeList.pushAll ⟨h, 0, 0⟩ (freedBlocks cfg M d sc)) =
        .done (.at cfg h' (d + 1) (marksFrom cfg M (d + 1)) av) ∧
      Progress cfg h₀ M (d + 1) h' av := by
    by_cases hC : freedBlocks cfg M d sc = []
    · exact t.progress.finish_full rc t.pos lt hu hC
    · exact t.progress.finish_partial rc t.pos lt hu hC (adm.aligned d sc le_rfl lt hu)
  obtain ⟨h', e, pr⟩ := fin
  refine ⟨h', ?_, ⟨Nat.succ_pos d, lt, by have := t.turns; omega,
    not_covered_succ t.covered fun k hk => hsm.not_large hk.large, pr⟩, Nat.le_succ d⟩
  rw [marksFrom_succ, sweepTurn_small splits_marks (marksIn_ne_nil.2 hu.marked) hsm.cls
    (hD ▸ hsm.heap) (hD ▸ hsm.superblock) (hD ▸ hsm.maxcount) (hD ▸ hsm.size) hin hfuel]
  exact e

/-- Every turn with admissible marks leads to another superblock. -/
lemma InTime.turns_on (hfuel : SBSIZE < fuel) :
    ∃ d' h' av', Turns cfg h₀ N M fuel n d h av d' h' av' := by
  by_cases hA : marksIn cfg M d = []
  · exact ⟨_, _, _, (turns_reclaim t lt (.inl hA)).choose_spec⟩
  have hm := marksIn_ne_nil.1 hA
  rcases rc.kind d t.pos lt hm with hnone | ⟨sc, hsm⟩ | ⟨k, hlg⟩
  · exact ⟨_, _, _, (turns_reclaim t lt (.inr hnone)).choose_spec⟩
  · exact ⟨_, _, _, (turns_use rc t lt adm hfuel ⟨hsm, hm⟩).choose_spec⟩
  · exact ⟨_, _, _, (turns_keep rc t lt adm ⟨hlg, hm⟩).choose_spec⟩

end rest

/-- What the loop leaves alone. -/
structure LoopFrame (h h' : Heap) : Prop where
  same : h.SameRoots h'
  first : h'.desc 0 = h.desc 0
  counted : h.Counted → h'.Counted
  pushes : h'.pushes .avail = h.pushes .avail

/-- No turn. -/
lemma LoopFrame.refl (h : Heap) : LoopFrame h h := ⟨⟨rfl, rfl⟩, rfl, id, rfl⟩

/-- Turns after turns. -/
lemma LoopFrame.trans {h₁ h₂ h₃ : Heap} (a : LoopFrame h₁ h₂) (b : LoopFrame h₂ h₃) :
    LoopFrame h₁ h₃ :=
  ⟨a.same.trans b.same, b.first.trans a.first, fun c => b.counted (a.counted c),
    b.pushes.trans a.pushes⟩

/-- A single turn. -/
lemma TurnFrame.loop (fr : TurnFrame d h h') (pos : 0 < d) : LoopFrame h h' :=
  ⟨fr.same, fr.desc 0 pos.ne, fr.counted, fr.pushes⟩

/-- Every loop that ends has made progress up to the end of the region. -/
lemma sweepLoop_frame (rc : Sweepable cfg h₀ N M) (hM : ∀ m ∈ M, m < cfg.sb N)
    (hfuel : SBSIZE < fuel) (t : InTime cfg h₀ N M n d h av) (adm : AdmissibleFrom cfg h₀ N M d)
    {av' : Option ℕ} (e : remaining cfg fuel N M n d h av = .done (.at cfg h' N [] av')) :
    Progress cfg h₀ M N h' av' ∧ LoopFrame h h' := by
  induction n generalizing d h av with
  | zero => exact absurd t.turns (by omega)
  | succ n ih =>
    rcases Nat.eq_or_lt_of_le t.le with rfl | lt
    · rw [remaining_end hM] at e
      cases e
      exact ⟨t.progress, .refl _⟩
    obtain ⟨d', h₁, av₁, ts⟩ := t.turns_on rc lt adm hfuel
    have fr : TurnFrame d h h₁ := sweepTurn_frame ts.turn
    rw [remaining_succ lt, ← marksFrom_succ, ts.turn] at e
    obtain ⟨pr, fr'⟩ := ih ts.inTime (adm.mono ts.le) e
    exact ⟨pr, (fr.loop t.pos).trans fr'⟩

/-- The heap `h'` after a recovery of `h` with precise marks, and what it has to do with `h`. -/
structure Rebuilt (cfg : Cfg) (h : Heap) (N : ℕ) (M : Finset ℕ) (h' : Heap) : Prop where
  sweepable : Sweepable cfg h N M
  precise : Precise cfg h N M
  swept : Swept cfg h N M h'
  currAddr : h'.currAddr = h.currAddr
  outside : ∀ d, d = 0 ∨ N ≤ d → h'.desc d = h.desc d
  counted : h'.Counted

/-- The sweep rebuilds the heap. -/
lemma sweep_rebuilt (rc : Sweepable cfg h N M) (hM : Precise cfg h N M) (hfuel : N + SBSIZE < fuel)
    {w : Sweep} (e : sweep cfg fuel h M.sort = .done w) : Rebuilt cfg h N M w.heap := by
  have hf : SBSIZE < fuel := by omega
  have adm := hM.admissible rc
  have hlt : ∀ m ∈ M, m < cfg.sb N := by
    intro m hm
    obtain ⟨d, hd, hin⟩ := hM.inSb hm
    exact lt_of_lt_of_le hin.2 (Cfg.sb_le_sb.2 hd.2)
  have t := inTime_one (M := M) rc hfuel
  rw [sweep_eq rc, sort_eq_marksFrom adm.first] at e
  rcases sweepLoop_outcome rc hlt hf t with ⟨-, h', av, e', -⟩ | ⟨nadm, -⟩
  · obtain ⟨pr, fr⟩ := sweepLoop_frame rc hlt hf t adm.rest e'
    rw [remaining] at e'
    rw [e'] at e
    cases e
    refine ⟨rc, hM, pr.swept, fr.same.currAddr, ?_, fun l => ?_⟩
    · rintro d (rfl | le)
      · exact fr.first
      · exact pr.rest d le
    · have counted := fr.counted (fun _ => rfl) l
      cases l with
      | avail =>
        show 0 = h'.pushes .avail % CNT
        rw [fr.pushes]
        rfl
      | part sc => exact counted
  · exact absurd adm.rest nadm

end Ralloc
