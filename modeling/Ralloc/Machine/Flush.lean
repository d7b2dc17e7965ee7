import Ralloc.Machine.Organize

/-!
# The steps of `flush_cache` and the end of `do_free`

A turn of `flush_cache` cuts the longest run of blocks of one superblock off the front of the cache
(`scanRun_spec`), writes the link at its end and gives it back with a compare-and-swap on the
anchor. The anchor it has loaded is never that of an empty superblock, because the run is still
outside, and never that of a superblock that is being set up.
-/

namespace Ralloc

open Lib SuperblockState

variable {cfg : Cfg} {t : ℕ} {h h' : Heap} {L L' : Ledger}

/-- The inner loop of `flush_cache` finds a run at the front of the list. -/
lemma scanRun_spec {next : ℕ → ℕ} (lo hi : ℕ) (l : List ℕ) (tail count : ℕ)
    (hl : Linked next (tail :: l)) :
    ∃ R rest tail', scanRun next lo hi l.length tail count = (tail', count + R.length) ∧
      l = R ++ rest ∧ (tail :: R).getLast? = some tail' ∧ ∀ x ∈ R, lo ≤ x ∧ x < hi := by
  induction l generalizing tail count with
  | nil => exact ⟨[], [], tail, by simp [scanRun], rfl, rfl, by simp⟩
  | cons b l ih =>
    obtain ⟨hnext, hl⟩ := linked_cons_cons.1 hl
    rw [List.length_cons, scanRun, hnext]
    by_cases out : b < lo ∨ b ≥ hi
    · rw [if_pos out]
      exact ⟨[], b :: l, tail, by simp, rfl, rfl, by simp⟩
    · rw [if_neg out]
      obtain ⟨R, rest, tail', h1, h2, h3, h4⟩ := ih b (count + 1) hl
      refine ⟨b :: R, rest, tail', ?_, ?_, ?_, ?_⟩
      · rw [h1, List.length_cons, Nat.add_assoc, Nat.add_comm 1]
      · rw [h2, List.cons_append]
      · rw [List.getLast?_cons_cons, h3]
      · intro x hx
        rcases List.mem_cons.1 hx with rfl | hx
        · omega
        · exact h4 x hx

/-- `flush_cache` returns. -/
lemma sound_flushDone (ok : L.Ok cfg) (rep : Rep cfg h L) {sc k}
    (th : ThInv cfg h L t (.flushHead sc k)) (num : (h.cache t sc).num = 0) :
    Sound cfg t h L (h, flushDone sc k) := by
  obtain ⟨ow, hsc⟩ := th
  have hsc : SmallClass sc := hsc
  refine .stay ok rep ?_
  cases k with
  | free p =>
    refine ⟨ow.same ⟨rfl, rfl, rfl, rfl, rfl⟩, hsc, ?_⟩
    have := hsc.four_le
    rw [num, hsc.cacheBlockNum_eq]
    omega
  | exit =>
    rw [flushDone]
    split
    case isTrue lt => exact ⟨ow.same ⟨rfl, rfl, rfl, rfl, rfl⟩, by omega, lt⟩
    case isFalse => exact ⟨ow.same ⟨rfl, rfl, rfl, rfl, rfl⟩, trivial⟩

/-- Blocks of one class that lie in the range of a superblock belong to it. -/
lemma Ledger.Ok.mem_of_range (ok : L.Ok cfg) {b sc d} (hb : L.InClass cfg b sc)
    (lo : cfg.sb d ≤ b) (hi : b < cfg.sb d + SBSIZE) : b ∈ cfg.blocks sc d := by
  obtain ⟨e, o, hr, hm⟩ := hb
  by_cases ne : e = d
  · subst ne
    exact hm
  · rcases Cfg.not_mem_range_of_ne (ok.cls hr) hm ne with h1 | h1 <;> omega

/-- The head of the loop of `flush_cache`. -/
lemma sound_flushHead (ok : L.Ok cfg) (rep : Rep cfg h L) {sc k spur}
    (th : ThInv cfg h L t (.flushHead sc k)) :
    Sound cfg t h L (exec cfg t spur h (.flushHead sc k)) := by
  by_cases num : (h.cache t sc).num = 0
  · rw [exec, if_pos num]
    exact sound_flushDone ok rep th num
  obtain ⟨ow, hsc⟩ := th
  have hsc : SmallClass sc := hsc
  have hc := rep.cache t sc
  have hne : L.blks.items (.cached t sc) ≠ [] := by
    intro e
    rw [hc.num, e] at num
    exact num rfl
  obtain ⟨b, l, hC⟩ := List.exists_cons_of_ne_nil hne
  rw [hC] at hc
  have hb : (h.cache t sc).block = b := by simpa using (hc.head (by simp)).symm
  have hnum : (h.cache t sc).num - 1 = l.length := by simp [hc.num]
  -- the superblock of the first block
  have cls : ∀ x ∈ L.blks.items (.cached t sc), L.InClass cfg x sc := fun x hx =>
    ok.inClass ((ok.mem_items (c := .cached t sc) trivial).1 hx)
  obtain ⟨d, o, hr, hm⟩ := cls b (by simp [hC])
  have hidx : sbIndex cfg.heapStart b = d := ok.sbIndex_of_mem hr hm
  obtain ⟨i, hi, hbi⟩ := Cfg.mem_blocks.1 hm
  obtain ⟨R, rest, tail, hscan, hl, htail, hrange⟩ :=
    scanRun_spec (cfg.sb d) (cfg.sb d + SBSIZE) l b 1 hc.linked
  have hsplit : L.blks.items (.cached t sc) = (b :: R) ++ rest := by rw [hC, hl]; rfl
  have sub : ∀ x ∈ b :: R, x ∈ cfg.blocks sc d := by
    intro x hx
    rcases List.mem_cons.1 hx with rfl | hx
    · exact hm
    · exact ok.mem_of_range (cls x (by simp [hsplit, hx])) (hrange x hx).1 (hrange x hx).2
  have tr := Trans.cut ok rep hsplit htail
  have idx : computeIdx (cfg.sb d) b sc = some i := by
    rw [← hbi]
    exact Cfg.computeIdx_blk hsc hi
  have hlen : (b :: R).length = 1 + R.length := by simp [Nat.add_comm]
  have hle : 1 + R.length ≤ (h.cache t sc).num := by
    rw [hc.num, hl]
    simp only [List.length_cons, List.length_append]
    omega
  rw [hlen] at tr
  rw [exec]
  simp only [if_neg num, hb, hidx, (rep.small hr).2.2.2, Option.getD_some, hsc.sbSize_eq, hnum,
    hscan, idx]
  have hands : L.blks.items (.hands t sc) = [] := ow.hands sc (by simp [handsOf])
  refine .check hle ⟨_, tr, ⟨ow.raw, ow.own, ow.fresh, fun sc' => ?_, fun sc' hne' => ?_⟩, ?_⟩
  · exact (Placement.move_items_other (by simp) (by simp)).trans (ow.freeing sc')
  · refine (Placement.move_items_other (by simp) ?_).trans (ow.hands sc' (by simp [handsOf]))
    simpa [handsOf, eq_comm] using hne'
  · show RunOk _ _ ((L.moveBlk (b :: R) (.cached t sc) (.hands t sc)).blks.items (.hands t sc)) sc _
    rw [Ledger.moveBlk_items, if_pos rfl, hands, List.append_nil]
    have linked : Linked h.link (b :: R) := by
      have := hc.linked
      rw [hl, ← List.cons_append] at this
      exact this.left
    exact ⟨hsc, rfl, htail, hlen, linked, sub, rfl, hbi.symm, hi⟩

/-- The superblock of a run is assigned to the class of the run. -/
lemma RunOk.role (ok : L.Ok cfg) {sc r} (run : RunOk cfg h (L.blks.items (.hands t sc)) sc r) :
    ∃ o, L.role r.d = .small sc o ∧ r.head ∈ L.blks.items (.hands t sc) := by
  have hm : r.head ∈ L.blks.items (.hands t sc) := List.mem_of_head? run.head
  obtain ⟨d, o, hr, hb⟩ := ok.inClass ((ok.mem_items (c := .hands t sc) trivial).1 hm)
  have hb' := run.sub _ hm
  have e : d = r.d := by
    by_contra ne
    obtain ⟨i, hi, he⟩ := Cfg.mem_blocks.1 hb'
    have h1 := Cfg.blk_bounds cfg r.d run.small hi
    have h2 := Cfg.blk_lt cfg r.d run.small hi
    rcases Cfg.not_mem_range_of_ne run.small hb ne with h3 | h3 <;> omega
  exact ⟨o, e ▸ hr, hm⟩

/-- The anchor of the run's superblock is full or partial: the run itself is outside, and the
superblock is not being set up. -/
lemma RunOk.oldOk (ok : L.Ok cfg) (rep : Rep cfg h L) {sc r}
    (run : RunOk cfg h (L.blks.items (.hands t sc)) sc r)
    (nofresh : L.sbs.items (.small sc (.fresh t)) = []) : OldOk sc (h.desc r.d).anchor := by
  obtain ⟨o, hr, hm⟩ := run.role ok
  have room := ok.room hr rfl run.sub
  have pos : 0 < (L.blks.items (.hands t sc)).length := List.length_pos_of_mem hm
  have ha := rep.anchor hr
  have four := run.small.four_le
  have main : ∀ {a : Anchor} {F : List ℕ}, F = L.blks.items (.free r.d) →
      (F.head? = some (cfg.blk sc r.d a.avail) ∧ a.avail < maxcount sc ∧
      (a.state = SB_PARTIAL ∧ a.count = F.length ∧ F.length < maxcount sc ∨
        a.state = SB_EMPTY ∧ a.count = maxcount sc - 1 ∧ F.length = maxcount sc)) →
      OldOk sc a := by
    rintro a F rfl ⟨-, h2, ⟨h3, h4, h5⟩ | ⟨-, -, h5⟩⟩
    · exact ⟨by omega, .inr ⟨h3, h2⟩⟩
    · omega
  cases o with
  | full =>
    rw [ha.1]
    exact ⟨show 0 < _ by omega, .inl rfl⟩
  | fresh u =>
    have hp := rep.fresh hr _ (run.sub _ hm)
    have hp' := (ok.mem_items (c := .hands t sc) trivial).1 hm
    rw [hp] at hp'
    cases hp'
    have := (ok.mem_sbs (r := .small sc (.fresh t)) trivial).2 hr
    rw [nofresh] at this
    cases this
  | listed => exact main rfl ha
  | thr u => exact main rfl ha

/-- `flush_cache` loads the anchor. -/
lemma sound_flushLoad (ok : L.Ok cfg) (rep : Rep cfg h L) {sc r k spur}
    (th : ThInv cfg h L t (.flushLoad sc r k)) :
    Sound cfg t h L (exec cfg t spur h (.flushLoad sc r k)) := by
  obtain ⟨ow, run⟩ := th
  have run : RunOk cfg h (L.blks.items (.hands t sc)) sc r := run
  exact .stay ok rep ⟨ow.same ⟨rfl, rfl, rfl, rfl, rfl⟩, run, run.oldOk ok rep (ow.fresh sc)⟩

/-- `flush_cache` links the end of the run to the free list it has seen. -/
lemma sound_flushStore (ok : L.Ok cfg) (rep : Rep cfg h L) {sc r old k spur}
    (th : ThInv cfg h L t (.flushStore sc r old k)) :
    Sound cfg t h L (exec cfg t spur h (.flushStore sc r old k)) := by
  obtain ⟨ow, run, hold⟩ := th
  obtain ⟨o, hr, -⟩ := run.role ok
  have htail : r.tail ∈ L.blks.items (.hands t sc) := List.mem_of_getLast? run.tail
  have hplace := (ok.mem_items (c := .hands t sc) trivial).1 htail
  have inside : cfg.Inside r.d := ok.insideOf hr (by simp)
  rw [exec, (rep.small hr).2.2.1]
  refine .check hold.count ⟨L, .setLink ok rep hplace, ow.same ⟨rfl, rfl, rfl, rfl, rfl⟩,
    ?_, hold, ?_⟩
  · refine ⟨run.small, run.head, run.tail, run.count, ?_, run.sub, run.superblock,
      run.idx, run.idx_lt⟩
    -- the last block does not occur among the blocks before it
    refine run.linked.congr fun b hb => ?_
    have hb' := List.dropLast_subset _ hb
    refine ok.link_ne hplace trivial ((ok.mem_items (c := .hands t sc) trivial).1 hb') trivial ?_
    rintro rfl
    obtain ⟨R', hR'⟩ := List.getLast?_eq_some_iff.1 run.tail
    have nd := (ok.blks (.hands t sc) trivial).nodup
    rw [hR', List.dropLast_concat] at hb
    rw [hR'] at nd
    exact (List.nodup_append.1 nd).2.2 _ hb _ (by simp) rfl
  · intro lt
    have hmem : cfg.blk sc r.d old.avail ∈ cfg.blocks sc r.d := Cfg.blk_mem lt
    have hv : r.superblock + old.avail * blockSize sc = cfg.blk sc r.d old.avail := by
      rw [run.superblock]
      rfl
    rw [hv]
    exact Heap.link_setLink_self (ok.word hplace trivial).2 (Cfg.lt_of_mem run.small inside hmem)

/-- What the control state is after the compare-and-swap of `flush_cache`. -/
lemma sound_gaveBack (ok : L.Ok cfg) (rep : Rep cfg h L) {sc r o k}
    (ow : Owned cfg L t (.flushCas sc r (h.desc r.d).anchor k))
    (run : RunOk cfg h (L.blks.items (.hands t sc)) sc r)
    (hold : OldOk sc (h.desc r.d).anchor) (hr : L.role r.d = .small sc o)
    (join : (h.desc r.d).anchor.avail < maxcount sc →
      h.link r.tail = cfg.blk sc r.d (h.desc r.d).anchor.avail) :
    Sound cfg t h L
      (h.setDesc r.d { h.desc r.d with
        anchor := giveAnchor (h.desc r.d).anchor r.idx r.count (maxcount sc) },
        gaveBack cfg sc r (h.desc r.d).anchor
          (giveAnchor (h.desc r.d).anchor r.idx r.count (maxcount sc)) k) := by
  have inside : cfg.Inside r.d := ok.insideOf hr (by simp)
  have tr := Trans.giveBack (t := t) ok hr rep rfl run hold join
  rw [run.count] at tr
  have hgive := (rep.anchor hr).give (t := t) hold (run.head.trans (by rw [run.idx])) run.idx_lt
    (ok.room hr rfl run.sub)
  rw [run.count] at hgive
  set R := L.blks.items (.hands t sc) with hR
  set L' := L.giveBack t r.d sc o with hL'
  have raw : L'.sbs.items (.raw t) = [] := (Ledger.claim_items (by simp) (by simp)).trans ow.raw
  have fresh : ∀ sc', L'.sbs.items (.small sc' (.fresh t)) = [] := fun sc' =>
    (Ledger.claim_items (by simp) (by simp)).trans (ow.fresh sc')
  have freeing : ∀ sc', L'.blks.items (.freeing t sc') = only (k.freeing sc) sc' := by
    intro sc'
    refine (Placement.move_items_other (by simp) (by simp)).trans ?_
    rw [Ledger.claim_blks]
    exact ow.freeing sc'
  have hands : ∀ sc', L'.blks.items (.hands t sc') = [] := by
    intro sc'
    by_cases e : sc = sc'
    · subst e
      exact Placement.move_items_from (by simp) (by rw [Ledger.claim_blks]; simp)
    · refine (Placement.move_items_other (by simp [Ne.symm e]) (by simp)).trans ?_
      rw [Ledger.claim_blks]
      exact ow.hands sc' (by simpa [handsOf] using e)
  have own : ∀ sc', L'.sbs.items (.small sc' (.thr t)) =
      if o = .full ∧ sc = sc' then [r.d] else [] := by
    intro sc'
    by_cases e : sc = sc'
    · subst e
      refine Ledger.claim_items_thr.trans ?_
      rw [ow.own]
      by_cases ho : o = .full <;> simp [ho, ownOf]
    · refine (Ledger.claim_items (by simp) (by simp [Ne.symm e])).trans ?_
      rw [ow.own, if_neg (fun h => e h.2)]
      rfl
  have full_iff : (h.desc r.d).anchor.state = SB_FULL ↔ o = .full := by
    have ha := rep.anchor hr
    cases o with
    | full => simp [ha.1, Anchor.full]
    | fresh u => simp [ha.1, Anchor.zero]
    | listed => obtain ⟨-, -, ⟨hs, -⟩ | ⟨hs, -⟩⟩ := ha <;> simp [hs]
    | thr u => obtain ⟨-, -, ⟨hs, -⟩ | ⟨hs, -⟩⟩ := ha <;> simp [hs]
  refine ⟨L', tr, ?_⟩
  rw [gaveBack]
  by_cases ho : o = .full
  · subst ho
    rw [if_pos (full_iff.2 rfl)]
    obtain ⟨-, -, ⟨hs, -, -⟩ | ⟨hs, -, hall⟩⟩ := hgive
    · rw [if_neg (by rw [hs]; simp)]
      refine ⟨⟨raw, fun sc' => ?_, fresh, freeing, fun sc' _ => hands sc'⟩, run.small, sc, k, rfl⟩
      rw [own]
      simp [ownOf, only, PushK.sc]
    · rw [if_pos hs, run.superblock, inside.sbIndex_sb]
      refine ⟨⟨raw, fun sc' => ?_, fresh, freeing, fun sc' _ => hands sc'⟩, run.small,
        run.small, rfl, trivial, fun _ => ?_⟩
      · rw [own]
        simp [ownOf, only, PushK.sc, CtorPhase.Early]
      · rw [hL', Ledger.giveBack_free]
        exact hall
  · rw [if_neg (mt full_iff.1 ho)]
    refine ⟨⟨raw, fun sc' => ?_, fresh, freeing, fun sc' _ => hands sc'⟩, run.small⟩
    rw [own, if_neg (fun h => ho h.1)]
    rfl

/-- The compare-and-swap of `flush_cache`. -/
lemma sound_flushCas (ok : L.Ok cfg) (rep : Rep cfg h L) {sc r old k spur}
    (th : ThInv cfg h L t (.flushCas sc r old k)) :
    Sound cfg t h L (exec cfg t spur h (.flushCas sc r old k)) := by
  obtain ⟨ow, run, hold, join⟩ := th
  obtain ⟨o, hr, -⟩ := run.role ok
  rw [exec, (rep.small hr).2.2.1]
  split
  case isFalse =>
    exact .stay ok rep ⟨ow.same ⟨rfl, rfl, rfl, rfl, rfl⟩, run, run.oldOk ok rep (ow.fresh sc)⟩
  case isTrue hcas =>
    obtain ⟨rfl, -⟩ := hcas
    have four := run.small.four_le
    refine .check ⟨?_, ?_, ?_⟩ (sound_gaveBack ok rep ow run hold hr join)
    · rcases hold.cases with h1 | ⟨-, h1⟩
      · exact .inr h1
      · exact .inl h1
    · rw [giveAnchor]
      split <;> exact run.idx_lt
    · have room := ok.room hr rfl run.sub
      rw [run.count] at room
      rw [giveAnchor]
      split
      case isTrue => exact show maxcount sc - 1 < _ by omega
      case isFalse ne =>
        have hc : (h.desc r.d).anchor.count ≤ (L.blks.items (.free r.d)).length := by
          have ha := rep.anchor hr
          cases o with
          | full => simp [ha.1, Anchor.full]
          | fresh u => simp [ha.1, Anchor.zero]
          | listed => obtain ⟨-, -, ⟨-, hs, -⟩ | ⟨-, hs, hs'⟩⟩ := ha <;> omega
          | thr u => obtain ⟨-, -, ⟨-, hs, -⟩ | ⟨-, hs, hs'⟩⟩ := ha <;> omega
        show (h.desc r.d).anchor.count + r.count < maxcount sc
        omega

/-- `do_free` puts the block into the cache and returns. -/
lemma sound_pushBlock (ok : L.Ok cfg) (rep : Rep cfg h L) {sc p spur}
    (th : ThInv cfg h L t (.pushBlock sc p)) :
    Sound cfg t h L (exec cfg t spur h (.pushBlock sc p)) := by
  obtain ⟨ow, hsc, hlt⟩ := th
  have hp : L.blks.items (.freeing t sc) = [p] := by rw [ow.freeing]; exact only_self ..
  rw [exec]
  refine ⟨_, .pushBlock ok rep hp hlt, ⟨ow.raw, ow.own, ow.fresh, fun sc' => ?_, fun sc' _ => ?_⟩,
    trivial⟩
  · by_cases e : sc = sc'
    · subst e
      exact Placement.move_items_from (by simp) hp
    · refine (Placement.move_items_other (by simp [Ne.symm e]) (by simp)).trans ?_
      rw [ow.freeing]
      exact only_ne e
  · exact (Placement.move_items_other (by simp) (by simp)).trans (ow.hands sc' (by simp [handsOf]))

end Ralloc
