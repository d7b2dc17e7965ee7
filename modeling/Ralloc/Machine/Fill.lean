import Ralloc.Machine.Blocks
import Ralloc.Machine.Large

/-!
# The steps of `do_malloc` for a small size

`Sound cfg t h L r`: thread `t` may leave the heap and its control state as `r` says. Each lemma
here takes one control state of `fill_cache` and what it calls, from the pop of a partial superblock
over the expansion of the region to the block that is returned, and shows that one step of `exec` is
sound.
-/

namespace Ralloc

open Lib SuperblockState

variable {cfg : Cfg} {t : ℕ} {h h' : Heap} {L L' : Ledger}

/-- After this step the ledger is represented, and thread `t` is where its control state says. -/
def Sound (cfg : Cfg) (t : ℕ) (h : Heap) (L : Ledger) (r : Heap × PC) : Prop :=
  ∃ L', Trans cfg t h L r.1 L' ∧ ThInv cfg r.1 L' t r.2

/-- A step that only changes the control state. -/
lemma Sound.stay (ok : L.Ok cfg) (rep : Rep cfg h L) {pc} (th : ThInv cfg h L t pc) :
    Sound cfg t h L (h, pc) := ⟨L, .refl ok rep, th⟩

/-- An assertion that holds. -/
lemma Sound.check {c : Prop} [Decidable c] {a go} (hc : c) (hs : Sound cfg t h L go) :
    Sound cfg t h L (check c a h' go) := by
  rwa [Ralloc.check, if_pos hc]

/-- Two control states with the same possessions. -/
lemma Owned.same {pc pc'} (ow : Owned cfg L t pc)
    (e : rawOf cfg pc' = rawOf cfg pc ∧ ownOf pc' = ownOf pc ∧ freshOf pc' = freshOf pc ∧
      freeOf pc' = freeOf pc ∧ handsOf pc' = handsOf pc) : Owned cfg L t pc' := by
  obtain ⟨e1, e2, e3, e4, e5⟩ := e
  constructor
  case raw => rw [e1, ow.raw]
  case own => intro sc; rw [e2, ow.own]
  case fresh => intro sc; rw [e3, ow.fresh]
  case freeing => intro sc; rw [e4, ow.freeing]
  case hands => intro sc; rw [e5]; exact ow.hands sc

/-- A step that keeps the request. -/
lemma Asked.congr {sc} (a : Asked h t sc) (req : h'.req t = h.req t) : Asked h' t sc :=
  ⟨a.small, req ▸ a.le, req ▸ a.eq⟩

/-- A step that keeps the request and the cache. -/
lemma Filling.congr {sc} (f : Filling h t sc) (cache : h'.cache t sc = h.cache t sc)
    (req : h'.req t = h.req t) : Filling h' t sc :=
  ⟨f.toAsked.congr req, cache ▸ f.num⟩

/-- A full cache bin has as many blocks as a superblock. -/
lemma Filling.empty {sc} (f : Filling h t sc) (rep : Rep cfg h L) :
    L.blks.items (.cached t sc) = [] := by
  have := (rep.cache t sc).num
  rw [f.num] at this
  exact List.eq_nil_of_length_eq_zero this.symm

/-- The superblock that the control state names as owned. -/
lemma ThInv.role_own {pc sc d} (th : ThInv cfg h L t pc) (ok : L.Ok cfg)
    (hd : ownOf pc = some (sc, d)) : L.role d = .small sc (.thr t) :=
  Frame.role_own ok th.owned hd

/-- What `desc` says about an assigned superblock. -/
lemma Rep.small (rep : Rep cfg h L) {d sc o} (hd : L.role d = .small sc o) :
    (h.desc d).heap = some sc ∧ (h.desc d).blockSize = blockSize sc ∧
      (h.desc d).maxcount = maxcount sc ∧ (h.desc d).superblock = some (cfg.sb d) := by
  have := rep.desc d
  rwa [hd] at this

/-- The loop heads of `heap_pop_partial` and `small_sb_alloc`. -/
lemma sound_popTest (ok : L.Ok cfg) (rep : Rep cfg h L) {l sc}
    (ow : Owned cfg L t (.popLoad l sc)) (hl : l = .avail ∨ l = .part sc) (hf : Filling h t sc) :
    Sound cfg t h L (h, popTest l sc (h.see l)) := by
  refine .stay ok rep ?_
  cases hp : (h.head l).ptr with
  | some p =>
    rw [show popTest l sc (h.see l) = .popNext l sc (h.see l) p by simp [popTest, Heap.see, hp]]
    exact ⟨ow.same ⟨rfl, rfl, rfl, rfl, rfl⟩, hl, hf, ⟨le_rfl, rep.cnt l⟩, hp⟩
  | none =>
    cases l with
    | avail =>
      rw [show popTest .avail sc (h.see .avail) = .growLoad sc by simp [popTest, Heap.see, hp]]
      exact ⟨ow.same ⟨rfl, rfl, rfl, rfl, rfl⟩, hf⟩
    | part sc' =>
      rw [show popTest (.part sc') sc (h.see (.part sc')) = .popLoad .avail sc by
        simp [popTest, Heap.see, hp]]
      exact ⟨ow.same ⟨rfl, rfl, rfl, rfl, rfl⟩, .inl rfl, hf⟩

/-- An address that `sb_lookup` gives is the start of a superblock. -/
lemma Cfg.Inside.isSb {d} (hd : cfg.Inside d) : cfg.IsSb (cfg.sb d) := by
  unfold Cfg.IsSb
  rw [hd.sbIndex_sb]

/-- A successful pop leaves the thread with the popped superblock. -/
lemma sound_popped (ok : L.Ok cfg) (rep : Rep cfg h L) {l sc p rest old next}
    (ow : Owned cfg L t (.popCas l sc old p next)) (hl : l = .avail ∨ l = .part sc)
    (hf : Filling h t sc) (hlist : L.sbs.items l.role = p :: rest) :
    Sound cfg t h L (h.setHead l ⟨(h.desc p).next l, (h.head l).cnt⟩, popped cfg l sc p) := by
  have hp : L.role p = l.role := (ok.mem_sbs l.role_tracked).1 (by simp [hlist])
  have hf' : Filling (h.setHead l ⟨(h.desc p).next l, (h.head l).cnt⟩) t sc := hf.congr rfl rfl
  refine ⟨_, .pop ok rep hlist, ?_⟩
  rcases hl with rfl | rfl
  · have inside : cfg.Inside p := ok.insideOf hp (by simp [ListId.role])
    have hidx : sbIndex cfg.heapStart (sbLookup cfg.heapStart p) = p := by
      rw [inside.sbLookup, inside.sbIndex_sb]
    have hdesc := rep.desc p
    rw [hp] at hdesc
    refine ⟨⟨?_, fun sc' => ?_, fun sc' => ?_, ow.freeing, fun sc' _ => ?_⟩, hf', ?_, ?_⟩
    · rw [show rawOf cfg (popped cfg .avail sc p) = [p] by simp [popped, rawOf, hidx]]
      exact (Placement.move_items_to _ _ _ _).trans (by simp [ListId.taken, ow.raw, rawOf])
    · exact (Placement.move_items_other (by simp [ListId.role]) (by simp [ListId.taken])).trans
        (ow.own sc')
    · exact (Placement.move_items_other (by simp [ListId.role]) (by simp [ListId.taken])).trans
        (ow.fresh sc')
    · exact ow.hands sc' (by simp [handsOf])
    · rw [inside.sbLookup]
      exact inside.isSb
    · rw [hidx]
      show (h.desc p).anchor = .zero
      rw [show h.desc p = _ from hdesc]
      rfl
  · refine ⟨⟨?_, fun sc' => ?_, fun sc' => ?_, ow.freeing, fun sc' _ => ?_⟩, hf'⟩
    · exact (Placement.move_items_other (by simp [ListId.role]) (by simp [ListId.taken])).trans
        ow.raw
    · by_cases e : sc = sc'
      · subst e
        exact (Placement.move_items_to _ _ _ _).trans
          (by simp [ListId.taken, ow.own, ownOf, popped])
      · refine (Placement.move_items_other (by simp [ListId.role])
          (by simp [ListId.taken, Ne.symm e])).trans ?_
        rw [ow.own sc']
        exact (only_ne e).symm
    · exact (Placement.move_items_other (by simp [ListId.role]) (by simp [ListId.taken])).trans
        (ow.fresh sc')
    · exact ow.hands sc' (by simp [handsOf])

/-- The compare-and-swap of a pop. The counter tells that nothing was pushed since the load. -/
lemma sound_popCas (ok : L.Ok cfg) (rep : Rep cfg h L) {l sc old p next spur}
    (th : ThInv cfg h L t (.popCas l sc old p next)) (wrap : h.pushes l - old.stamp < CNT) :
    Sound cfg t h L (exec cfg t spur h (.popCas l sc old p next)) := by
  obtain ⟨ow, hl, hf, hs, hp, hn⟩ := th
  rw [exec]
  split
  case isTrue hc =>
    have same : h.pushes l = old.stamp := by
      have h1 := rep.cnt l
      rw [hc.1, hs.cnt] at h1
      have h2 := hs.le
      have h3 : (h.pushes l - old.stamp) % CNT = 0 := Nat.sub_mod_eq_zero_of_mod_eq h1.symm
      rw [Nat.mod_eq_of_lt wrap] at h3
      omega
    have hlist := rep.list l
    rw [hc.1, hp] at hlist
    obtain ⟨rest, hitems, -⟩ := hlist.of_some
    have hnext : (h.desc p).next l = next := hn same (by simp [hitems])
    have := sound_popped ok rep ow hl hf hitems
    rwa [hnext, hc.1] at this
  case isFalse => exact sound_popTest ok rep (ow.same ⟨rfl, rfl, rfl, rfl, rfl⟩) hl hf

/-- The anchor of a superblock that a thread has taken. -/
lemma Rep.anchor_own (rep : Rep cfg h L) {d sc} (hd : L.role d = .small sc (.thr t)) :
    (h.desc d).anchor.avail < maxcount sc ∧
      (L.blks.items (.free d)).head? = some (cfg.blk sc d (h.desc d).anchor.avail) ∧
      ((h.desc d).anchor.state = SB_PARTIAL ∧
        (h.desc d).anchor.count = (L.blks.items (.free d)).length ∧
        (L.blks.items (.free d)).length < maxcount sc ∨
      (h.desc d).anchor.state = SB_EMPTY ∧ (L.blks.items (.free d)).length = maxcount sc) := by
  obtain ⟨h1, h2, ⟨h3, h4, h5⟩ | ⟨h3, h4, h5⟩⟩ := rep.anchor hd
  · exact ⟨h2, h1, .inl ⟨h3, h4, h5⟩⟩
  · exact ⟨h2, h1, .inr ⟨h3, h5⟩⟩

/-- The loop body of `malloc_from_partial` before the compare-and-swap. -/
lemma sound_anchorTest (ok : L.Ok cfg) (rep : Rep cfg h L) {sc d}
    (ow : Owned cfg L t (.anchorLoad sc d)) (hf : Filling h t sc) :
    Sound cfg t h L
      (anchorTest cfg sc d (h.desc d).anchor (maxcount sc) (blockSize sc) (cfg.sb d) h) := by
  have hd : L.role d = .small sc (.thr t) := Frame.role_own ok ow rfl
  have inside : cfg.Inside d := ok.insideOf hd (by simp)
  obtain ⟨-, -, ⟨hs, -⟩ | ⟨hs, hlen⟩⟩ := rep.anchor_own hd
  · rw [anchorTest, if_neg (by simp [hs])]
    refine .check hs (.stay ok rep ?_)
    exact ⟨ow.same ⟨rfl, rfl, rfl, rfl, rfl⟩, hf, hs, rfl, rfl, rfl⟩
  · rw [anchorTest, if_pos hs, inside.sbIndex_sb]
    refine .check hf.small.sbSize_eq (.stay ok rep ?_)
    exact ⟨ow.same ⟨rfl, rfl, rfl, rfl, rfl⟩, hf, hf.small, rfl, trivial, fun _ => hlen⟩

/-- `malloc_from_partial` loads the anchor. -/
lemma sound_anchorLoad (ok : L.Ok cfg) (rep : Rep cfg h L) {sc d spur}
    (th : ThInv cfg h L t (.anchorLoad sc d)) :
    Sound cfg t h L (exec cfg t spur h (.anchorLoad sc d)) := by
  obtain ⟨-, hb, hm, hs⟩ := rep.small (th.role_own ok rfl)
  have := sound_anchorTest ok rep th.owned th.known
  rwa [← hm, ← hb, show cfg.sb d = (h.desc d).superblock.getD 0 by rw [hs]; rfl] at this

/-- The compare-and-swap of `malloc_from_partial`: all free blocks go into the cache. -/
lemma sound_anchorCas (ok : L.Ok cfg) (rep : Rep cfg h L) {sc d old maxc bsize sb spur}
    (th : ThInv cfg h L t (.anchorCas sc d old maxc bsize sb)) :
    Sound cfg t h L (exec cfg t spur h (.anchorCas sc d old maxc bsize sb)) := by
  have hd := th.role_own ok rfl
  obtain ⟨ow, hf, hold, rfl, rfl, rfl⟩ := th
  rw [exec]
  split
  case isFalse => exact sound_anchorTest ok rep (ow.same ⟨rfl, rfl, rfl, rfl, rfl⟩) hf
  case isTrue hc =>
    obtain ⟨rfl, -⟩ := hc
    obtain ⟨havail, hhead, ⟨-, hcount, hlt⟩ | ⟨hs, -⟩⟩ := rep.anchor_own hd
    swap
    · rw [hold] at hs
      cases hs
    have pos : 0 < (L.blks.items (.free d)).length := by
      cases hF : L.blks.items (.free d) with
      | nil => simp [hF] at hhead
      | cons b F => simp
    have le : (L.blks.items (.free d)).length ≤ cacheBlockNum sc := by
      rw [hf.small.cacheBlockNum_eq]
      exact hlt.le
    have hown : L.sbs.items (.small sc (.thr t)) = [d] := by rw [ow.own]; exact only_self ..
    have tk : Takes L t d sc (.thr t) (.free d) := ⟨.inr ⟨rfl, rfl⟩, hown⟩
    have tr := Trans.takeAll tk ok rep (rep.free d) hhead le (hf.empty rep)
    refine .check ⟨havail, hf.num⟩ ?_
    rw [filled, if_neg (by omega)]
    refine .check (by omega) ⟨_, by rw [hcount]; exact tr, ?_, ?_⟩
    · constructor
      case raw => exact (Placement.move_items_other (by simp) (by simp)).trans ow.raw
      case own =>
        intro sc'
        by_cases e : sc = sc'
        · subst e
          exact Placement.move_items_from (by simp) hown
        · refine (Placement.move_items_other (by simp [Ne.symm e]) (by simp)).trans ?_
          rw [ow.own]
          exact only_ne e
      case fresh =>
        exact fun sc' => (Placement.move_items_other (by simp) (by simp)).trans (ow.fresh sc')
      case freeing =>
        exact fun sc' => (Placement.move_items_other (by simp) (by simp)).trans (ow.freeing sc')
      case hands =>
        exact fun sc' _ => (Placement.move_items_other (by simp) (by simp)).trans
          (ow.hands sc' (by simp [handsOf]))
    · refine ⟨hf.toAsked.congr rfl, ?_⟩
      rw [Heap.cache_setCache_self, hcount]
      exact pos

/-- An expansion tests whether there is room. -/
lemma sound_growCheck (ok : L.Ok cfg) (rep : Rep cfg h L) {sc cur spur}
    (th : ThInv cfg h L t (.growCheck sc cur)) :
    Sound cfg t h L (exec cfg t spur h (.growCheck sc cur)) := by
  obtain ⟨ow, hf⟩ := th
  rw [exec]
  split
  case isTrue => exact .stay ok rep ⟨ow.same ⟨rfl, rfl, rfl, rfl, rfl⟩, hf⟩
  case isFalse =>
    by_cases fits : cfg.fits cur PAGESIZE SB_REGION_EXPAND_SIZE = true
    · exact .check fits (.stay ok rep ⟨ow.same ⟨rfl, rfl, rfl, rfl, rfl⟩, hf, fits⟩)
    · rw [check, if_neg fits]
      exact .stay ok rep ⟨ow.same ⟨rfl, rfl, rfl, rfl, rfl⟩, .inl rfl⟩

/-- The superblocks of an expansion in the order in which `small_sb_alloc` uses them. -/
lemma mem_expansion {n k d : ℕ} (hk : 0 < k) :
    d ∈ List.range' (n + 1) (k - 1) ++ [n] ↔ n ≤ d ∧ d < n + k := by
  simp only [List.mem_append, List.mem_range'_1, List.mem_singleton]
  omega

/-- No superblock of an expansion comes twice. -/
lemma nodup_expansion (n k : ℕ) : (List.range' (n + 1) (k - 1) ++ [n]).Nodup := by
  refine List.nodup_append.2 ⟨List.nodup_range', by simp, ?_⟩
  intro a ha b hb
  rw [List.mem_range'_1] at ha
  rw [List.mem_singleton] at hb
  omega

/-- The compare-and-swap on `curr_addr` in `small_sb_alloc`. -/
lemma sound_growCas (ok : L.Ok cfg) (rep : Rep cfg h L) {sc cur spur}
    (th : ThInv cfg h L t (.growCas sc cur)) :
    Sound cfg t h L (exec cfg t spur h (.growCas sc cur)) := by
  obtain ⟨ow, hf, fits⟩ := th
  rw [exec]
  split
  case isFalse => exact .stay ok rep ⟨ow.same ⟨rfl, rfl, rfl, rfl, rfl⟩, hf⟩
  case isTrue hc =>
    rw [rep.curr] at hc
    subst hc
    rw [EXPAND_eq] at fits ⊢
    obtain ⟨adj, next, room⟩ := Cfg.grow_of_fits ok.inside (by decide) fits
    rw [adj, next]
    have pos : 0 < EXPAND_SBS := by decide
    have inside : cfg.Inside L.n := le_trans (Cfg.sb_le_sb.2 (by omega)) room
    have run : ∀ d, d ∈ List.range' (L.n + 1) (EXPAND_SBS - 1) ++ [L.n] ↔ _ := fun d =>
      mem_expansion pos
    refine ⟨_, .grow ok rep (nodup_expansion _ _) run room, ?_, hf.congr rfl rfl, inside.isSb⟩
    constructor
    case raw =>
      rw [rawOf, inside.sbIndex_sb]
      refine (Placement.move_items_to _ _ _ _).trans ?_
      rw [ow.raw]
      simp [rawOf]
    case own => exact fun sc' => (Placement.move_items_other (by simp) (by simp)).trans (ow.own sc')
    case fresh =>
      exact fun sc' => (Placement.move_items_other (by simp) (by simp)).trans (ow.fresh sc')
    case freeing => exact ow.freeing
    case hands => exact fun sc' _ => ow.hands sc' (by simp [handsOf])

/-- The new superblocks behind the first one are organised. -/
lemma sound_grownFence (ok : L.Ok cfg) (rep : Rep cfg h L) {sc res spur}
    (th : ThInv cfg h L t (.grownFence sc res)) :
    Sound cfg t h L (exec cfg t spur h (.grownFence sc res)) := by
  obtain ⟨ow, hf, hs⟩ := th
  have role : ∀ d ∈ rawOf cfg (.grownFence sc res), L.role d = .raw t := fun d hd =>
    (ok.mem_sbs (r := .raw t) trivial).1 (ow.raw ▸ hd)
  set d := sbIndex cfg.heapStart res with hd
  have more : 1 < EXPAND_SBS := by decide
  have inside : cfg.Inside (d + 1) := by
    refine ok.insideOf (role (d + 1) ?_) (by simp)
    rw [rawOf, ← hd, mem_expansion (by decide)]
    exact ⟨by omega, Nat.add_lt_add_left more d⟩
  have idx : sbIndex cfg.heapStart (res + SBSIZE) = d + 1 := by
    rw [← show cfg.sb d = res from hs, ← Cfg.sb_succ]
    exact inside.sbIndex_sb
  rw [exec, organizeSbList, idx]
  refine .stay ok rep ⟨ow.same ⟨?_, rfl, rfl, rfl, rfl⟩, ⟨hf, hs⟩, rfl, rfl, by decide, trivial, ?_⟩
  · rfl
  · simp

/-- The loop head of `malloc_from_newsb`. -/
lemma sound_newLoop (tr : Trans cfg t h L h' L') {sc d idx sb}
    (ow : Owned cfg L' t (.newLink sc d sb idx)) (hf : Filling h' t sc) (hsb : sb = cfg.sb d)
    (hands : L'.blks.items (.hands t sc) = cfg.blocks sc d)
    (links : ∀ j < idx, j + 1 < maxcount sc → h'.link (cfg.blk sc d j) = cfg.blk sc d (j + 1)) :
    Sound cfg t h L (h', newLoop sc d sb idx) := by
  refine ⟨L', tr, ?_⟩
  rw [newLoop]
  split
  case isTrue lt => exact ⟨ow, hf, hsb, lt, hands, fun j hj => links j hj (by omega)⟩
  case isFalse ge =>
    exact ⟨ow.same ⟨rfl, rfl, rfl, rfl, rfl⟩, hf, hsb, hands, fun j hj => links j (by omega) hj⟩

/-- `malloc_from_newsb` gives the superblock its class. -/
lemma sound_newSet (ok : L.Ok cfg) (rep : Rep cfg h L) {sc sb spur}
    (th : ThInv cfg h L t (.newSet sc sb)) :
    Sound cfg t h L (exec cfg t spur h (.newSet sc sb)) := by
  obtain ⟨ow, hf, hs, hz⟩ := th
  set d := sbIndex cfg.heapStart sb with hd
  have hsb : sb = cfg.sb d := hs.symm
  have hraw : L.sbs.items (.raw t) = [d] := ow.raw
  have tr := Trans.assign ok rep hf.small hraw hz
  rw [← hsb] at tr
  rw [exec]
  refine .check (by rw [hsb]; exact (cfg.sb_pos d).ne') ?_
  refine sound_newLoop tr ?_ (hf.congr rfl rfl) hsb ?_ (by simp)
  · constructor
    case raw => exact Placement.move_items_from (by simp) hraw
    case own => exact fun sc' => (Placement.move_items_other (by simp) (by simp)).trans (ow.own sc')
    case fresh =>
      intro sc'
      by_cases e : sc = sc'
      · subst e
        refine (Placement.move_items_to _ _ _ _).trans ?_
        rw [ow.fresh]
        simp [freshOf, hd]
      · refine (Placement.move_items_other (by simp) (by simp [Ne.symm e])).trans ?_
        rw [ow.fresh]
        exact (only_ne e).symm
    case freeing =>
      exact fun sc' => (Placement.move_items_other (by simp) (by simp)).trans (ow.freeing sc')
    case hands =>
      intro sc' hne
      refine (Placement.move_items_other (by simp) ?_).trans (ow.hands sc' (by simp [handsOf]))
      simpa [handsOf, eq_comm] using hne
  · refine (Placement.move_items_to _ _ _ _).trans ?_
    show cfg.blocks sc d ++ L.blks.items (.hands t sc) = cfg.blocks sc d
    rw [ow.hands sc (by simp [handsOf]), List.append_nil]

/-- `malloc_from_newsb` links one block to the next. -/
lemma sound_newLink (ok : L.Ok cfg) (rep : Rep cfg h L) {sc d sb idx spur}
    (th : ThInv cfg h L t (.newLink sc d sb idx)) :
    Sound cfg t h L (exec cfg t spur h (.newLink sc d sb idx)) := by
  obtain ⟨ow, hf, rfl, hlt, hh, hl⟩ := th
  have place : ∀ j < maxcount sc, L.place (cfg.blk sc d j) = .hands t sc := fun j hj =>
    (ok.mem_items (c := .hands t sc) trivial).1 (hh ▸ Cfg.blk_mem hj)
  have hidx := place idx (by omega)
  rw [exec]
  refine sound_newLoop (.setLink ok rep hidx) (ow.same ⟨rfl, rfl, rfl, rfl, rfl⟩) (hf.congr rfl rfl)
    rfl hh fun j hj hj' => ?_
  by_cases e : j = idx
  · subst e
    exact Heap.link_setLink_self (ok.word hidx trivial).2 (ok.word (place _ hlt) trivial).2
  · have ne : cfg.blk sc d j ≠ cfg.blk sc d idx := fun he => e ((Cfg.blk_inj hf.small).1 he)
    exact (ok.link_ne hidx trivial (place j (by omega)) trivial ne).trans (hl j (by omega))

/-- `malloc_from_newsb` publishes the anchor and fills the cache. -/
lemma sound_newAnchor (ok : L.Ok cfg) (rep : Rep cfg h L) {sc d sb spur}
    (th : ThInv cfg h L t (.newAnchor sc d sb)) :
    Sound cfg t h L (exec cfg t spur h (.newAnchor sc d sb)) := by
  obtain ⟨ow, hf, rfl, hh, hl⟩ := th
  have pos : 0 < maxcount sc := lt_of_lt_of_le (by decide) hf.small.four_le
  have hown : L.sbs.items (.small sc (.fresh t)) = [d] := by rw [ow.fresh]; exact only_self ..
  have head : (cfg.blocks sc d).head? = some (cfg.sb d) := by
    obtain ⟨n, hn⟩ := Nat.exists_eq_succ_of_ne_zero pos.ne'
    rw [Cfg.blocks, hn, List.range_succ_eq_map]
    simp [Cfg.blk_zero]
  have le : (cfg.blocks sc d).length ≤ cacheBlockNum sc := by
    rw [Cfg.length_blocks, hf.small.cacheBlockNum_eq]
  have empty := hf.empty rep
  have tk : Takes L t d sc (.fresh t) (.hands t sc) := ⟨.inl ⟨rfl, rfl⟩, hown⟩
  rw [← hh] at head le
  have tr := Trans.takeAll tk ok rep (hh ▸ linked_map_range hl) head le empty
  rw [hh, Cfg.length_blocks] at tr
  rw [exec]
  refine .check hf.num ⟨_, tr, ?_, hf.toAsked.congr rfl, ?_⟩
  · constructor
    case raw => exact (Placement.move_items_other (by simp) (by simp)).trans ow.raw
    case own => exact fun sc' => (Placement.move_items_other (by simp) (by simp)).trans (ow.own sc')
    case fresh =>
      intro sc'
      by_cases e : sc = sc'
      · subst e
        exact Placement.move_items_from (by simp) hown
      · refine (Placement.move_items_other (by simp [Ne.symm e]) (by simp)).trans ?_
        rw [ow.fresh]
        exact only_ne e
    case freeing =>
      exact fun sc' => (Placement.move_items_other (by simp) (by simp)).trans (ow.freeing sc')
    case hands =>
      intro sc' _
      by_cases e : sc = sc'
      · subst e
        exact Placement.move_items_from (by simp) (by simp)
      · refine (Placement.move_items_other (by simp [Ne.symm e]) (by simp)).trans ?_
        exact ow.hands sc' (by simpa [handsOf] using e)
  · refine (Placement.move_items_to _ _ _ _).trans ?_
    show L.blks.items (.hands t sc) ++ L.blks.items (.cached t sc) = cfg.blocks sc d
    rw [empty, List.append_nil, hh]

/-- Its blocks go to the cache. -/
lemma sound_newFence (ok : L.Ok cfg) (rep : Rep cfg h L) {sc d spur}
    (th : ThInv cfg h L t (.newFence sc d)) :
    Sound cfg t h L (exec cfg t spur h (.newFence sc d)) := by
  obtain ⟨ow, ha, hc⟩ := th
  have four := ha.small.four_le
  have num : (h.cache t sc).num = maxcount sc := by
    rw [(rep.cache t sc).num, hc, Cfg.length_blocks]
  rw [exec]
  refine .check ⟨by omega, ha.small.cacheBlockNum_eq.ge⟩ (.stay ok rep ?_)
  exact ⟨ow.same ⟨rfl, rfl, rfl, rfl, rfl⟩, ha, by omega⟩

/-- `TCacheBin::pop_block`. -/
lemma sound_popBlock (ok : L.Ok cfg) (rep : Rep cfg h L) {sc spur}
    (th : ThInv cfg h L t (.popBlock sc)) :
    Sound cfg t h L (exec cfg t spur h (.popBlock sc)) := by
  obtain ⟨ow, ha, hpos⟩ := th
  have hc := rep.cache t sc
  have hne : L.blks.items (.cached t sc) ≠ [] := by
    intro e
    rw [hc.num, e] at hpos
    exact absurd hpos (by simp)
  obtain ⟨b, rest, hC⟩ := List.exists_cons_of_ne_nil hne
  have hb : b = (h.cache t sc).block := by
    have := hc.head hne
    rw [hC] at this
    simpa using this
  subst hb
  rw [exec]
  refine .check hpos ⟨_, .popBlock ok rep hC, ⟨ow.raw, ow.own, ow.fresh, ?_, ?_⟩, trivial⟩
  · exact fun sc' => (Placement.move_items_other (by simp) (by simp)).trans (ow.freeing sc')
  · exact fun sc' _ => (Placement.move_items_other (by simp) (by simp)).trans
      (ow.hands sc' (by simp [handsOf]))

end Ralloc
