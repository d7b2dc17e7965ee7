import Ralloc.Machine.Flush

/-!
# Every step of a thread is sound

The remaining control states (large blocks, roots) and the calls. The main results are `exec_sound`,
one step of one thread, and the three lemmas about calls. `NoWrap` is the assumption on the ABA
counter: fewer than `CNT` pushes happen on a list between the load of its head and the
compare-and-swap that uses it.
-/

namespace Ralloc

open Lib SuperblockState

variable {cfg : Cfg} {t : ℕ} {h h' : Heap} {L L' : Ledger}

/-- `do_malloc` loads `curr_addr` for a large block. -/
lemma sound_largeLoad (ok : L.Ok cfg) (rep : Rep cfg h L) {sbs spur}
    (th : ThInv cfg h L t (.largeLoad sbs)) :
    Sound cfg t h L (exec cfg t spur h (.largeLoad sbs)) := by
  obtain ⟨ow, hl⟩ := th
  rw [exec]
  by_cases hc : argsOk PAGESIZE sbs = true ∧ cfg.fits h.currAddr PAGESIZE sbs = true
  · exact .check hc (.stay ok rep ⟨ow.same ⟨rfl, rfl, rfl, rfl, rfl⟩, hl, hc.2⟩)
  · rw [check, if_neg hc]
    exact .stay ok rep ⟨ow.same ⟨rfl, rfl, rfl, rfl, rfl⟩, .inr (.inl rfl)⟩

/-- A large request is a whole number of superblocks. -/
lemma LargeOk.eq_mul {sbs} (l : LargeOk h t sbs) : sbs = sbs / SBSIZE * SBSIZE :=
  (Nat.div_mul_cancel (Nat.dvd_of_mod_eq_zero l.mod)).symm

/-- The compare-and-swap on `curr_addr` for a large block. -/
lemma sound_largeCas (ok : L.Ok cfg) (rep : Rep cfg h L) {sbs cur spur}
    (th : ThInv cfg h L t (.largeCas sbs cur)) :
    Sound cfg t h L (exec cfg t spur h (.largeCas sbs cur)) := by
  obtain ⟨ow, hl, fits⟩ := th
  rw [exec]
  split
  case isFalse => exact .stay ok rep ⟨ow.same ⟨rfl, rfl, rfl, rfl, rfl⟩, hl⟩
  case isTrue hc =>
    rw [rep.curr] at hc
    subst hc
    have pos := hl.count_pos
    have heq := hl.eq_mul
    have hk : sbs / SBSIZE * SBSIZE < HALF := heq ▸ hl.lt
    set k := sbs / SBSIZE with hkdef
    rw [heq] at fits
    obtain ⟨adj, next, room⟩ := Cfg.grow_of_fits ok.inside hk fits
    rw [← heq] at next
    rw [adj, next]
    have inside : cfg.Inside L.n := le_trans (Cfg.sb_le_sb.2 (by omega)) room
    have run : ∀ d, d ∈ List.range' L.n k ↔ L.n ≤ d ∧ d < L.n + k := fun d => List.mem_range'_1
    refine ⟨_, .grow ok rep List.nodup_range' run room, ?_, hl.congr rfl, inside.isSb, ?_⟩
    · constructor
      case raw =>
        rw [rawOf, inside.sbIndex_sb, ← hkdef]
        refine (Placement.move_items_to _ _ _ _).trans ?_
        rw [ow.raw]
        simp [rawOf]
      case own => exact fun sc => (Placement.move_items_other (by simp) (by simp)).trans (ow.own sc)
      case fresh =>
        exact fun sc => (Placement.move_items_other (by simp) (by simp)).trans (ow.fresh sc)
      case freeing => exact ow.freeing
      case hands => exact fun sc _ => ow.hands sc (by simp [handsOf])
    · rw [inside.sbIndex_sb]
      intro j h1 h2
      have hrole : L.role j = .unborn := (ok.born j).2 (.inr h1.le)
      have := rep.desc j
      rw [hrole] at this
      exact this

/-- The space for the large block is durable. -/
lemma sound_largeGrownFence (ok : L.Ok cfg) (rep : Rep cfg h L) {sbs res spur}
    (th : ThInv cfg h L t (.largeGrownFence sbs res)) :
    Sound cfg t h L (exec cfg t spur h (.largeGrownFence sbs res)) := by
  obtain ⟨ow, hl, hs, hr⟩ := th
  exact .stay ok rep ⟨ow.same ⟨rfl, rfl, rfl, rfl, rfl⟩, hl, hs.symm, trivial, hr⟩

/-- The first superblock of a large block that is being set up. -/
lemma ThInv.role_first {pc sbs res} (th : ThInv cfg h L t pc) (ok : L.Ok cfg)
    (raw : rawOf cfg pc = List.range' (sbIndex cfg.heapStart res) (sbs / SBSIZE))
    (hl : LargeOk h t sbs) : L.role (sbIndex cfg.heapStart res) = .raw t := by
  refine th.role_raw ok ?_
  rw [raw, List.mem_range'_1]
  have := hl.count_pos
  omega

/-- A write to the first descriptor. -/
lemma RestReset.write {d sbs D} (hr : RestReset h d sbs) : RestReset (h.setDesc d D) d sbs := by
  intro j h1 h2
  rw [Heap.desc_setDesc_ne (by omega)]
  exact hr j h1 h2

/-- The fields of the descriptor are set. -/
lemma sound_largeSet (ok : L.Ok cfg) (rep : Rep cfg h L) {sbs res spur}
    (th : ThInv cfg h L t (.largeSet sbs res)) :
    Sound cfg t h L (exec cfg t spur h (.largeSet sbs res)) := by
  have hd := th.role_first ok rfl th.known.1
  obtain ⟨ow, hl, hs, hr⟩ := th
  rw [exec, Nat.mod_eq_of_lt hl.lt]
  refine .check ?_ ⟨L, .setDesc (l := .avail) ok rep hd (.inr rfl) (by simp), ?_, ?_⟩
  · rw [← show cfg.sb _ = res from hs]
    exact (cfg.sb_pos _).ne'
  · exact ow.same ⟨rfl, rfl, rfl, rfl, rfl⟩
  · refine ⟨hl.congr rfl, hs, hr.write, ?_⟩
    rw [Heap.desc_setDesc_self]
    exact ⟨rfl, rfl, rfl, rfl⟩

/-- Its anchor is set. -/
lemma sound_largeAnchor (ok : L.Ok cfg) (rep : Rep cfg h L) {sbs res spur}
    (th : ThInv cfg h L t (.largeAnchor sbs res)) :
    Sound cfg t h L (exec cfg t spur h (.largeAnchor sbs res)) := by
  have hd := th.role_first ok rfl th.known.1
  obtain ⟨ow, hl, hs, hr, hdesc⟩ := th
  rw [exec]
  refine ⟨L, .setDesc (l := .avail) ok rep hd (.inr hdesc.1) (by simp), ?_, ?_⟩
  · exact ow.same ⟨rfl, rfl, rfl, rfl, rfl⟩
  · refine ⟨hl.congr rfl, hs, hr.write, ?_⟩
    rw [Heap.desc_setDesc_self]
    exact hdesc

/-- `do_malloc` of a large block returns. -/
lemma sound_largeDescFence (ok : L.Ok cfg) (rep : Rep cfg h L) {sbs res spur}
    (th : ThInv cfg h L t (.largeDescFence sbs res)) :
    Sound cfg t h L (exec cfg t spur h (.largeDescFence sbs res)) := by
  obtain ⟨ow, hl, hs, hr, hdesc⟩ := th
  set d := sbIndex cfg.heapStart res with hd
  have hres : cfg.sb d = res := hs
  have hraw : L.sbs.items (.raw t) = List.range' d (sbs / SBSIZE) := ow.raw
  have first : LargeDesc (h.desc d) (sbs / SBSIZE * SBSIZE) (cfg.sb d) := by
    rw [← hl.eq_mul, hres]
    exact hdesc
  have tr := (Trans.largeAlloc ok rep hl.count_pos hraw first hr).setRet (p := res)
  rw [hres] at tr
  rw [exec]
  refine ⟨_, tr, ⟨?_, fun sc => ?_, fun sc => ?_, fun sc => ?_, fun sc _ => ?_⟩, trivial⟩
  · exact Placement.move_items_from (by simp) (by rw [hraw]; simp [rawOf])
  · exact (Placement.move_items_other (by simp) (by simp)).trans (ow.own sc)
  · exact (Placement.move_items_other (by simp) (by simp)).trans (ow.fresh sc)
  · exact (Placement.move_items_other (by simp) (by simp)).trans (ow.freeing sc)
  · exact (Placement.move_items_other (by simp) (by simp)).trans (ow.hands sc (by simp [handsOf]))

/-- `RP_set_root` writes a root. -/
lemma sound_rootSet (ok : L.Ok cfg) (rep : Rep cfg h L) {p i spur}
    (th : ThInv cfg h L t (.rootSet p i)) :
    Sound cfg t h L (exec cfg t spur h (.rootSet p i)) := by
  rw [exec]
  by_cases hi : i < MAX_ROOTS
  · exact .check hi ⟨L, .setRoot ok rep, th.owned.same ⟨rfl, rfl, rfl, rfl, rfl⟩, trivial⟩
  · rw [check, if_neg hi]
    exact .stay ok rep ⟨th.owned.same ⟨rfl, rfl, rfl, rfl, rfl⟩, .inr (.inr rfl)⟩

/-- The pop that a control state is about to complete has not been overtaken by `CNT` pushes. -/
def NoWrap (h : Heap) : PC → Prop
  | .popCas l _ old _ _ => h.pushes l - old.stamp < CNT
  | _ => True

/-- One step of one thread. -/
theorem exec_sound (ok : L.Ok cfg) (rep : Rep cfg h L) {pc} (spur : Bool)
    (th : ThInv cfg h L t pc) (wrap : NoWrap h pc) : Sound cfg t h L (exec cfg t spur h pc) := by
  cases pc with
  | idle => exact .stay ok rep th
  | abort a => exact .stay ok rep th
  | popLoad l sc => exact sound_popTest ok rep th.owned th.known.1 th.known.2
  | popNext l sc old p =>
    obtain ⟨ow, hl, hf, hs, hp⟩ := th
    exact .stay ok rep ⟨ow.same ⟨rfl, rfl, rfl, rfl, rfl⟩, hl, hf, hs, hp, fun _ _ => rfl⟩
  | popCas l sc old p next => exact sound_popCas ok rep th wrap
  | anchorLoad sc d => exact sound_anchorLoad ok rep th
  | anchorCas sc d old maxc bsize sb => exact sound_anchorCas ok rep th
  | growLoad sc => exact .stay ok rep ⟨th.owned.same ⟨rfl, rfl, rfl, rfl, rfl⟩, th.known⟩
  | growCheck sc cur => exact sound_growCheck ok rep th
  | growFlush sc cur => exact .stay ok rep ⟨th.owned.same ⟨rfl, rfl, rfl, rfl, rfl⟩, th.known⟩
  | growFence sc cur => exact .stay ok rep ⟨th.owned.same ⟨rfl, rfl, rfl, rfl, rfl⟩, th.known⟩
  | growCas sc cur => exact sound_growCas ok rep th
  | grownFlush sc res => exact .stay ok rep ⟨th.owned.same ⟨rfl, rfl, rfl, rfl, rfl⟩, th.known⟩
  | grownFence sc res => exact sound_grownFence ok rep th
  | newSet sc sb => exact sound_newSet ok rep th
  | newLink sc d sb idx => exact sound_newLink ok rep th
  | newAnchor sc d sb => exact sound_newAnchor ok rep th
  | newFlush sc d => exact .stay ok rep ⟨th.owned.same ⟨rfl, rfl, rfl, rfl, rfl⟩, th.known⟩
  | newFence sc d => exact sound_newFence ok rep th
  | popBlock sc => exact sound_popBlock ok rep th
  | ctor d ph k => exact sound_ctor ok rep th
  | orgLink start count i k => exact sound_orgLink ok rep th
  | pushLoad first last k => exact sound_pushLoad ok rep th
  | heapPushPartial d k => exact sound_heapPushPartial ok rep th
  | pushStore l first last old k => exact sound_pushStore ok rep th
  | pushCas l first last old k =>
    cases l with
    | avail => exact sound_pushCas_avail ok rep th
    | part sc => exact sound_pushCas_part ok rep th
  | flushHead sc k => exact sound_flushHead ok rep th
  | flushLoad sc r k => exact sound_flushLoad ok rep th
  | flushStore sc r old k => exact sound_flushStore ok rep th
  | flushCas sc r old k => exact sound_flushCas ok rep th
  | pushBlock sc p => exact sound_pushBlock ok rep th
  | largeLoad sbs => exact sound_largeLoad ok rep th
  | largeFlush sbs cur => exact .stay ok rep ⟨th.owned.same ⟨rfl, rfl, rfl, rfl, rfl⟩, th.known⟩
  | largeFence sbs cur => exact .stay ok rep ⟨th.owned.same ⟨rfl, rfl, rfl, rfl, rfl⟩, th.known⟩
  | largeCas sbs cur => exact sound_largeCas ok rep th
  | largeGrownFlush sbs res =>
    exact .stay ok rep ⟨th.owned.same ⟨rfl, rfl, rfl, rfl, rfl⟩, th.known⟩
  | largeGrownFence sbs res => exact sound_largeGrownFence ok rep th
  | largeSet sbs res => exact sound_largeSet ok rep th
  | largeAnchor sbs res => exact sound_largeAnchor ok rep th
  | largeDescFlush sbs res =>
    exact .stay ok rep ⟨th.owned.same ⟨rfl, rfl, rfl, rfl, rfl⟩, th.known⟩
  | largeDescFence sbs res => exact sound_largeDescFence ok rep th
  | rootSet p i => exact sound_rootSet ok rep th
  | rootFlush p i => exact .stay ok rep ⟨th.owned.same ⟨rfl, rfl, rfl, rfl, rfl⟩, trivial⟩
  | rootFence p i => exact .stay ok rep ⟨th.owned.same ⟨rfl, rfl, rfl, rfl, rfl⟩, trivial⟩

/-- The call `do_malloc`. -/
lemma sound_callMalloc (ok : L.Ok cfg) (rep : Rep cfg h L) {size}
    (th : ThInv cfg h L t .idle)
    (hsize : size ≤ MAX_SZ ∨ (size + SBSIZE - 1) / SBSIZE * SBSIZE < HALF) :
    Sound cfg t h L (callMalloc t size h) := by
  have req : ({ h with req := Function.update h.req t size } : Heap).req t = size :=
    Function.update_self ..
  refine ⟨L, .setReq ok rep, ?_⟩
  rw [callMalloc]
  by_cases large : size > MAX_SZ
  · rw [if_pos large]
    have hlt := hsize.resolve_left (by omega)
    have hmul : size ≤ (size + SBSIZE - 1) / SBSIZE * SBSIZE ∧
        (size + SBSIZE - 1) / SBSIZE * SBSIZE % SBSIZE = 0 := by
      rw [SBSIZE_eq]
      omega
    have hround := roundUp_eq (n := size) (by
      unfold HALF at hlt
      unfold WORD
      rw [SBSIZE_eq] at *
      omega)
    refine ⟨th.owned.same ⟨rfl, rfl, rfl, rfl, rfl⟩, ?_⟩
    show LargeOk _ t (roundUp size SBSIZE)
    rw [hround]
    exact ⟨hmul.2, by omega, hlt, by rw [req]; exact hmul.1, by rw [req]; exact large⟩
  · rw [if_neg large]
    have asked : Asked { h with req := Function.update h.req t size } t (getSizeclass size) := by
      refine ⟨(getSizeclass_spec (by omega)).1, ?_, ?_⟩ <;> rw [req]
      omega
    by_cases num : (h.cache t (getSizeclass size)).num = 0
    · simp only [if_pos num]
      exact ⟨th.owned.same ⟨rfl, rfl, rfl, rfl, rfl⟩, .inr rfl, asked, num⟩
    · simp only [if_neg num]
      exact ⟨th.owned.same ⟨rfl, rfl, rfl, rfl, rfl⟩, asked, Nat.pos_of_ne_zero num⟩

/-- A block in use lies between the first superblock and `curr_addr`. -/
lemma Ledger.Ok.in_range (ok : L.Ok cfg) (rep : Rep cfg h L) {d p r} (hd : L.role d = r)
    (hr : r ≠ .unborn) (lo : cfg.sb d ≤ p) (hi : p < cfg.sb (d + 1)) :
    p ≠ 0 ∧ cfg.heapStart ≤ p ∧ p < h.currAddr := by
  have hn : ¬(d = 0 ∨ L.n ≤ d) := fun hc => hr (hd.symm.trans ((ok.born d).2 hc))
  have h1 : cfg.sb (d + 1) ≤ cfg.sb L.n := Cfg.sb_le_sb.2 (by omega)
  have h2 := cfg.sb_pos d
  have h3 : cfg.heapStart ≤ cfg.sb d := Nat.le_add_right ..
  rw [rep.curr]
  exact ⟨by omega, by omega, by omega⟩

/-- The call `do_free` on a small block. -/
lemma sound_callFree_small (ok : L.Ok cfg) (rep : Rep cfg h L) {p sc}
    (th : ThInv cfg h L t .idle) (hp : L.place p = .held) (hc : L.InClass cfg p sc) :
    Sound cfg t h L (callFree cfg t p h) := by
  obtain ⟨d, o, hr, hm⟩ := hc
  have hsc := ok.cls hr
  obtain ⟨i, hi, hpi⟩ := Cfg.mem_blocks.1 hm
  have lo := (Cfg.blk_bounds cfg d hsc hi).1
  have hi' := Cfg.blk_lt cfg d hsc hi
  rw [← Cfg.sb_succ, hpi] at hi'
  rw [hpi] at lo
  obtain ⟨h0, h1, h2⟩ := ok.in_range rep hr (by simp) lo hi'
  have tr := Trans.startFree (t := t) ok rep hp ⟨d, o, hr, hm⟩
  have ow := th.owned
  have owned : ∀ pc, rawOf cfg pc = [] → ownOf pc = none → freshOf pc = none →
      freeOf pc = some (sc, p) → handsOf pc = none →
      Owned cfg (L.moveBlk [p] .held (.freeing t sc)) t pc := by
    intro pc e1 e2 e3 e4 e5
    constructor
    case raw => rw [e1]; exact ow.raw
    case own => rw [e2]; exact ow.own
    case fresh => rw [e3]; exact ow.fresh
    case freeing =>
      intro sc'
      rw [e4]
      by_cases e : sc = sc'
      · subst e
        refine (Placement.move_items_to _ _ _ _).trans ?_
        rw [ow.freeing]
        simp [freeOf]
      · refine (Placement.move_items_other (by simp) (by simp [Ne.symm e])).trans ?_
        rw [ow.freeing, only_ne e]
        rfl
    case hands =>
      exact fun sc' _ => (Placement.move_items_other (by simp) (by simp)).trans
        (ow.hands sc' (by simp [handsOf]))
  rw [callFree, if_neg h0]
  refine .check ⟨h1, h2⟩ ?_
  obtain ⟨sc, rfl⟩ : ∃ n, sc = n + 1 := ⟨sc - 1, by have := hsc.1; omega⟩
  simp only [ok.sbIndex_of_mem hr hm, (rep.small hr).1]
  refine ⟨_, tr, ?_⟩
  by_cases full : (h.cache t (sc + 1)).num ≥ cacheBlockNum (sc + 1)
  · rw [if_pos full]
    exact ⟨owned _ rfl rfl rfl rfl rfl, hsc⟩
  · rw [if_neg full]
    exact ⟨owned _ rfl rfl rfl rfl rfl, hsc, Nat.lt_of_not_ge full⟩

/-- The call `do_free` on a large block. -/
lemma sound_callFree_large (ok : L.Ok cfg) (rep : Rep cfg h L) {p d}
    (th : ThInv cfg h L t .idle) (hd : L.role d = .large p) :
    Sound cfg t h L (callFree cfg t p h) := by
  obtain ⟨e, rfl, he⟩ := ok.largeStart hd
  have inside : cfg.Inside e := ok.insideOf he (by simp)
  obtain ⟨h0, h1, h2⟩ := ok.in_range rep he (by simp) le_rfl
    (by rw [Cfg.sb_succ]; simp [SBSIZE_eq])
  obtain ⟨k, hk, hitems, hb⟩ := rep.large he
  have hdesc := rep.desc e
  rw [he, DescRep, if_pos rfl] at hdesc
  obtain ⟨hheap, -, hsb⟩ := hdesc
  have ow := th.owned
  rw [callFree, if_neg h0]
  refine .check ⟨h1, h2⟩ ?_
  simp only [inside.sbIndex_sb, hheap, hb, hsb, Option.getD_some, organizeSbList]
  rw [Nat.mul_div_cancel _ (by simp [SBSIZE_eq])]
  refine .check (Nat.mul_mod_left ..) ⟨_, .largeFree ok rep he, ?_, ?_⟩
  · constructor
    case raw =>
      refine (Placement.move_items_to _ _ _ _).trans ?_
      rw [hitems, ow.raw]
      rfl
    case own => exact fun sc => (Placement.move_items_other (by simp) (by simp)).trans (ow.own sc)
    case fresh =>
      exact fun sc => (Placement.move_items_other (by simp) (by simp)).trans (ow.fresh sc)
    case freeing =>
      exact fun sc => (Placement.move_items_other (by simp) (by simp)).trans (ow.freeing sc)
    case hands =>
      exact fun sc _ => (Placement.move_items_other (by simp) (by simp)).trans
        (ow.hands sc (by simp [handsOf]))
  · exact ⟨trivial, rfl, rfl, hk, trivial, by simp⟩

/-- The call `do_free` on a block that a client holds. -/
lemma sound_callFree (ok : L.Ok cfg) (rep : Rep cfg h L) {p} (th : ThInv cfg h L t .idle)
    (hp : L.place p = .held) : Sound cfg t h L (callFree cfg t p h) := by
  rcases ok.inClass hp with ⟨sc, hc⟩ | ⟨d, hd⟩
  · exact sound_callFree_small ok rep th hp hc
  · exact sound_callFree_large ok rep th hd

end Ralloc
