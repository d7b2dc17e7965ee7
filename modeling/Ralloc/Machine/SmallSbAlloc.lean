import Ralloc.Machine.StepsLeft

/-!
# Progress of `small_sb_alloc`

Can a thread inside `small_sb_alloc` return when the others stop? Every step makes `callLeft`
smaller, a spurious failure of the weak compare-and-swap in `organize_sb_list` may make it larger by
one (`Ready.step`), and it is never as small as the part of the call behind `small_sb_alloc`. So the
thread returns after a number of steps that only depends on how many such failures there are.

This needs `Ready`, which leaves one case out, the thread with a stale empty head. `Stale.step`: it
goes around in circles.
-/

namespace Ralloc

open Lib SuperblockState

variable {cfg : Cfg} {t sc d : ℕ} {h : Heap} {pc : PC} {s : State} {L : Ledger}

/-- The control states of `small_sb_alloc`. -/
def PC.InSmallSbAlloc : PC → Prop
  | .popLoad .avail _ | .popNext .avail _ _ _ | .popCas .avail _ _ _ _ => True
  | .growLoad _ | .growCheck _ _ | .growFlush _ _ | .growFence _ _ | .growCas _ _ => True
  | .grownFlush _ _ | .grownFence _ _ => True
  | .ctor _ _ (.organize _ _ _ (.newsb _ _)) | .orgLink _ _ _ (.newsb _ _) => True
  | .pushLoad _ _ (.newsb _ _) | .pushStore .avail _ _ _ (.newsb _ _) => True
  | .pushCas .avail _ _ _ (.newsb _ _) | .ctor _ _ (.newsb _ _) => True
  | _ => False

/-- `small_sb_alloc` has returned a superblock. -/
def PC.Returned : PC → Prop
  | .newSet _ _ => True
  | _ => False

/-- More steps than a `small_sb_alloc` that nothing gets in the way of ever takes. -/
def ALLOC_STEPS : ℕ := 6 * EXPAND_SBS + 32

/-- Alone, `small_sb_alloc` returns within `ALLOC_STEPS` steps and two more for every spurious
failure. -/
def Returns (cfg : Cfg) (t : ℕ) (h : Heap) (pc : PC) : Prop :=
  ∀ spurs : List Bool, ALLOC_STEPS + 2 * spurs.count true ≤ spurs.length →
    ∃ l, l <+: spurs ∧ (runAlone cfg t l (h, pc)).2.Returned

/-- The states of `small_sb_alloc` for class `sc` from which it gets on. -/
inductive Ready (cfg : Cfg) (h : Heap) (sc : ℕ) : PC → Prop
  | popLoad (room : Room cfg h.currAddr) : Ready cfg h sc (.popLoad .avail sc)
  | popNext {old p} (room : Room cfg h.currAddr) : Ready cfg h sc (.popNext .avail sc old p)
  | popCas {old p next} (room : Room cfg h.currAddr) : Ready cfg h sc (.popCas .avail sc old p next)
  | growLoad (empty : (h.head .avail).ptr = none) (room : Room cfg h.currAddr) :
    Ready cfg h sc (.growLoad sc)
  | growCheck {cur} (empty : (h.head .avail).ptr = none) (room : Room cfg h.currAddr)
    (fits : Room cfg cur) : Ready cfg h sc (.growCheck sc cur)
  | growFlush {cur} (on : cur = h.currAddr ∨ (h.head .avail).ptr = none ∧ Room cfg h.currAddr) :
    Ready cfg h sc (.growFlush sc cur)
  | growFence {cur} (on : cur = h.currAddr ∨ (h.head .avail).ptr = none ∧ Room cfg h.currAddr) :
    Ready cfg h sc (.growFence sc cur)
  | growCas {cur} (on : cur = h.currAddr ∨ (h.head .avail).ptr = none ∧ Room cfg h.currAddr) :
    Ready cfg h sc (.growCas sc cur)
  | grownFlush {res} : Ready cfg h sc (.grownFlush sc res)
  | grownFence {res} : Ready cfg h sc (.grownFence sc res)
  | organize {d ph start count i res} :
    Ready cfg h sc (.ctor d ph (.organize start count i (.newsb sc res)))
  | orgLink {start count i res} : Ready cfg h sc (.orgLink start count i (.newsb sc res))
  | pushLoad {first last res} : Ready cfg h sc (.pushLoad first last (.newsb sc res))
  | pushStore {first last old res} :
    Ready cfg h sc (.pushStore .avail first last old (.newsb sc res))
  | pushCas {first last old res} : Ready cfg h sc (.pushCas .avail first last old (.newsb sc res))
  | construct {d ph res} : Ready cfg h sc (.ctor d ph (.newsb sc res))

/-- The thread has returned or got on. -/
def Advanced (cfg : Cfg) (t sc left : ℕ) (r : Heap × PC) : Prop :=
  r.2.Returned ∨ Ready cfg r.1 sc r.2 ∧ callLeft cfg t r.1 r.2 + 1 ≤ left

/-- Inside `small_sb_alloc` a call is not over. -/
lemma Ready.not_over {m : Bool} (rd : Ready cfg h sc pc) : ¬Over cfg t m (h, pc) := by
  rintro (e | ⟨-, no⟩)
  · rw [show pc = .idle from e] at rd
    cases rd
  · cases rd <;> exact no

/-- A step that brings the call nearer to its end. -/
lemma Advanced.of_onward {n : ℕ} {m : Bool} {r : Heap × PC} (on : Onward cfg t m n r)
    (next : r.2.Returned ∨ Ready cfg r.1 sc r.2) : Advanced cfg t sc n r :=
  next.imp_right fun rd => ⟨rd, (on.resolve_left rd.not_over).left⟩

/-- At the head of the loop with the current head of `avail_sb`. -/
lemma popTest_ready (room : Room cfg h.currAddr) (sc : ℕ) :
    Ready cfg h sc (popTest .avail sc (h.see .avail)) := by
  cases e : (h.see .avail).ptr with
  | none =>
    rw [popTest_avail e]
    exact .growLoad e room
  | some p =>
    rw [popTest_some e]
    exact .popNext room

/-- One step of a thread that can get on. -/
theorem Ready.step (r : Ready cfg h sc pc) (spur : Bool) :
    Advanced cfg t sc (callLeft cfg t h pc + 2 * spur.toNat) (exec cfg t spur h pc) := by
  have weaken : ∀ {n : ℕ} {q : Heap × PC}, Advanced cfg t sc n q →
      Advanced cfg t sc (n + 2 * spur.toNat) q :=
    fun a => a.imp_right fun ⟨h1, h2⟩ => ⟨h1, by omega⟩
  cases r with
  | popLoad room => exact weaken (.of_onward onward_popTest_avail (.inr (popTest_ready room sc)))
  | popNext room => exact weaken (.inr ⟨.popCas room, callLeft_popNext.le⟩)
  | popCas room =>
    refine .of_onward (onward_pop spur) ?_
    rw [exec]
    split
    · exact .inl trivial
    · exact .inr (popTest_ready room sc)
  | growLoad empty room => exact weaken (.inr ⟨.growCheck empty room room, callLeft_growLoad.le⟩)
  | growCheck empty room fits =>
    refine weaken (.of_onward (onward_growCheck spur empty fun _ => fits) (.inr ?_))
    rw [Room] at fits
    rw [exec, if_neg (not_not.2 empty), check, if_pos fits]
    exact .growFlush (.inr ⟨empty, room⟩)
  | growFlush on => exact weaken (.inr ⟨.growFence on, callLeft_growFlush.le⟩)
  | growFence on => exact weaken (.inr ⟨.growCas on, callLeft_growFence.le⟩)
  | growCas on =>
    refine weaken (.inr ⟨?_, (callLeft_growCas spur).le⟩)
    rw [exec]
    split
    · exact .grownFlush
    case isFalse e =>
      obtain ⟨empty, room⟩ := on.resolve_left fun e' => e e'.symm
      exact .growLoad empty room
  | grownFlush => exact weaken (.inr ⟨.grownFence, le_rfl⟩)
  | grownFence => exact weaken (.of_onward (onward_grownFence spur) (.inr .organize))
  | @organize d ph =>
    refine weaken (.of_onward (onward_organize rfl) (.inr ?_))
    cases ph with
    | fence =>
      show Ready cfg _ sc (ctorDone d (.organize _ _ _ _))
      rw [ctorDone]
      split
      · exact .orgLink
      · exact .pushLoad
    | _ => exact .organize
  | orgLink => exact weaken (.of_onward (onward_orgLink spur) (.inr .organize))
  | pushLoad => exact weaken (.of_onward (onward_pushLoad spur) (.inr .pushStore))
  | @pushStore first last old res =>
    have passes : exec cfg t spur h (.pushStore .avail first last old (.newsb sc res)) =
        (h.setDesc last ((h.desc last).setNext .avail old.ptr),
          .pushCas .avail first last old (.newsb sc res)) := by
      rw [exec, check, if_pos (.inl rfl)]
    refine weaken (.of_onward (onward_pushStore spur ?_) (.inr ?_)) <;> rw [passes]
    · exact fun a e => by cases e
    · exact .pushCas
  | pushCas =>
    refine .of_onward (onward_push spur) (.inr ?_)
    rw [exec]
    split
    · exact .construct
    · exact .pushStore
  | @construct d ph =>
    refine weaken (.of_onward (onward_ctorNewsb spur) ?_)
    cases ph with
    | fence => exact .inl trivial
    | _ => exact .inr .construct

/-- What is left of the call contains what follows `small_sb_alloc`. -/
lemma Ready.newLeft_lt (r : Ready cfg h sc pc) : newLeft sc < callLeft cfg t h pc := by
  have grown : 0 < GROWN_STEPS := by decide
  have phase : ∀ ph : CtorPhase, 1 ≤ ph.left := by
    intro ph
    cases ph <;> decide
  cases r with
  | @construct d ph =>
    have := phase ph
    simp only [callLeft]
    omega
  | popLoad | growLoad | grownFlush | grownFence | organize | orgLink | pushLoad | pushStore
  | pushCas =>
    simp only [callLeft, availLeft, pushLeft]
    omega
  | _ =>
    simp only [callLeft, availLeft]
    split <;> omega

/-- A thread that can get on returns. -/
lemma Ready.returns {l : List Bool} (r : Ready cfg h sc pc)
    (enough : callLeft cfg t h pc + 2 * l.count true < newLeft sc + l.length) :
    ∃ l', l' <+: l ∧ (runAlone cfg t l' (h, pc)).2.Returned := by
  induction l generalizing h pc with
  | nil =>
    have := r.newLeft_lt (t := t)
    simp only [List.count_nil, List.length_nil] at enough
    omega
  | cons spur l ih =>
    rcases r.step (t := t) spur with ret | ⟨r', left⟩
    · exact ⟨[spur], by simp, ret⟩
    · have hc : (spur :: l).count true = l.count true + spur.toNat := by cases spur <;> simp
      rw [hc, List.length_cons] at enough
      obtain ⟨l', hl', ret⟩ := ih r' (by omega)
      exact ⟨spur :: l', List.cons_prefix_cons.2 ⟨rfl, hl'⟩, ret⟩

/-- A thread with a stale empty head changes nothing and keeps it. -/
lemma Stale.step (cfg : Cfg) (t : ℕ) (st : Stale h pc) (spur : Bool) :
    ∃ pc', exec cfg t spur h pc = (h, pc') ∧ Stale h pc' := by
  match pc, st with
  | .growLoad sc, st => exact ⟨_, rfl, st⟩
  | .growCheck sc cur, st => exact ⟨.growLoad sc, if_pos st, st⟩
  | .growFlush sc cur, st => exact ⟨_, rfl, st⟩
  | .growFence sc cur, st => exact ⟨_, rfl, st⟩
  | .growCas sc cur, st => exact ⟨.growLoad sc, if_neg fun e => st.1 e.symm, st.2⟩

/-- It never returns. -/
lemma Stale.not_returned (st : Stale h pc) (l : List Bool) :
    ¬(runAlone cfg t l (h, pc)).2.Returned := by
  induction l generalizing pc with
  | nil =>
    intro ret
    cases pc with
    | newSet sc sb => exact st
    | _ => exact ret
  | cons spur l ih =>
    obtain ⟨pc', e, st'⟩ := st.step cfg t spur
    rw [runAlone, e]
    exact ih st'

/-- What a thread of a reachable state knows inside `small_sb_alloc`: the `curr_addr` it has read is
an earlier one, and it organises a whole expansion. -/
def AllocLocal (cfg : Cfg) (h : Heap) : PC → Prop
  | .growCheck _ cur => ∃ n, cur = cfg.sb n ∧ cur ≤ h.currAddr
  | .ctor _ _ (.organize _ count _ (.newsb _ _)) | .orgLink _ count _ (.newsb _ _) =>
    count = EXPAND_SBS - 1
  | _ => True

/-- `curr_addr` only grows. -/
lemma Inv.curr_le (inv : Inv cfg s L) (t : ℕ) (spur : Bool) :
    s.heap.currAddr ≤ (exec cfg t spur s.heap (s.pc t)).1.currAddr := by
  rcases exec_currAddr cfg t spur s.heap (s.pc t) with e | ⟨size, hpc, e⟩
  · exact e.ge
  have known := (inv.thread t).known
  have fits : ∃ k, size = k * SBSIZE ∧ size < HALF ∧
      cfg.fits s.heap.currAddr PAGESIZE size = true := by
    rcases hpc with ⟨⟨sc, hpc⟩, rfl⟩ | hpc <;> rw [hpc] at known
    · exact ⟨EXPAND_SBS, by decide, by decide, known.2⟩
    · exact ⟨size / SBSIZE, (Nat.div_mul_cancel (Nat.dvd_of_mod_eq_zero known.1.mod)).symm,
        known.1.lt, known.2⟩
  obtain ⟨k, rfl, lt, fits⟩ := fits
  rw [inv.rep.curr] at fits
  obtain ⟨-, next, -⟩ := Cfg.grow_of_fits inv.ok.inside lt fits
  rw [e, inv.rep.curr, next]
  exact Cfg.sb_le_sb.2 (Nat.le_add_right ..)

/-- The phase of the constructor does not matter. -/
lemma AllocLocal.ctor {h' : Heap} {d : ℕ} {ph ph' : CtorPhase} {k : CtorK}
    (a : AllocLocal cfg h (.ctor d ph k)) : AllocLocal cfg h' (.ctor d ph' k) := by
  match k, a with
  | .retire _, _ | .newsb _ _, _ | .large _ _, _ => exact trivial
  | .organize _ _ _ (.newsb _ _), a => exact a
  | .organize _ _ _ (.retry _), _ | .organize _ _ _ (.flush _ _), _ | .organize _ _ _ .done, _ =>
    exact trivial

/-- What a thread knows survives the others. -/
lemma AllocLocal.mono {h' : Heap} (a : AllocLocal cfg h pc) (le : h.currAddr ≤ h'.currAddr) :
    AllocLocal cfg h' pc := by
  cases pc with
  | growCheck sc cur =>
    obtain ⟨n, hn, hle⟩ := a
    exact ⟨n, hn, le_trans hle le⟩
  | ctor d ph k => exact a.ctor
  | orgLink start count i k =>
    match k, a with
    | .newsb _ _, a => exact a
    | .retry _, _ | .flush _ _, _ | .done, _ => exact trivial
  | _ => exact trivial

/-- Only the first step of an expansion reads `curr_addr`, and only a whole expansion is
organised. -/
lemma AllocLocal.leads {h' : Heap} {pc' : PC} (rep : Rep cfg h L) (a : AllocLocal cfg h pc)
    (st : Leads cfg h pc pc') (le : h.currAddr ≤ h'.currAddr) : AllocLocal cfg h' pc' := by
  cases st with
  | bare out =>
    unfold AllocLocal
    split <;> first | exact trivial | exact out.elim
  | retire => exact trivial
  | grow => exact ⟨L.n, rep.curr, le⟩
  | expand => exact show SB_REGION_EXPAND_SIZE / SBSIZE - 1 = EXPAND_SBS - 1 from rfl
  | phase => exact a.ctor
  | @link d ph start count i k =>
    cases k with
    | newsb sc res => exact a
    | _ => exact trivial
  | @next d start count i k =>
    cases k with
    | newsb sc res => exact a
    | _ => exact trivial
  | see => exact trivial
  | push => exact trivial

/-- Every thread of a reachable state knows this. -/
lemma Reach.allocLocal (hs : Reach cfg s) (t : ℕ) : AllocLocal cfg s.heap (s.pc t) := by
  induction hs with
  | refl => exact trivial
  | @tail s s' hs st ih =>
    obtain ⟨L, inv⟩ := Reach.inv hs
    obtain ⟨a, -, st⟩ := st
    have le : s.heap.currAddr ≤ s'.heap.currAddr := by
      rcases step_heap st with ⟨u, spur, e⟩ | ⟨-, e⟩
      · rw [e]
        exact inv.curr_le u spur
      · exact e.ge
    rcases step_leads st t with e | lead
    · rw [e]
      exact ih.mono le
    · exact ih.leads inv.rep lead le

/-- Room behind some superblocks is room behind fewer of them. -/
lemma Room.of_le {n m : ℕ} (room : Room cfg (cfg.sb m))
    (inside : cfg.sb m ≤ cfg.base + cfg.filesize) (le : n ≤ m) : Room cfg (cfg.sb n) := by
  obtain ⟨-, -, h1⟩ := Cfg.grow_of_fits (k := EXPAND_SBS) inside (by decide) room
  have h2 : cfg.sb (n + EXPAND_SBS) ≤ cfg.base + cfg.filesize :=
    le_trans (Cfg.sb_le_sb.2 (by omega)) h1
  have hb := cfg.bound
  rw [Room, Region.fits, decide_eq_true_eq, cfg.limit_eq, bumpNext, alignAdj_page (cfg.sb_mod n),
    show SB_REGION_EXPAND_SIZE = EXPAND_SBS * SBSIZE from rfl, ← Cfg.sb_add, Nat.mod_eq_of_lt]
  · exact h2
  · unfold ADDR at hb
    unfold WORD
    omega

/-- The room that a thread has seen, if it is still there. -/
lemma Inv.room (inv : Inv cfg s L) {cur : ℕ} (a : AllocLocal cfg s.heap (.growCheck sc cur))
    (room : Room cfg s.heap.currAddr) : Room cfg cur := by
  obtain ⟨n, rfl, le⟩ := a
  rw [inv.rep.curr] at room le
  exact room.of_le inv.ok.inside (Cfg.sb_le_sb.1 le)

/-- Inside `small_sb_alloc` a thread can get on unless its head is stale. -/
lemma Inv.ready (inv : Inv cfg s L) (a : AllocLocal cfg s.heap (s.pc t))
    (room : Room cfg s.heap.currAddr) (inside : (s.pc t).InSmallSbAlloc)
    (fresh : ¬Stale s.heap (s.pc t)) : ∃ sc, Ready cfg s.heap sc (s.pc t) := by
  have grow : ∀ {cur : ℕ}, ¬(cur ≠ s.heap.currAddr ∧ (s.heap.head .avail).ptr ≠ none) →
      cur = s.heap.currAddr ∨ (s.heap.head .avail).ptr = none ∧ Room cfg s.heap.currAddr := by
    intro cur hc
    by_cases e : cur = s.heap.currAddr
    · exact .inl e
    · exact .inr ⟨by_contra fun ne => hc ⟨e, ne⟩, room⟩
  match s.pc t, a, inside, fresh with
  | .popLoad .avail _, _, _, _ => exact ⟨_, .popLoad room⟩
  | .popNext .avail _ _ _, _, _, _ => exact ⟨_, .popNext room⟩
  | .popCas .avail _ _ _ _, _, _, _ => exact ⟨_, .popCas room⟩
  | .growLoad _, _, _, fresh => exact ⟨_, .growLoad (not_not.1 fresh) room⟩
  | .growCheck _ cur, a, _, fresh => exact ⟨_, .growCheck (not_not.1 fresh) room (inv.room a room)⟩
  | .growFlush _ _, _, _, fresh => exact ⟨_, .growFlush (grow fresh)⟩
  | .growFence _ _, _, _, fresh => exact ⟨_, .growFence (grow fresh)⟩
  | .growCas _ _, _, _, fresh => exact ⟨_, .growCas (grow fresh)⟩
  | .grownFlush _ _, _, _, _ => exact ⟨_, .grownFlush⟩
  | .grownFence _ _, _, _, _ => exact ⟨_, .grownFence⟩
  | .ctor _ _ (.organize _ _ _ (.newsb _ _)), _, _, _ => exact ⟨_, .organize⟩
  | .orgLink _ _ _ (.newsb _ _), _, _, _ => exact ⟨_, .orgLink⟩
  | .pushLoad _ _ (.newsb _ _), _, _, _ => exact ⟨_, .pushLoad⟩
  | .pushStore .avail _ _ _ (.newsb _ _), _, _, _ => exact ⟨_, .pushStore⟩
  | .pushCas .avail _ _ _ (.newsb _ _), _, _, _ => exact ⟨_, .pushCas⟩
  | .ctor _ _ (.newsb _ _), _, _, _ => exact ⟨_, .construct⟩

/-- The bound on the steps. -/
lemma Ready.callLeft_lt (r : Ready cfg h sc pc) (a : AllocLocal cfg h pc) :
    callLeft cfg t h pc < newLeft sc + ALLOC_STEPS := by
  have grown : GROWN_STEPS + 10 < ALLOC_STEPS := by decide
  have phase : ∀ ph : CtorPhase, ph.left ≤ 5 := by
    intro ph
    cases ph <;> decide
  cases r with
  | @organize d ph start count =>
    have := phase ph
    rw [show count = EXPAND_SBS - 1 from a]
    simp only [callLeft, pushLeft, ALLOC_STEPS, EXPAND_SBS_eq]
    omega
  | @orgLink start count =>
    rw [show count = EXPAND_SBS - 1 from a]
    simp only [callLeft, pushLeft, ALLOC_STEPS, EXPAND_SBS_eq]
    omega
  | @construct d ph =>
    have := phase ph
    simp only [callLeft]
    omega
  | popLoad | growLoad | grownFlush | grownFence | pushLoad =>
    simp only [callLeft, availLeft, pushLeft]
    omega
  | _ =>
    simp only [callLeft, availLeft, pushLeft]
    split <;> omega

/-- In every reachable state with room for an expansion a thread inside `small_sb_alloc` returns
when it runs alone, exactly unless its empty head of `avail_sb` is stale. -/
theorem smallSbAlloc_iff (hs : Reach cfg s) (room : Room cfg s.heap.currAddr)
    (inside : (s.pc t).InSmallSbAlloc) :
    Returns cfg t s.heap (s.pc t) ↔ ¬Stale s.heap (s.pc t) := by
  have a := hs.allocLocal t
  obtain ⟨L, inv⟩ := hs.inv
  constructor
  · intro returns stale
    obtain ⟨l, -, ret⟩ := returns (List.replicate ALLOC_STEPS false) (by
      rw [List.length_replicate, List.count_replicate]
      exact le_rfl)
    exact stale.not_returned l ret
  · intro fresh spurs enough
    obtain ⟨sc, ready⟩ := inv.ready a room inside fresh
    have left := ready.callLeft_lt (t := t) a
    exact ready.returns (by omega)

/-- A thread that is about to load the head of `avail_sb` on a new heap. -/
theorem smallSbAlloc_sample : ∃ s, Reach big s ∧ s.pc 0 = .popLoad .avail 39 ∧
    Returns big 0 s.heap (s.pc 0) := by
  have test : (runActs big (init big) [.malloc 0 14336, .run 0 false]).any (fun s =>
      decide (s.pc 0 = .popLoad .avail 39 ∧
        big.fits s.heap.currAddr PAGESIZE SB_REGION_EXPAND_SIZE = true)) = true := by decide +kernel
  cases e : runActs big (init big) [.malloc 0 14336, .run 0 false] with
  | none =>
    rw [e] at test
    cases test
  | some s =>
    rw [e] at test
    obtain ⟨hpc, room⟩ := of_decide_eq_true test
    have hs : Reach big s := Reach.runActs .refl e
    refine ⟨s, hs, hpc, (smallSbAlloc_iff hs room ?_).2 ?_⟩ <;> rw [hpc]
    · trivial
    · exact id

/-- The loop of `malloc_from_newsb` only writes into the blocks. -/
lemma newLoop_fixed (cfg : Cfg) (t : ℕ) (h : Heap) (sc d sb idx : ℕ) :
    ∃ m, Fixed cfg t (h, newLoop sc d sb idx) ({ h with mem := m }, .newAnchor sc d sb) := by
  induction hn : maxcount sc - (idx + 1) generalizing h idx with
  | zero =>
    rw [newLoop, if_neg (by omega)]
    exact ⟨h.mem, .refl _⟩
  | succ n ih =>
    obtain ⟨m, run⟩ := ih (h.setLink (sb + idx * blockSize sc) (sb + (idx + 1) * blockSize sc))
      (idx + 1) (by omega)
    rw [newLoop, if_pos (by omega)]
    exact ⟨m, .step (by simp) (fun spur => by rw [exec]) run⟩

/-- What `malloc_from_newsb` leaves behind when it has filled the cache of thread `t` from
superblock `d` and one block is popped. -/
structure FromNewsb (t sc d : ℕ) (h h' : Heap) : Prop where
  curr : h'.currAddr = h.currAddr
  head : h'.head = h.head
  desc : ∀ e, e ≠ d → h'.desc e = h.desc e
  num : (h'.cache t sc).num = maxcount sc - 1
  others : ∀ u, u ≠ t → h'.cache u = h.cache u

/-- The end of `malloc_from_newsb`. -/
lemma newAnchor_solo (cfg : Cfg) (hsc : SmallClass sc) (num : (h.cache t sc).num = 0) (sb : ℕ) :
    ∃ h', Solo cfg t (h, .newAnchor sc d sb) (h', .idle) ∧ FromNewsb t sc d h h' := by
  have pos : 0 < maxcount sc := lt_of_lt_of_le (by decide) hsc.four_le
  let g := (h.setCache t sc ⟨sb, maxcount sc⟩).setDesc d
    { h.desc d with anchor := .full (maxcount sc) }
  have hc : g.cache t sc = ⟨sb, maxcount sc⟩ := Heap.cache_setCache_self ..
  refine ⟨((g.setCache t sc ⟨g.link sb, maxcount sc - 1⟩).setClient sb .held).setRet t sb, ?_,
    rfl, rfl, fun e he => ?_, ?_, fun u hu => ?_⟩
  · refine .step false (by rw [exec, check, if_pos num]) ?_
    refine .step false rfl ?_
    refine .step false (by rw [exec, check, if_pos ⟨pos, hsc.cacheBlockNum_eq.ge⟩]) ?_
    refine .step false (r := (_, .idle)) ?_ (.refl _)
    show exec cfg t false g (.popBlock sc) = _
    rw [exec, check, hc, if_pos pos]
  · exact Heap.desc_setDesc_ne he
  · exact congrArg TCacheBin.num (Heap.cache_setCache_self g t sc _)
  · exact (Heap.cache_setCache_thread hu).trans (Heap.cache_setCache_thread hu)

/-- `malloc_from_newsb`. -/
lemma newSet_solo (hsc : SmallClass sc) (inside : cfg.Inside d) (num : (h.cache t sc).num = 0) :
    ∃ h', Solo cfg t (h, .newSet sc (cfg.sb d)) (h', .idle) ∧ FromNewsb t sc d h h' := by
  let g := h.setDesc d
    { h.desc d with
      heap := some sc, blockSize := blockSize sc, maxcount := maxcount sc,
      superblock := some (cfg.sb d) }
  obtain ⟨m, run⟩ := newLoop_fixed cfg t g sc d (cfg.sb d) 0
  obtain ⟨h', run', rest⟩ :=
    newAnchor_solo cfg (h := { g with mem := m }) (d := d) hsc num (cfg.sb d)
  refine ⟨h', .step false (by
    rw [exec, check, if_pos (cfg.sb_pos d).ne', inside.sbIndex_sb]) (run.solo.trans run'),
    rest.curr, rest.head, fun e he => ?_, rest.num, rest.others⟩
  rw [rest.desc e he]
  exact Heap.desc_setDesc_ne he

/-- Calls of thread 0 that ask for blocks of the largest class have left the superblocks `D` on
`avail_sb` and `n` blocks in its cache. -/
structure Drained (cfg : Cfg) (s : State) (D : List ℕ) (n : ℕ) : Prop where
  calls : Calls cfg s
  curr : s.heap.currAddr = (init cfg).heap.currAddr
  avail : s.heap.Lists .avail D
  part : (s.heap.head (.part 39)).ptr = none
  num : (s.heap.cache 0 39).num = n
  others : ∀ u, u ≠ 0 → (s.heap.cache u 39).num = 0

/-- How a `do_malloc` of the largest class starts. -/
lemma callMalloc_largest (t : ℕ) (h : Heap) : callMalloc t 14336 h =
    ({ h with req := Function.update h.req t 14336 },
      if (h.cache t 39).num = 0 then .popLoad (.part 39) 39 else .popBlock 39) := by
  have cls : getSizeclass 14336 = 39 := by
    rw [← firstClass_spec (by decide)]
    decide
  rw [callMalloc, if_neg (by decide), cls]

/-- The initial heap has all superblocks of the first expansion but the skipped one. -/
lemma drained_init (cfg : Cfg) : Drained cfg (init cfg) (List.range' 1 (EXPAND_SBS - 1)) 0 :=
  ⟨.init, rfl, (init_rep cfg).list .avail, rfl, rfl, fun _ _ => rfl⟩

/-- A call of thread 0. -/
lemma Drained.call {D : List ℕ} {n : ℕ} {h' : Heap} (dr : Drained cfg s D n)
    (run : Solo cfg 0 (callMalloc 0 14336 s.heap) (h', .idle)) :
    Calls cfg ((s.put 0 (callMalloc 0 14336 s.heap)).put 0 (h', .idle)) := by
  refine dr.calls.call (.mk (a := .malloc 0 14336) rfl (.inl (by decide)) ?_ ?_)
  · exact if_pos (dr.calls.reach.2 0)
  · rw [State.pc_put_self]
    exact run

/-- A block from the cache. -/
lemma Drained.pop {D : List ℕ} {n : ℕ} (dr : Drained cfg s D (n + 1)) :
    ∃ s', Drained cfg s' D n := by
  let g := { s.heap with req := Function.update s.heap.req 0 14336 }
  let c := g.cache 0 39
  have num : c.num = n + 1 := dr.num
  have start : callMalloc 0 14336 s.heap = (g, .popBlock 39) := by
    rw [callMalloc_largest, if_neg (by rw [dr.num]; exact Nat.succ_ne_zero n)]
  have run : Solo cfg 0 (callMalloc 0 14336 s.heap)
      (((g.setCache 0 39 ⟨g.link c.block, c.num - 1⟩).setClient c.block .held).setRet 0 c.block,
        .idle) := by
    rw [start]
    refine .step false ?_ (.refl _)
    rw [exec, check, if_pos (show 0 < c.num by omega)]
  refine ⟨_, dr.call run, dr.curr, dr.avail, dr.part, ?_, fun u hu => ?_⟩
  · show ((g.setCache 0 39 _).cache 0 39).num = n
    rw [Heap.cache_setCache_self]
    show c.num - 1 = n
    omega
  · show ((g.setCache 0 39 _).cache u 39).num = 0
    rw [Heap.cache_setCache_thread hu]
    exact dr.others u hu

/-- A new superblock. -/
lemma Drained.fill {D : List ℕ} {d : ℕ} (dr : Drained cfg s (d :: D) 0) :
    ∃ s', Drained cfg s' D 3 := by
  obtain ⟨L, inv⟩ := dr.calls.reach.1.inv
  -- the superblock lies inside the mapping and is on the list only once
  have items : d :: D = L.sbs.items .avail := dr.avail.unique (inv.rep.list .avail)
  have nodup : (d :: D).Nodup := items ▸ (inv.ok.sbs .avail trivial).nodup
  have role : L.role d = .avail :=
    (inv.ok.mem_sbs (r := .avail) trivial).1 (items ▸ List.mem_cons_self)
  have inside := inv.ok.insideOf role (by simp)
  obtain ⟨head, rest⟩ := dr.avail
  let g := { s.heap with req := Function.update s.heap.req 0 14336 }
  let old := g.see .avail
  have ptr : old.ptr = some d := head
  let g' := g.setHead .avail ⟨(g.desc d).next .avail, old.cnt⟩
  have start : callMalloc 0 14336 s.heap = (g, .popLoad (.part 39) 39) := by
    rw [callMalloc_largest, if_pos dr.num]
  have head' : g'.head .avail = ⟨(s.heap.desc d).next .avail, old.cnt⟩ := by
    simp only [g', Heap.setHead, Function.update_self]
    rfl
  have part' : g'.head (.part 39) = s.heap.head (.part 39) := by
    simp [g', g, Heap.setHead]
  have largest : SmallClass 39 := by decide
  obtain ⟨h', run', f⟩ := newSet_solo (h := g') (t := 0) largest inside dr.num
  have run : Solo cfg 0 (callMalloc 0 14336 s.heap) (h', .idle) := by
    rw [start]
    refine .step false (r := (g, .popLoad .avail 39)) ?_ ?_
    · rw [exec, popTest_part (show (g.see (.part 39)).ptr = none from dr.part)]
    refine .step false (r := (g, .popNext .avail 39 old d)) ?_ ?_
    · rw [exec, popTest_some ptr]
    refine .step false (r := (g, .popCas .avail 39 old d ((g.desc d).next .avail))) rfl ?_
    refine .step false (r := (g', .newSet 39 (cfg.sb d))) ?_ run'
    rw [exec, if_pos ⟨rfl, by simp⟩, popped, inside.sbLookup]
  refine ⟨_, dr.call run, f.curr.trans dr.curr, ?_, ?_, f.num, fun u hu => ?_⟩
  · -- the links of the other superblocks are as before
    show IsList (fun e => (h'.desc e).next .avail) (h'.head .avail).ptr D
    rw [f.head, head']
    refine rest.congr fun e he => ?_
    rw [f.desc e (fun hc => (List.nodup_cons.1 nodup).1 (hc ▸ he))]
    rfl
  · show (h'.head (.part 39)).ptr = none
    rw [f.head, part']
    exact dr.part
  · show (h'.cache u 39).num = 0
    rw [f.others u hu]
    exact dr.others u hu

/-- All superblocks. -/
lemma Drained.all {D : List ℕ} (dr : Drained cfg s D 0) : ∃ s', Drained cfg s' [] 0 := by
  induction D generalizing s with
  | nil => exact ⟨s, dr⟩
  | cons d D ih =>
    obtain ⟨s₁, dr⟩ := dr.fill
    obtain ⟨s₂, dr⟩ := dr.pop
    obtain ⟨s₃, dr⟩ := dr.pop
    obtain ⟨s₄, dr⟩ := dr.pop
    exact ih dr

/-- A thread that asks for a block when there is none goes to expand the region. -/
lemma Reach.to_grow (hs : Reach cfg s) (idle : s.pc t = .idle) (num : (s.heap.cache t 39).num = 0)
    (part : (s.heap.head (.part 39)).ptr = none) (avail : (s.heap.head .avail).ptr = none) :
    ∃ g, Reach cfg (s.put t (g, .growLoad 39)) ∧ g.currAddr = s.heap.currAddr ∧
      g.head = s.heap.head ∧ g.cache = s.heap.cache := by
  let g := { s.heap with req := Function.update s.heap.req t 14336 }
  have hs₁ : Reach cfg (s.put t (g, .popLoad (.part 39) 39)) := by
    refine hs.tail ⟨.malloc t 14336, .inl (by decide), ?_⟩
    rw [step, if_pos idle, callMalloc_largest, if_pos num]
  have run : Solo cfg t (g, .popLoad (.part 39) 39) (g, .growLoad 39) := by
    refine .step false (r := (g, .popLoad .avail 39)) ?_ (.step false ?_ (.refl _))
    · rw [exec, popTest_part (show (g.see (.part 39)).ptr = none from part)]
    · rw [exec, popTest_avail (show (g.see .avail).ptr = none from avail)]
  obtain ⟨hs₂, -⟩ := Reach.solo (t := t) hs₁ (by rw [State.pc_put_self]; trivial)
    (by rw [State.pc_put_self]; exact run)
  rw [State.put_put] at hs₂
  exact ⟨g, hs₂, rfl, rfl, rfl⟩

/-- The expansion up to the end of `organize_sb_list`. -/
lemma grow_solo (room : Room cfg h.currAddr) (avail : (h.head .avail).ptr = none) :
    ∃ start pc, Solo cfg t (h, .growLoad sc)
      (organized { h with currAddr := bumpNext h.currAddr PAGESIZE SB_REGION_EXPAND_SIZE } start
        (EXPAND_SBS - 1), pc) := by
  have pos : 0 < SB_REGION_EXPAND_SIZE / SBSIZE - 1 := by decide
  refine ⟨_, _, .step false rfl (.step false (r := (h, .growFlush sc h.currAddr)) ?_
    (.step false rfl (.step false rfl (.step false (by rw [exec, if_pos rfl])
      (.step false rfl (.step false rfl (organize_solo _ _ _ pos _)))))))⟩
  rw [Room] at room
  rw [exec, if_neg (not_not.2 avail), check, if_pos room]

/-- Once `avail_sb` is empty, thread 0 loads its head, and then thread 1 expands the region and
fills `avail_sb`. Thread 0 never returns, although there is room for more expansions. -/
theorem small_sb_alloc_stuck : ∃ s, Reach big s ∧ Room big s.heap.currAddr ∧
    (s.pc 0).InSmallSbAlloc ∧ ∀ l, ¬(runAlone big 0 l (s.heap, s.pc 0)).2.Returned := by
  obtain ⟨s, dr⟩ := (drained_init big).all
  obtain ⟨hs, idle⟩ := dr.calls.reach
  obtain ⟨g, hs₁, curr, head, cache⟩ := hs.to_grow (idle 0) dr.num dr.part dr.avail
  have heap : (s.put 0 (g, .growLoad 39)).heap = g := rfl
  obtain ⟨g', hs₂, curr', head', -⟩ := hs₁.to_grow (t := 1)
    (by rw [State.pc_put_ne (by decide)]; exact idle 1)
    (by rw [heap, cache]; exact dr.others 1 (by decide))
    (by rw [heap, head]; exact dr.part)
    (by rw [heap, head]; exact dr.avail)
  have addr : g'.currAddr = (init big).heap.currAddr := (curr'.trans curr).trans dr.curr
  have room : Room big g'.currAddr := by
    rw [addr, Room]
    decide
  have avail : (g'.head .avail).ptr = none := by
    rw [head', show (s.put 0 (g, .growLoad 39)).heap = g from rfl, head]
    exact dr.avail
  obtain ⟨start, pc, run⟩ : ∃ start pc, Solo big 1 (g', .growLoad 39) (organized _ start _, pc) :=
    grow_solo room avail
  obtain ⟨hs₃, -⟩ := Reach.solo (t := 1) hs₂ (by rw [State.pc_put_self]; trivial)
    (by rw [State.pc_put_self]; exact run)
  rw [State.put_put] at hs₃
  have at_load : ∀ r, ((s.put 0 (g, .growLoad 39)).put 1 r).pc 0 = .growLoad 39 :=
    fun r => (State.pc_put_ne (by decide)).trans (State.pc_put_self ..)
  refine ⟨_, hs₃, ?_, ?_, fun l => ?_⟩
  · show Room big (bumpNext g'.currAddr PAGESIZE SB_REGION_EXPAND_SIZE)
    rw [addr, Room]
    decide
  · rw [at_load]
    trivial
  · rw [at_load]
    refine Stale.not_returned ?_ l
    simp [Stale, State.put, organized]

end Ralloc
