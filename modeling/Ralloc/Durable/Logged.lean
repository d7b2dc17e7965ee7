import Ralloc.Durable.Virgin
import Ralloc.Recovery.Interrupted
import Ralloc.Recovery.Restart

/-!
# What recovery can rely on

`Logged cfg s ℓ`: the state has a ledger, and the log has what a recovery after a crash needs.
Clients and allocator keep it (`Logged.step`). Then every image that a crash can leave is one that
the sweep can rebuild, provided that the mark phase finds only blocks that were held, and large ones
only if their descriptors are durable (`Logged.rebuildable`).
-/

namespace Ralloc

open Lib SuperblockState

variable {cfg : Cfg} {s s' : State} {ℓ ℓ' : HeapLog} {t d p N : ℕ} {m : Heap} {L : Ledger}
  {M : Finset ℕ}

/-- The invariant of a process and of what it leaves to the next one. -/
structure Logged (cfg : Cfg) (s : State) (ℓ : HeapLog) : Prop where
  inv : ∃ L, Inv cfg s L
  cur : ℓ.cur = s.heap
  desc : DescSettled s ℓ
  curr : CurrDurable cfg s ℓ
  unwritten : Unwritten cfg s ℓ

section step

/-- A call to `do_malloc` begins with no large block in the making. -/
lemma callMalloc_building (cfg : Cfg) (t size : ℕ) (h : Heap) :
    (callMalloc t size h).2.building cfg = none := by
  rw [callMalloc]
  dsimp only
  split
  · rfl
  · split <;> rfl

/-- Neither does a call to `do_free`. -/
lemma callFree_building (cfg : Cfg) (t p : ℕ) (h : Heap) :
    (callFree cfg t p h).2.building cfg = none := by
  rcases callFree_cases cfg t p h with ⟨-, ⟨-, e⟩ | ⟨a, e⟩⟩ | ⟨c, -, -, goes⟩
  · rw [e]
    rfl
  · rw [e]
    rfl
  · by_contra some
    obtain ⟨y, building⟩ := Option.ne_none_iff_exists'.1 some
    have inside := PC.inMalloc_of_building building
    rw [goes.1] at inside
    cases inside

/-- An action is a move of a thread that says what was before it, or a client writes a byte. -/
lemma step_backs (inv : Inv cfg s L) {a : Act} (allowed : a.Allowed cfg s)
    (st : step cfg s a = some s') :
    (∃ x v, s' = { s with heap := { s.heap with mem := Function.update s.heap.mem x v } } ∧
      noted s ℓ a = ℓ) ∨
    ∃ t r, s' = s.put t r ∧ Turn cfg s.heap (s.pc t) r ∧ Backs cfg s L t r ∧
      noted s ℓ a = pass ℓ t (s.pc t) := by
  cases a with
  | malloc t size =>
    obtain ⟨hi, rfl⟩ := step_call st
    refine .inr ⟨t, _, rfl, ?_, ?_, by rw [hi]; rfl⟩
    · rw [hi]
      exact turn_call rfl rfl (callMalloc_clear ..)
    · exact backs_call L rfl rfl (callMalloc_clear ..) (callMalloc_building ..) fun _ held => held
  | free t p =>
    obtain ⟨hi, rfl⟩ := step_call st
    have same : (callFree cfg t p s.heap).1.desc = s.heap.desc ∧
        (callFree cfg t p s.heap).1.currAddr = s.heap.currAddr ∧
        ∀ q, (callFree cfg t p s.heap).1.client q = .held → s.heap.client q = .held := by
      rcases callFree_cases cfg t p s.heap with ⟨e, -⟩ | ⟨c, ne, e, -⟩
      · rw [e]
        exact ⟨rfl, rfl, fun _ held => held⟩
      · rw [e]
        refine ⟨rfl, rfl, fun q held => ?_⟩
        by_cases eq : q = p
        · subst eq
          rw [Heap.client_setClient_self] at held
          exact absurd held ne
        · rwa [Heap.client_setClient_ne eq] at held
    obtain ⟨desc, curr, client⟩ := same
    refine .inr ⟨t, _, rfl, ?_, ?_, by rw [hi]; rfl⟩
    · rw [hi]
      exact turn_call desc curr (callFree_clear ..)
    · exact backs_call L desc curr (callFree_clear ..) (callFree_building ..) client
  | exit t =>
    obtain ⟨hi, rfl⟩ := step_call st
    refine .inr ⟨t, _, rfl, ?_, ?_, by rw [hi]; rfl⟩
    · rw [hi]
      exact turn_call rfl rfl ⟨rfl, rfl⟩
    · exact backs_call L rfl rfl ⟨rfl, rfl⟩ rfl fun _ held => held
  | setRoot t p i =>
    obtain ⟨hi, rfl⟩ := step_call st
    refine .inr ⟨t, _, rfl, ?_, ?_, by rw [hi]; rfl⟩
    · rw [hi]
      exact turn_call rfl rfl ⟨rfl, rfl⟩
    · exact backs_call L rfl rfl ⟨rfl, rfl⟩ rfl fun _ held => held
  | write x v =>
    cases st
    exact .inl ⟨x, v, rfl, rfl⟩
  | run t spur =>
    cases st
    exact .inr ⟨t, _, rfl, exec_turn .., inv.exec_backs spur allowed, rfl⟩

/-- Nothing changes but bytes. -/
lemma Logged.congr (lg : Logged cfg s ℓ) (next : ∃ L, Inv cfg s' L) (cur : ℓ'.cur = s'.heap)
    (pc : s'.pc = s.pc) (desc : s'.heap.desc = s.heap.desc)
    (curr : s'.heap.currAddr = s.heap.currAddr) (client : s'.heap.client = s.heap.client)
    (quiet : Quiet s' ℓ ℓ') : Logged cfg s' ℓ' :=
  ⟨next, cur, lg.desc.congr pc desc quiet, lg.curr.congr pc curr quiet lg.cur,
    lg.unwritten.congr pc desc curr client quiet lg.cur⟩

/-- An allowed action keeps the invariant. -/
lemma Logged.act (lg : Logged cfg s ℓ) {a : Act} (allowed : a.Allowed cfg s)
    (st : step cfg s a = some s') :
    Logged cfg s' ((noted s ℓ a).write s'.heap) := by
  obtain ⟨L, inv⟩ := lg.inv
  have next : ∃ L, Inv cfg s' L := inv.step ⟨a, allowed, st⟩
  rcases step_backs (ℓ := ℓ) inv allowed st with ⟨x, v, rfl, e⟩ | ⟨t, r, rfl, tn, b, e⟩ <;> rw [e]
  · exact lg.congr next Log.cur_write rfl rfl rfl rfl (quiet_write ..)
  · have ⟨L', inv'⟩ := next
    exact ⟨next, Log.cur_write, lg.desc.turn inv inv' lg.cur tn, lg.curr.turn inv inv' lg.cur tn,
      lg.unwritten.turn b inv inv' lg.cur⟩

/-- So do flushes and fences of the clients. -/
lemma Logged.flush (lg : Logged cfg s ℓ) (t k : ℕ) : Logged cfg s (ℓ.flush t (.mem k)) :=
  lg.congr lg.inv lg.cur rfl rfl rfl rfl (quiet_flush ..)

/-- A fence of a client. -/
lemma Logged.fence (lg : Logged cfg s ℓ) (t : ℕ) : Logged cfg s (ℓ.fence t) :=
  lg.congr lg.inv lg.cur rfl rfl rfl rfl (quiet_fence ..)

end step

section image

/-- The marks of a recovery from `m` whose filter functions find only blocks that were held in `s`,
and large ones only if they have their descriptors. -/
def MarksHeld (cfg : Cfg) (s : State) (m : Heap) (M : Finset ℕ) : Prop :=
  ∀ p ∈ M, s.heap.client p = .held ∧ (MAX_SZ < mallocSize cfg s.heap p → Durable cfg s m p)

/-- A large block with its metadata is one in what is left. -/
lemma Durable.isLarge (dur : Durable cfg s m p) (inv : Inv cfg s L) (curr : m.currAddr = cfg.sb N)
    (held : s.heap.client p = .held) (lt : MAX_SZ < mallocSize cfg s.heap p) : ∃ d k,
      (0 < d ∧ d + k ≤ N) ∧ IsLarge cfg m d k ∧ p = cfg.sb d ∧
      mallocSize cfg s.heap p = k * SBSIZE := by
  rcases inv.ok.role_held (inv.rep.held_iff.1 held) with ⟨sc, o, hr, hm⟩ | hr
  · rw [(inv.rep.extent_small inv.ok hr hm).1] at lt
    exact absurd (inv.ok.cls hr).le_max (not_le.2 lt)
  obtain ⟨d, rfl, hd⟩ := inv.ok.largeStart hr
  obtain ⟨k, pos, -, size⟩ := inv.rep.large hd
  have index := (inv.ok.insideOf hd (by simp)).sbIndex_sb
  have whole : mallocSize cfg s.heap (cfg.sb d) = k * SBSIZE := by rw [mallocSize, index, size]
  obtain ⟨desc, below⟩ := dur
  have hD := inv.rep.desc d
  rw [hd, DescRep, if_pos rfl] at hD
  simp only [index, Descriptor.plain, Prod.mk.injEq] at desc
  refine ⟨d, k, ⟨?_, ?_⟩, ⟨pos, ?_, ?_, ?_, ?_⟩, rfl, whole⟩
  · have := mt (inv.ok.born d).2 (by simp [hd])
    omega
  · rw [whole, curr, ← Cfg.sb_add, Cfg.sb_le_sb] at below
    exact below
  · rw [desc.2.1, hD.1]
  · rw [desc.1, hD.2.2]
  · rw [desc.2.2.1, size]
  · rw [desc.2.2.2, hD.2.1]

variable (lg : Logged cfg s ℓ) (im : CrashImage ℓ m)
include lg im

/-- Virgin descriptors are left as they are. -/
lemma Logged.virgin (vg : Virgin cfg s d) : m.desc d = .reset := im.desc_eq (lg.unwritten d vg)

/-- A descriptor behind the region that is left is virgin. -/
lemma Logged.unborn (curr : m.currAddr = cfg.sb N) (out : d = 0 ∨ N ≤ d) : Virgin cfg s d := by
  rcases out with e | le
  · exact .first e
  by_cases inside : cfg.sb (d + 1) ≤ s.heap.currAddr
  · rcases lg.curr.below _ inside with settled | ⟨t, x, grown, lo, hi⟩
    · have := im.sat .currAddr (P := fun (a : ℕ) => cfg.sb (d + 1) ≤ a) settled
      have : cfg.sb (d + 1) ≤ m.currAddr := this
      rw [curr, Cfg.sb_le_sb] at this
      omega
    · exact .taken grown lo hi
  · exact .beyond (not_le.1 inside)

/-- Small blocks have their descriptors anyway. -/
lemma Logged.durable_of_mark (marks : MarksHeld cfg s m M) (hp : p ∈ M) : Durable cfg s m p := by
  obtain ⟨L, inv⟩ := lg.inv
  obtain ⟨held, large⟩ := marks p hp
  rcases le_or_gt (mallocSize cfg s.heap p) MAX_SZ with le | lt
  · exact inv.durable_of_le lg.desc lg.curr im held le
  · exact large lt

/-- A mark is the start of a block in what is left. -/
lemma Logged.mark_kind (curr : m.currAddr = cfg.sb N) (marks : MarksHeld cfg s m M) (hp : p ∈ M) :
    (∃ d sc, (0 < d ∧ d < N) ∧ IsSmall cfg m d sc ∧ p ∈ cfg.blocks sc d) ∨
      ∃ d k, (0 < d ∧ d + k ≤ N) ∧ IsLarge cfg m d k ∧ p = cfg.sb d ∧
        mallocSize cfg s.heap p = k * SBSIZE := by
  obtain ⟨L, inv⟩ := lg.inv
  have held := (marks p hp).1
  have dur := lg.durable_of_mark im marks hp
  rcases le_or_gt (mallocSize cfg s.heap p) MAX_SZ with le | lt
  · obtain ⟨d, sc, hd, hs, hm, -⟩ := dur.isSmall inv curr held le
    exact .inl ⟨d, sc, hd, hs, hm⟩
  · exact .inr (dur.isLarge inv curr held lt)

/-- The superblocks of a marked large block. -/
lemma Logged.kept {k : ℕ} (curr : m.currAddr = cfg.sb N) (marks : MarksHeld cfg s m M)
    (hk : Kept cfg m M d k) : d + k ≤ N ∧ ∀ j, d < j → j < d + k → m.desc j = .reset := by
  obtain ⟨p, hp, hin⟩ := hk.marked
  rcases lg.mark_kind im curr marks hp with ⟨e, sc, -, hs, hm⟩ | ⟨e, k', he, hl, rfl, size⟩
  · obtain rfl := (inSb_of_mem_blocks hs.cls hm).unique hin
    exact absurd hk.large hs.not_large
  · obtain rfl := (inSb_sb cfg e).unique hin
    obtain rfl := hl.unique hk.large
    refine ⟨he.2, fun j lo hi => lg.virgin im (.inner (marks _ hp).1 ?_ ?_)⟩
    · exact lt_of_not_ge fun le => absurd (Cfg.sb_le_sb.1 le) (by omega)
    · rw [size, ← Cfg.sb_add]
      exact lt_of_not_ge fun le => absurd (Cfg.sb_le_sb.1 le) (by omega)

/-- The sweep can rebuild what is left. -/
theorem Logged.rebuildable (curr : m.currAddr = cfg.sb N) (marks : MarksHeld cfg s m M) :
    Rebuildable cfg m N M := by
  obtain ⟨L, inv⟩ := lg.inv
  obtain ⟨N', pos, curr', inside⟩ := lg.curr.exists_end inv im
  obtain rfl : N = N' := Cfg.sb_inj.1 (curr.symm.trans curr')
  constructor
  case sweepable =>
    refine ⟨pos, curr, inside, fun d _ _ hm => ?_, fun _ _ hk => (lg.kept im curr marks hk).1,
      fun _ _ hk h3 h4 => ?_⟩
    · obtain ⟨p, hp, hin⟩ := hm
      rcases lg.mark_kind im curr marks hp with ⟨e, sc, -, hs, hm⟩ | ⟨e, k, -, hl, rfl, -⟩
      · obtain rfl := (inSb_of_mem_blocks hs.cls hm).unique hin
        exact .inr (.inl ⟨sc, hs⟩)
      · obtain rfl := (inSb_sb cfg e).unique hin
        exact .inr (.inr ⟨k, hl⟩)
    · rw [(lg.kept im curr marks hk).2 _ h3 h4]
      rfl
  case precise =>
    intro p hp
    rcases lg.mark_kind im curr marks hp with ⟨d, sc, hd, hs, hm⟩ | ⟨d, k, hd, hl, rfl, -⟩
    · exact .inl (.inl ⟨d, sc, hd, hs, hm⟩)
    · have := hl.pos
      exact .inl (.inr ⟨d, k, by omega, hl, rfl⟩)
  case unborn => exact fun d out => lg.virgin im (lg.unborn im curr out)
  case interior =>
    rintro j ⟨d, k, -, hk, lo, hi⟩
    exact (lg.kept im curr marks hk).2 j lo hi

end image

end Ralloc
