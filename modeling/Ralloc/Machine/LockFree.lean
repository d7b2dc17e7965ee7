import Ralloc.Lib.Progress
import Ralloc.Machine.Changes

/-!
# The allocator as a whole makes progress

`Alone` says what a thread does when all others have stopped. Here all of them run, in any order,
and each may throw the others back at every step. `lock_free`: in a run of the threads `T` the
number of steps is bounded by the number of calls that return, but for spurious failures of weak
compare-and-swaps and for the turns that `small_sb_alloc` makes with a stale empty head of
`avail_sb`. So while no call returns only so many steps are possible, whatever the threads do.

The ranks are those of `Alone`, the loads those of `Changes`, and `Lib.Progress` puts them together.
A thread outside of a call has the rank and the load of the longest call.
-/

namespace Ralloc

open Lib

variable {cfg : Cfg} {t u sc : ℕ} {g h : Heap} {pc : PC} {s s' : State} {L : Ledger} {T : Finset ℕ}

/-- What a change can cost another thread. -/
def Cfg.setback (cfg : Cfg) : ℕ := 16 * cfg.capacity + GROWN_STEPS + 16

/-- The steps of the longest call, if no other thread changes anything. -/
def Cfg.callSteps (cfg : Cfg) : ℕ :=
  16 * cfg.capacity + GROWN_STEPS + MAX_SZ_IDX * (16 * MAX_BLOCKS + 2)

/-- The changes that a call can make. -/
def Cfg.callChanges (cfg : Cfg) : ℕ := cfg.capacity + MAX_SZ_IDX * (3 * MAX_BLOCKS)

/-- The steps that a call can cost if `n` threads run. -/
@[irreducible] def Cfg.callCost (cfg : Cfg) (n : ℕ) : ℕ :=
  cfg.callSteps + cfg.setback * n * cfg.callChanges

/-- The steps that a thread has left, in its call or in the next one. -/
def callRank (cfg : Cfg) (t : ℕ) (h : Heap) : PC → ℕ
  | .idle => cfg.callSteps
  | pc => callLeft cfg t h pc

/-- The changes that a thread has left, in its call or in the next one. -/
def callLoad (cfg : Cfg) (t : ℕ) (h : Heap) : PC → ℕ
  | .idle => cfg.callChanges
  | pc => changesLeft t h pc

/-- What the threads have left to do. -/
def budget (cfg : Cfg) : Budget ℕ Heap PC :=
  ⟨callRank cfg, callLoad cfg, fun h => 3 * smallSbs cfg h⟩

/-- A thread inside a call. -/
def PC.busy : PC → Bool
  | .idle | .abort _ => false
  | _ => true

/-- The turn of `small_sb_alloc` with a stale empty head: it has seen that `avail_sb` is not empty,
and goes on with the head that it has. -/
def spins (h : Heap) : PC → Bool
  | .growCheck _ _ => (h.head .avail).ptr.isSome
  | _ => false

section others

/-- A class has no more superblocks than the region. -/
lemma classSbs_le (ok : L.Ok cfg) (rep : Rep cfg h L) (sc : ℕ) :
    classSbs cfg h sc ≤ cfg.capacity := by
  refine le_trans (Finset.card_filter_le _ _) ?_
  rw [Finset.card_range, rep.sbs_range]
  exact ok.le_capacity

/-- The steps of a flush depend on the own cache only. -/
lemma flushLeft_congr (cache : g.cache u = h.cache u) (k : FlushK) :
    flushLeft g u sc k = flushLeft h u sc k := by
  cases k <;> simp only [flushLeft, cache]

/-- So do its changes. -/
lemma flushChanges_congr (cache : g.cache u = h.cache u) (k : FlushK) :
    flushChanges g u sc k = flushChanges h u sc k := by
  cases k <;> simp only [flushChanges, cache]

/-- A thread that has changed nothing throws no other one back. -/
lemma callLeft_congr (same : SameShared h g) (cache : g.cache u = h.cache u) (pc : PC) :
    callLeft cfg u g pc = callLeft cfg u h pc := by
  have part : ∀ sc, partLeft cfg g sc = partLeft cfg h sc := fun sc => by
    rw [partLeft, classSbs_congr same.curr fun d => by rw [same.cls], partLeft]
  have push : ∀ k, pushLeft cfg u g k = pushLeft cfg u h k := fun k => by
    cases k with
    | retry sc => simp only [pushLeft, part]
    | flush sc k => exact flushLeft_congr cache k
    | _ => rfl
  have retire : ∀ ph k, retireLeft cfg u g ph k = retireLeft cfg u h ph k := fun ph k => by
    cases ph <;> cases k <;> simp only [retireLeft, push, part]
  cases pc with
  | ctor d ph k => cases k <;> simp only [callLeft, retire, push]
  | popLoad l sc | popNext l sc | popCas l sc => cases l <;> simp only [callLeft, part, same.head]
  | _ => simp only [callLeft, part, push, same.head, same.curr, same.anchor, flushLeft_congr cache]

/-- A change throws a thread back by so many steps at most. -/
lemma callLeft_le (cap : ∀ sc, classSbs cfg g sc ≤ cfg.capacity) (cache : g.cache u = h.cache u)
    (pc : PC) : callLeft cfg u g pc ≤ callLeft cfg u h pc + cfg.setback := by
  have back : cfg.setback = 16 * cfg.capacity + GROWN_STEPS + 16 := rfl
  have part : ∀ sc, partLeft cfg g sc ≤ availLeft sc + 16 * cfg.capacity := fun sc => by
    have := cap sc
    rw [partLeft]
    omega
  have part' : ∀ sc, availLeft sc ≤ partLeft cfg h sc := fun sc => Nat.le_add_left ..
  have push : ∀ k, pushLeft cfg u g k ≤ pushLeft cfg u h k + 16 * cfg.capacity := fun k => by
    cases k with
    | retry sc =>
      have := part sc
      have := part' sc
      simp only [pushLeft]
      omega
    | flush sc k =>
      simp only [pushLeft, flushLeft_congr cache]
      omega
    | _ => exact Nat.le_add_right ..
  have retire : ∀ ph k, retireLeft cfg u g ph k ≤ retireLeft cfg u h ph k + 16 * cfg.capacity := by
    intro ph k
    have hk := push k
    cases k with
    | retry sc =>
      have := part sc
      have := part' sc
      cases ph <;> simp only [retireLeft] <;> omega
    | _ => cases ph <;> simp only [retireLeft] <;> omega
  cases pc with
  | ctor d ph k =>
    cases k with
    | retire k =>
      have := retire ph k
      simp only [callLeft]
      omega
    | organize start count i k =>
      have := push k
      simp only [callLeft]
      omega
    | _ => exact Nat.le_add_right ..
  | popLoad l sc | popNext l sc | popCas l sc =>
    have h1 := part sc
    have h2 := part' sc
    have h3 : availLeft sc = GROWN_STEPS + newLeft sc + 7 := rfl
    cases l <;> simp only [callLeft] <;> (repeat' split) <;> omega
  | anchorLoad sc d | anchorCas sc d =>
    have h1 := part sc
    have h2 := part' sc
    simp only [callLeft]
    (repeat' split) <;> omega
  | orgLink start count i k | pushLoad f l k | heapPushPartial d k | pushStore l f d old k
  | pushCas l f d old k =>
    have := push k
    simp only [callLeft]
    (repeat' split) <;> omega
  | flushHead sc k | flushLoad sc r k | flushStore sc r old k | flushCas sc r old k =>
    simp only [callLeft, flushLeft_congr cache]
    (repeat' split) <;> omega
  | growLoad | growCheck | growFlush | growFence | growCas | largeFlush | largeFence | largeCas =>
    simp only [callLeft]
    (repeat' split) <;> omega
  | _ => exact Nat.le_add_right ..

/-- The changes that another thread has left stay the same. -/
lemma changesLeft_congr (cache : g.cache u = h.cache u) (pc : PC) :
    changesLeft u g pc = changesLeft u h pc := by
  have push : ∀ k, pushChanges u g k = pushChanges u h k := fun k => by
    cases k with
    | flush sc k => exact flushChanges_congr cache k
    | _ => rfl
  have retire : ∀ ph k, retireChanges u g ph k = retireChanges u h ph k := fun ph k => by
    cases ph <;> cases k <;> simp only [retireChanges, push]
  cases pc with
  | ctor d ph k => cases k <;> simp only [changesLeft, retire, push]
  | popLoad l | popNext l | popCas l => cases l <;> rfl
  | _ => simp only [changesLeft, push, flushChanges_congr cache]

end others

section step

/-- Inside a call there is a step left. -/
lemma callLeft_pos (th : ThInv cfg h L t pc) (busy : pc.busy = true) : 1 ≤ callLeft cfg t h pc := by
  cases pc with
  | idle => cases busy
  | abort a => cases busy
  | flushHead sc k =>
    cases k with
    | free p => exact Nat.le_add_left ..
    | exit =>
      have small : SmallClass sc := th.known
      show 1 ≤ flushLeft h t sc .exit
      rw [flushLeft_exit small]
      omega
  | popLoad l | popNext l | popCas l =>
    cases l <;> simp only [callLeft, availLeft, newLeft] <;> (repeat' split) <;> omega
  | ctor d ph k => cases k <;> cases ph <;> simp only [callLeft, CtorPhase.left] <;> omega
  | _ =>
    simp only [callLeft, availLeft, newLeft]
    (repeat' split) <;> omega

/-- A step onward ends the call or leaves fewer steps. -/
lemma Onward.left {m : Bool} {n : ℕ} {r : Heap × PC} (o : Onward cfg t m n r) (pos : 1 ≤ n) :
    r.2 = .idle ∨ callLeft cfg t r.1 r.2 + 1 ≤ n := by
  rcases o with (idle | ⟨-, no⟩) | near
  · exact .inl idle
  · obtain ⟨g, pc⟩ := r
    cases pc with
    | abort a => exact .inr ((Nat.zero_add 1).trans_le pos)
    | _ => exact absurd no id
  · exact .inr near.left

/-- A step of a thread inside a call ends the call or brings it nearer to its end, but for the turn
with a stale head and for a spurious failure. -/
lemma Inv.callLeft_step (inv : Inv cfg s L) (busy : (s.pc t).busy = true)
    (wrap : NoWrap s.heap (s.pc t)) (spur : Bool) (safe : Safe (exec cfg t spur s.heap (s.pc t))) :
    (exec cfg t spur s.heap (s.pc t)).2 = .idle ∨
      callLeft cfg t (exec cfg t spur s.heap (s.pc t)).1 (exec cfg t spur s.heap (s.pc t)).2 + 1 ≤
        callLeft cfg t s.heap (s.pc t) + 2 * spur.toNat + 2 * (spins s.heap (s.pc t)).toNat := by
  have pos := callLeft_pos (inv.thread t) busy
  have onward := inv.onward (t := t)
  generalize s.pc t = pc at *
  -- all but the expansion of `small_sb_alloc` has been done for a thread alone
  have alone : Going s.heap pc → ¬Stale s.heap pc → (∀ sc cur, pc ≠ .growCheck sc cur) →
      (exec cfg t spur s.heap pc).2 = .idle ∨
        callLeft cfg t (exec cfg t spur s.heap pc).1 (exec cfg t spur s.heap pc).2 + 1 ≤
          callLeft cfg t s.heap pc + 2 * spur.toNat + 2 * (spins s.heap pc).toNat := by
    intro going fresh no
    have step := onward (fun sc cur e => absurd e (no sc cur)) going fresh spur safe
    exact (step.left (pos.trans (Nat.le_add_right ..))).imp_right fun le =>
      le.trans (Nat.le_add_right ..)
  have allow : ∀ {m n : ℕ}, m ≤ n → m ≤ n + 2 * spur.toNat + 2 * (spins s.heap pc).toNat :=
    fun le => by omega
  cases pc with
  | idle => exact .inl rfl
  | abort a => cases busy
  | popNext l sc old p => exact .inr (allow callLeft_popNext.le)
  | popCas l sc old p next => exact alone wrap id (by simp)
  | growLoad sc => exact .inr (allow callLeft_growLoad.le)
  | growCheck sc cur =>
    refine .inr ?_
    rw [exec]
    cases e : (s.heap.head .avail).ptr with
    | some p =>
      -- the turn with a stale head
      simp only [callLeft, spins, e, ne_eq, reduceCtorEq, not_false_eq_true, ↓reduceIte,
        Option.isSome_some, Bool.toNat_true]
      split <;> omega
    | none =>
      rw [if_neg (by simp), check]
      split
      · exact allow callLeft_growCheck.le
      · simp only [callLeft]
        split <;> omega
  | growFlush sc cur => exact .inr (allow callLeft_growFlush.le)
  | growFence sc cur => exact .inr (allow callLeft_growFence.le)
  | growCas sc cur => exact .inr (allow (callLeft_growCas spur).le)
  | rootSet p i =>
    refine .inr ?_
    rw [exec, check]
    split <;> simp only [callLeft] <;> omega
  | _ => exact alone trivial id (by simp)

end step

section potential

/-- The steps that the threads `T` have left. -/
@[irreducible] def potential (cfg : Cfg) (T : Finset ℕ) (s : State) : ℕ :=
  (budget cfg).potential T cfg.setback s.heap s.pc

/-- The potential is that of the general theory, for these calls. -/
lemma potential_def (cfg : Cfg) (T : Finset ℕ) (s : State) :
    potential cfg T s = (budget cfg).potential T cfg.setback s.heap s.pc := by
  rw [potential]

/-- And written out. -/
lemma potential_eq (cfg : Cfg) (T : Finset ℕ) (s : State) : potential cfg T s =
    cfg.setback * T.card * (3 * smallSbs cfg s.heap + ∑ t ∈ T, callLoad cfg t s.heap (s.pc t)) +
      ∑ t ∈ T, callRank cfg t s.heap (s.pc t) := by
  simp only [potential_def, Budget.potential, Budget.changes, budget]

/-- The balance when thread `t` moves on. -/
lemma potential_put {r : Heap × PC} {cost credit change gain : ℕ} (ht : t ∈ T)
    (loads : ∀ u ≠ t, callLoad cfg u r.1 (s.pc u) = callLoad cfg u s.heap (s.pc u))
    (ranks : ∀ u ≠ t, callRank cfg u r.1 (s.pc u) ≤ callRank cfg u s.heap (s.pc u) +
      cfg.setback * change)
    (work : callLoad cfg t r.1 r.2 + 3 * smallSbs cfg r.1 + change ≤
      callLoad cfg t s.heap (s.pc t) + 3 * smallSbs cfg s.heap + gain)
    (own : callRank cfg t r.1 r.2 + cost ≤ callRank cfg t s.heap (s.pc t) + credit) :
    potential cfg T (s.put t r) + cost ≤ potential cfg T s + credit +
      cfg.setback * T.card * gain := by
  rw [potential_def, potential_def]
  exact Budget.potential_step ht loads ranks work own

/-- Whether the call is over. -/
def returned : PC → ℕ
  | .idle => 1
  | _ => 0

/-- Inside a call. -/
lemma callRank_of_ne (ne : pc ≠ .idle) : callRank cfg t h pc = callLeft cfg t h pc := by
  cases pc with
  | idle => exact absurd rfl ne
  | _ => rfl

/-- The same for the changes. -/
lemma callLoad_of_ne (ne : pc ≠ .idle) : callLoad cfg t h pc = changesLeft t h pc := by
  cases pc with
  | idle => exact absurd rfl ne
  | _ => rfl

/-- Who is busy is inside a call. -/
lemma PC.ne_idle (busy : pc.busy = true) : pc ≠ .idle := by
  rintro rfl
  cases busy

/-- What one thread does leaves the loads of the others alone. -/
lemma callLoad_congr (cache : g.cache u = h.cache u) (pc : PC) :
    callLoad cfg u g pc = callLoad cfg u h pc := by
  by_cases idle : pc = .idle
  · subst idle
    rfl
  · rw [callLoad_of_ne idle, callLoad_of_ne idle, changesLeft_congr cache]

/-- The rank depends on what is shared and on the own cache. -/
lemma callRank_congr (same : SameShared h g) (cache : g.cache u = h.cache u) (pc : PC) :
    callRank cfg u g pc = callRank cfg u h pc := by
  by_cases idle : pc = .idle
  · subst idle
    rfl
  · rw [callRank_of_ne idle, callRank_of_ne idle, callLeft_congr same cache]

/-- The ranks of the others go up only with a change. -/
lemma callRank_le {n : ℕ} (le : callLeft cfg u g pc ≤ callLeft cfg u h pc + n) :
    callRank cfg u g pc ≤ callRank cfg u h pc + n := by
  by_cases idle : pc = .idle
  · subst idle
    exact Nat.le_add_right ..
  · rwa [callRank_of_ne idle, callRank_of_ne idle]

/-- What the clients write does not matter. -/
lemma potential_write (cfg : Cfg) (T : Finset ℕ) (s : State) (a : ℕ) (v : UInt8) :
    potential cfg T { s with heap := { s.heap with mem := Function.update s.heap.mem a v } } =
      potential cfg T s := by
  let g := { s.heap with mem := Function.update s.heap.mem a v }
  have same : SameShared s.heap g := ⟨rfl, rfl, fun _ => rfl, fun _ => rfl⟩
  have loads : ∑ t ∈ T, callLoad cfg t g (s.pc t) = ∑ t ∈ T, callLoad cfg t s.heap (s.pc t) :=
    Finset.sum_congr rfl fun t _ => callLoad_congr rfl _
  have ranks : ∑ t ∈ T, callRank cfg t g (s.pc t) = ∑ t ∈ T, callRank cfg t s.heap (s.pc t) :=
    Finset.sum_congr rfl fun t _ => callRank_congr same rfl _
  have pool : smallSbs cfg g = smallSbs cfg s.heap := smallSbs_congr same.cls
  rw [potential_eq, potential_eq, ← pool, ← loads, ← ranks]

/-- The balance of a step inside a call. -/
lemma Inv.potential_run (inv : Inv cfg s L) (ht : t ∈ T) (busy : (s.pc t).busy = true)
    (wrap : NoWrap s.heap (s.pc t)) (spur : Bool) :
    potential cfg T (s.put t (exec cfg t spur s.heap (s.pc t))) + 1 ≤
      potential cfg T s + cfg.callCost T.card * returned (exec cfg t spur s.heap (s.pc t)).2 +
        2 * spur.toNat + 2 * (spins s.heap (s.pc t)).toNat := by
  have sound := exec_sound inv.ok inv.rep spur (inv.thread t) wrap
  have pos := callLeft_pos (inv.thread t) busy
  have spends := inv.spends spur sound.safe
  have nearer := inv.callLeft_step busy wrap spur sound.safe
  obtain ⟨L', tr, -⟩ := sound
  generalize exec cfg t spur s.heap (s.pc t) = r at *
  have cache : ∀ u ≠ t, r.1.cache u = s.heap.cache u := fun u ne => (tr.frame u ne).cache
  -- a step without a change costs the others nothing
  obtain ⟨n, others, work⟩ : ∃ n,
      (∀ u ≠ t, ∀ pc, callLeft cfg u r.1 pc ≤ callLeft cfg u s.heap pc + cfg.setback * n) ∧
      changesLeft t r.1 r.2 + 3 * smallSbs cfg r.1 + n ≤
        changesLeft t s.heap (s.pc t) + 3 * smallSbs cfg s.heap := by
    rcases spends with ⟨same, le⟩ | lt
    · refine ⟨0, fun u ne pc => ?_, by rwa [Nat.add_zero]⟩
      rw [callLeft_congr same (cache u ne)]
      exact Nat.le_add_right ..
    · refine ⟨1, fun u ne pc => ?_, lt⟩
      rw [Nat.mul_one]
      exact callLeft_le (classSbs_le tr.ok tr.rep) (cache u ne) pc
  have own : callRank cfg t r.1 r.2 + 1 ≤ callRank cfg t s.heap (s.pc t) +
      (cfg.callSteps * returned r.2 + 2 * spur.toNat + 2 * (spins s.heap (s.pc t)).toNat) := by
    rw [callRank_of_ne (PC.ne_idle busy)]
    by_cases idle : r.2 = .idle
    · rw [idle, callRank, returned]
      omega
    · rw [callRank_of_ne idle]
      have := nearer.resolve_left idle
      omega
  have work : callLoad cfg t r.1 r.2 + 3 * smallSbs cfg r.1 + n ≤
      callLoad cfg t s.heap (s.pc t) + 3 * smallSbs cfg s.heap +
        cfg.callChanges * returned r.2 := by
    rw [callLoad_of_ne (PC.ne_idle busy)]
    by_cases idle : r.2 = .idle
    · rw [idle] at work ⊢
      rw [callLoad, returned]
      omega
    · rw [callLoad_of_ne idle]
      omega
  have step := potential_put ht (fun u ne => callLoad_congr (cache u ne) _)
    (fun u ne => callRank_le (others u ne _)) work own
  have cost : cfg.callCost T.card * returned r.2 =
      cfg.callSteps * returned r.2 + cfg.setback * T.card * (cfg.callChanges * returned r.2) := by
    rw [Cfg.callCost, Nat.add_mul, Nat.mul_assoc _ cfg.callChanges]
  rw [cost]
  refine step.trans (le_of_eq ?_)
  ring

end potential

section calls

/-- For `omega`. -/
lemma Cfg.callSteps_eq (cfg : Cfg) : cfg.callSteps =
    16 * cfg.capacity + GROWN_STEPS + 5242960 := rfl

/-- For `omega`. -/
lemma Cfg.callChanges_eq (cfg : Cfg) : cfg.callChanges = cfg.capacity + 983040 := rfl

/-- A call has no more left at its start than a thread outside of a call. -/
structure Starts (cfg : Cfg) (t : ℕ) (h : Heap) (r : Heap × PC) : Prop where
  same : SameShared h r.1
  cache : r.1.cache = h.cache
  rank : callLeft cfg t r.1 r.2 ≤ cfg.callSteps
  load : changesLeft t r.1 r.2 ≤ cfg.callChanges

/-- The beginning of a call is paid for by the end of the one before. -/
lemma Starts.potential_le {r : Heap × PC} (st : Starts cfg t s.heap r) (ht : t ∈ T)
    (idle : s.pc t = .idle) : potential cfg T (s.put t r) ≤ potential cfg T s := by
  have others : ∀ u, callRank cfg u r.1 (s.pc u) ≤ callRank cfg u s.heap (s.pc u) +
      cfg.setback * 0 := by
    refine fun u => callRank_le ?_
    rw [callLeft_congr st.same (by rw [st.cache])]
    exact Nat.le_add_right ..
  have own : callRank cfg t r.1 r.2 + 0 ≤ callRank cfg t s.heap (s.pc t) + 0 := by
    rw [Nat.add_zero, Nat.add_zero, idle]
    by_cases e : r.2 = .idle
    · rw [e]
      exact le_rfl
    · rw [callRank_of_ne e]
      exact st.rank
  have work : callLoad cfg t r.1 r.2 + 3 * smallSbs cfg r.1 + 0 ≤
      callLoad cfg t s.heap (s.pc t) + 3 * smallSbs cfg s.heap + 0 := by
    rw [Nat.add_zero, Nat.add_zero, idle, smallSbs_congr st.same.cls]
    refine Nat.add_le_add_right ?_ _
    by_cases e : r.2 = .idle
    · rw [e]
      exact le_rfl
    · rw [callLoad_of_ne e]
      exact st.load
  have step := potential_put ht (fun u _ => callLoad_congr (by rw [st.cache]) _)
    (fun u _ => others u) work own
  rwa [Nat.mul_zero, Nat.add_zero, Nat.add_zero] at step

/-- A cache has at most the blocks of one superblock. -/
lemma Rep.num_le (rep : Rep cfg h L) (small : SmallClass sc) (t : ℕ) :
    (h.cache t sc).num ≤ MAX_BLOCKS := by
  have cache := rep.cache t sc
  rw [cache.num]
  exact cache.le.trans (small.cacheBlockNum_eq.trans_le small.maxcount_le)

/-- `do_malloc`. -/
lemma starts_callMalloc (ok : L.Ok cfg) (rep : Rep cfg h L) (t size : ℕ) :
    Starts cfg t h (callMalloc t size h) := by
  have steps := cfg.callSteps_eq
  have changes := cfg.callChanges_eq
  have blocks := MAX_BLOCKS_eq
  have avail : AVAIL_CHANGES = 16391 := rfl
  refine ⟨⟨rfl, rfl, fun _ => rfl, fun _ => rfl⟩, rfl, ?_, ?_⟩
  · rw [callMalloc]
    dsimp only
    split
    · simp only [callLeft]
      omega
    · have le : size ≤ MAX_SZ := by omega
      have small := (getSizeclass_spec le).1
      have le := classSbs_le ok rep (getSizeclass size)
      have count := small.maxcount_le
      split
      · show partLeft cfg h _ + 15 ≤ _
        rw [partLeft, availLeft, newLeft]
        omega
      · simp only [callLeft]
        omega
  · rw [callMalloc]
    dsimp only
    split
    · simp only [changesLeft]
      omega
    · split <;> simp only [changesLeft] <;> omega

/-- `do_free` of a small block. -/
lemma starts_callFree_small (ok : L.Ok cfg) (rep : Rep cfg h L) {p : ℕ} (hc : L.InClass cfg p sc) :
    Starts cfg t h (callFree cfg t p h) := by
  have steps := cfg.callSteps_eq
  have changes := cfg.callChanges_eq
  have blocks := MAX_BLOCKS_eq
  obtain ⟨d, o, hr, hm⟩ := hc
  have small := ok.cls hr
  have num := rep.num_le small t
  obtain ⟨i, hi, hpi⟩ := Cfg.mem_blocks.1 hm
  have lo := (Cfg.blk_bounds cfg d small hi).1
  have hi' := Cfg.blk_lt cfg d small hi
  rw [← Cfg.sb_succ, hpi] at hi'
  rw [hpi] at lo
  obtain ⟨h0, h1, h2⟩ := ok.in_range rep hr (by simp) lo hi'
  rw [callFree, if_neg h0, check, if_pos ⟨h1, h2⟩]
  obtain ⟨sc, rfl⟩ : ∃ n, sc = n + 1 := ⟨sc - 1, by have := small.1; omega⟩
  simp only [ok.sbIndex_of_mem hr hm, (rep.small hr).1]
  refine ⟨⟨rfl, rfl, fun _ => rfl, fun _ => rfl⟩, rfl, ?_, ?_⟩
  · show callLeft cfg t (h.setClient p (.freeing t)) (if _ then _ else _) ≤ _
    split
    · show 16 * (h.cache t (sc + 1)).num + 2 ≤ _
      omega
    · simp only [callLeft]
      omega
  · show changesLeft t (h.setClient p (.freeing t)) (if _ then _ else _) ≤ _
    split
    · show 3 * (h.cache t (sc + 1)).num ≤ _
      omega
    · exact Nat.zero_le _

/-- `do_free` of a large block. -/
lemma starts_callFree_large (ok : L.Ok cfg) (rep : Rep cfg h L) {p d : ℕ}
    (hd : L.role d = .large p) :
    Starts cfg t h (callFree cfg t p h) := by
  have steps := cfg.callSteps_eq
  have changes := cfg.callChanges_eq
  obtain ⟨e, rfl, he⟩ := ok.largeStart hd
  have inside : cfg.Inside e := ok.insideOf he (by simp)
  obtain ⟨h0, h1, h2⟩ := ok.in_range rep he (by simp) le_rfl
    (by rw [Cfg.sb_succ]; simp [SBSIZE_eq])
  obtain ⟨k, hk, hitems, hb⟩ := rep.large he
  have hdesc := rep.desc e
  rw [he, DescRep, if_pos rfl] at hdesc
  obtain ⟨hheap, -, hsb⟩ := hdesc
  -- all its superblocks lie in the region
  have last : e + (k - 1) ∈ L.sbs.items (.large (cfg.sb e)) := by
    rw [hitems]
    exact List.mem_range'_1.2 ⟨by omega, by omega⟩
  have role := (ok.mem_sbs (r := .large (cfg.sb e)) trivial).1 last
  have below : ¬(e + (k - 1) = 0 ∨ L.n ≤ e + (k - 1)) := fun out => by
    have unborn := (ok.born _).2 out
    rw [role] at unborn
    cases unborn
  have cap := ok.le_capacity
  have call : callFree cfg t (cfg.sb e) h =
      (h.setClient (cfg.sb e) .none, organizeSbList cfg (cfg.sb e) k .done) := by
    rw [callFree, if_neg h0, check, if_pos ⟨h1, h2⟩, inside.sbIndex_sb]
    simp only [hheap]
    rw [hb, hsb, Option.getD_some, Nat.mul_div_cancel _ (by simp [SBSIZE_eq]), check,
      if_pos (Nat.mul_mod_left ..)]
  rw [call, organizeSbList]
  refine ⟨⟨rfl, rfl, fun _ => rfl, fun _ => rfl⟩, rfl, ?_, ?_⟩
  · simp only [callLeft, CtorPhase.left, pushLeft]
    omega
  · simp only [changesLeft, CtorPhase.changes, pushChanges]
    omega

/-- `public_flush_cache`. -/
lemma starts_exit (rep : Rep cfg h L) (t : ℕ) : Starts cfg t h (h, .flushHead 1 .exit) := by
  have num : ∀ c ∈ Finset.Ico 1 MAX_SZ_IDX, (h.cache t c).num ≤ MAX_BLOCKS :=
    fun c hc => rep.num_le (Finset.mem_Ico.1 hc) t
  have sum : ∀ {f : ℕ → ℕ} {n : ℕ}, (∀ c ∈ Finset.Ico 1 MAX_SZ_IDX, f c ≤ n) →
      ∑ c ∈ Finset.Ico 1 MAX_SZ_IDX, f c ≤ 39 * n := by
    intro f n le
    refine (Finset.sum_le_card_nsmul _ f n le).trans_eq ?_
    rw [Nat.card_Ico, nsmul_eq_mul, Nat.cast_id]
    rfl
  refine ⟨⟨rfl, rfl, fun _ => rfl, fun _ => rfl⟩, rfl, ?_, ?_⟩
  · show flushLeft h t 1 .exit ≤ cfg.callSteps
    have le := sum fun c hc => Nat.add_le_add_right (Nat.mul_le_mul_left 16 (num c hc)) 1
    rw [flushLeft, cfg.callSteps_eq]
    rw [MAX_BLOCKS_eq] at le
    omega
  · show flushChanges h t 1 .exit ≤ cfg.callChanges
    have le := sum fun c hc => Nat.mul_le_mul_left 3 (num c hc)
    rw [flushChanges, cfg.callChanges_eq]
    rw [MAX_BLOCKS_eq] at le
    omega

/-- A call starts. -/
lemma Inv.potential_call (inv : Inv cfg s L) {a : Act} (caller : a.caller = some t) (ht : t ∈ T)
    (allowed : a.Allowed cfg s) (st : Ralloc.step cfg s a = some s') :
    potential cfg T s' ≤ potential cfg T s := by
  cases a with
  | malloc u size =>
    obtain ⟨idle, rfl⟩ := step_call st
    cases caller
    exact (starts_callMalloc inv.ok inv.rep t size).potential_le ht idle
  | free u p =>
    obtain ⟨idle, rfl⟩ := step_call st
    cases caller
    rcases inv.ok.inClass (inv.rep.held_iff.1 allowed) with ⟨sc, hc⟩ | ⟨d, hd⟩
    · exact (starts_callFree_small inv.ok inv.rep hc).potential_le ht idle
    · exact (starts_callFree_large inv.ok inv.rep hd).potential_le ht idle
  | exit u =>
    obtain ⟨idle, rfl⟩ := step_call st
    cases caller
    exact (starts_exit inv.rep t).potential_le ht idle
  | setRoot u p i =>
    obtain ⟨idle, rfl⟩ := step_call st
    cases caller
    have starts : Starts cfg t s.heap (s.heap, .rootSet p i) := by
      refine ⟨⟨rfl, rfl, fun _ => rfl, fun _ => rfl⟩, rfl, ?_, Nat.zero_le _⟩
      rw [callLeft, cfg.callSteps_eq]
      omega
    exact starts.potential_le ht idle
  | write a v => cases caller
  | run u spur => cases caller

end calls

/-- The counts of a run: the steps inside calls, the calls that have returned, the spurious failures
and the turns with a stale head. -/
structure Tally where
  steps : ℕ
  returns : ℕ
  spurs : ℕ
  spins : ℕ
  deriving DecidableEq, Repr

/-- The counts after a step of thread `t`. -/
def Tally.run (n : Tally) (cfg : Cfg) (s : State) (t : ℕ) (spur : Bool) : Tally :=
  ⟨n.steps + 1, n.returns + returned (exec cfg t spur s.heap (s.pc t)).2, n.spurs + spur.toNat,
    n.spins + (Ralloc.spins s.heap (s.pc t)).toNat⟩

/-- The runs of the threads `T` from `s`, with their counts: threads start calls, take steps in
them, and the clients write into the blocks that they hold. -/
inductive Works (cfg : Cfg) (T : Finset ℕ) (s : State) : Tally → State → Prop
  | refl : Works cfg T s ⟨0, 0, 0, 0⟩ s
  | call {n : Tally} {s₁ s₂ : State} {a : Act} {t : ℕ} (works : Works cfg T s n s₁)
    (caller : a.caller = some t) (ht : t ∈ T) (allowed : a.Allowed cfg s₁)
    (st : step cfg s₁ a = some s₂) : Works cfg T s n s₂
  | write {n : Tally} {s₁ s₂ : State} {a : ℕ} {v : UInt8} (works : Works cfg T s n s₁)
    (allowed : (Act.write a v).Allowed cfg s₁) (st : step cfg s₁ (.write a v) = some s₂) :
    Works cfg T s n s₂
  | run {n : Tally} {s₁ : State} {t : ℕ} {spur : Bool} (works : Works cfg T s n s₁) (ht : t ∈ T)
    (busy : (s₁.pc t).busy = true) (allowed : (Act.run t spur).Allowed cfg s₁) :
    Works cfg T s (n.run cfg s₁ t spur) (s₁.put t (exec cfg t spur s₁.heap (s₁.pc t)))

/-- The balance of a run and one more step. -/
lemma balance_step {p p₁ p₂ n c r r' a a' b b' : ℕ} (run : p₁ + n ≤ p + c * r + 2 * a + 2 * b)
    (step : p₂ + 1 ≤ p₁ + c * r' + 2 * a' + 2 * b') :
    p₂ + (n + 1) ≤ p + c * (r + r') + 2 * (a + a') + 2 * (b + b') := by
  rw [Nat.mul_add]
  omega

/-- The balance of a run. -/
lemma Works.potential_le {n : Tally} (inv : Inv cfg s L) (works : Works cfg T s n s') :
    (∃ L', Inv cfg s' L') ∧ potential cfg T s' + n.steps ≤
      potential cfg T s + cfg.callCost T.card * n.returns + 2 * n.spurs + 2 * n.spins := by
  induction works with
  | refl =>
    exact ⟨⟨L, inv⟩, Nat.le_add_right_of_le (Nat.le_add_right_of_le (Nat.le_add_right ..))⟩
  | call _ caller ht allowed st ih =>
    obtain ⟨⟨L₁, inv₁⟩, le⟩ := ih
    have start := inv₁.potential_call caller ht allowed st
    exact ⟨inv₁.step ⟨_, allowed, st⟩, le_trans (Nat.add_le_add_right start _) le⟩
  | @write n s₁ s₂ a v _ allowed st ih =>
    obtain ⟨⟨L₁, inv₁⟩, le⟩ := ih
    refine ⟨inv₁.step ⟨_, allowed, st⟩, ?_⟩
    cases st
    rwa [potential_write]
  | @run n s₁ t spur _ ht busy allowed ih =>
    obtain ⟨⟨L₁, inv₁⟩, le⟩ := ih
    exact ⟨inv₁.step ⟨.run t spur, allowed, rfl⟩,
      balance_step le (inv₁.potential_run ht busy allowed spur)⟩

/-- At the start nobody is in a call, and no superblock has a class. -/
lemma potential_init (cfg : Cfg) (T : Finset ℕ) :
    potential cfg T (init cfg) = cfg.callCost T.card * T.card := by
  have pool : smallSbs cfg (init cfg).heap = 0 := by
    refine Finset.sum_eq_zero fun d _ => ?_
    rw [Descriptor.classed, init_desc]
    split <;> rfl
  have idle : ∀ t, (init cfg).pc t = .idle := fun _ => rfl
  rw [potential_eq, pool]
  simp only [idle, callLoad, callRank, Finset.sum_const, nsmul_eq_mul, Nat.cast_id]
  rw [Cfg.callCost]
  ring

/-- In every run of the threads `T`, the number of steps is bounded by the number of calls that
return, but for spurious failures and for the turns of `small_sb_alloc` with a stale head. -/
theorem lock_free {n : Tally} (works : Works cfg T (init cfg) n s) :
    n.steps ≤ cfg.callCost T.card * (T.card + n.returns) + 2 * n.spurs + 2 * n.spins := by
  have le := (works.potential_le (init_inv cfg)).2
  rw [potential_init, ← Nat.mul_add] at le
  exact le_trans (Nat.le_add_left ..) le

/-- Run a list of actions of the threads `T` and count. -/
def tally (cfg : Cfg) (T : Finset ℕ) : State → Tally → List Act → Option (State × Tally)
  | s, n, [] => some (s, n)
  | s, n, .run t spur :: as =>
    if t ∈ T ∧ (s.pc t).busy = true ∧ (Act.run t spur).allowed s = true then
      tally cfg T (s.put t (exec cfg t spur s.heap (s.pc t))) (n.run cfg s t spur) as
    else none
  | s, n, a :: as =>
    if (∃ t ∈ T, a.caller = some t) ∧ a.allowed s = true then
      (quickStep cfg s a).bind fun s₁ => tally cfg T s₁ n as
    else none

/-- What is counted is a run. -/
lemma Works.tally {n n' : Tally} {s₁ s₂ : State} {as : List Act} (works : Works cfg T s n s₁)
    (e : tally cfg T s₁ n as = some (s₂, n')) : Works cfg T s n' s₂ := by
  induction as generalizing n s₁ with
  | nil =>
    cases e
    exact works
  | cons a as ih =>
    have call : (if (∃ t ∈ T, a.caller = some t) ∧ a.allowed s₁ = true then
        (quickStep cfg s₁ a).bind fun s₁ => Ralloc.tally cfg T s₁ n as else none) = some (s₂, n') →
        Works cfg T s n' s₂ := by
      intro e
      split at e
      case isTrue ok =>
        obtain ⟨⟨t, ht, caller⟩, allowed⟩ := ok
        rw [quickStep_eq] at e
        obtain ⟨s₃, st, e⟩ := Option.bind_eq_some_iff.1 e
        exact ih (.call works caller ht (Act.allowed_sound allowed) st) e
      case isFalse => cases e
    cases a with
    | run t spur =>
      rw [Ralloc.tally] at e
      split at e
      case isTrue ok =>
        obtain ⟨ht, busy, allowed⟩ := ok
        exact ih (.run works ht busy (Act.allowed_sound allowed)) e
      case isFalse => cases e
    | _ => exact call e

/-- Thread 0 has loaded the head of `avail_sb` when thread 1 begins, takes the superblock and
returns. -/
theorem lock_free_sample : ∃ n s, Works sample {0, 1} (init sample) n s ∧ n.steps = 15 ∧
    n.returns = 1 ∧ n.steps ≤ sample.callCost 2 * (2 + n.returns) + 2 * n.spurs + 2 * n.spins := by
  have test : (tally sample {0, 1} (init sample) ⟨0, 0, 0, 0⟩ (.malloc 0 14336 ::
      List.replicate 3 (.run 0 false) ++ .malloc 1 14336 :: List.replicate 12 (.run 1 false))).any
        (fun r => decide (r.2.steps = 15 ∧ r.2.returns = 1)) = true := by decide +kernel
  obtain ⟨⟨s, n⟩, e, hn⟩ := Option.any_eq_true _ _ |>.1 test
  obtain ⟨steps, returns⟩ := of_decide_eq_true hn
  have works : Works sample {0, 1} (init sample) n s := Works.refl.tally e
  exact ⟨n, s, works, steps, returns, lock_free works⟩

end Ralloc
