import Ralloc.Machine.SmallSbAlloc

/-!
# A thread alone finishes its call

`Inv.onward` puts the loops of `StepsLeft` together: a step of any control state brings the call
nearer to its end. `finishes_iff` is the result: a thread that runs alone finishes its call, or has
no memory left, exactly unless it has the stale empty head of `small_sb_alloc`.
-/

namespace Ralloc

open Lib SuperblockState

variable {cfg : Cfg} {t sc d : ℕ} {h : Heap} {pc : PC} {s : State} {L : Ledger}

/-- The call gets nearer to its end with every step of the thread, but for a step in which a weak
compare-and-swap fails spuriously. -/
theorem Inv.onward (inv : Inv cfg s L)
    (known : ∀ sc cur, s.pc t = .growCheck sc cur → AllocLocal cfg s.heap (.growCheck sc cur))
    (going : Going s.heap (s.pc t)) (fresh : ¬Stale s.heap (s.pc t)) (spur : Bool)
    (safe : Safe (exec cfg t spur s.heap (s.pc t))) :
    Onward cfg t (s.pc t).inMalloc (callLeft cfg t s.heap (s.pc t) + 2 * spur.toNat)
      (exec cfg t spur s.heap (s.pc t)) := by
  have th := inv.thread t
  -- most steps need no allowance for a spurious failure
  have weaken : ∀ {m n r}, Onward cfg t m n r → Onward cfg t m (n + 2 * spur.toNat) r :=
    fun o => o.mono (Nat.le_add_right ..)
  generalize s.pc t = pc at *
  cases pc with
  | idle => exact .inl (.inl rfl)
  | abort a => exact absurd going id
  | popLoad l sc =>
    cases l with
    | avail => exact weaken onward_popTest_avail
    | part c => exact weaken onward_popTest_part
  | popNext l sc old p => exact weaken (.inr ⟨rfl, going, id, callLeft_popNext.le⟩)
  | popCas l sc old p next => exact onward_pop spur
  | anchorLoad sc d => exact weaken (onward_anchorTest safe)
  | anchorCas sc d old maxc bsize sb => exact onward_anchorCas spur th.known.2.1 safe
  | growLoad sc => exact weaken (.inr ⟨rfl, trivial, fresh, callLeft_growLoad.le⟩)
  | growCheck sc cur =>
    exact weaken (onward_growCheck spur (not_not.1 fresh) fun room =>
      inv.room (known sc cur rfl) room)
  | growFlush sc cur => exact weaken (.inr ⟨rfl, trivial, fresh, callLeft_growFlush.le⟩)
  | growFence sc cur => exact weaken (.inr ⟨rfl, trivial, fresh, callLeft_growFence.le⟩)
  | growCas sc cur => exact weaken (onward_growCas spur fresh)
  | grownFlush sc res => exact weaken (.inr ⟨rfl, trivial, id, le_rfl⟩)
  | grownFence sc res => exact weaken (onward_grownFence spur)
  | newSet sc sb =>
    rw [exec] at safe ⊢
    exact .check safe (by simp [Site.CanFail]) fun _ _ => weaken onward_newLoop
  | newLink sc d sb idx => exact weaken onward_newLoop
  | newAnchor sc d sb =>
    rw [exec] at safe ⊢
    exact .check safe (by simp [Site.CanFail]) fun _ _ =>
      weaken (.inr ⟨rfl, trivial, id, le_rfl⟩)
  | newFlush sc d => exact weaken (.inr ⟨rfl, trivial, id, le_rfl⟩)
  | newFence sc d =>
    rw [exec] at safe ⊢
    exact .check safe (by simp [Site.CanFail]) fun _ _ =>
      weaken (.inr ⟨rfl, trivial, id, le_rfl⟩)
  | popBlock sc =>
    rw [exec] at safe ⊢
    exact .check safe (by simp [Site.CanFail]) fun _ _ => .inl (.inl rfl)
  | ctor d ph k => exact weaken (onward_ctor inv.ok inv.rep th spur)
  | orgLink start count i k => exact weaken (onward_orgLink spur)
  | pushLoad first last k => exact weaken (onward_pushLoad spur)
  | heapPushPartial d k => exact weaken (onward_heapPushPartial spur safe)
  | pushStore l first last old k => exact weaken (onward_pushStore spur safe)
  | pushCas l first last old k => exact onward_push spur
  | flushHead sc k => exact weaken (onward_flushHead th.known spur safe)
  | flushLoad sc r k =>
    refine weaken (.inr ⟨rfl, trivial, id, ?_⟩)
    simp only [exec, callLeft, if_true]
    omega
  | flushStore sc r old k =>
    rw [exec] at safe ⊢
    refine .check safe (by simp [Site.CanFail]) fun _ _ => weaken (.inr ⟨rfl, trivial, id, ?_⟩)
    have rest : flushLeft (s.heap.setLink r.tail (r.superblock + old.avail * blockSize sc)) t sc k =
        flushLeft s.heap t sc k := by cases k <;> rfl
    have desc : (s.heap.setLink r.tail (r.superblock + old.avail * blockSize sc)).desc =
        s.heap.desc := rfl
    simp only [callLeft, rest, desc]
    split <;> omega
  | flushCas sc r old k => exact onward_flushCas spur safe
  | pushBlock sc p => exact .inl (.inl rfl)
  | largeLoad sbs =>
    rw [exec, check] at safe ⊢
    split
    case isTrue =>
      refine weaken (.inr ⟨rfl, trivial, id, ?_⟩)
      simp only [callLeft, if_true]
      omega
    case isFalse fits =>
      have args : argsOk PAGESIZE sbs = true := by
        simp only [argsOk, decide_eq_true_eq]
        exact ⟨th.known.pos.ne', by decide, by decide⟩
      exact .inl (.inr ⟨rfl, sbs, th.known, Bool.eq_false_iff.2 fun e => fits ⟨args, e⟩⟩)
  | largeFlush sbs cur =>
    refine weaken (.inr ⟨rfl, trivial, id, ?_⟩)
    by_cases e : s.heap.currAddr = cur <;> simp only [exec, callLeft, e, ↓reduceIte] <;> omega
  | largeFence sbs cur =>
    refine weaken (.inr ⟨rfl, trivial, id, ?_⟩)
    by_cases e : s.heap.currAddr = cur <;> simp only [exec, callLeft, e, ↓reduceIte] <;> omega
  | largeCas sbs cur =>
    rw [exec, callLeft]
    split
    · exact weaken (.inr ⟨rfl, trivial, id, le_rfl⟩)
    · exact weaken (.inr ⟨rfl, trivial, id, le_rfl⟩)
  | largeGrownFlush sbs res => exact weaken (.inr ⟨rfl, trivial, id, le_rfl⟩)
  | largeGrownFence sbs res => exact weaken (.inr ⟨rfl, trivial, id, le_rfl⟩)
  | largeSet sbs res =>
    rw [exec] at safe ⊢
    exact .check safe (by simp [Site.CanFail]) fun _ _ =>
      weaken (.inr ⟨rfl, trivial, id, le_rfl⟩)
  | largeAnchor sbs res => exact weaken (.inr ⟨rfl, trivial, id, le_rfl⟩)
  | largeDescFlush sbs res => exact weaken (.inr ⟨rfl, trivial, id, le_rfl⟩)
  | largeDescFence sbs res => exact .inl (.inl rfl)
  | rootSet p i =>
    have lt : i < MAX_ROOTS := going
    rw [exec, check, if_pos lt]
    exact weaken (.inr ⟨rfl, trivial, id, le_rfl⟩)
  | rootFlush p i => exact weaken (.inr ⟨rfl, trivial, id, le_rfl⟩)
  | rootFence p i => exact .inl (.inl rfl)

/-- Alone, the thread finishes its call within `callLeft` steps and two more for every spurious
failure. -/
def Finishes (cfg : Cfg) (t : ℕ) (h : Heap) (pc : PC) : Prop :=
  ∀ spurs : List Bool, callLeft cfg t h pc + 2 * spurs.count true < spurs.length →
    ∃ l, l <+: spurs ∧ Over cfg t pc.inMalloc (runAlone cfg t l (h, pc))

/-- The pop has not been overtaken. -/
lemma Going.noWrap (g : Going h pc) : NoWrap h pc := by
  cases pc with
  | popCas l sc old p next => exact g
  | _ => trivial

/-- A thread whose head is not stale gets on until its call is over. -/
lemma Reach.finishes (hs : Reach cfg s) (going : Going s.heap (s.pc t))
    (fresh : ¬Stale s.heap (s.pc t)) : Finishes cfg t s.heap (s.pc t) := by
  intro spurs enough
  induction spurs generalizing s with
  | nil => cases enough
  | cons spur spurs ih =>
    obtain ⟨L, inv⟩ := hs.inv
    have next : Reach cfg (s.put t (exec cfg t spur s.heap (s.pc t))) :=
      .tail hs ⟨.run t spur, going.noWrap, rfl⟩
    have safe : Safe (exec cfg t spur s.heap (s.pc t)) :=
      (exec_sound inv.ok inv.rep spur (inv.thread t) going.noWrap).safe
    have known : ∀ sc cur, s.pc t = .growCheck sc cur → AllocLocal cfg s.heap (.growCheck sc cur) :=
      fun sc cur e => e ▸ hs.allocLocal t
    rcases inv.onward known going fresh spur safe with ended | ⟨call, going, fresh, left⟩
    · exact ⟨[spur], by simp, ended⟩
    · have count : (spur :: spurs).count true = spurs.count true + spur.toNat := by
        cases spur <;> simp
      rw [count, List.length_cons] at enough
      have ih := ih next
      rw [State.pc_put_self] at ih
      obtain ⟨l, le, ended⟩ := ih going fresh (by simp only [State.put]; omega)
      exact ⟨spur :: l, List.cons_prefix_cons.2 ⟨rfl, le⟩, call ▸ ended⟩

/-- A stale head stays stale. -/
lemma Stale.run (cfg : Cfg) (t : ℕ) (st : Stale h pc) (l : List Bool) :
    ∃ pc', runAlone cfg t l (h, pc) = (h, pc') ∧ Stale h pc' := by
  induction l generalizing pc with
  | nil => exact ⟨pc, rfl, st⟩
  | cons spur l ih =>
    obtain ⟨pc', e, st'⟩ := st.step cfg t spur
    rw [runAlone, e]
    exact ih st'

/-- In every reachable state a thread that goes on alone finishes its call, whatever the other
threads are in the middle of, exactly unless it is in `small_sb_alloc` with a stale empty head of
`avail_sb`. -/
theorem finishes_iff (hs : Reach cfg s) (going : Going s.heap (s.pc t)) :
    Finishes cfg t s.heap (s.pc t) ↔ ¬Stale s.heap (s.pc t) := by
  constructor
  · intro finishes stale
    obtain ⟨l, -, ended⟩ := finishes
      (List.replicate (callLeft cfg t s.heap (s.pc t) + 1) false)
      (by simp [List.count_replicate])
    obtain ⟨pc', e, st⟩ := stale.run cfg t l
    rw [e] at ended
    rcases ended with rfl | ⟨-, no⟩
    · exact st
    · cases pc' with
      | abort a => exact st
      | _ => exact no
  · exact hs.finishes going

/-- Thread 0 has loaded the head of `avail_sb`, and thread 1 has taken the superblock there and is
filling its cache: thread 0 finishes alone. -/
theorem finishes_sample : ∃ s, Reach sample s ∧ s.heap.head .avail ≠ ⟨some 1, 1⟩ ∧
    s.pc 0 = .popCas .avail 39 ⟨⟨some 1, 1⟩, 1⟩ 1 (some 2) ∧
    Finishes sample 0 s.heap (s.pc 0) := by
  let acts : List Act := [.malloc 0 14336, .run 0 false, .run 0 false, .run 0 false,
    .malloc 1 14336, .run 1 false, .run 1 false, .run 1 false, .run 1 false, .run 1 false]
  have test : (runActs sample (init sample) acts).any (fun s =>
      decide (s.heap.head .avail ≠ ⟨some 1, 1⟩ ∧ s.heap.pushes .avail = 1 ∧
        s.pc 0 = .popCas .avail 39 ⟨⟨some 1, 1⟩, 1⟩ 1 (some 2))) = true := by decide +kernel
  cases e : runActs sample (init sample) acts with
  | none =>
    rw [e] at test
    cases test
  | some s =>
    rw [e] at test
    obtain ⟨head, pushes, hpc⟩ := of_decide_eq_true test
    have hs : Reach sample s := Reach.runActs .refl e
    refine ⟨s, hs, head, hpc, (finishes_iff hs ?_).2 ?_⟩ <;> rw [hpc]
    · rw [Going, pushes]
      exact CNT_pos
    · exact id

end Ralloc
