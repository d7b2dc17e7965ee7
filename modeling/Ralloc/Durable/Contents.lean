import Ralloc.Durable.Log
import Ralloc.Machine.Calloc

/-!
# What `RP_calloc` and `RP_realloc` make durable

Both write to the new block and then flush one line, the one of the first byte of the block, and
fence. `contents_durable_iff`: what they have written is durable exactly when the bytes of the block
on other lines had their new value before, as far as a crash can tell. What an `RP_realloc` has made
durable stays so during its `RP_free`.

The bytes of a `memset` or `memcpy` are written in one step here. After a crash each byte can have
its old or its new value, so it does not matter in which order and in what portions they are
written.
-/

namespace Ralloc

open Lib SuperblockState

variable {cfg : Cfg} {s : State} {ℓ ℓ₁ ℓ₂ : HeapLog} {t p q n a : ℕ} {h : Heap} {v : UInt8}

/-- A byte has the value `v` after every crash. -/
def DurableByte (ℓ : HeapLog) (a : ℕ) (v : UInt8) : Prop := ∀ m, CrashImage ℓ m → m.mem a = v

/-- The same in terms of the log. -/
lemma durableByte_iff : DurableByte ℓ a v ↔ ℓ.Settled (Loc.byte a).line fun h => h.mem a = v :=
  durable_iff (.byte a) v

/-- The heap becomes `h`, then `FLUSH(q)` and `FLUSHFENCE`. -/
def persist (t q : ℕ) (ℓ : HeapLog) (h : Heap) : HeapLog :=
  ((ℓ.write h).flush t (Loc.byte q).line).fence t

/-- The threads see what was written. -/
lemma cur_persist : (persist t q ℓ h).cur = h := by
  show (ℓ.write h).cur = h
  exact Log.cur_write

/-- Only the line of `q` is made durable. -/
lemma durableByte_persist : DurableByte (persist t q ℓ h) a v ↔
    h.mem a = v ∧ (a / CACHELINE_SIZE ≠ q / CACHELINE_SIZE → DurableByte (ℓ.fence t) a v) := by
  rw [durableByte_iff, durableByte_iff, persist]
  by_cases e : a / CACHELINE_SIZE = q / CACHELINE_SIZE
  · have line : (Loc.byte q).line = (Loc.byte a).line := congrArg Line.mem e.symm
    rw [line, Log.settled_persist_self]
    exact ⟨fun h => ⟨h, fun ne => absurd e ne⟩, fun h => h.1⟩
  · have line : (Loc.byte a).line ≠ (Loc.byte q).line := fun h => e (Line.mem.inj h)
    rw [Log.settled_persist_ne line]
    exact ⟨fun h => ⟨h.2, fun _ => h.1⟩, fun h => ⟨h.2 e, h.1⟩⟩

/-- `RP_calloc` after its `RP_malloc`. -/
def callocTail (cfg : Cfg) (t : ℕ) (ℓ : HeapLog) : HeapLog :=
  persist t (ℓ.cur.ret t) ℓ (zeroed cfg t ℓ.cur)

/-- All bytes that `RP_calloc` has set to 0 are 0 after a crash. -/
def CallocDurable (cfg : Cfg) (t : ℕ) (ℓ : HeapLog) : Prop :=
  ∀ i < mallocSize cfg ℓ.cur (ℓ.cur.ret t), DurableByte (callocTail cfg t ℓ) (ℓ.cur.ret t + i) 0

/-- The fence of `RP_calloc` covers the first line of the block and no other. -/
lemma callocDurable_iff : CallocDurable cfg t ℓ ↔
    ∀ i < mallocSize cfg ℓ.cur (ℓ.cur.ret t),
      (ℓ.cur.ret t + i) / CACHELINE_SIZE ≠ ℓ.cur.ret t / CACHELINE_SIZE →
        DurableByte (ℓ.fence t) (ℓ.cur.ret t + i) 0 := by
  refine forall₂_congr fun i hi => ?_
  rw [callocTail, durableByte_persist]
  exact and_iff_right (memset_in hi)

/-- `RP_realloc` of a block `p` of `k` bytes between its `RP_malloc` and its `RP_free`. -/
def reallocTail (t p k : ℕ) (ℓ : HeapLog) : HeapLog :=
  persist t (ℓ.cur.ret t) ℓ { ℓ.cur with mem := copy ℓ.cur.mem (ℓ.cur.ret t) p k }

/-- All bytes that `RP_realloc` has copied are there after a crash before its `RP_free`. -/
def ReallocDurable (t p k : ℕ) (ℓ : HeapLog) : Prop :=
  ∀ i < k, DurableByte (reallocTail t p k ℓ) (ℓ.cur.ret t + i) (ℓ.cur.mem (p + i))

/-- The same of `RP_realloc`, for the bytes that it has copied. -/
lemma reallocDurable_iff : ReallocDurable t p n ℓ ↔
    ∀ i < n, (ℓ.cur.ret t + i) / CACHELINE_SIZE ≠ ℓ.cur.ret t / CACHELINE_SIZE →
      DurableByte (ℓ.fence t) (ℓ.cur.ret t + i) (ℓ.cur.mem (p + i)) := by
  refine forall₂_congr fun i hi => ?_
  rw [reallocTail, durableByte_persist]
  exact and_iff_right (copy_in hi)

section free

/-- What every step keeps stays settled. -/
lemma PSolo.settled {ln : Line} {Q : Heap → Prop} {r r' : HeapLog × PC} (run : PSolo cfg t r r')
    (h : r.1.Settled ln Q) (keeps : ∀ g, Solo cfg t (r.1.cur, r.2) g → Q g.1) :
    r'.1.Settled ln Q := by
  induction run with
  | refl => exact h
  | @tail r₁ r₂ run st ih =>
    have next : PSolo cfg t r r₂ := run.tail st
    have keep := keeps _ next.solo
    obtain ⟨spur, rfl⟩ := st
    rw [Log.cur_write] at keep
    exact (settled_pass ih).write keep

/-- The `RP_free` of the old block keeps the bytes of the new one durable. -/
lemma Mallocked.free_durable (ml : Mallocked cfg t n s ℓ₁.cur) (hp : s.heap.client p = .held)
    (le : mallocSize cfg s.heap p ≤ mallocSize cfg ℓ₁.cur (ℓ₁.cur.ret t))
    (durable : ReallocDurable t p (mallocSize cfg s.heap p) ℓ₁)
    (free : PSolo cfg t (enter (reallocTail t p (mallocSize cfg s.heap p) ℓ₁) (callFree cfg t p))
      (ℓ₂, .idle))
    {i : ℕ} (hi : i < mallocSize cfg s.heap p) :
    DurableByte ℓ₂ (ℓ₁.cur.ret t + i) (ℓ₁.cur.mem (p + i)) := by
  have cur : (reallocTail t p (mallocSize cfg s.heap p) ℓ₁).cur = copied cfg t p s.heap ℓ₁.cur :=
    cur_persist
  have settled := durableByte_iff.1 (durable i hi)
  rw [durableByte_iff]
  -- up to any point of the `RP_free`
  have keeps : ∀ g, Solo cfg t (callFree cfg t p (copied cfg t p s.heap ℓ₁.cur)) g →
      g.1.mem (ℓ₁.cur.ret t + i) = ℓ₁.cur.mem (p + i) := by
    intro g run
    have fits : mallocSize cfg s.heap p ≤ allocSize n := ml.size ▸ le
    have new := (ml.copy_reach fits).freeing_untouched (State.pc_put_self ..)
      (ml.copy_untouched fits hp).client run (ml.ret_ne hp) ml.got.client
    rw [new.bytes _ (by omega) (Nat.add_lt_add_left (hi.trans_le le) _)]
    exact copy_in hi
  rw [enter, cur] at free
  refine PSolo.settled free (settled.write (keeps _ (.refl _))) fun g run => ?_
  rw [Log.cur_write] at run
  exact keeps g run

end free

section sample

/-- The first two blocks of a superblock for blocks of 12288 bytes, without their first words. -/
def blankBytes (a : ℕ) : Bool :=
  (sample.blk 38 1 0 + 8 ≤ a ∧ a < sample.blk 38 1 1) ∨
    (sample.blk 38 1 1 + 8 ≤ a ∧ a < sample.blk 38 1 1 + 12288)

/-- An `RP_malloc` that has begun with `r` gets the second block from the cache in one step. After
it the first block, copied to the second one, is freed in one step. -/
def Pops (h : Heap) (r : Heap × PC) : Prop :=
  r.2 = .popBlock 38 ∧ (exec sample 0 false r.1 (.popBlock 38)).2 = .idle ∧
    (exec sample 0 false r.1 (.popBlock 38)).1.ret 0 = sample.blk 38 1 1 ∧
    mallocSize sample (exec sample 0 false r.1 (.popBlock 38)).1 (sample.blk 38 1 1) = 12288 ∧
    (alone sample 0 1 (callFree sample 0 (sample.blk 38 1 0)
      (copied sample 0 (sample.blk 38 1 0) h (exec sample 0 false r.1 (.popBlock 38)).1))).2 = .idle

instance (h : Heap) (r : Heap × PC) : Decidable (Pops h r) :=
  inferInstanceAs (Decidable (_ ∧ _ ∧ _ ∧ _ ∧ _))

/-- A thread is outside of its calls and holds the first block, the second one is on top of its
cache, and in no memory so far was there anything in the two blocks but their links. -/
structure Cached (s : State) (ℓ : HeapLog) : Prop where
  reach : PReach sample s ℓ
  clear : ℓ.Since 0 (Clear blankBytes 0)
  idle : s.pc 0 = .idle
  held : s.heap.client (sample.blk 38 1 0) = .held
  size : mallocSize sample s.heap (sample.blk 38 1 0) = 12288
  pops : ∀ size ∈ [12000, 12288], Pops s.heap (callMalloc 0 size s.heap)

/-- It comes to that when the thread has asked for 12288 bytes. -/
lemma exists_cached : ∃ s ℓ, Cached s ℓ := by
  obtain ⟨s, ℓ, reach, clear, ht⟩ := preach_of_test (S := blankBytes) (r := 0)
    (.malloc 0 12288 :: List.replicate 13 (.run 0 false))
    (fun s => decide (s.pc 0 = .idle ∧ s.heap.client (sample.blk 38 1 0) = .held ∧
        mallocSize sample s.heap (sample.blk 38 1 0) = 12288) &&
      [12000, 12288].all fun size => (quickStep sample s (.malloc 0 size)).any fun s₁ =>
        decide (Pops s.heap (s₁.heap, s₁.pc 0))) (by decide +kernel)
  obtain ⟨here, pops⟩ := Bool.and_eq_true_iff.1 ht
  obtain ⟨idle, held, size⟩ := of_decide_eq_true here
  refine ⟨s, ℓ, reach, clear, idle, held, size, fun size hsize => ?_⟩
  obtain ⟨s₁, st, pop⟩ := Option.any_eq_true _ _ |>.1 (List.all_eq_true.1 pops size hsize)
  rw [quickStep_eq] at st
  obtain ⟨-, rfl⟩ := step_call st
  rw [State.pc_put_self] at pop
  exact of_decide_eq_true pop

/-- An `RP_malloc` from the cache is one step. -/
lemma exists_popped {S : ℕ → Bool} {r size sc : ℕ} (since : ℓ.Since 0 (Clear S r))
    (pop : (callMalloc t size ℓ.cur).2 = .popBlock sc)
    (done : (exec cfg t false (callMalloc t size ℓ.cur).1 (.popBlock sc)).2 = .idle) :
    ∃ ℓ₁, PSolo cfg t (enter ℓ (callMalloc t size)) (ℓ₁, .idle) ∧ ℓ₁.Since 0 (Clear S r) ∧
      ℓ₁.cur = (exec cfg t false (callMalloc t size ℓ.cur).1 (.popBlock sc)).1 := by
  have now := since.cur (Nat.zero_le _)
  have called : Clear S r (callMalloc t size ℓ.cur).1 := now.congr rfl rfl
  refine ⟨(ℓ.write (callMalloc t size ℓ.cur).1).write
    (exec cfg t false (callMalloc t size ℓ.cur).1 (.popBlock sc)).1, .single ⟨false, ?_⟩,
    (since.write called).write (called.exec rfl t false), Log.cur_write⟩
  rw [enter, Log.cur_write, pop, done]
  rfl

/-- A call that is over after `n` steps alone has a log. -/
lemma exists_entered {call : Heap → Heap × PC} (done : (alone cfg t n (call ℓ.cur)).2 = .idle) :
    ∃ ℓ', PSolo cfg t (enter ℓ call) (ℓ', .idle) := by
  have run : Solo cfg t ((enter ℓ call).1.cur, (enter ℓ call).2)
      ((alone cfg t n (call ℓ.cur)).1, .idle) := by
    rw [enter, Log.cur_write]
    exact solo_of_idle done
  obtain ⟨ℓ', log, -⟩ := run.log
  exact ⟨ℓ', log⟩

/-- The bytes that were always zero are durable. -/
lemma durableByte_of_clear {S : ℕ → Bool} {r : ℕ} (since : ℓ.Since 0 (Clear S r))
    (ha : S a = true) :
    DurableByte (ℓ.fence t) a 0 :=
  fun _ im => (im.clear (S := S) (r := r) since).mem a ha

/-- Then the thread gets the second block, with zeros on its other lines. -/
lemma Cached.exists_malloc (c : Cached s ℓ) (size : ℕ) (hsize : size ∈ [12000, 12288]) :
    ∃ ℓ₁, PSolo sample 0 (enter ℓ (callMalloc 0 size)) (ℓ₁, .idle) ∧
      ℓ₁.cur.ret 0 = sample.blk 38 1 1 ∧ mallocSize sample ℓ₁.cur (sample.blk 38 1 1) = 12288 ∧
      (alone sample 0 1 (callFree sample 0 (sample.blk 38 1 0)
        (copied sample 0 (sample.blk 38 1 0) s.heap ℓ₁.cur))).2 = .idle ∧
      ∀ i, 64 ≤ i → i < 12288 → ℓ₁.cur.mem (sample.blk 38 1 0 + i) = 0 ∧
        DurableByte (ℓ₁.fence 0) (sample.blk 38 1 1 + i) 0 := by
  obtain ⟨pop, done, got, size, free⟩ := c.pops size hsize
  rw [← c.reach.reach.2] at pop done got size free ⊢
  obtain ⟨ℓ₁, run, clear, cur⟩ := exists_popped c.clear pop done
  refine ⟨ℓ₁, run, cur ▸ got, cur ▸ size, cur ▸ free, fun i lo hi => ⟨?_, ?_⟩⟩
  · refine (clear.cur (Nat.zero_le _)).mem _ (decide_eq_true (.inl ⟨by omega, ?_⟩))
    have : sample.blk 38 1 1 = sample.blk 38 1 0 + 12288 := by decide
    omega
  · exact durableByte_of_clear clear (decide_eq_true (.inr ⟨by omega, by omega⟩))

/-- Other lines of the second block begin at its byte 64. -/
lemma le_of_line_ne {i : ℕ}
    (ne : (sample.blk 38 1 1 + i) / CACHELINE_SIZE ≠ sample.blk 38 1 1 / CACHELINE_SIZE) :
    64 ≤ i := by
  by_contra lt
  refine ne ?_
  have line : sample.blk 38 1 1 % CACHELINE_SIZE = 0 := by decide
  unfold CACHELINE_SIZE at line ⊢
  omega

end sample

/-- What `RP_calloc` and `RP_realloc` have written is durable, for `RP_realloc` before its
`RP_free`, exactly when the bytes of the new block that are not on the line of its first byte had
the same value before, as far as a crash can tell. What `RP_realloc` has copied stays durable during
the `RP_free` of the old block. -/
theorem contents_durable_iff (hs : Reach cfg s) (idle : s.pc t = .idle) (cur : ℓ.cur = s.heap) :
    (∀ num size ℓ₁, PSolo cfg t (enter ℓ (callMalloc t (num * size % WORD))) (ℓ₁, .idle) →
      ℓ₁.cur.ret t ≠ 0 →
      (CallocDurable cfg t ℓ₁ ↔ ∀ i < mallocSize cfg ℓ₁.cur (ℓ₁.cur.ret t),
        (ℓ₁.cur.ret t + i) / CACHELINE_SIZE ≠ ℓ₁.cur.ret t / CACHELINE_SIZE →
          DurableByte (ℓ₁.fence t) (ℓ₁.cur.ret t + i) 0)) ∧
    ∀ p n ℓ₁, s.heap.client p = .held → PSolo cfg t (enter ℓ (callMalloc t n)) (ℓ₁, .idle) →
      ℓ₁.cur.ret t ≠ 0 →
      (ReallocDurable t p (mallocSize cfg s.heap p) ℓ₁ ↔ ∀ i < mallocSize cfg s.heap p,
        (ℓ₁.cur.ret t + i) / CACHELINE_SIZE ≠ ℓ₁.cur.ret t / CACHELINE_SIZE →
          DurableByte (ℓ₁.fence t) (ℓ₁.cur.ret t + i) (ℓ₁.cur.mem (p + i))) ∧
      ((n ≤ MAX_SZ ∨ (n + SBSIZE - 1) / SBSIZE * SBSIZE < HALF) →
        mallocSize cfg s.heap p ≤ mallocSize cfg ℓ₁.cur (ℓ₁.cur.ret t) →
        ReallocDurable t p (mallocSize cfg s.heap p) ℓ₁ →
        ∀ ℓ₂, PSolo cfg t (enter (reallocTail t p (mallocSize cfg s.heap p) ℓ₁) (callFree cfg t p))
            (ℓ₂, .idle) →
          ∀ i < mallocSize cfg s.heap p,
            DurableByte ℓ₂ (ℓ₁.cur.ret t + i) (ℓ₁.cur.mem (p + i))) := by
  refine ⟨fun _ _ _ _ _ => callocDurable_iff, fun p n ℓ₁ hp malloc _ => ⟨reallocDurable_iff, ?_⟩⟩
  intro fits le durable ℓ₂ free i hi
  have run := malloc.solo
  rw [enter, Log.cur_write, cur] at run
  exact (hs.mallocked idle fits run).free_durable hp le durable free hi

/-- A thread that holds the first of these blocks calls `RP_calloc`, or `RP_realloc` for this
block, and gets the second one. All that is written is durable, for `RP_realloc` also after the
`RP_free`. -/
theorem contents_durable_sample : ∃ s ℓ, PReach sample s ℓ ∧ s.pc 0 = .idle ∧
    s.heap.client (sample.blk 38 1 0) = .held ∧
    mallocSize sample s.heap (sample.blk 38 1 0) = 12288 ∧
    (∃ ℓ₁, PSolo sample 0 (enter ℓ (callMalloc 0 (1 * 12288 % WORD))) (ℓ₁, .idle) ∧
      ℓ₁.cur.ret 0 = sample.blk 38 1 1 ∧ CallocDurable sample 0 ℓ₁) ∧
    ∃ ℓ₁ ℓ₂, PSolo sample 0 (enter ℓ (callMalloc 0 12000)) (ℓ₁, .idle) ∧
      ℓ₁.cur.ret 0 = sample.blk 38 1 1 ∧ ReallocDurable 0 (sample.blk 38 1 0) 12288 ℓ₁ ∧
      PSolo sample 0 (enter (reallocTail 0 (sample.blk 38 1 0) 12288 ℓ₁)
        (callFree sample 0 (sample.blk 38 1 0))) (ℓ₂, .idle) ∧
      ∀ i < 12288, DurableByte ℓ₂ (sample.blk 38 1 1 + i) (ℓ₁.cur.mem (sample.blk 38 1 0 + i)) := by
  obtain ⟨s, ℓ, c⟩ := exists_cached
  obtain ⟨calloc, realloc⟩ := contents_durable_iff c.reach.reach.1 c.idle c.reach.reach.2
  refine ⟨s, ℓ, c.reach, c.idle, c.held, c.size, ?_, ?_⟩
  · obtain ⟨ℓ₁, run, got, size, -, zeros⟩ := c.exists_malloc 12288 (by decide)
    refine ⟨ℓ₁, run, got, (calloc 1 12288 ℓ₁ run (by rw [got]; decide)).2 fun i hi ne => ?_⟩
    rw [got] at hi ne ⊢
    rw [size] at hi
    exact (zeros i (le_of_line_ne ne) hi).2
  · obtain ⟨ℓ₁, run, got, size, free, zeros⟩ := c.exists_malloc 12000 (by decide)
    obtain ⟨copies, stays⟩ := realloc _ 12000 ℓ₁ c.held run (by rw [got]; decide)
    rw [c.size] at copies stays
    have durable : ReallocDurable 0 (sample.blk 38 1 0) 12288 ℓ₁ := by
      refine copies.2 fun i hi ne => ?_
      rw [got] at ne ⊢
      obtain ⟨zero, dur⟩ := zeros i (le_of_line_ne ne) hi
      rwa [zero]
    have cur : (reallocTail 0 (sample.blk 38 1 0) 12288 ℓ₁).cur =
        copied sample 0 (sample.blk 38 1 0) s.heap ℓ₁.cur := by
      rw [reallocTail, cur_persist, copied, c.size]
    rw [← cur] at free
    obtain ⟨ℓ₂, freed⟩ := exists_entered free
    refine ⟨ℓ₁, ℓ₂, run, got, durable, freed, fun i hi => ?_⟩
    rw [← got]
    exact stays (.inl (by decide)) (by rw [got, size]) durable ℓ₂ freed i hi

/-- A client has written to the first block of 12288 bytes and has freed it, and an `RP_malloc`
returns it again. -/
lemma exists_garbage : ∃ s ℓ₁, Reach sample s ∧ s.pc 0 = .idle ∧
    PSolo sample 0 (enter (.start s.heap) (callMalloc 0 (1 * 12288 % WORD))) (ℓ₁, .idle) ∧
    ℓ₁.cur.ret 0 = sample.blk 38 1 0 ∧ mallocSize sample ℓ₁.cur (sample.blk 38 1 0) = 12288 ∧
    ℓ₁.cur.mem (sample.blk 38 1 0 + 100) = 1 := by
  let dirty (s : State) : State :=
    { s with heap := { s.heap with mem := Function.update s.heap.mem (sample.blk 38 1 0 + 100) 1 } }
  have test : (runCalls sample (init sample) [(.malloc 0 12288, 13)]).any (fun s =>
      decide (s.heap.client (sample.blk 38 1 0) = .held ∧
        mallocSize sample s.heap (sample.blk 38 1 0) = 12288) &&
      (runCalls sample (dirty s) [(.free 0 (sample.blk 38 1 0), 1)]).any fun s =>
        decide (s.pc 0 = .idle) && (quickStep sample s (.malloc 0 12288)).any fun s₁ =>
          let r := alone sample 0 1 (s₁.heap, s₁.pc 0)
          decide (r.2 = .idle ∧ r.1.ret 0 = sample.blk 38 1 0 ∧
            mallocSize sample r.1 (sample.blk 38 1 0) = 12288 ∧
            r.1.mem (sample.blk 38 1 0 + 100) = 1)) = true := by
    decide +kernel
  obtain ⟨s, e, hs⟩ := Option.any_eq_true _ _ |>.1 test
  obtain ⟨held, hs⟩ := Bool.and_eq_true_iff.1 hs
  obtain ⟨s', e', hs'⟩ := Option.any_eq_true _ _ |>.1 hs
  obtain ⟨idle, hs'⟩ := Bool.and_eq_true_iff.1 hs'
  obtain ⟨s₁, e₁, h₁⟩ := Option.any_eq_true _ _ |>.1 hs'
  obtain ⟨held, size⟩ := of_decide_eq_true held
  have calls : Calls sample (dirty s) := .write (Calls.init.runCalls e)
    ⟨sample.blk 38 1 0, held, by omega, by rw [size]; omega⟩ rfl
  rw [quickStep_eq] at e₁
  obtain ⟨-, rfl⟩ := step_call e₁
  rw [State.pc_put_self] at h₁
  obtain ⟨done, got, size, garbage⟩ := of_decide_eq_true h₁
  have run := solo_of_idle done
  have start : Solo sample 0 ((enter (.start s'.heap) (callMalloc 0 12288)).1.cur,
      (enter (.start s'.heap) (callMalloc 0 12288)).2)
      ((alone sample 0 1 (callMalloc 0 12288 s'.heap)).1, .idle) := by
    rw [enter, Log.cur_write]
    exact run
  obtain ⟨ℓ₁, log, cur⟩ := start.log
  refine ⟨s', ℓ₁, (calls.runCalls e').reach.1, of_decide_eq_true idle, log, ?_⟩
  rw [cur]
  exact ⟨got, size, garbage⟩

/-- An `RP_calloc` gets that block. After a crash the client can find its old byte in it. -/
theorem calloc_not_durable : ∃ s ℓ₁, Reach sample s ∧ s.pc 0 = .idle ∧
    PSolo sample 0 (enter (.start s.heap) (callMalloc 0 (1 * 12288 % WORD))) (ℓ₁, .idle) ∧
    ℓ₁.cur.ret 0 ≠ 0 ∧ ¬CallocDurable sample 0 ℓ₁ := by
  obtain ⟨s, ℓ₁, hs, idle, run, got, size, garbage⟩ := exists_garbage
  refine ⟨s, ℓ₁, hs, idle, run, by rw [got]; decide, fun durable => ?_⟩
  have zero := callocDurable_iff.1 durable 100 (by rw [got, size]; omega) (by rw [got]; decide)
    ℓ₁.cur Log.image_cur
  rw [got, garbage] at zero
  cases zero

end Ralloc
