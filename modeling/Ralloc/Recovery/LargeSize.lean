import Ralloc.Machine.LargeCall
import Ralloc.Recovery.Outcome

/-!
# The recorded length of a large block

`do_malloc` computes the length of a large block with 64 bits and stores it in the 32-bit
`block_size` of its descriptor. `KeepsSize` is everything that is read off that field afterwards:
the size reported to the client, the superblocks that `do_free` gives back, and where the recovery
sweep goes on. `keepsSize_iff`: all of it is right exactly when the length is below `2 ^ 32`.

A state in which every thread is idle is a heap that the sweep can handle (`Inv.recoverable`).
-/

namespace Ralloc

open Lib SuperblockState

variable {cfg : Cfg} {t u p d size : ℕ} {h h' : Heap} {L : Ledger} {s s' : State}

/-- Nobody has a superblock in its hands when every thread is idle. -/
lemma Inv.not_raw (inv : Inv cfg s L) (idle : s.pc t = .idle) : L.role d ≠ .raw t := by
  intro hr
  have hd := (inv.ok.mem_sbs (r := .raw t) trivial).2 hr
  rw [(inv.thread t).owned.raw, idle] at hd
  cases hd

/-- A superblock that is recorded as large is large. -/
lemma Inv.role_of_large (inv : Inv cfg s L) (idle : ∀ t, s.pc t = .idle) (pos : 0 < d)
    (lt : d < L.n) {k : ℕ} (hl : IsLarge cfg s.heap d k) :
    L.role d = .large (cfg.sb d) ∧
      L.sbs.items (.large (cfg.sb d)) = List.range' d k := by
  have hD := inv.rep.desc d
  have heap := hl.heap
  cases hr : L.role d with
  | unborn => exact absurd ((inv.ok.born d).1 hr) (by omega)
  | avail =>
    rw [hr, DescRep] at hD
    rw [hD] at heap
    cases heap
  | raw u => exact absurd hr (inv.not_raw (idle u))
  | small sc o =>
    rw [hr] at hD
    have h1 := (inv.ok.cls hr).1
    rw [hD.1, Option.some.injEq] at heap
    omega
  | large p =>
    rw [hr, DescRep] at hD
    split at hD
    case isFalse => rw [hD] at heap; cases heap
    case isTrue e =>
      subst e
      obtain ⟨k', -, hitems, hsize⟩ := inv.rep.large hr
      obtain rfl : k' = k := by
        rw [hl.size] at hsize
        exact (Nat.eq_of_mul_eq_mul_right (by simp [SBSIZE_eq]) hsize).symm
      exact ⟨rfl, hitems⟩

/-- What every thread leaves behind when it is idle can be swept. -/
theorem Inv.recoverable (inv : Inv cfg s L) (idle : ∀ t, s.pc t = .idle) :
    Recoverable cfg s.heap L.n := by
  have items : ∀ {d k j}, 0 < d → d < L.n → IsLarge cfg s.heap d k → d ≤ j → j < d + k →
      L.role j = .large (cfg.sb d) := by
    intro d k j pos lt hl h1 h2
    refine (inv.ok.mem_sbs (r := .large (cfg.sb d)) trivial).1 ?_
    rw [(inv.role_of_large idle pos lt hl).2, List.mem_range'_1]
    exact ⟨h1, h2⟩
  refine ⟨inv.rep.pos, inv.rep.curr, inv.ok.inside, fun d pos lt => ?_, fun {d k} pos lt hl => ?_,
    fun {d k j} pos lt hl h1 h2 => ?_⟩
  · have hD := inv.rep.desc d
    cases hr : L.role d with
    | unborn => exact absurd ((inv.ok.born d).1 hr) (by omega)
    | avail =>
      rw [hr, DescRep] at hD
      rw [hD]
      exact .inl rfl
    | raw u => exact absurd hr (inv.not_raw (idle u))
    | small sc o =>
      rw [hr] at hD
      exact .inr (.inl ⟨sc, inv.ok.cls hr, hD.1, hD.2.2.2, hD.2.1, hD.2.2.1⟩)
    | large p =>
      rw [hr, DescRep] at hD
      split at hD
      case isFalse =>
        rw [hD]
        exact .inl rfl
      case isTrue e =>
        subst e
        obtain ⟨k, hk, -, hsize⟩ := inv.rep.large hr
        exact .inr (.inr ⟨k, hk, hD.1, hD.2.2, hsize, hD.2.1⟩)
  · have hk := hl.pos
    have hr := items pos lt hl (show d ≤ d + k - 1 by omega) (by omega)
    have := mt (inv.ok.born (d + k - 1)).2 (by simp [hr])
    omega
  · have hD := inv.rep.desc j
    rw [items pos lt hl h1.le h2, DescRep, if_neg (by rw [Cfg.sb_inj]; omega)] at hD
    rw [hD]
    rfl

/-- Every list of marks splits at the end of a superblock. -/
lemma exists_splits (sb : ℕ) (ms : List ℕ) : ∃ A B, ms = A ++ B ∧ Splits sb A B := by
  induction ms with
  | nil => exact ⟨[], [], rfl, by simp, by simp⟩
  | cons m ms ih =>
    by_cases e : sb >>> SB_SHIFT = m >>> SB_SHIFT
    · obtain ⟨A, B, rfl, hs⟩ := ih
      refine ⟨m :: A, B, rfl, fun x hx => ?_, hs.there⟩
      rcases List.mem_cons.1 hx with rfl | hx
      · exact e
      · exact hs.here x hx
    · refine ⟨[], m :: ms, rfl, by simp, fun x hx => ?_⟩
      cases hx
      exact e

/-- The length of a request in superblocks. -/
def wholeSbs (size : ℕ) : ℕ := (size + SBSIZE - 1) / SBSIZE

/-- The block `p` that a `do_malloc(size)` has returned in state `s` is treated as a block of its
true length as long as it is held. -/
structure KeepsSize (cfg : Cfg) (size : ℕ) (s : State) (p : ℕ) : Prop where
  /-- the block starts with a superblock -/
  start : cfg.sb (sbIndex cfg.heapStart p) = p
  /-- the descriptor records the reserved length -/
  record : ∀ s', Holding cfg p s s' →
    (s'.heap.desc (sbIndex cfg.heapStart p)).blockSize = wholeSbs size * SBSIZE
  /-- `RP_malloc_size` reports at least what was asked for -/
  enough : ∀ s', Holding cfg p s s' → size ≤ mallocSize cfg s'.heap p
  /-- `do_free` returns, and puts the superblocks of the block, each once, on `avail_sb` -/
  free : ∀ s', Holding cfg p s s' → ∀ u, s'.pc u = .idle →
    (∃ h', Solo cfg u (callFree cfg u p s'.heap) (h', .idle)) ∧
    ∀ h', Solo cfg u (callFree cfg u p s'.heap) (h', .idle) → ∃ D, s'.heap.Lists .avail D ∧
      h'.Lists .avail (List.range' (sbIndex cfg.heapStart p) (wholeSbs size) ++ D) ∧
      (List.range' (sbIndex cfg.heapStart p) (wholeSbs size) ++ D).Nodup
  /-- a sweep that comes to the marked block goes on behind it -/
  turn : ∀ s', Holding cfg p s s' → ∀ h fuel ms av,
    (h.desc (sbIndex cfg.heapStart p)).plain = (s'.heap.desc (sbIndex cfg.heapStart p)).plain →
    ∃ w, sweepTurn cfg fuel ⟨h, p, sbIndex cfg.heapStart p, p :: ms, av⟩ = .done w ∧
      w.sb = p + wholeSbs size * SBSIZE ∧ w.desc = sbIndex cfg.heapStart p + wholeSbs size
  /-- the sweep of a heap with the marked block ends -/
  ends : ∀ s', Holding cfg p s s' → (∀ u, s'.pc u = .idle) → ∀ M : Finset ℕ, p ∈ M →
    (∀ m ∈ M, cfg.heapStart ≤ m ∧ m < s'.heap.currAddr) →
    ∃ n, ∀ fuel, n < fuel → sweep cfg fuel s'.heap M.sort ≠ .timeout

/-- What the descriptor of `p` says in a state in which `p` is held gives all of it. -/
lemma keepsSize_of_plain (hs : Reach cfg s) (hp : s.heap.client p = .held)
    (plain : (s.heap.desc (sbIndex cfg.heapStart p)).plain =
      (some p, some 0, wholeSbs size * SBSIZE, 1)) : KeepsSize cfg size s p := by
  have later : ∀ s', Holding cfg p s s' → Reach cfg s' ∧ s'.heap.client p = .held ∧
      (s'.heap.desc (sbIndex cfg.heapStart p)).plain =
        (some p, some 0, wholeSbs size * SBSIZE, 1) := fun s' run => by
    obtain ⟨hr, hp', e⟩ := Holding.plain hs hp run
    exact ⟨hr, hp', e.trans plain⟩
  have fields : ∀ {D : Descriptor}, D.plain = (some p, some 0, wholeSbs size * SBSIZE, 1) →
      D.superblock = some p ∧ D.heap = some 0 ∧ D.blockSize = wholeSbs size * SBSIZE ∧
        D.maxcount = 1 := fun e => by simpa only [Descriptor.plain, Prod.mk.injEq] using e
  constructor
  case start =>
    obtain ⟨L, inv⟩ := hs.inv
    exact (inv.large_of_heap hp (fields plain).2.1).1
  case record => exact fun s' run => (fields (later s' run).2.2).2.2.1
  case enough =>
    intro s' run
    rw [mallocSize, (fields (later s' run).2.2).2.2.1, wholeSbs, SBSIZE_eq]
    omega
  case free =>
    intro s' run u _
    obtain ⟨hr, hp', e⟩ := later s' run
    exact free_large hr hp' (fields e).2.1 (fields e).2.2.1
  case turn =>
    intro s' run h fuel ms av eq
    obtain ⟨hr, hp', e⟩ := later s' run
    obtain ⟨L, inv⟩ := hr.inv
    obtain ⟨hsb, -⟩ := inv.large_of_heap hp' (fields e).2.1
    obtain ⟨h1, h2, h3, h4⟩ := fields (eq.trans e)
    have inside : cfg.sb (sbIndex cfg.heapStart p + wholeSbs size) ≤ cfg.base + cfg.filesize := by
      have hi := (inv.rep.held_inside inv.ok hp').2
      rw [mallocSize, (fields e).2.2.1, inv.rep.curr] at hi
      rw [Cfg.sb_add, hsb]
      exact le_trans hi inv.ok.inside
    obtain ⟨A, B, rfl, hsplit⟩ := exists_splits p ms
    have split : Splits (cfg.sb (sbIndex cfg.heapStart p)) (p :: A) B := by
      rw [hsb]
      refine ⟨fun x hx => ?_, hsplit.there⟩
      rcases List.mem_cons.1 hx with rfl | hx
      · rfl
      · exact hsplit.here x hx
    have turn : sweepTurn cfg fuel (.at cfg h _ (p :: A ++ B) av) = _ := sweepTurn_large split
      (by simp) h2 (by rw [hsb, h1]) h4 h3 (Cfg.sbIndex_sb_le inside)
    rw [Sweep.at, hsb] at turn
    refine ⟨_, turn, ?_, rfl⟩
    rw [Sweep.at, Cfg.sb_add, hsb]
  case ends =>
    intro s' run idle M _ hM
    obtain ⟨hr, -, -⟩ := later s' run
    obtain ⟨L, inv⟩ := hr.inv
    refine ⟨L.n + SBSIZE, fun fuel hfuel => ?_⟩
    have rc := (inv.recoverable idle).sweepable M
    rcases sweep_outcome rc hM hfuel with ⟨-, w, e, -⟩ | ⟨-, a, e⟩ <;> simp [e]

/-- A large block is treated as a block of its true length exactly when the length fits the 32-bit
field. -/
theorem keepsSize_iff (hs : Reach cfg s) (idle : s.pc t = .idle) (large : MAX_SZ < size)
    (run : Solo cfg t (callMalloc t size s.heap) (h', .idle)) :
    KeepsSize cfg size (s.put t (h', .idle)) (h'.ret t) ↔ wholeSbs size * SBSIZE < HALF := by
  have ret : h'.ret t = alignAdj s.heap.currAddr PAGESIZE := by
    rw [malloc_large large run]
    exact Function.update_self ..
  have plain : (h'.desc (sbIndex cfg.heapStart (h'.ret t))).plain =
      (some (h'.ret t), some 0, roundUp size SBSIZE % HALF, 1) := by
    rw [ret, malloc_large large run]
    exact congrArg Descriptor.plain (Heap.desc_setDesc_self ..)
  refine ⟨fun keeps => ?_, fun lt => ?_⟩
  · have e : (h'.desc (sbIndex cfg.heapStart (h'.ret t))).blockSize = wholeSbs size * SBSIZE :=
      keeps.record _ .refl
    simp only [Descriptor.plain, Prod.mk.injEq] at plain
    rw [← e, plain.2.2.1]
    exact Nat.mod_lt _ (by decide)
  · have call : Call cfg s (.malloc t size)
        ((s.put t (callMalloc t size s.heap)).put t (h', .idle)) := by
      refine .mk rfl (.inr lt) (if_pos idle) ?_
      rwa [State.pc_put_self]
    have hs₁ : Reach cfg (s.put t (callMalloc t size s.heap)) :=
      hs.tail ⟨.malloc t size, .inr lt, if_pos idle⟩
    have hs' := (hs₁.solo (t := t) (r := (h', .idle))
      (by rw [State.pc_put_self]; exact (callMalloc_goes ..).2) (by rwa [State.pc_put_self])).1
    have got := (call.malloc_got hs).1.client
    rw [State.put_put] at hs' got
    have round : roundUp size SBSIZE = wholeSbs size * SBSIZE := by
      refine roundUp_eq ?_
      rw [wholeSbs] at lt
      unfold HALF at lt
      unfold WORD
      rw [SBSIZE_eq] at lt ⊢
      omega
    rw [round, Nat.mod_eq_of_lt lt] at plain
    exact keepsSize_of_plain hs' got plain

/-- The initial heap after a `do_malloc` of a large block. -/
def afterLarge (cfg : Cfg) (size : ℕ) : Heap :=
  (alone cfg 0 15 (callMalloc 0 size (init cfg).heap)).1

/-- A block of 4 GiB is recorded with length 0. Its `do_free` gives back only its first superblock,
and the sweep stays at the block, has then used up its mark, and reclaims it. -/
theorem large_size_lost :
    Solo big 0 (callMalloc 0 (2 ^ 32) (init big).heap) (afterLarge big (2 ^ 32), .idle) ∧
    (afterLarge big (2 ^ 32)).ret 0 = big.sb EXPAND_SBS ∧
    mallocSize big (afterLarge big (2 ^ 32)) (big.sb EXPAND_SBS) = 0 ∧
    (∃ h', Solo big 0 (callFree big 0 (big.sb EXPAND_SBS) (afterLarge big (2 ^ 32))) (h', .idle) ∧
      (h'.head .avail).ptr = some EXPAND_SBS ∧
      (h'.desc EXPAND_SBS).nextFree = ((afterLarge big (2 ^ 32)).head .avail).ptr) ∧
    ∃ w w', sweepTurn big 1
    (.at big (afterLarge big (2 ^ 32)) EXPAND_SBS [big.sb EXPAND_SBS] none) =
        .done w ∧ w.sb = big.sb EXPAND_SBS ∧
      sweepTurn big 1 w = .done w' ∧ w'.avail = some EXPAND_SBS := by
  have desc : (afterLarge big (2 ^ 32)).desc EXPAND_SBS = largeDesc 0 (big.sb EXPAND_SBS) := by
    decide +kernel
  refine ⟨solo_of_idle (by decide +kernel), by decide +kernel, by decide +kernel,
    ⟨_, solo_of_idle (n := 8) (by decide +kernel), by decide +kernel, by decide +kernel⟩, ?_⟩
  have first : sweepTurn big 1
      (.at big (afterLarge big (2 ^ 32)) EXPAND_SBS ([big.sb EXPAND_SBS] ++ []) none) = _ :=
    sweepTurn_large (k := 0) ⟨by simp, by simp⟩ (by simp) (by rw [desc]; rfl) (by rw [desc]; rfl)
      (by rw [desc]; rfl) (by rw [desc]; rfl) (by decide +kernel)
  exact ⟨_, _, first, rfl, sweepTurn_free (A := []) ⟨by simp, by simp⟩ (.inl rfl), rfl⟩

/-- A block of 20000 bytes keeps its size. -/
theorem keepsSize_sample : wholeSbs 20000 * SBSIZE < HALF ∧
    Solo sample 0 (callMalloc 0 20000 (init sample).heap) (afterLarge sample 20000, .idle) ∧
    KeepsSize sample 20000 ((init sample).put 0 (afterLarge sample 20000, .idle))
      ((afterLarge sample 20000).ret 0) := by
  have run : Solo sample 0 (callMalloc 0 20000 (init sample).heap)
      (afterLarge sample 20000, .idle) := solo_of_idle (by decide +kernel)
  exact ⟨by decide, run, (keepsSize_iff .refl rfl (by decide) run).2 (by decide)⟩

end Ralloc
