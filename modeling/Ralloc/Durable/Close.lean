import Ralloc.Durable.Invariant
import Ralloc.Machine.Trace

/-!
# A clean close

Model of `RallocHolder::~RallocHolder` up to `set_clean`: `flush_region` for the descriptors and for
the superblocks, and `BaseMeta::writeback`. The latter adds a line to its address before each flush,
so it flushes the line behind `BaseMeta` and not the first line, where `avail_sb` is.

`close_iff`: after a close everything has its final value durably exactly if `avail_sb` had it
before. The headers of the files are written when the files are created, with flushes and fences,
and do not change later but for `curr_addr` of the superblocks; the mutex has been locked since the
process has started.
-/

namespace Ralloc

open Lib SuperblockState

variable {cfg : Cfg} {s : State} {ℓ : HeapLog} {t numSb a : ℕ} {h m : Heap}

/-- The values of `addr` in `for(; addr < ending; addr += CACHELINE_SIZE)`. -/
def lineAddrs (addr ending : ℕ) : List ℕ :=
  if addr < ending then addr :: lineAddrs (addr + CACHELINE_SIZE) ending else []
termination_by ending - addr
decreasing_by
  unfold CACHELINE_SIZE
  omega

/-- Every address a number of lines behind the start is visited. -/
lemma mem_lineAddrs {addr ending : ℕ} (j : ℕ) (lt : addr + CACHELINE_SIZE * j < ending) :
    addr + CACHELINE_SIZE * j ∈ lineAddrs addr ending := by
  induction j generalizing addr with
  | zero =>
    rw [lineAddrs, if_pos (by omega)]
    exact List.mem_cons_self
  | succ j ih =>
    have e : addr + CACHELINE_SIZE * (j + 1) = addr + CACHELINE_SIZE + CACHELINE_SIZE * j := by
      rw [Nat.mul_succ]
      omega
    rw [lineAddrs, if_pos (by omega), e]
    exact List.mem_cons_of_mem _ (ih (e ▸ lt))

/-- `flush_region` for a region whose addresses lie on the given lines. -/
def flushRegion (t : ℕ) (line : ℕ → Line) (addr ending : ℕ) (ℓ : HeapLog) : HeapLog :=
  ℓ.persistAll t ((lineAddrs addr ending).map line)

/-- The line at a distance from the start of the descriptors. -/
def descLine (off : ℕ) : Line := .desc (off / CACHELINE_SIZE)

/-- The line at a distance from the start of `BaseMeta`. -/
def baseLine (off : ℕ) : Line := .base (off / CACHELINE_SIZE)

/-- `BaseMeta::writeback` up to `set_clean`. -/
def writeback (t : ℕ) (ℓ : HeapLog) : HeapLog :=
  ℓ.persistAll t ((lineAddrs 0 BASEMETA_SIZE).map fun i => baseLine (i + CACHELINE_SIZE))

/-- `~RallocHolder` up to `set_clean`, for `numSb` descriptors. -/
def close (cfg : Cfg) (t numSb : ℕ) (ℓ : HeapLog) : HeapLog :=
  writeback t (flushRegion t (Loc.line ∘ .byte) cfg.heapStart ℓ.cur.currAddr
    (flushRegion t descLine 0 (numSb * DESCSIZE) ℓ))

/-- What a heap of `numSb` superblocks consists of. -/
def Loc.Exists (cfg : Cfg) (numSb : ℕ) (h : Heap) : Loc → Prop
  | currAddr => True
  | head .avail => True
  | head (.part sc) => sc < MAX_SZ_IDX
  | root i => i < MAX_ROOTS
  | nextFree d | nextPartial d | anchor d | superblock d | heap d | blockSize d | maxcount d =>
    d < numSb
  | byte a => cfg.heapStart ≤ a ∧ a < h.currAddr

/-- After a crash the heap `h` is there as it was. -/
def Persisted (cfg : Cfg) (numSb : ℕ) (h m : Heap) : Prop :=
  ∀ l : Loc, l.Exists cfg numSb h → m.read l = h.read l

section lines

/-- The lines that are flushed. -/
def closeLines (cfg : Cfg) (numSb ending : ℕ) : List Line :=
  (lineAddrs 0 BASEMETA_SIZE).map (fun i => baseLine (i + CACHELINE_SIZE)) ++
    ((lineAddrs cfg.heapStart ending).map (Loc.line ∘ .byte) ++
    (lineAddrs 0 (numSb * DESCSIZE)).map descLine)

/-- A close makes these lines durable and no others. -/
lemma settled_close {ln : Line} {Q : Heap → Prop} : (close cfg t numSb ℓ).Settled ln Q ↔
    if ln ∈ closeLines cfg numSb ℓ.cur.currAddr then Q ℓ.cur else (ℓ.fence t).Settled ln Q := by
  rw [close, writeback, flushRegion, flushRegion, Log.settled_persistAll,
    Log.settled_fence_persistAll, Log.settled_persistAll, Log.settled_fence_persistAll,
    Log.settled_persistAll, Log.cur_persistAll, Log.cur_persistAll]
  simp only [closeLines, List.mem_append]
  split_ifs <;> tauto

/-- The line of `avail_sb` is not among them. -/
lemma avail_not_mem (cfg : Cfg) (numSb ending : ℕ) :
    (Loc.head .avail).line ∉ closeLines cfg numSb ending := by
  intro h
  have first : (Loc.head .avail).line = .base 0 := rfl
  rw [first] at h
  simp only [closeLines, List.mem_append, List.mem_map] at h
  rcases h with ⟨i, -, e⟩ | ⟨a, -, e⟩ | ⟨o, -, e⟩
  · have : (i + CACHELINE_SIZE) / CACHELINE_SIZE = 0 := Line.base.inj e
    rw [Nat.add_div_right _ (by decide)] at this
    cases this
  · cases e
  · cases e

/-- Everything else but `curr_addr` lies on one of them. -/
lemma line_mem {l : Loc} (ex : l.Exists cfg numSb h) (ne : l ≠ .head .avail) (ne' : l ≠ .currAddr) :
    l.line ∈ closeLines cfg numSb h.currAddr := by
  have base : ∀ k, CACHELINE_SIZE * k < BASEMETA_SIZE →
      .base (k + 1) ∈ closeLines cfg numSb h.currAddr := by
    intro k lt
    have hk : 0 + CACHELINE_SIZE * k < BASEMETA_SIZE := by omega
    refine List.mem_append_left _ (List.mem_map.2 ⟨_, mem_lineAddrs k hk, ?_⟩)
    rw [Nat.zero_add, baseLine, Nat.add_div_right _ (by decide),
      Nat.mul_div_cancel_left _ (by decide)]
  have desc : ∀ d < numSb, .desc d ∈ closeLines cfg numSb h.currAddr := by
    intro d lt
    have hd : 0 + CACHELINE_SIZE * d < numSb * DESCSIZE := by
      unfold DESCSIZE CACHELINE_SIZE
      omega
    refine List.mem_append_right _
      (List.mem_append_right _ (List.mem_map.2 ⟨_, mem_lineAddrs d hd, ?_⟩))
    rw [Nat.zero_add, descLine, Nat.mul_div_cancel_left _ (by decide)]
  cases l with
  | currAddr => exact absurd rfl ne'
  | head l =>
    cases l with
    | avail => exact absurd rfl ne
    | part sc =>
      have line : (Loc.head (.part sc)).line = .base (sc + 1) := by
        show Line.base ((64 + sc * 64) / 64) = _
        congr 1
        omega
      rw [line]
      have lt : sc < MAX_SZ_IDX := ex
      refine base sc ?_
      unfold MAX_SZ_IDX at lt
      unfold BASEMETA_SIZE ROOTS_OFF HEAPS_OFF PROCHEAP_SIZE CACHELINE_SIZE MAX_SZ_IDX
      omega
  | root i =>
    have line : (Loc.root i).line = .base (MAX_SZ_IDX + i / 8 + 1) := by
      show Line.base ((64 + 40 * 64 + i * 8) / 64) = .base (40 + i / 8 + 1)
      congr 1
      omega
    rw [line]
    have lt : i < MAX_ROOTS := ex
    refine base _ ?_
    unfold MAX_ROOTS at lt
    unfold BASEMETA_SIZE ROOTS_OFF HEAPS_OFF PROCHEAP_SIZE CACHELINE_SIZE MAX_SZ_IDX MAX_ROOTS
    omega
  | byte a =>
    obtain ⟨lo, hi⟩ := ex
    have aligned := cfg.aligned
    rw [SBSIZE_eq] at aligned
    have at_line : cfg.heapStart + CACHELINE_SIZE * ((a - cfg.heapStart) / CACHELINE_SIZE) <
        h.currAddr := by
      have := Nat.mul_div_le (a - cfg.heapStart) CACHELINE_SIZE
      omega
    refine List.mem_append_right _ (List.mem_append_left _
      (List.mem_map.2 ⟨_, mem_lineAddrs _ at_line, ?_⟩))
    show Line.mem _ = Line.mem _
    congr 1
    unfold CACHELINE_SIZE at *
    omega
  | _ => exact desc _ ex

end lines

/-- When no thread is inside a call, `curr_addr` is durable. -/
lemma CurrDurable.settled (cd : CurrDurable cfg s ℓ) (idle : ∀ u, s.pc u = .idle) :
    ℓ.Settled .curr fun h => h.currAddr = s.heap.currAddr := by
  intro k h1 h2
  rcases cd.below _ le_rfl with settled | ⟨u, x, grown, -⟩
  · exact le_antisymm (cd.shape k h1 h2).1 (settled k h1 h2)
  · rw [idle u] at grown
    cases grown

/-- A close does nothing for `avail_sb`. -/
lemma close_avail (cfg : Cfg) (t numSb : ℕ) {x : PtrCnt} :
    (∀ m, CrashImage (close cfg t numSb ℓ) m → m.head .avail = x) ↔
      ∀ m, CrashImage (ℓ.fence t) m → m.head .avail = x := by
  refine (durable_iff (.head .avail) _).trans (Iff.trans ?_ (durable_iff (.head .avail) _).symm)
  rw [settled_close, if_neg (avail_not_mem _ _ _)]

/-- After a close whatever a crash leaves is the heap as it was, exactly if that was so for
`avail_sb` before the close. -/
theorem close_iff (hs : PReach cfg s ℓ) (idle : ∀ u, s.pc u = .idle) (t numSb : ℕ) :
    (∀ m, CrashImage (close cfg t numSb ℓ) m → Persisted cfg numSb s.heap m) ↔
      ∀ m, CrashImage (ℓ.fence t) m → m.head .avail = s.heap.head .avail := by
  obtain ⟨-, cur⟩ := hs.reach
  rw [← close_avail cfg t numSb]
  refine ⟨fun all m im => all m im (.head .avail) trivial, fun all m im l ex => ?_⟩
  by_cases ne : l = .head .avail
  · subst ne
    exact all m im
  by_cases ne' : l = .currAddr
  · -- the last expansion has flushed and fenced
    subst ne'
    refine (durable_iff .currAddr _).2 ?_ m im
    rw [settled_close]
    split
    · exact congrArg Heap.currAddr cur
    · exact (hs.durable.2.settled idle).fence t
  · refine (durable_iff l _).2 ?_ m im
    rw [settled_close, cur, if_pos (line_mem ex ne ne')]

/-- A program creates a heap and closes it without any other call. After a crash `avail_sb` can be
as it was before the constructor of `BaseMeta` has put the first superblocks there. -/
theorem close_loses_avail : ∃ ℓ, PReach sample (init sample) ℓ ∧ (∀ u, (init sample).pc u = .idle) ∧
    ¬∀ m, CrashImage (close sample 0 EXPAND_SBS ℓ) m →
    Persisted sample EXPAND_SBS (init sample).heap m := by
  refine ⟨_, ⟨_, born_blank sample, .refl⟩, fun _ => rfl, fun all => ?_⟩
  have avail := (close_avail sample 0 EXPAND_SBS).1 fun m im => all m im (.head .avail) trivial
  have first := (durable_iff (.head .avail) _).1 avail 0 le_rfl (Nat.zero_le _)
  have : (blank sample).head .avail = (init sample).heap.head .avail := first
  exact absurd (congrArg PtrCnt.cnt this) (by decide)

/-- A heap whose `avail_sb` is durable when it is closed. -/
theorem close_sample : (∀ m, CrashImage (close sample 0 EXPAND_SBS (.start (init sample).heap)) m →
      Persisted sample EXPAND_SBS (init sample).heap m) ↔
    ∀ m, CrashImage ((Log.start (init sample).heap).fence 0) m →
      m.head .avail = (init sample).heap.head .avail :=
  close_iff ⟨_, born_start sample, .refl⟩ (fun _ => rfl) 0 EXPAND_SBS

end Ralloc
