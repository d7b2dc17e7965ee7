import Ralloc.Durable.Lifetimes
import Ralloc.Recovery.Filters

/-!
# Recovery with a program's own filter functions

A program with filter functions of its own has typed blocks: a block that is a `T` contains pointers
to blocks of the types that the filter function of `T` says. After a restart no root has a filter
function; the program calls `get_root<T>` for its roots before it starts the recovery, and the last
call for a root counts (`getRoots_eq`). `TypesHeld` is what such a program has to keep true of what
a crash can leave. `typed_recovery`: then the garbage collection after the crash ends, and the
clients have the blocks again that can be reached by the types, and no others. It is one of the
recoveries of `Lifetimes`.
-/

namespace Ralloc

open Lib SuperblockState

variable {cfg : Cfg} {s : State} {ℓ : HeapLog} {N fuel : ℕ} {m h h' : Heap} {T : Type}
  {F F' : Filters T}
  {H : Set (T × ℕ)} {x : T × ℕ} {calls : List (T × ℕ)}

/-- The type in the last call of `get_root` for root `i`. -/
def lastType : List (T × ℕ) → ℕ → Option T
  | [], _ => none
  | (τ, j) :: calls, i => (lastType calls i).or (if i = j then some τ else none)

/-- The filter functions after these calls of `get_root`. -/
def Filters.asked (F : Filters T) (calls : List (T × ℕ)) : Filters T :=
  { F with root := fun i => (lastType calls i).or (F.root i) }

/-- Calls of `get_root` with valid indices: the last call for a root counts. -/
lemma Filters.getRoots_eq (valid : ∀ c ∈ calls, c.2 < MAX_ROOTS) (start : ℕ) (roots : ℕ → ℕ)
    (F : Filters T) : F.getRoots start roots calls = some (F.asked calls) := by
  induction calls generalizing F with
  | nil => rfl
  | cons c calls ih =>
    obtain ⟨τ, j⟩ := c
    have lt : j < MAX_ROOTS := valid _ List.mem_cons_self
    rw [Filters.getRoots, Filters.getRoot, Ralloc.getRoot, if_pos lt, Option.map_some,
      Option.bind_some, ih fun c hc => valid c (List.mem_cons_of_mem _ hc), Filters.asked,
      Filters.asked]
    congr 2
    funext i
    rw [lastType, Option.or_assoc]
    show (lastType calls i).or (Function.update F.root j (some τ) i) = _
    rw [Function.update_apply]
    split <;> simp

/-- The blocks `H` with their types are held in `s`, the large ones with their descriptors in `m`.
Every root of `m` that is not null is asked for, and roots and filter functions lead to `H`. -/
structure TypesHeld (cfg : Cfg) (F : Filters T) (calls : List (T × ℕ)) (s : State) (m : Heap)
    (H : Set (T × ℕ)) : Prop where
  valid : ∀ c ∈ calls, c.2 < MAX_ROOTS
  held : ∀ x ∈ H, s.heap.client x.2 = .held ∧
    (MAX_SZ < mallocSize cfg s.heap x.2 → Durable cfg s m x.2)
  one : ∀ x ∈ H, ∀ y ∈ H, x.2 = y.2 → x = y
  root : ∀ i < MAX_ROOTS, visitsRoot m.roots i = true → ∃ τ, lastType calls i = some τ ∧
    (Mark.inRange cfg.heapStart m (castCross cfg.heapStart (m.roots i)) = true →
      (τ, castCross cfg.heapStart (m.roots i)) ∈ H)
  closed : ∀ x ∈ H, ∀ y ∈ F.calls cfg.heapStart m x, Mark.inRange cfg.heapStart m y.2 = true → y ∈ H

/-- The mark phase does not look at the lists. -/
lemma typedReach_clearLists {start : ℕ} :
    TypedReach F start (clearLists m) x ↔ TypedReach F start m x := by
  constructor
  · intro hx
    induction hx with
    | root lt visits reg range => exact .root lt visits reg range
    | step _ mem range ih => exact .step ih mem range
  · intro hx
    induction hx with
    | @root i τ lt visits reg range => exact TypedReach.root (h := clearLists m) lt visits reg range
    | step _ mem range ih => exact .step ih mem range

/-- A garbage collection whose phases both end. -/
lemma collectWith_done {mk : Mark T} {w : Sweep}
    (run : Mark.run F cfg.heapStart (clearLists m) (List.range MAX_ROOTS) fuel = .done mk)
    (swept : sweep cfg fuel m mk.markedBlk.sort = .done w) :
    collectWith F cfg.heapStart fuel m = .done (mk.markedBlk, w) := by
  rw [collectWith, run, Outcome.bind_done]
  show (sweep cfg fuel m _).bind _ = _
  rw [swept, Outcome.bind_done]

section types

variable (th : TypesHeld cfg F calls s m H)
include th

/-- A root that is not null has the type it was last asked for with. -/
lemma TypesHeld.root_asked {i : ℕ} (lt : i < MAX_ROOTS) (visits : visitsRoot m.roots i = true) :
    ∃ τ, (F.fresh.asked calls).root i = some τ ∧
      (Mark.inRange cfg.heapStart m (castCross cfg.heapStart (m.roots i)) = true →
        (τ, castCross cfg.heapStart (m.roots i)) ∈ H) := by
  obtain ⟨τ, e, mem⟩ := th.root i lt visits
  refine ⟨τ, ?_, mem⟩
  show (lastType calls i).or none = some τ
  rw [e]
  rfl

/-- What can be reached by the types is in `H`. -/
lemma TypesHeld.mem (hx : TypedReach (F.fresh.asked calls) cfg.heapStart m x) : x ∈ H := by
  induction hx with
  | @root i τ lt visits reg range =>
    obtain ⟨τ', reg', mem⟩ := th.root_asked lt visits
    obtain rfl := Option.some.inj (reg.symm.trans reg')
    exact mem range
  | step _ mem range ih => exact th.closed _ ih _ mem range

/-- All the roots that are not null have filter functions. -/
lemma TypesHeld.registered : Registered (F.fresh.asked calls) (clearLists m) := by
  intro i lt visits none
  obtain ⟨τ, reg, -⟩ := th.root_asked lt visits
  rw [none] at reg
  cases reg

/-- No address can be reached with two types. -/
lemma TypesHeld.oneType : OneType (F.fresh.asked calls) cfg.heapStart (clearLists m) := by
  intro x y hx hy
  exact th.one x (th.mem (typedReach_clearLists.1 hx)) y (th.mem (typedReach_clearLists.1 hy))

/-- The marks of such a program are blocks that were held. -/
lemma TypesHeld.marksHeld {M : Finset ℕ}
    (marks : ∀ a, a ∈ M ↔ ∃ τ, TypedReach (F.fresh.asked calls) cfg.heapStart
      (clearLists m) (τ, a)) :
    MarksHeld cfg s m M := by
  intro p hp
  obtain ⟨τ, hx⟩ := (marks p).1 hp
  exact th.held _ (th.mem (typedReach_clearLists.1 hx))

end types

/-- Whatever has happened in the lifetimes of the heap: after a crash a program with typed blocks
asks for its roots, and its garbage collection ends. Then the clients have exactly the blocks that
can be reached by the types, with the lengths they had, and the heap can be used again. -/
theorem typed_recovery {r : State × HeapLog} {es : List (Arena.Event ℕ UInt8)}
    (start : (lifetimes cfg).init r) (run : (lifetimes cfg).Run r es (s, ℓ)) (im : CrashImage ℓ m)
    (th : TypesHeld cfg F calls s m H) (curr : m.currAddr = cfg.sb N)
    (enough : (N + 1) * SBSIZE < fuel) : ∃ F' M w,
      F.fresh.getRoots cfg.heapStart m.roots calls = some F' ∧
      collectWith F' cfg.heapStart fuel m = .done (M, w) ∧
      (∀ p, p ∈ M ↔ ∃ τ, TypedReach F' cfg.heapStart m (τ, p)) ∧
      (∀ p, blockLen cfg (restarted cfg M w.heap).heap p =
        if p ∈ M then blockLen cfg s.heap p else none) ∧
      ∃ ℓ', LifeStep cfg (s, ℓ) (some (.crash M)) (restarted cfg M w.heap, ℓ') := by
  have lg := run_logged start run
  have range : (clearLists m).currAddr - cfg.heapStart < fuel := by
    show m.currAddr - cfg.heapStart < fuel
    rw [curr, Cfg.sb, Nat.add_sub_cancel_left]
    exact (Nat.mul_le_mul_right SBSIZE N.le_succ).trans_lt enough
  obtain ⟨mk, marked, -, mem⟩ := run_marks th.registered th.oneType (.refl _) range
  have marks := th.marksHeld mem
  have rd := lg.rebuildable im curr marks
  have pos := rd.sweepable.pos
  have enough' : N + SBSIZE < fuel := by
    rw [SBSIZE_eq] at enough ⊢
    omega
  obtain ⟨w, e, -⟩ := rd.sweeps enough'
  refine ⟨_, mk.markedBlk, w, Filters.getRoots_eq th.valid .., collectWith_done marked e,
    fun p => (mem p).trans (exists_congr fun τ => typedReach_clearLists),
    lg.blockLen_restarted im marks curr enough' .never e, _,
    .crash im marks (.intro (t := 0) (ℓ := .start m) curr enough' le_rfl .never
      (fun _ _ => .start) e)⟩

/-- A thread gets a block and makes it root 0. -/
lemma exists_rooted :
    ∃ s ℓ es, (lifetimes sample).Run (init sample, .start (init sample).heap) es (s, ℓ) ∧
      s.heap.client (sample.blk 39 1 0) = .held ∧
      mallocSize sample s.heap (sample.blk 39 1 0) ≤ MAX_SZ ∧
      (∀ i < MAX_ROOTS, visitsRoot s.heap.roots i = true ↔ i = 0) ∧
      castCross sample.heapStart (s.heap.roots 0) = sample.blk 39 1 0 ∧
      s.heap.currAddr = sample.sb EXPAND_SBS := by
  have test : (observe sample (init sample) (.malloc 1 14336 :: List.replicate 12 (.run 1 false) ++
      .setRoot 1 (sample.blk 39 1 0) 0 :: List.replicate 3 (.run 1 false))).any
      (fun r => decide (r.1.heap.client (sample.blk 39 1 0) = .held ∧
        mallocSize sample r.1.heap (sample.blk 39 1 0) ≤ MAX_SZ ∧
        (∀ i < MAX_ROOTS, visitsRoot r.1.heap.roots i = true ↔ i = 0) ∧
        castCross sample.heapStart (r.1.heap.roots 0) = sample.blk 39 1 0 ∧
        r.1.heap.currAddr = sample.sb EXPAND_SBS)) = true := by
    decide +kernel
  obtain ⟨⟨s, es⟩, e, hs⟩ := Option.any_eq_true _ _ |>.1 test
  obtain ⟨ℓ, run⟩ := run_of_observe e (.start (init sample).heap)
  exact ⟨s, ℓ, es, run, of_decide_eq_true hs⟩

/-- The machine crashes when such a program has a block, and a root points to it. -/
theorem typed_recovery_sample : ∃ s ℓ es F' M w,
    (lifetimes sample).Run (init sample, .start (init sample).heap) es (s, ℓ) ∧
    leaves.fresh.getRoots sample.heapStart s.heap.roots [((), 0)] = some F' ∧
    collectWith F' sample.heapStart ((EXPAND_SBS + 1) * SBSIZE + 1) s.heap = .done (M, w) ∧
    sample.blk 39 1 0 ∈ M := by
  obtain ⟨s, ℓ, es, run, held, small, visits, root, curr⟩ := exists_rooted
  have start : (lifetimes sample).init (init sample, .start (init sample).heap) :=
    ⟨rfl, fresh_start sample⟩
  have th : TypesHeld sample leaves [((), 0)] s s.heap {((), sample.blk 39 1 0)} :=
    { valid := by decide
      held := fun x hx => by
        rw [Set.mem_singleton_iff.1 hx]
        exact ⟨held, fun lt => absurd lt (Nat.not_lt.2 small)⟩
      one := fun x hx y hy _ => hx.trans hy.symm
      root := fun i lt hv => by
        obtain rfl := (visits i lt).1 hv
        exact ⟨(), rfl, fun _ => by rw [root]; rfl⟩
      closed := fun x _ y hy => absurd hy List.not_mem_nil }
  obtain ⟨F', M, w, asked, e, marks, -, -⟩ :=
    typed_recovery start run (run_logged start run).image th curr (Nat.lt_succ_self _)
  refine ⟨s, ℓ, es, F', M, w, run, asked, e, (marks _).2 ⟨(), ?_⟩⟩
  cases asked
  rw [← root]
  refine .root (by decide) ((visits 0 (by decide)).2 rfl) rfl ?_
  rw [root, Mark.inRange_iff, Finset.mem_Ico, curr]
  exact ⟨by decide +kernel, by decide +kernel⟩

end Ralloc
