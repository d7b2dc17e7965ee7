import Ralloc.Machine.Calls

/-!
# Calls for large blocks

`malloc_large` computes a `do_malloc` of more than `MAX_SZ` bytes from any heap, also for lengths
that do not fit the descriptor. `free_large` does the same for the `do_free` of a large block in a
reachable state: its superblocks go to the front of `avail_sb`. In between, as long as the client
holds the block, no step of any thread changes what its descriptor says (`Holding.plain`).
-/

namespace Ralloc

open Lib SuperblockState

variable {cfg : Cfg} {t u p size sbs : ℕ} {h h' : Heap} {L : Ledger} {s s' : State}

/-- A thread that is done stays where it is. -/
lemma solo_idle {r} (run : Solo cfg t (h, .idle) r) : r = (h, .idle) := by
  induction run with
  | refl => rfl
  | @tail r r' _ st ih =>
    obtain ⟨spur, rfl⟩ := st
    rw [ih]
    rfl

/-- A call that returns has passed the assertion it met. -/
lemma solo_check {pc : PC} {c : Prop} [Decidable c] {a : Site} {go : Heap × PC} (ne : pc ≠ .idle)
    (e : ∀ spur, exec cfg t spur h pc = check c a h go) (run : Solo cfg t (h, pc) (h', .idle)) :
    c ∧ Solo cfg t go (h', .idle) := by
  have run := (Fixed.step ne e (.refl _)).forward run
  rw [check] at run
  split at run
  case isTrue hc => exact ⟨hc, run⟩
  case isFalse => exact absurd (solo_abort run) (by simp)

/-- The descriptor of a large block at `res` after `do_malloc`. -/
def largeDesc (sbs res : ℕ) : Descriptor :=
  ⟨none, none, ⟨0, 0, SB_FULL⟩, some res, some 0, sbs % HALF, 1⟩

/-- The heap after a `do_malloc` of `sbs` bytes in whole superblocks at `res`, which moves
`curr_addr` to `next`. -/
def mallocedLarge (cfg : Cfg) (t sbs res next : ℕ) (h : Heap) : Heap :=
  (({ h with currAddr := next }.setDesc (sbIndex cfg.heapStart res) (largeDesc sbs res)).setClient
    res .held).setRet t res

/-- `block_size` has 32 bits. -/
lemma largeDesc_blockSize (sbs res : ℕ) : (largeDesc sbs res).blockSize = sbs % HALF := by
  rw [largeDesc]

/-- The block that is returned. -/
lemma mallocedLarge_ret (cfg : Cfg) (t sbs res next : ℕ) (h : Heap) :
    (mallocedLarge cfg t sbs res next h).ret t = res := Function.update_self ..

/-- Its descriptor. -/
lemma mallocedLarge_desc (cfg : Cfg) (t sbs res next : ℕ) (h : Heap) :
    (mallocedLarge cfg t sbs res next h).desc (sbIndex cfg.heapStart res) = largeDesc sbs res :=
  Function.update_self ..

/-- The large path of `do_malloc` from the check of the space to the assertion on the address. -/
lemma largeFlush_fixed : Fixed cfg t (h, .largeFlush sbs h.currAddr)
    ({ h with currAddr := bumpNext h.currAddr PAGESIZE sbs }.setDesc
      (sbIndex cfg.heapStart (alignAdj h.currAddr PAGESIZE)) .reset,
      .largeSet sbs (alignAdj h.currAddr PAGESIZE)) := by
  refine .step (by simp) (fun spur => by rw [exec]) ?_
  refine .step (by simp) (fun spur => by rw [exec]) ?_
  refine .step (by simp) (fun spur => by rw [exec, if_pos rfl]) ?_
  refine .step (by simp) (fun spur => by rw [exec]) ?_
  refine .step (by simp) (fun spur => by rw [exec]) ?_
  exact ctor_fixed cfg t _ _ _

/-- The rest of it. -/
lemma largeAnchor_fixed {res : ℕ} :
    Fixed cfg t (h.setDesc (sbIndex cfg.heapStart res)
        { Descriptor.reset with
          heap := some 0, blockSize := sbs % HALF, maxcount := 1, superblock := some res },
        .largeAnchor sbs res)
      (mallocedLarge cfg t sbs res h.currAddr h, .idle) := by
  refine .step (by simp) (fun spur => by
    rw [exec, Heap.desc_setDesc_self, Heap.setDesc_setDesc]) ?_
  refine .step (by simp) (fun spur => by rw [exec]) ?_
  exact .step (by simp) (fun spur => by rw [exec]; rfl) (.refl _)

/-- What the large path of `do_malloc` has done when it returns. -/
lemma largeLoad_forward (run : Solo cfg t (h, .largeLoad sbs) (h', .idle)) :
    h' = mallocedLarge cfg t sbs (alignAdj h.currAddr PAGESIZE)
      (bumpNext h.currAddr PAGESIZE sbs) h := by
  obtain ⟨-, run⟩ := solo_check (by simp) (fun spur => by rw [exec]) run
  obtain ⟨-, run⟩ := solo_check (by simp) (fun spur => by rw [exec]) (largeFlush_fixed.forward run)
  rw [Heap.desc_setDesc_self, Heap.setDesc_setDesc] at run
  exact (Prod.mk.inj (solo_idle (largeAnchor_fixed.forward run))).1

/-- What a `do_malloc` of a large block has done when it returns. -/
theorem malloc_large (large : MAX_SZ < size)
    (run : Solo cfg t (callMalloc t size h) (h', .idle)) :
    h' = mallocedLarge cfg t (roundUp size SBSIZE) (alignAdj h.currAddr PAGESIZE)
      (bumpNext h.currAddr PAGESIZE (roundUp size SBSIZE))
      { h with req := Function.update h.req t size } := by
  rw [callMalloc, if_pos large] at run
  exact largeLoad_forward run

/-- Allowed actions after each of which the client holds block `p`. -/
def Holding (cfg : Cfg) (p : ℕ) : State → State → Prop :=
  Relation.ReflTransGen fun s s' => Step cfg s s' ∧ s'.heap.client p = .held

/-- An action does not change the plain fields of the descriptor of a held block. -/
lemma Step.plain (hs : Reach cfg s) (st : Step cfg s s') (hp : s.heap.client p = .held) :
    (s'.heap.desc (sbIndex cfg.heapStart p)).plain =
      (s.heap.desc (sbIndex cfg.heapStart p)).plain := by
  obtain ⟨a, -, st⟩ := st
  cases a with
  | malloc u size =>
    obtain ⟨-, rfl⟩ := step_call st
    rfl
  | free u q =>
    obtain ⟨-, rfl⟩ := step_call st
    show ((callFree cfg u q s.heap).1.desc _).plain = _
    rcases callFree_cases cfg u q s.heap with ⟨e, -⟩ | ⟨c, -, e, -⟩ <;> rw [e]
    rfl
  | exit u =>
    obtain ⟨-, rfl⟩ := step_call st
    rfl
  | setRoot u q i =>
    obtain ⟨-, rfl⟩ := step_call st
    rfl
  | write x v =>
    cases st
    rfl
  | run u spur =>
    cases st
    obtain ⟨L, inv⟩ := hs.inv
    exact (exec_effect cfg u spur s.heap (s.pc u)).plain _
      ((inv.thread u).plainWrite_ne inv.ok (inv.rep.held_iff.1 hp))

/-- As long as a block is held, the plain fields of its descriptor do not change. -/
theorem Holding.plain (hs : Reach cfg s) (hp : s.heap.client p = .held)
    (run : Holding cfg p s s') : Reach cfg s' ∧ s'.heap.client p = .held ∧
      (s'.heap.desc (sbIndex cfg.heapStart p)).plain =
        (s.heap.desc (sbIndex cfg.heapStart p)).plain := by
  induction run with
  | refl => exact ⟨hs, hp, rfl⟩
  | tail _ st ih =>
    obtain ⟨hr, hp', e⟩ := ih
    exact ⟨hr.tail st.1, st.2, (st.1.plain hr hp').trans e⟩

/-- What the descriptor of a held block with the heap of the large blocks says. -/
lemma Inv.large_of_heap (inv : Inv cfg s L) (hp : s.heap.client p = .held)
    (heap : (s.heap.desc (sbIndex cfg.heapStart p)).heap = some 0) :
    cfg.sb (sbIndex cfg.heapStart p) = p ∧ L.role (sbIndex cfg.heapStart p) = .large p := by
  have hpl := inv.rep.held_iff.1 hp
  rcases inv.ok.role_held hpl with ⟨sc, o, hr, -⟩ | hr
  · have hD := inv.rep.desc (sbIndex cfg.heapStart p)
    rw [hr] at hD
    have h1 := (inv.ok.cls hr).1
    rw [hD.1, Option.some.injEq] at heap
    omega
  · obtain ⟨e, rfl, he⟩ := inv.ok.largeStart hr
    exact ⟨by rw [(inv.ok.insideOf he (by simp)).sbIndex_sb], hr⟩

/-- The superblocks of a held large block are its own. -/
lemma Inv.large_sbs (inv : Inv cfg s L) (hp : s.heap.client p = .held)
    (heap : (s.heap.desc (sbIndex cfg.heapStart p)).heap = some 0) :
    ∃ k, 0 < k ∧ mallocSize cfg s.heap p = k * SBSIZE ∧
      ∀ j, sbIndex cfg.heapStart p ≤ j → j < sbIndex cfg.heapStart p + k → L.role j = .large p := by
  obtain ⟨hsb, hr⟩ := inv.large_of_heap hp heap
  obtain ⟨k, hk, hitems, hsize⟩ := inv.rep.large (d := sbIndex cfg.heapStart p) (by rw [hsb, hr])
  refine ⟨k, hk, hsize, fun j h1 h2 => (inv.ok.mem_sbs (r := .large p) trivial).1 ?_⟩
  rw [hsb] at hitems
  rw [hitems, List.mem_range'_1]
  exact ⟨h1, h2⟩

/-- How the `do_free` of a held large block starts. -/
lemma Inv.callFree_large (inv : Inv cfg s L) (hp : s.heap.client p = .held)
    (heap : (s.heap.desc (sbIndex cfg.heapStart p)).heap = some 0) {k : ℕ}
    (size : mallocSize cfg s.heap p = k * SBSIZE) :
    callFree cfg u p s.heap = (s.heap.setClient p .none,
      organizeSbList cfg p k .done) := by
  obtain ⟨hsb, hr⟩ := inv.large_of_heap hp heap
  have hD := inv.rep.desc (sbIndex cfg.heapStart p)
  rw [hr, DescRep, if_pos hsb.symm] at hD
  obtain ⟨k', hk', size', -⟩ := inv.large_sbs hp heap
  obtain ⟨lo, hi⟩ := inv.rep.held_inside inv.ok hp
  rw [size', SBSIZE_eq] at hi
  rw [SBSIZE_eq] at lo
  rw [mallocSize] at size
  have hsbs : k * SBSIZE / SBSIZE = k := Nat.mul_div_cancel _ (by simp [SBSIZE_eq])
  rw [callFree, if_neg (by omega), check, if_pos (by omega)]
  simp only [heap]
  rw [check, size, if_pos (Nat.mul_mod_left ..), hD.2.2, hsbs]
  rfl

/-- Superblocks that are organised stand in front of the list. -/
lemma organized_lists {start count : ℕ} {D : List ℕ} (pos : 0 < count) (hD : h.Lists .avail D)
    (out : ∀ d ∈ D, ¬(start ≤ d ∧ d < start + count)) :
    (organized h start count).Lists .avail (List.range' start count ++ D) := by
  obtain ⟨n, rfl⟩ := Nat.exists_eq_succ_of_ne_zero pos.ne'
  have head : ((organized h start (n + 1)).head .avail).ptr = some start := by simp [organized]
  have desc : ∀ d, ((organized h start (n + 1)).desc d).next .avail =
      if start ≤ d ∧ d < start + (n + 1) then
        if d + 1 < start + (n + 1) then some (d + 1) else (h.head .avail).ptr
      else (h.desc d).next .avail := by
    intro d
    simp only [organized]
    split
    · rfl
    · rfl
  rw [Heap.Lists, head]
  have rest : IsList (fun d => ((organized h start (n + 1)).desc d).next .avail)
      (h.head .avail).ptr D := IsList.congr hD fun d hd => by rw [desc, if_neg (out d hd)]
  refine rest.range_append (fun j hj => ?_) ?_
  · rw [desc, if_pos (by omega), if_pos (by omega)]
  · rw [desc, if_pos (by omega), if_neg (by omega)]

/-- The `do_free` of a held large block returns, and puts its superblocks in front of `avail_sb`. -/
theorem free_large (hs : Reach cfg s) (hp : s.heap.client p = .held)
    (heap : (s.heap.desc (sbIndex cfg.heapStart p)).heap = some 0) {k : ℕ}
    (size : mallocSize cfg s.heap p = k * SBSIZE) :
    (∃ h', Solo cfg u (callFree cfg u p s.heap) (h', .idle)) ∧
    ∀ h', Solo cfg u (callFree cfg u p s.heap) (h', .idle) → ∃ D, s.heap.Lists .avail D ∧
      h'.Lists .avail (List.range' (sbIndex cfg.heapStart p) k ++ D) ∧
      (List.range' (sbIndex cfg.heapStart p) k ++ D).Nodup := by
  obtain ⟨L, inv⟩ := hs.inv
  obtain ⟨k', hk, size', roles⟩ := inv.large_sbs hp heap
  obtain rfl : k' = k := by
    rw [size] at size'
    exact (Nat.eq_of_mul_eq_mul_right (by simp [SBSIZE_eq]) size').symm
  rw [inv.callFree_large hp heap size, organizeSbList]
  refine ⟨⟨_, organize_solo cfg u _ hk .done⟩, fun h' run => ?_⟩
  obtain rfl := (Prod.mk.inj (solo_idle (organize_forward hk run))).1
  have out : ∀ d ∈ L.sbs.items .avail,
      ¬(sbIndex cfg.heapStart p ≤ d ∧ d < sbIndex cfg.heapStart p + k') := by
    rintro d hd ⟨h1, h2⟩
    have := (inv.ok.mem_sbs (r := .avail) trivial).1 hd
    rw [roles d h1 h2] at this
    cases this
  refine ⟨L.sbs.items .avail, inv.rep.list .avail, organized_lists hk (inv.rep.list .avail) out, ?_⟩
  refine List.nodup_append.2 ⟨List.nodup_range', (inv.ok.sbs .avail trivial).nodup, ?_⟩
  rintro x hx y hy rfl
  exact out x hy (List.mem_range'_1.1 hx)

end Ralloc
