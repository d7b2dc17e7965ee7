import Ralloc.Model.Grow
import Ralloc.Machine.Calls
import Mathlib.Data.UInt

/-!
# Region growth

`Grows r ms` is what the users of `__nvm_region_allocator` rely on: a call that returns 1 has taken
a piece of the region behind `curr_addr`, a call that returns 0 or -1 has done nothing, and the
pieces are disjoint. The out-of-space test compares a sum that is computed modulo `2 ^ 64`.
`grows_iff`: all of it holds for a run exactly when no sum that is published wraps around.
-/

namespace Ralloc

variable {r : Region} {s : GrowState} {a : GrowAct} {as : List GrowAct} {ms : List Move} {m : Move}
  {alignment size old : ℕ}

/-- What one action has to do. -/
structure Move.Ok (r : Region) (m : Move) : Prop where
  /-- a call that returns 1 has taken an aligned piece of the region behind `curr_addr` -/
  taken : ∀ c ∈ m.ret, c.code = 1 → m.after.memptr c.thread % c.alignment = 0 ∧
    m.before.curr ≤ m.after.memptr c.thread ∧
    m.after.memptr c.thread + c.size ≤ r.base + r.filesize ∧
    m.after.curr = m.after.memptr c.thread + c.size
  /-- nothing else changes `curr_addr` or a `*memptr` -/
  failed : (∀ c ∈ m.ret, c.code ≠ 1) →
    m.after.curr = m.before.curr ∧ m.after.memptr = m.before.memptr
  /-- `curr_addr` does not decrease -/
  mono : m.before.curr ≤ m.after.curr

/-- The pieces that two actions take are disjoint. -/
def Move.Disjoint (m m' : Move) : Prop :=
  ∀ c ∈ m.ret, ∀ c' ∈ m'.ret, c.code = 1 → c'.code = 1 →
    m.after.memptr c.thread + c.size ≤ m'.after.memptr c'.thread ∨
    m'.after.memptr c'.thread + c'.size ≤ m.after.memptr c.thread

/-- The region grows as it should along a run. -/
structure Grows (r : Region) (ms : List Move) : Prop where
  ok : ∀ m ∈ ms, m.Ok r
  disjoint : ms.Pairwise Move.Disjoint

/-- If the action is a compare-and-swap that will succeed, the end of its piece is a machine
word. -/
def Move.NoOverflow (m : Move) : Prop :=
  ∀ t alignment size, m.act = .run t → m.before.pc t = .cas alignment size m.before.curr →
    alignUp m.before.curr alignment + size < WORD

/-- The alignment check accepts powers of two only. -/
lemma pow_of_argsOk (lt : alignment < WORD) (ok : argsOk alignment size = true) :
    ∃ k, alignment = 2 ^ k := by
  simp only [argsOk, decide_eq_true_eq] at ok
  obtain ⟨-, hand, h8⟩ := ok
  obtain ⟨x, rfl⟩ := Nat.exists_eq_succ_of_ne_zero (show alignment ≠ 0 by omega)
  refine (Nat.and_sub_one_eq_zero_iff_isPowerOfTwo (by omega)).1 ?_
  -- the complement of `x` and `WORD - (x + 1)` have the same bits
  rw [Nat.mod_eq_of_lt (by omega)] at hand
  apply Nat.eq_of_testBit_eq
  intro i
  have hbit := congrArg (fun n => n.testBit i) hand
  have hx : x < 2 ^ 64 := by unfold WORD at lt; omega
  simp only [Nat.testBit_and, Nat.succ_eq_add_one, WORD, Nat.testBit_two_pow_sub_succ hx] at hbit
  rw [Nat.testBit_and, Nat.zero_testBit, Nat.succ_eq_add_one, Nat.add_sub_cancel]
  cases h1 : (x + 1).testBit i <;> cases h2 : x.testBit i <;> simp_all

/-- `region_allocator` asserts that the alignment is not 0. -/
lemma pos_of_argsOk (ok : argsOk alignment size = true) : 0 < alignment := by
  simp only [argsOk, decide_eq_true_eq] at ok
  omega

/-- What a thread knows in any run: its arguments have passed the checks, and before the
compare-and-swap so has the sum. -/
def GrowPC.Ok (r : Region) : GrowPC → Prop
  | .idle => True
  | .load alignment size => alignment < WORD ∧ argsOk alignment size = true
  | .cas alignment size old => alignment < WORD ∧ argsOk alignment size = true ∧
      r.fits old alignment size = true

/-- The invariant of every run. -/
structure GrowInv (r : Region) (s : GrowState) : Prop where
  curr : s.curr < WORD
  pc : ∀ t, (s.pc t).Ok r

/-- A step that only moves a thread on. -/
lemma GrowInv.goto (inv : GrowInv r s) {t pc} (ok : GrowPC.Ok r pc) : GrowInv r (s.goto t pc) := by
  refine ⟨inv.curr, fun u => ?_⟩
  show GrowPC.Ok r (Function.update s.pc t pc u)
  by_cases e : u = t
  · subst e
    rw [Function.update_self]
    exact ok
  · rw [Function.update_of_ne e]
    exact inv.pc u

/-- Every action keeps the invariant. -/
lemma GrowInv.step (inv : GrowInv r s) : GrowInv r (growStep r s a).1 := by
  cases a with
  | call t alignment size =>
    rw [growStep]
    split_ifs with h1 h2
    · exact inv
    · exact inv.goto ⟨alignment.toNat_lt, h2⟩
    · exact inv
  | run t =>
    have hpc := inv.pc t
    rw [growStep]
    split
    · exact inv
    case h_2 alignment size e =>
      rw [e] at hpc
      split_ifs with h
      · exact inv.goto ⟨hpc.1, hpc.2, h⟩
      · exact inv.goto trivial
    case h_3 alignment size old e =>
      split_ifs with h
      · exact ⟨Nat.mod_lt _ (by decide),
          (inv.goto (t := t) (show GrowPC.Ok r .idle from trivial)).pc⟩
      · exact inv.goto trivial

/-- The adjusted address. -/
lemma alignAdj_of_argsOk (lt : alignment < WORD) (ok : argsOk alignment size = true)
    (hc : old < WORD) : alignAdj old alignment = alignUp old alignment % WORD := by
  obtain ⟨k, rfl⟩ := pow_of_argsOk lt ok
  exact alignAdj_eq hc

/-- A sum that does not wrap around is what the out-of-space test is about. -/
lemma bumpNext_of_noOverflow (lt : alignment < WORD) (ok : argsOk alignment size = true)
    (hc : old < WORD) (no : alignUp old alignment + size < WORD) :
    alignAdj old alignment = alignUp old alignment ∧
      bumpNext old alignment size = alignUp old alignment + size := by
  have h := alignAdj_of_argsOk lt ok hc
  rw [Nat.mod_eq_of_lt (by omega)] at h
  exact ⟨h, by rw [bumpNext, h, Nat.mod_eq_of_lt no]⟩

/-- A sum that wraps around leads to a piece outside the region. -/
lemma noOverflow_of_inside (lt : alignment < WORD) (ok : argsOk alignment size = true)
    (hc : old < WORD) (hr : r.base + r.filesize < WORD) (le : old ≤ alignAdj old alignment)
    (inside : alignAdj old alignment + size ≤ r.base + r.filesize) :
    alignUp old alignment + size < WORD := by
  have h1 := alignUp_lt (n := old) (pos_of_argsOk ok)
  rw [alignAdj_of_argsOk lt ok hc] at le inside
  by_cases h : alignUp old alignment < WORD
  · rw [Nat.mod_eq_of_lt h] at inside
    omega
  · -- the alignment itself has wrapped around, below the old `curr_addr`
    rw [Nat.mod_eq_sub_mod (by omega), Nat.mod_eq_of_lt (by omega)] at le
    omega

/-- An action that changes nothing is as it should be. -/
lemma Move.Ok.of_failed (h : ∀ c ∈ m.ret, c.code ≠ 1)
    (e : m.after.curr = m.before.curr ∧ m.after.memptr = m.before.memptr) : m.Ok r :=
  ⟨fun c hc h1 => absurd h1 (h c hc), fun _ => e, e.1.ge⟩

/-- One action is as it should be exactly when it does not publish a sum that wraps around. -/
lemma growMove_ok_iff (inv : GrowInv r s) (hr : r.base + r.filesize < WORD) :
    (growMove r s a).Ok r ↔ (growMove r s a).NoOverflow := by
  cases a with
  | call t alignment size =>
    refine ⟨fun _ => fun u _ _ e => (by cases e), fun _ => ?_⟩
    rw [growMove, growStep]
    split_ifs
    · exact .of_failed (by simp) ⟨rfl, rfl⟩
    · exact .of_failed (by simp) ⟨rfl, rfl⟩
    · exact .of_failed (by simp) ⟨rfl, rfl⟩
  | run t =>
    have hpc := inv.pc t
    have hno : (growMove r s (.run t)).NoOverflow ↔ ∀ alignment size,
        s.pc t = .cas alignment size s.curr → alignUp s.curr alignment + size < WORD := by
      refine ⟨fun no al sz => no t al sz rfl, fun no u al sz e => ?_⟩
      cases e
      exact no al sz
    rw [hno, growMove, growStep]
    split
    case h_1 e =>
      exact ⟨fun _ _ _ e' => (by rw [e] at e'; cases e'), fun _ => .of_failed (by simp) ⟨rfl, rfl⟩⟩
    case h_2 alignment size e =>
      refine ⟨fun _ _ _ e' => (by rw [e] at e'; cases e'), fun _ => ?_⟩
      split_ifs
      · exact .of_failed (by simp) ⟨rfl, rfl⟩
      · exact .of_failed (by simp) ⟨rfl, rfl⟩
    case h_3 alignment size old e =>
      rw [e] at hpc
      obtain ⟨lt, ok, fits⟩ := hpc
      split_ifs with h
      case neg =>
        refine ⟨fun _ al sz e' => ?_, fun _ => .of_failed (by simp) ⟨rfl, rfl⟩⟩
        rw [e, GrowPC.cas.injEq] at e'
        exact absurd e'.2.2.symm h
      case pos =>
        subst h
        refine ⟨fun okm al sz e' => ?_, fun no => ?_⟩
        · rw [e, GrowPC.cas.injEq] at e'
          obtain ⟨rfl, rfl, -⟩ := e'
          obtain ⟨-, h1, h2, -⟩ := okm.taken _ rfl rfl
          simp only [Function.update_self] at h1 h2
          exact noOverflow_of_inside lt ok inv.curr hr h1 h2
        · obtain ⟨h1, h2⟩ := bumpNext_of_noOverflow lt ok inv.curr (no _ _ e)
          have hle := le_alignUp (n := s.curr) (pos_of_argsOk ok)
          have hfits : alignUp s.curr alignment + size ≤ r.base + r.filesize := by
            rwa [Region.fits, decide_eq_true_eq, h2, Region.limit, Nat.mod_eq_of_lt hr] at fits
          refine ⟨fun c hc _ => ?_, fun h => absurd rfl (h _ rfl), ?_⟩
          · cases hc
            simp only [Function.update_self, h1, h2]
            exact ⟨alignUp_mod .., hle, hfits, trivial⟩
          · simp only [h2]
            omega

/-- The moves of a run start at or behind its first `curr_addr`. -/
lemma le_of_mem_moves (ok : ∀ m ∈ moves r s as, m.Ok r) (hm : m ∈ moves r s as) :
    s.curr ≤ m.before.curr := by
  induction as generalizing s with
  | nil => cases hm
  | cons a as ih =>
    rw [moves] at hm ok
    rcases List.mem_cons.1 hm with rfl | hm
    · exact le_rfl
    · have h1 := (ok _ List.mem_cons_self).mono
      have h2 := ih (fun m h => ok m (List.mem_cons_of_mem _ h)) hm
      exact le_trans h1 h2

/-- What a run takes is disjoint if every action is as it should be. -/
lemma grows_of_ok (ok : ∀ m ∈ moves r s as, m.Ok r) : Grows r (moves r s as) := by
  refine ⟨ok, ?_⟩
  induction as generalizing s with
  | nil => exact .nil
  | cons a as ih =>
    rw [moves] at ok ⊢
    have rest : ∀ m ∈ moves r (growStep r s a).1 as, m.Ok r :=
      fun m h => ok m (List.mem_cons_of_mem _ h)
    refine .cons (fun m hm c hc c' hc' h1 h1' => ?_) (ih rest)
    obtain ⟨-, -, -, h2⟩ := (ok _ List.mem_cons_self).taken c hc h1
    obtain ⟨-, h3, -⟩ := (rest m hm).taken c' hc' h1'
    have h4 := le_of_mem_moves rest hm
    rw [← h2]
    exact .inl (le_trans h4 h3)

/-- Every action of a run starts in a state with the invariant. -/
lemma GrowInv.moves (inv : GrowInv r s) (hm : m ∈ moves r s as) :
    ∃ s' a, GrowInv r s' ∧ m = growMove r s' a := by
  induction as generalizing s with
  | nil => cases hm
  | cons a as ih =>
    rcases List.mem_cons.1 hm with rfl | hm
    · exact ⟨s, a, inv, rfl⟩
    · exact ih inv.step hm

/-- A run of calls by any number of threads grows a mapped region as it should exactly when no
compare-and-swap publishes a sum that has wrapped around. -/
theorem grows_iff {filesize : ℕ} (a : MapAddr filesize) (curr : UInt64) (memptr : ℕ → ℕ)
    (as : List GrowAct) :
    Grows ⟨a.addr, filesize⟩ (moves ⟨a.addr, filesize⟩ (.quiet curr memptr) as) ↔
      ∀ m ∈ moves ⟨a.addr, filesize⟩ (.quiet curr memptr) as, m.NoOverflow := by
  have hr : a.addr + filesize < WORD := lt_of_le_of_lt a.bound (by decide)
  have inv : GrowInv ⟨a.addr, filesize⟩ (.quiet curr memptr) :=
    ⟨curr.toNat_lt, fun _ => trivial⟩
  refine ⟨fun g m hm => ?_, fun no => grows_of_ok fun m hm => ?_⟩
  · obtain ⟨s, b, hs, rfl⟩ := inv.moves hm
    exact (growMove_ok_iff hs hr).1 (g.ok _ hm)
  · obtain ⟨s, b, hs, rfl⟩ := inv.moves hm
    exact (growMove_ok_iff hs hr).2 (no _ hm)

/-- Where a thread that allocates a large block is in `__nvm_region_allocator`. -/
def PC.grow : PC → GrowPC
  | .largeLoad sbs => .load PAGESIZE sbs
  | .largeFlush sbs cur | .largeFence sbs cur | .largeCas sbs cur => .cas PAGESIZE sbs cur
  | _ => .idle

/-- `expand_get_large_sb` is a loop around `__nvm_region_allocator`: it takes the address when the
result is 1, tries again when it is 0 and fails when it is -1. -/
lemma exec_grow {cfg : Cfg} {t sbs : ℕ} {spur : Bool} {h : Heap} {pc : PC}
    (hpc : s.pc t = pc.grow) (curr : s.curr = h.currAddr)
    (at_access : pc = .largeLoad sbs ∧ argsOk PAGESIZE sbs = true ∨ ∃ cur, pc = .largeCas sbs cur) :
    (growStep cfg.toRegion s (.run t)).1.curr = (exec cfg t spur h pc).1.currAddr ∧
      (exec cfg t spur h pc).2 = match (growStep cfg.toRegion s (.run t)).2 with
        | none => .largeFlush sbs h.currAddr
        | some c =>
          if c.code = 1 then .largeGrownFlush sbs ((growStep cfg.toRegion s (.run t)).1.memptr t)
          else if c.code = 0 then .largeLoad sbs
          else .abort .expandGetLargeSb := by
  rcases at_access with ⟨rfl, args⟩ | ⟨cur, rfl⟩
  · rw [growStep, hpc, exec, check, curr]
    simp only [PC.grow]
    by_cases fits : cfg.fits h.currAddr PAGESIZE sbs = true
    · rw [if_pos fits, if_pos ⟨args, fits⟩]
      exact ⟨curr, rfl⟩
    · rw [if_neg fits, if_neg fun e => fits e.2]
      exact ⟨curr, rfl⟩
  · rw [growStep, hpc, exec, curr]
    simp only [PC.grow]
    split_ifs
    · simp
    · exact ⟨curr, rfl⟩

/-- A request whose end wraps around to the base of the region. -/
def wrapRun : List GrowAct := [.call 0 4096 (2 ^ 64 - 4096), .run 0, .run 0]

/-- The request succeeds and `curr_addr` moves back over the header. In the same way a `do_malloc`
of `2 ^ 64 - 2 ^ 20` bytes on a new heap returns a block, and gives the last MiB of the region to
whoever comes next although it is in use. -/
theorem growth_overflow :
    (∃ m ∈ moves ⟨2 ^ 40, fileSize (2 ^ 31)⟩ (.quiet (2 ^ 40 + 4096) fun _ => 0) wrapRun,
      m.ret = some ⟨0, 4096, 2 ^ 64 - 4096, 1⟩ ∧
      m.before.curr = 2 ^ 40 + 4096 ∧ m.after.curr = 2 ^ 40) ∧
    ∃ h, Solo sample 0 (callMalloc 0 (2 ^ 64 - 2 ^ 20) (init sample).heap) (h, .idle) ∧
      h.client (h.ret 0) = .held ∧ h.currAddr = (init sample).heap.currAddr - 2 ^ 20 := by
  refine ⟨⟨_, .tail _ (.tail _ (.head _)), by decide +kernel, by decide +kernel, by decide +kernel⟩,
    _, solo_of_idle (n := 15) (by decide +kernel), by decide +kernel, by decide +kernel⟩

end Ralloc
