import Ralloc.Model.Mapping
import Mathlib.Logic.Function.Basic

/-!
# The region allocator as a step machine

Model of `RegionManager::__nvm_region_allocator` called by any number of threads. A thread checks
its arguments, loads `curr_addr` and does the out-of-space test with what it has loaded, and
publishes the new `curr_addr` by a compare-and-swap. The load and the compare-and-swap are one step
each.
-/

namespace Ralloc

/-- Where a thread is in `__nvm_region_allocator`: outside, before the load, or before the
compare-and-swap with the `old_curr_addr` it has loaded. -/
inductive GrowPC where
  | idle
  | load (alignment size : ℕ)
  | cas (alignment size old : ℕ)
  deriving DecidableEq, Repr

/-- `curr_addr`, and of every thread its control state and its `*memptr`. -/
structure GrowState where
  curr : ℕ
  pc : ℕ → GrowPC
  memptr : ℕ → ℕ

/-- A thread starts a call or takes a step. -/
inductive GrowAct where
  | call (t : ℕ) (alignment size : UInt64)
  | run (t : ℕ)
  deriving DecidableEq

/-- A call that returns, with its arguments and its result. -/
structure Returned where
  thread : ℕ
  alignment : ℕ
  size : ℕ
  code : ℤ
  deriving DecidableEq, Repr

/-- Control of thread `t` goes to `pc`. -/
def GrowState.goto (s : GrowState) (t : ℕ) (pc : GrowPC) : GrowState :=
  { s with pc := Function.update s.pc t pc }

/-- One action, and the call that returns with it. -/
def growStep (r : Region) (s : GrowState) : GrowAct → GrowState × Option Returned
  | .call t alignment size =>
    if s.pc t ≠ .idle then (s, none)
    else if argsOk alignment.toNat size.toNat then
      (s.goto t (.load alignment.toNat size.toNat), none)
    else (s, some ⟨t, alignment.toNat, size.toNat, -1⟩)
  | .run t =>
    match s.pc t with
    | .idle => (s, none)
    | .load alignment size =>
      if r.fits s.curr alignment size then (s.goto t (.cas alignment size s.curr), none)
      else (s.goto t .idle, some ⟨t, alignment, size, -1⟩)
    | .cas alignment size old =>
      if s.curr = old then
        ({ s.goto t .idle with
            curr := bumpNext old alignment size
            memptr := Function.update s.memptr t (alignAdj old alignment) },
          some ⟨t, alignment, size, 1⟩)
      else (s.goto t .idle, some ⟨t, alignment, size, 0⟩)

/-- One action of a run with the states before and after it. -/
structure Move where
  before : GrowState
  act : GrowAct
  after : GrowState
  ret : Option Returned

/-- The move from a state by an action. -/
def growMove (r : Region) (s : GrowState) (a : GrowAct) : Move :=
  ⟨s, a, (growStep r s a).1, (growStep r s a).2⟩

/-- The moves of a run. -/
def moves (r : Region) : GrowState → List GrowAct → List Move
  | _, [] => []
  | s, a :: as => growMove r s a :: moves r (growStep r s a).1 as

/-- A region that nobody is allocating from. -/
def GrowState.quiet (curr : UInt64) (memptr : ℕ → ℕ) : GrowState :=
  ⟨curr.toNat, fun _ => .idle, memptr⟩

end Ralloc
