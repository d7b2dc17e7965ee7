import Ralloc.Machine.Reach

/-!
# Computing with runs

`runActs` runs a list of actions and refuses one that is not allowed, so that what it returns is
reachable (`Reach.runActs`). It finds size classes by comparison (`firstClass`) and not in the
lookup table, which has an entry for every size. `sample` is a heap of two expansions to run on.
-/

namespace Ralloc

variable {cfg : Cfg} {s s' : State}

/-- `Act.Allowed` as a test, for all actions but the writes of clients. -/
def Act.allowed (s : State) : Act → Bool
  | .malloc _ size => decide (size ≤ MAX_SZ ∨ (size + SBSIZE - 1) / SBSIZE * SBSIZE < HALF)
  | .free _ p => decide (s.heap.client p = .held)
  | .exit _ => true
  | .setRoot _ _ _ => true
  | .write _ _ => false
  | .run t _ =>
    match s.pc t with
    | .popCas l _ old _ _ => decide (s.heap.pushes l - old.stamp < CNT)
    | _ => true

/-- The test is right. -/
lemma Act.allowed_sound {a : Act} (h : a.allowed s = true) : a.Allowed cfg s := by
  cases a with
  | malloc t size => simpa [Act.allowed, Act.Allowed] using h
  | free t p => simpa [Act.allowed, Act.Allowed] using h
  | exit t => trivial
  | setRoot t p i => trivial
  | write a v => cases h
  | run t spur =>
    show NoWrap s.heap (s.pc t)
    unfold Act.allowed at h
    unfold NoWrap
    split <;> simp_all

/-- The first class from `sc` on whose blocks have room for `size` bytes. -/
def firstClass (size : ℕ) : ℕ → ℕ → ℕ
  | 0, sc => sc
  | n + 1, sc => if size ≤ blockSize sc then sc else firstClass size n (sc + 1)

/-- Block sizes grow with the class. -/
lemma blockSize_mono {sc sc' : ℕ} (le : sc ≤ sc') (lt : sc' < MAX_SZ_IDX) :
    blockSize sc ≤ blockSize sc' := by
  induction sc', le using Nat.le_induction with
  | base => exact le_rfl
  | succ sc' _ ih => exact le_trans (ih (by omega)) (blockSize_lt_succ lt).le

/-- The search from below finds the least class that fits. -/
lemma firstClass_eq {size target : ℕ} (lt : target < MAX_SZ_IDX) (fits : size ≤ blockSize target)
    (least : 1 < target → blockSize (target - 1) < size) {sc n : ℕ} (pos : 0 < sc)
    (le : sc ≤ target) (fuel : target < sc + n) : firstClass size n sc = target := by
  induction n generalizing sc with
  | zero => omega
  | succ n ih =>
    rw [firstClass]
    by_cases e : sc = target
    · rw [e, if_pos fits]
    · have h1 := blockSize_mono (show sc ≤ target - 1 by omega) (by omega)
      have h2 := least (by omega)
      rw [if_neg (by omega)]
      exact ih (by omega) (by omega) (by omega)

/-- The lookup table finds the first class with room. -/
lemma firstClass_spec {size : ℕ} (h : size ≤ MAX_SZ) :
    firstClass size MAX_SZ_IDX 1 = getSizeclass size := by
  obtain ⟨hsc, h1, h2⟩ := getSizeclass_spec h
  have h3 := hsc.2
  exact firstClass_eq hsc.2 h1 h2 (by decide) hsc.1 (by omega)

/-- `step` without the lookup table. -/
def quickStep (cfg : Cfg) (s : State) : Act → Option State
  | .malloc t size =>
    if s.pc t = .idle ∧ size ≤ MAX_SZ then
      let sc := firstClass size MAX_SZ_IDX 1
      some (s.put t ({ s.heap with req := Function.update s.heap.req t size },
        if (s.heap.cache t sc).num = 0 then .popLoad (.part sc) sc else .popBlock sc))
    else step cfg s (.malloc t size)
  | a => step cfg s a

/-- The step for evaluation is the step of the machine. -/
lemma quickStep_eq (cfg : Cfg) (s : State) (a : Act) : quickStep cfg s a = step cfg s a := by
  cases a with
  | malloc t size =>
    rw [quickStep]
    split
    case isTrue h =>
      rw [step, if_pos h.1, callMalloc, if_neg (by omega), firstClass_spec h.2]
    case isFalse => rfl
  | _ => rfl

/-- Run a list of actions. -/
def runActs (cfg : Cfg) : State → List Act → Option State
  | s, [] => some s
  | s, a :: as => if a.allowed s then (quickStep cfg s a).bind (runActs cfg · as) else none

/-- What a list of actions leads to is reachable. -/
lemma Reach.runActs (h : Reach cfg s) {as : List Act} (e : runActs cfg s as = some s') :
    Reach cfg s' := by
  induction as generalizing s with
  | nil =>
    cases e
    exact h
  | cons a as ih =>
    rw [Ralloc.runActs] at e
    split at e
    case isTrue ha =>
      rw [quickStep_eq] at e
      obtain ⟨s₁, h1, h2⟩ := Option.bind_eq_some_iff.1 e
      exact ih (Relation.ReflTransGen.tail h ⟨a, Act.allowed_sound ha, h1⟩) h2
    case isFalse => cases e

/-- A superblock region of 2 GiB mapped at `2 ^ 40`. -/
def sample : Cfg where
  base := 2 ^ 40
  filesize := 2 ^ 31
  heapStart := 2 ^ 40 + 2 ^ 16
  header := by decide
  aligned := by decide
  warm := by decide
  bound := by decide

/-- A superblock region of 8 GiB mapped at `2 ^ 40`. -/
def big : Cfg where
  base := 2 ^ 40
  filesize := 2 ^ 33
  heapStart := 2 ^ 40 + 2 ^ 16
  header := by decide
  aligned := by decide
  warm := by decide
  bound := by decide

/-- A reachable state in which a given test holds. -/
lemma reach_of_test (as : List Act) (test : State → Bool)
    (e : (runActs sample (init sample) as).any test = true) :
    ∃ s, Reach sample s ∧ test s = true := by
  cases hs : runActs sample (init sample) as with
  | none => rw [hs] at e; cases e
  | some s => exact ⟨s, Reach.runActs Relation.ReflTransGen.refl hs, by rwa [hs] at e⟩

end Ralloc
