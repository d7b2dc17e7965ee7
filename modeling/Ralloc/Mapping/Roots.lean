import Ralloc.Machine.Exec
import Ralloc.Model.Mapping
import Ralloc.Model.CrossPtr

/-!
# Persistent roots after a restart

`set_root` assigns a `void*`. That selects the template assignment, which subtracts the start of the
region from any pointer, null included; the assignment for `nullptr_t` and the constructor would
have stored 0. `rootOk_iff`: a root reads back right exactly unless the last thing stored in it was
null.
-/

namespace Ralloc

/-- The step of the machine is `set_root`. -/
lemma exec_rootSet {cfg : Cfg} {t p i q : ℕ} {spur : Bool} {h : Heap} {roots : ℕ → ℕ}
    (e : setRoot cfg.heapStart h.roots p i = some (q, roots)) :
    exec cfg t spur h (.rootSet p i) =
      ({ h with roots := roots, ret := Function.update h.ret t q }, .rootFlush p i) := by
  rw [setRoot] at e
  split at e
  case isTrue hi =>
    cases e
    rw [exec, check, if_pos hi]
    simp only [isNullCross, castCross, decide_eq_true_eq]
    split <;> rfl
  case isFalse => cases e

section run

variable {filesize : ℕ}

/-- A heap that is mapped: where its superblock file is, and its roots. -/
structure Rooted (filesize : ℕ) where
  now : MapAddr filesize
  roots : ℕ → ℕ

/-- `Regions::regions_address` of the superblocks. -/
def Rooted.start (first : MapAddr filesize) (r : Rooted filesize) : ℕ :=
  regionsAddress SBSIZE first.addr r.now.addr

/-- A pointer into a region that moves from `start` to `start'`. -/
def relocate (start start' p : ℕ) : ℕ := if p = 0 then 0 else p - start + start'

/-- What `set_root` may be called with: null, or an address behind the first superblock. -/
def Rooted.Valid (first : MapAddr filesize) (r : Rooted filesize) (p : ℕ) : Prop :=
  p = 0 ∨ r.start first + SBSIZE ≤ p ∧ p < r.now.addr + filesize

/-- The calls of `set_root` and the restarts of a heap that was created at `first`, with what was
last stored in each root, if anything, as it has moved since. -/
inductive RootRun (first : MapAddr filesize) : Rooted filesize → (ℕ → Option ℕ) → Prop
  | create : RootRun first ⟨first, fun _ => assignNullCross⟩ fun _ => none
  | set {r last p i q roots} (run : RootRun first r last) (valid : r.Valid first p)
    (call : setRoot (r.start first) r.roots p i = some (q, roots)) :
    RootRun first ⟨r.now, roots⟩ (Function.update last i (some p))
  | restart {r last} (run : RootRun first r last) (now : MapAddr filesize) :
    RootRun first ⟨now, r.roots⟩ fun i =>
      (last i).map (relocate (r.start first) (Rooted.start first ⟨now, r.roots⟩))

/-- The functions agree that root `i` is `v`. -/
structure RootOk (first : MapAddr filesize) (r : Rooted filesize) (i v : ℕ) : Prop where
  get : getRoot (r.start first) r.roots i = some v
  set : ∀ p, (setRoot (r.start first) r.roots p i).map Prod.fst = some v
  gc : visitsRoot r.roots i = false ↔ v = 0

/-- What is in a root, by what was last stored in it. -/
def Rooted.Stored (first : MapAddr filesize) (r : Rooted filesize) (off : ℕ) : Option ℕ → Prop
  | none => off = 0
  | some p => off ≠ 0 ∧ (p ≠ 0 → p = r.start first + off ∧ p < r.now.addr + filesize)

variable {first : MapAddr filesize} {r : Rooted filesize} {last : ℕ → Option ℕ} {i : ℕ}

/-- The start of the region is not the null pointer. -/
lemma Rooted.start_pos (first : MapAddr filesize) (r : Rooted filesize) : 0 < r.start first := by
  have h := le_alignUp (n := first.addr + PAGESIZE) (show 0 < SBSIZE by decide)
  rw [Rooted.start, regionsAddress_sbs]
  unfold PAGESIZE at h ⊢
  omega

/-- The heap start is an address. -/
lemma Rooted.start_lt (first : MapAddr filesize) (r : Rooted filesize) : r.start first < WORD :=
  Nat.mod_lt _ (by decide)

/-- A restart moves the start by as much as the file. -/
lemma Rooted.start_add (first : MapAddr filesize) (r r' : Rooted filesize) :
    r.start first + r'.now.addr = r'.start first + r.now.addr := by
  rw [Rooted.start, Rooted.start, regionsAddress_sbs, regionsAddress_sbs]
  omega

/-- The assignment in `set_root`. -/
lemma Rooted.stored_assign {p : ℕ} (valid : r.Valid first p) :
    r.Stored first (assignCross (r.start first) p) (some p) := by
  have pos := r.start_pos first
  have lt := r.start_lt first
  have bound := r.now.bound
  unfold ADDR at bound
  unfold WORD at lt
  rcases valid with rfl | ⟨lo, hi⟩
  · refine ⟨?_, fun ne => absurd rfl ne⟩
    -- the distance from the start back to null
    rw [assignCross, untranslate]
    unfold WORD
    omega
  · rw [SBSIZE_eq] at lo
    have e : assignCross (r.start first) p = p - r.start first := by
      rw [assignCross, untranslate]
      unfold WORD
      omega
    rw [e]
    exact ⟨by omega, fun _ => ⟨by omega, hi⟩⟩

/-- A restart. -/
lemma Rooted.stored_restart {v : Option ℕ} {off : ℕ} (st : r.Stored first off v)
    (now : MapAddr filesize) : Rooted.Stored first ⟨now, r.roots⟩ off
      (v.map (relocate (r.start first) (Rooted.start first ⟨now, r.roots⟩))) := by
  cases v with
  | none => exact st
  | some p =>
    refine ⟨st.1, fun ne => ?_⟩
    have moved := r.start_add first ⟨now, r.roots⟩
    simp only at moved
    by_cases hp : p = 0
    · exact absurd (if_pos hp) ne
    · obtain ⟨e, hi⟩ := st.2 hp
      simp only [relocate, if_neg hp]
      omega

/-- What is in a root after a run. -/
lemma RootRun.stored (run : RootRun first r last) (i : ℕ) :
    r.Stored first (r.roots i) (last i) := by
  induction run with
  | create => rfl
  | @set r last p j q roots run valid call ih =>
    rw [setRoot] at call
    split at call
    case isTrue =>
      cases call
      by_cases e : i = j
      · subst e
        simp only [Function.update_self]
        exact Rooted.stored_assign valid
      · simp only [Function.update_of_ne e]
        exact ih
    case isFalse => cases call
  | restart run now ih => exact Rooted.stored_restart ih now

/-- A root that holds what was last stored in it. -/
lemma rootOk_of_cast {v : ℕ} (hi : i < MAX_ROOTS) (cast : castCross (r.start first) (r.roots i) = v)
    (null : r.roots i = 0 ↔ v = 0) : RootOk first r i v := by
  refine ⟨?_, fun p => ?_, ?_⟩
  · rw [getRoot, if_pos hi, cast]
  · rw [setRoot, if_pos hi, Option.map_some, ← cast]
    by_cases h0 : r.roots i = 0
    · simp [isNullCross, castCross, h0]
    · simp [isNullCross, h0]
  · simpa [visitsRoot, isNullCross] using null

/-- After any calls of `set_root` and any restarts, `get_root`, `set_root` and the garbage
collection find the last value of a root, moved with the region, exactly unless this value was
null. -/
theorem rootOk_iff (run : RootRun first r last) (hi : i < MAX_ROOTS) :
    RootOk first r i ((last i).getD 0) ↔ last i ≠ some 0 := by
  have st := run.stored i
  constructor
  · intro ok e
    rw [e] at ok st
    have absent : visitsRoot r.roots i = false := ok.gc.2 rfl
    exact st.1 (by simpa [visitsRoot, isNullCross] using absent)
  · intro ne
    cases e : last i with
    | none =>
      rw [e] at st
      have off : r.roots i = 0 := st
      exact rootOk_of_cast hi (if_pos (decide_eq_true off)) (iff_of_true off rfl)
    | some p =>
      rw [e] at st ne
      have hp : p ≠ 0 := fun h => ne (by rw [h])
      obtain ⟨hp', lt⟩ := st.2 hp
      have bound := r.now.bound
      unfold ADDR at bound
      have null : isNullCross (r.roots i) = false := decide_eq_false st.1
      refine rootOk_of_cast hi ?_ (iff_of_false st.1 hp)
      rw [castCross, null, if_neg (by decide), translate, Nat.mod_eq_of_lt (by unfold WORD; omega),
        ← hp', Option.getD_some]

end run

/-- The sample is mapped at a page. -/
lemma sampleFirst_page : 2 ^ 40 % PAGESIZE = 0 := by decide

/-- And ends below the 48 bit limit. -/
lemma sampleFirst_end : 2 ^ 40 + 2 ^ 31 ≤ ADDR := by decide

/-- A file of 2 GiB mapped at `2 ^ 40`. -/
def sampleFirst : MapAddr (2 ^ 31) := ⟨2 ^ 40, sampleFirst_page, sampleFirst_end⟩

/-- The file mapped one page further on. -/
def sampleNow : MapAddr (2 ^ 31) := ⟨2 ^ 40 + 2 ^ 12, by decide, by decide⟩

/-- A new heap. -/
def sampleRooted : Rooted (2 ^ 31) := ⟨sampleFirst, fun _ => assignNullCross⟩

/-- Setting root 7 of a new heap. -/
lemma setRoot_sample (p : ℕ) :
    setRoot (sampleRooted.start sampleFirst) sampleRooted.roots p 7 = some (0, Function.update
      sampleRooted.roots 7 (assignCross (sampleRooted.start sampleFirst) p)) := by
  rw [setRoot, if_pos (by decide)]
  rfl

/-- Root 7 is set to the third superblock, and the file is then mapped one page further on. -/
theorem root_moved : ∃ r last, RootRun sampleFirst r last ∧
    RootOk sampleFirst r 7 (2 ^ 40 + 3 * 2 ^ 16 + 2 ^ 12) := by
  have valid : sampleRooted.Valid sampleFirst (2 ^ 40 + 3 * 2 ^ 16) := .inr (by decide +kernel)
  have run := RootRun.restart (.set .create valid (setRoot_sample _)) sampleNow
  exact ⟨_, _, run, (rootOk_iff run (by decide)).2 (by decide +kernel)⟩

/-- Root 7 is set to null, and the file is then mapped one page further on. `get_root` returns 4096,
and the garbage collection takes this for a root. -/
theorem null_root_lost : ∃ r last, RootRun sampleFirst r last ∧ last 7 = some 0 ∧
    getRoot (r.start sampleFirst) r.roots 7 = some 4096 ∧ visitsRoot r.roots 7 = true := by
  have run := RootRun.restart (.set .create (.inl rfl) (setRoot_sample 0)) sampleNow
  exact ⟨_, _, run, by decide +kernel, by decide +kernel, by decide +kernel⟩

end Ralloc
