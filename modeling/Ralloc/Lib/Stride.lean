import Mathlib.Data.List.Range
import Mathlib.Tactic.Ring

/-!
# Strides

The numbers that a loop `for (b = lo; b < hi; b += step)` visits, and those that a loop visits which
starts again behind every stop of an increasing list of stops. `mem_gaps` says what the second ones
are without the loop: the distance to the last stop at or below them is a positive multiple of
`step`.
-/

namespace Lib

/-- The numbers `lo`, `lo + step`, ... below `hi`. -/
def stride (step lo hi : ℕ) : List ℕ :=
  (List.range ((hi - lo + (step - 1)) / step)).map fun j => lo + j * step

variable {step lo hi : ℕ}

/-- There is no stop if there is no room. -/
lemma stride_nil (pos : 0 < step) (h : hi ≤ lo) : stride step lo hi = [] := by
  have : (hi - lo + (step - 1)) / step = 0 := Nat.div_eq_of_lt (by omega)
  rw [stride, this]
  rfl

/-- The first turn of the loop. -/
lemma stride_cons (pos : 0 < step) (h : lo < hi) :
    stride step lo hi = lo :: stride step (lo + step) hi := by
  have e : (hi - lo + (step - 1)) / step = (hi - (lo + step) + (step - 1)) / step + 1 := by
    by_cases hs : lo + step ≤ hi
    · rw [show hi - lo + (step - 1) = hi - (lo + step) + (step - 1) + step by omega,
        Nat.add_div_right _ pos]
    · rw [Nat.div_eq_of_lt (show hi - (lo + step) + (step - 1) < step by omega),
        show hi - lo + (step - 1) = hi - lo - 1 + step by omega, Nat.add_div_right _ pos,
        Nat.div_eq_of_lt (by omega)]
  rw [stride, e, List.range_succ_eq_map, List.map_cons, List.map_map, stride]
  congr 1
  · simp
  · refine List.map_congr_left fun j _ => ?_
    simp only [Function.comp_apply, Nat.succ_eq_add_one]
    ring

/-- The loop visits what is a multiple of `step` above `lo` and below `hi`. -/
lemma mem_stride (pos : 0 < step) {c : ℕ} :
    c ∈ stride step lo hi ↔ ∃ j, c = lo + j * step ∧ c < hi := by
  have key : ∀ j, j < (hi - lo + (step - 1)) / step ↔ lo + j * step < hi := by
    intro j
    rw [Nat.lt_iff_add_one_le, Nat.le_div_iff_mul_le pos, Nat.add_mul, Nat.one_mul]
    omega
  simp only [stride, List.mem_map, List.mem_range]
  constructor
  · rintro ⟨j, hj, rfl⟩
    exact ⟨j, rfl, (key j).1 hj⟩
  · rintro ⟨j, rfl, hj⟩
    exact ⟨j, (key j).2 hj, rfl⟩

/-- Two stops are a step apart. -/
lemma stride_spaced : (stride step lo hi).Pairwise fun a b => a + step ≤ b := by
  rw [stride, List.pairwise_map]
  refine List.Pairwise.imp ?_ List.pairwise_lt_range
  intro i j hij
  have : (i + 1) * step ≤ j * step := Nat.mul_le_mul_right _ hij
  rw [Nat.add_mul, Nat.one_mul] at this
  omega

/-- The numbers that the loop visits when it starts again `step` behind every stop. -/
def gaps (step hi : ℕ) : ℕ → List ℕ → List ℕ
  | lo, [] => stride step lo hi
  | lo, m :: ms => stride step lo m ++ gaps step hi (m + step) ms

/-- Nothing below the start is visited. -/
lemma le_of_mem_gaps (pos : 0 < step) {ms : List ℕ} (sorted : ms.Pairwise (· < ·))
    (h : ∀ m ∈ ms, lo ≤ m + step) {c : ℕ} (hc : c ∈ gaps step hi lo ms) : lo ≤ c := by
  induction ms generalizing lo with
  | nil =>
    obtain ⟨j, rfl, -⟩ := (mem_stride pos).1 hc
    omega
  | cons m ms ih =>
    obtain ⟨lt, sorted⟩ := List.pairwise_cons.1 sorted
    rw [gaps, List.mem_append] at hc
    rcases hc with hc | hc
    · obtain ⟨j, rfl, -⟩ := (mem_stride pos).1 hc
      omega
    · have h1 := ih sorted (fun m' hm' => Nat.add_le_add_right (lt m' hm').le _) hc
      have h2 := h m List.mem_cons_self
      omega

/-- What is visited lies `step` apart. -/
lemma gaps_spaced (pos : 0 < step) {ms : List ℕ} (sorted : ms.Pairwise (· < ·)) :
    (gaps step hi lo ms).Pairwise fun a b => a + step ≤ b := by
  induction ms generalizing lo with
  | nil => exact stride_spaced
  | cons m ms ih =>
    obtain ⟨lt, sorted⟩ := List.pairwise_cons.1 sorted
    refine List.pairwise_append.2 ⟨stride_spaced, ih sorted, fun a ha b hb => ?_⟩
    obtain ⟨j, -, hlt⟩ := (mem_stride pos).1 ha
    have hle := le_of_mem_gaps pos sorted
      (fun m' hm' => Nat.add_le_add_right (lt m' hm').le step) hb
    omega

/-- What is visited, without the loop: a multiple of `step` above the start if no stop is at or
below it, and otherwise a positive multiple of `step` above the last stop at or below it; and there
is the end or another stop above it. -/
lemma mem_gaps (pos : 0 < step) {ms : List ℕ} (sorted : ms.Pairwise (· < ·)) {c : ℕ} :
    c ∈ gaps step hi lo ms ↔
      (∃ j, c = lo + j * step ∧ (∀ m ∈ ms, c < m) ∧ (c < hi ∨ ms ≠ [])) ∨
      ∃ m ∈ ms, (∀ m' ∈ ms, m' ≤ c → m' ≤ m) ∧ (∃ j, c = m + (j + 1) * step) ∧
        (c < hi ∨ ∃ m' ∈ ms, c < m') := by
  induction ms generalizing lo with
  | nil => simp [gaps, mem_stride pos]
  | cons m ms ih =>
    obtain ⟨lt, sorted⟩ := List.pairwise_cons.1 sorted
    rw [gaps, List.mem_append, mem_stride pos, ih sorted]
    constructor
    · rintro (⟨j, e, hc⟩ | ⟨j, e, hc, hend⟩ | ⟨x, hx, near, ⟨j, e⟩, hend⟩)
      · refine .inl ⟨j, e, fun m' hm' => ?_, .inr (by simp)⟩
        rcases List.mem_cons.1 hm' with rfl | hm'
        · exact hc
        · exact hc.trans (lt m' hm')
      · refine .inr ⟨m, List.mem_cons_self, fun m' hm' hle => ?_, ⟨j, by rw [e]; ring⟩, ?_⟩
        · rcases List.mem_cons.1 hm' with rfl | hm'
          · exact le_rfl
          · exact absurd (hc m' hm') (by omega)
        · refine hend.imp_right fun hne => ?_
          obtain ⟨m', hm'⟩ := List.exists_mem_of_ne_nil ms hne
          exact ⟨m', List.mem_cons_of_mem _ hm', hc m' hm'⟩
      · refine .inr ⟨x, List.mem_cons_of_mem _ hx, fun m' hm' hle => ?_, ⟨j, e⟩, ?_⟩
        · rcases List.mem_cons.1 hm' with rfl | hm'
          · exact (lt x hx).le
          · exact near m' hm' hle
        · exact hend.imp_right fun ⟨m', hm', hlt⟩ => ⟨m', List.mem_cons_of_mem _ hm', hlt⟩
    · rintro (⟨j, e, hc, -⟩ | ⟨x, hx, near, ⟨j, e⟩, hend⟩)
      · exact .inl ⟨j, e, hc m List.mem_cons_self⟩
      · have hpos : 0 < (j + 1) * step := Nat.mul_pos (by omega) pos
        rcases List.mem_cons.1 hx with rfl | hx'
        · refine .inr (.inl ⟨j, by rw [e]; ring, fun m' hm' => ?_, hend.imp_right ?_⟩)
          · by_contra hle
            have h1 := near m' (List.mem_cons_of_mem _ hm') (by omega)
            have h2 := lt m' hm'
            omega
          · rintro ⟨m', hm', hlt⟩ rfl
            rw [List.mem_singleton] at hm'
            omega
        · refine .inr (.inr ⟨x, hx', fun m' hm' => near m' (List.mem_cons_of_mem _ hm'),
            ⟨j, e⟩, ?_⟩)
          refine hend.imp_right ?_
          rintro ⟨m', hm', hlt⟩
          rcases List.mem_cons.1 hm' with rfl | hm'
          · have := lt x hx'
            omega
          · exact ⟨m', hm', hlt⟩

end Lib
