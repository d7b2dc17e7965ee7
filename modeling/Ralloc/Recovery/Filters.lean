import Ralloc.Machine.Trace
import Ralloc.Recovery.Mark

/-!
# What a program's own filter functions mark

If every root that is not null has a filter function, and no address can be reached with two types,
the mark phase has marked what is reachable by the types (`typed_mark_spec`).

A program whose filter functions find pointers of the block only never marks more than the
conservative mark phase does, and without filter functions of its own it marks the same
(`own_marks_sub`).
-/

namespace Ralloc

open Lib Mark

variable {T : Type} {F : Filters T} {start : ℕ} {h : Heap} {m : Mark T} {order : List ℕ}
  {x y : T × ℕ} {fuel : ℕ}

/-- What can be reached from the roots by the types. -/
inductive TypedReach (F : Filters T) (start : ℕ) (h : Heap) : T × ℕ → Prop
  | root {i : ℕ} {τ : T} (lt : i < MAX_ROOTS) (visits : visitsRoot h.roots i = true)
    (reg : F.root i = some τ) (range : inRange start h (castCross start (h.roots i)) = true) :
    TypedReach F start h (τ, castCross start (h.roots i))
  | step {x y : T × ℕ} (reached : TypedReach F start h x) (mem : y ∈ F.calls start h x)
    (range : inRange start h y.2 = true) : TypedReach F start h y

/-- No address can be reached with two types. -/
def OneType (F : Filters T) (start : ℕ) (h : Heap) : Prop :=
  ∀ x y, TypedReach F start h x → TypedReach F start h y → x.2 = y.2 → x = y

/-- What the worklist can reach. -/
lemma reachFrom_iff (perm : order.Perm (List.range MAX_ROOTS)) :
    ReachFrom (inside start h (order.filterMap (rootItem F start h)))
      (fun x => inside start h (F.calls start h x)) x ↔ TypedReach F start h x := by
  constructor
  · intro hx
    induction hx with
    | root mem =>
      obtain ⟨mem, range⟩ := List.mem_filter.1 mem
      obtain ⟨i, hi, e⟩ := List.mem_filterMap.1 mem
      rw [rootItem] at e
      split at e
      case isFalse => cases e
      case isTrue visits =>
        obtain ⟨τ, reg, rfl⟩ := Option.map_eq_some_iff.1 e
        exact .root (List.mem_range.1 (perm.mem_iff.1 hi)) visits reg range
    | step _ mem ih =>
      obtain ⟨mem, range⟩ := List.mem_filter.1 mem
      exact .step ih mem range
  · intro hx
    induction hx with
    | @root i τ lt visits reg range =>
      refine .root (List.mem_filter.2 ⟨List.mem_filterMap.2 ⟨i, ?_, ?_⟩, range⟩)
      · exact perm.mem_iff.2 (List.mem_range.2 lt)
      · rw [rootItem, if_pos visits, reg]
        rfl
    | step _ mem range ih => exact .step ih (List.mem_filter.2 ⟨mem, range⟩)

/-- What is marked if no address can be reached with two types. -/
lemma run_marks (reg : Registered F h) (one : OneType F start h)
    (perm : order.Perm (List.range MAX_ROOTS)) (enough : h.currAddr - start < fuel) :
    ∃ m, run F start h order fuel = .done m ∧ (m.pushed.map Prod.snd).Nodup ∧
      ∀ a, a ∈ m.markedBlk ↔ ∃ τ, TypedReach F start h (τ, a) := by
  obtain ⟨m, e, settled⟩ := run_settled reg perm enough
  refine ⟨m, e, settled.nodup, fun a => (settled.mem a).trans ?_⟩
  have mem : ∀ {x}, x ∈ m.abs.pushed ↔ TypedReach F start h x := fun {x} =>
    (settled.mem_iff fun x y hx hy e =>
      one x y ((reachFrom_iff perm).1 hx) ((reachFrom_iff perm).1 hy) e).trans (reachFrom_iff perm)
  constructor
  · rintro ⟨⟨τ, a⟩, hx, rfl⟩
    exact ⟨τ, mem.1 hx⟩
  · rintro ⟨τ, hx⟩
    exact ⟨(τ, a), mem.2 hx, rfl⟩

/-- With filter functions for all roots, and if no address can be reached with two types, the mark
phase ends and has marked what can be reached by the types, whatever the order of the roots. Nothing
is filtered twice. -/
theorem typed_mark_spec (F : Filters T) (start : ℕ) (h : Heap) (reg : Registered F h)
    (one : OneType F start h) : ∃ marked : Finset ℕ,
      (∀ a, a ∈ marked ↔ ∃ τ, TypedReach F start h (τ, a)) ∧
      ∀ order : List ℕ, order.Perm (List.range MAX_ROOTS) → ∀ fuel, h.currAddr - start < fuel →
        ∃ m, run F start h order fuel = .done m ∧ m.markedBlk = marked ∧
          (m.pushed.map Prod.snd).Nodup := by
  obtain ⟨m₀, -, -, mem₀⟩ := run_marks reg one (.refl _) (Nat.lt_succ_self _)
  refine ⟨m₀.markedBlk, mem₀, fun order perm fuel enough => ?_⟩
  obtain ⟨m, e, nodup, mem⟩ := run_marks reg one perm enough
  exact ⟨m, e, Finset.ext fun a => (mem a).trans (mem₀ a).symm, nodup⟩

/-- A heap with one superblock, and root 0 points to it. -/
def rooted : Heap :=
  { blank sample with
    currAddr := sample.sb 2
    roots := fun i => if i = 0 then SBSIZE else 0 }

/-- Turns for every address of `rooted`. -/
lemma rooted_fuel : rooted.currAddr - sample.heapStart < 131073 := by decide +kernel

/-- A program with pairs, of type `true`, in which the second one is a leaf, 64 bytes behind the
first. -/
def pairs : Filters Bool :=
  ⟨false, fun τ => some fun _ a => if τ then [(false, a + 64)] else [], fun _ => some true⟩

/-- The pair and its second member are all that it can reach. -/
lemma pairs_reach {x : Bool × ℕ} (hx : TypedReach pairs sample.heapStart rooted x) :
    x = (true, sample.sb 1) ∨ x = (false, sample.sb 1 + 64) := by
  induction hx with
  | @root i τ lt visits reg range =>
    cases reg
    by_cases zero : i = 0
    · subst zero
      exact .inl (by decide +kernel)
    · simp [visitsRoot, rooted, isNullCross, zero] at visits
  | step _ mem range ih =>
    rcases ih with rfl | rfl
    · exact .inr (List.mem_singleton.1 mem)
    · exact absurd mem List.not_mem_nil

/-- Both members of a pair are marked. -/
theorem typed_mark_sample : ∃ m : Mark Bool,
    run pairs sample.heapStart rooted (List.range MAX_ROOTS) 131073 = .done m ∧
      sample.sb 1 ∈ m.markedBlk ∧ sample.sb 1 + 64 ∈ m.markedBlk := by
  have one : OneType pairs sample.heapStart rooted := by
    intro x y hx hy e
    rcases pairs_reach hx with rfl | rfl <;> rcases pairs_reach hy with rfl | rfl <;> simp_all
  obtain ⟨marked, mem, spec⟩ :=
    typed_mark_spec pairs sample.heapStart rooted (fun _ _ _ => Option.some_ne_none _) one
  obtain ⟨m, e, rfl, -⟩ := spec _ (.refl _) _ rooted_fuel
  have cast : castCross sample.heapStart (rooted.roots 0) = sample.sb 1 := by decide +kernel
  have root : TypedReach pairs sample.heapStart rooted (true, sample.sb 1) := by
    rw [← cast]
    exact .root (by decide) rfl rfl (by decide +kernel)
  exact ⟨m, e, (mem _).2 ⟨_, root⟩,
    (mem _).2 ⟨_, .step root (List.mem_singleton_self (false, sample.sb 1 + 64))
    (by decide +kernel)⟩⟩

section conservative

/-- The specialisations find pointers of the block only. -/
def Honest (F : Filters T) (start : ℕ) (h : Heap) : Prop :=
  ∀ τ calls, F.own τ = some calls → ∀ a, ∀ y ∈ calls h.mem a, inRange start h y.2 = true →
    ∃ i < (h.desc (sbIndex start a)).blockSize, h.link (a + i) ≠ 0 ∧ h.link (a + i) = y.2

/-- The filter functions of an honest program lead to a set that is closed without them. -/
lemma Honest.mem_closed (honest : Honest F start h) {S : Set ℕ} (closed : Closed start h S)
    (hx : x.2 ∈ S) (hy : y ∈ F.calls start h x) (range : inRange start h y.2 = true) : y.2 ∈ S := by
  obtain ⟨i, hi, ne, e⟩ :
      ∃ i < (h.desc (sbIndex start x.2)).blockSize, h.link (x.2 + i) ≠ 0 ∧
        h.link (x.2 + i) = y.2 := by
    cases own : F.own x.1 with
    | some calls =>
      rw [Filters.calls, own] at hy
      exact honest x.1 calls own x.2 y hy range
    | none =>
      obtain ⟨i, hi, ne, rfl⟩ := (mem_calls_default own).1 hy
      exact ⟨i, hi, ne, rfl⟩
  rw [← e] at range ⊢
  exact closed.link_mem hx hi ne range

/-- A program whose specialisations find pointers of the block only never marks more than the
conservative mark phase, and a program without specialisations marks the same. -/
theorem own_marks_sub (reg : Registered F h) (honest : Honest F start h)
    (perm : order.Perm (List.range MAX_ROOTS)) (enough : h.currAddr - start < fuel) :
    ∃ m m₀, run F start h order fuel = .done m ∧ run conservative start h order fuel = .done m₀ ∧
      m.markedBlk ⊆ m₀.markedBlk ∧ ((∀ τ, F.own τ = none) → m.markedBlk = m₀.markedBlk) := by
  obtain ⟨m, e, settled⟩ := run_settled reg perm enough
  obtain ⟨m₀, e₀, -, least⟩ := conservative_isLeast perm enough
  have sub : m.markedBlk ⊆ m₀.markedBlk := by
    intro a ha
    obtain ⟨x, hx, rfl⟩ := (settled.mem a).1 ha
    exact mem_of_reachFrom least.1 (fun _ hx _ => honest.mem_closed least.1 hx) perm
      (settled.reached x hx)
  refine ⟨m, m₀, e, e₀, sub, fun none => sub.antisymm fun a ha => ?_⟩
  exact least.2 (closed_of_settled none reg perm settled) ha

/-- A program with one type whose blocks contain no pointers. -/
def leaves : Filters Unit := ⟨(), fun _ => some fun _ _ => [], fun _ => some ()⟩

/-- A leaf is marked by both. -/
theorem own_marks_sample : ∃ m : Mark Unit,
    run leaves sample.heapStart rooted (List.range MAX_ROOTS) 131073 = .done m ∧
      ∃ m₀, run conservative sample.heapStart rooted (List.range MAX_ROOTS) 131073 = .done m₀ ∧
        m.markedBlk ⊆ m₀.markedBlk := by
  have honest : Honest leaves sample.heapStart rooted := by
    rintro τ calls e a y hy -
    cases e
    exact absurd hy List.not_mem_nil
  obtain ⟨m, m₀, e, e₀, sub, -⟩ :=
    own_marks_sub (fun _ _ _ => Option.some_ne_none _) honest (.refl _) rooted_fuel
  exact ⟨m, e, m₀, e₀, sub⟩

end conservative

end Ralloc
