import Ralloc.Lib.Keyed
import Ralloc.Model.Mark
import Mathlib.Order.Interval.Finset.Nat

/-!
# What the mark phase marks

The mark phase is an instance of `Lib.Keyed`: an item is an address with the type it was reached
with, and its key is the address, because `marked_blk` does not know of types. The stack of
functions goes along with the stack of nodes. If every root that is not null has a filter function,
the phase ends (`run_settled`).

`mark_spec` is about the conservative mark phase: whatever is in the heap, it ends, and it has
marked the least set that contains the roots and is closed under following pointers. The order of
the roots does not matter.
-/

namespace Ralloc

open Lib

variable {T : Type} {F : Filters T} {start : ℕ} {h : Heap} {m m' : Mark T} {order : List ℕ}
  {x y : T × ℕ} {i fuel : ℕ}

/-- The calls of `mark_func` for the block `x.2` of type `x.1`. -/
def Filters.calls (F : Filters T) (start : ℕ) (h : Heap) (x : T × ℕ) : List (T × ℕ) :=
  match F.own x.1 with
  | some calls => calls h.mem x.2
  | none => (List.range (h.desc (sbIndex start x.2)).blockSize).filterMap fun i =>
      if h.link (x.2 + i) ≠ 0 then some (F.char, h.link (x.2 + i)) else none

/-- Every root that is not null has a filter function. -/
def Registered (F : Filters T) (h : Heap) : Prop :=
  ∀ i < MAX_ROOTS, visitsRoot h.roots i = true → F.root i ≠ none

namespace Mark

/-- `S` contains the roots in range, and with an address what the words at the bytes of its block
decode to, as far as it is in range. -/
structure Closed (start : ℕ) (h : Heap) (S : Set ℕ) : Prop where
  root : ∀ i < MAX_ROOTS, h.roots i ≠ 0 → (start + h.roots i) % WORD ∈ Set.Ico start h.currAddr →
    (start + h.roots i) % WORD ∈ S
  word : ∀ a ∈ S, ∀ i < (h.desc (sbIndex start a)).blockSize,
    fromPptrOff (load h.mem (a + i) 8) (a + i) ≠ 0 →
    fromPptrOff (load h.mem (a + i) 8) (a + i) ∈ Set.Ico start h.currAddr →
    fromPptrOff (load h.mem (a + i) 8) (a + i) ∈ S

/-- The states before a turn of the loop over the stacks. -/
inductive Turns (F : Filters T) (start : ℕ) (h : Heap) (order : List ℕ) : Mark T → Prop
  | roots {m : Mark T} (e : markRoots F start h new order = .done m) : Turns F start h order m
  | turn {m m' : Mark T} (run : Turns F start h order m) (e : m.turn F start h = some m') :
    Turns F start h order m'

/-- Every state of a mark phase, also in the middle of its loops. -/
inductive Marking (F : Filters T) (start : ℕ) (h : Heap) (order : List ℕ) : Mark T → Prop
  | roots {m : Mark T} (k : ℕ) (e : markRoots F start h new (order.take k) = .done m) :
    Marking F start h order m
  | turns {m : Mark T} (run : Turns F start h order m) : Marking F start h order m
  | filter {m : Mark T} {node nodes func funcs} (run : Turns F start h order m)
    (hn : m.toFilterNode = node :: nodes) (hf : m.toFilterFunc = func :: funcs)
    (own : F.own func = none) (n : ℕ) : Marking F start h order
      (filterFirst F start h { m with toFilterNode := nodes, toFilterFunc := funcs } node n)
  | own {m : Mark T} {node nodes func funcs calls} (run : Turns F start h order m)
    (hn : m.toFilterNode = node :: nodes) (hf : m.toFilterFunc = func :: funcs)
    (own : F.own func = some calls) (n : ℕ) : Marking F start h order
      (((calls h.mem node).take n).foldl (markFunc start h)
        { m with toFilterNode := nodes, toFilterFunc := funcs })

/-- The worklist of a mark phase. -/
def abs (m : Mark T) : Keyed (T × ℕ) ℕ := ⟨m.markedBlk, m.toFilterFunc.zip m.toFilterNode, m.pushed⟩

/-- The stacks have the same height. -/
def Balanced (m : Mark T) : Prop := m.toFilterNode.length = m.toFilterFunc.length

/-- What `mark_func` does not turn away. -/
def inside (start : ℕ) (h : Heap) (l : List (T × ℕ)) : List (T × ℕ) :=
  l.filter fun x => inRange start h x.2

/-- What root `i` leads to. -/
def rootItem (F : Filters T) (start : ℕ) (h : Heap) (i : ℕ) : Option (T × ℕ) :=
  if visitsRoot h.roots i then (F.root i).map fun τ => (τ, castCross start (h.roots i)) else none

/-- The test of `in_range` as a set. -/
lemma inRange_iff {a : ℕ} : inRange start h a = true ↔ a ∈ Finset.Ico start h.currAddr := by
  simp [inRange]

section closed

variable {S : Set ℕ}

/-- Closed sets in the words of the mark phase. -/
lemma closed_iff : Closed start h S ↔
    (∀ i < MAX_ROOTS, visitsRoot h.roots i = true →
      inRange start h (castCross start (h.roots i)) = true → castCross start (h.roots i) ∈ S) ∧
    ∀ a ∈ S, ∀ i < (h.desc (sbIndex start a)).blockSize, h.link (a + i) ≠ 0 →
      inRange start h (h.link (a + i)) = true → h.link (a + i) ∈ S := by
  have cast : ∀ i, h.roots i ≠ 0 → castCross start (h.roots i) = (start + h.roots i) % WORD :=
    fun i ne => if_neg fun null => ne (of_decide_eq_true null)
  have visits : ∀ i, visitsRoot h.roots i = true ↔ h.roots i ≠ 0 := fun i => by
    simp [visitsRoot, isNullCross]
  have range : ∀ a, inRange start h a = true ↔ a ∈ Set.Ico start h.currAddr := fun a => by
    simp [inRange]
  constructor
  · rintro ⟨root, word⟩
    refine ⟨fun i lt hv hr => ?_, fun a ha i hi ne hr => word a ha i hi ne ((range _).1 hr)⟩
    have ne := (visits i).1 hv
    rw [cast i ne] at hr ⊢
    exact root i lt ne ((range _).1 hr)
  · rintro ⟨root, word⟩
    refine ⟨fun i lt ne hr => ?_, fun a ha i hi ne hr => word a ha i hi ne ((range _).2 hr)⟩
    rw [← cast i ne] at hr ⊢
    exact root i lt ((visits i).2 ne) ((range _).2 hr)

variable (closed : Closed start h S)
include closed

/-- A root in a closed set. -/
lemma Closed.root_mem (lt : i < MAX_ROOTS) (visits : visitsRoot h.roots i = true)
    (range : inRange start h (castCross start (h.roots i)) = true) :
    castCross start (h.roots i) ∈ S :=
  (closed_iff.1 closed).1 i lt visits range

/-- A word of a block in a closed set. -/
lemma Closed.link_mem {a : ℕ} (ha : a ∈ S) (hi : i < (h.desc (sbIndex start a)).blockSize)
    (ne : h.link (a + i) ≠ 0) (range : inRange start h (h.link (a + i)) = true) :
    h.link (a + i) ∈ S :=
  (closed_iff.1 closed).2 a ha i hi ne range

end closed

section balanced

/-- A call of `mark_func` pushes on both stacks or on none. -/
lemma Balanced.markFunc (bal : m.Balanced) (x : T × ℕ) : (m.markFunc start h x).Balanced := by
  rw [Mark.markFunc]
  split
  · exact bal
  split
  · exact bal
  · exact congrArg (· + 1) bal

/-- A loop whose body keeps the heights equal. -/
lemma Balanced.foldl {α : Type} {f : Mark T → α → Mark T} (step : ∀ m a, m.Balanced →
    (f m a).Balanced) (bal : m.Balanced) (l : List α) : (l.foldl f m).Balanced := by
  induction l generalizing m with
  | nil => exact bal
  | cons a l ih => exact ih (step m a bal)

/-- Calls of `mark_func` one after the other. -/
lemma Balanced.calls (bal : m.Balanced) (l : List (T × ℕ)) :
    (l.foldl (Mark.markFunc start h) m).Balanced :=
  bal.foldl (fun _ x b => b.markFunc x) l

/-- The default filter function, as far as it has come. -/
lemma Balanced.filterFirst (bal : m.Balanced) (ptr n : ℕ) :
    (m.filterFirst F start h ptr n).Balanced := by
  refine bal.foldl (fun m i b => ?_) _
  rw [filterAt]
  split
  · exact b.markFunc _
  · exact b

/-- A filter function that has come to its end. -/
lemma Balanced.filterFunc (bal : m.Balanced) (τ : T) (ptr : ℕ) :
    (m.filterFunc F start h τ ptr).Balanced := by
  rw [Mark.filterFunc]
  split
  · exact bal.calls _
  · exact bal.filterFirst ..

/-- The filter function of a root. -/
lemma Balanced.markRoot (bal : m.Balanced) (e : m.markRoot F start h i = .done m') :
    m'.Balanced := by
  rw [Mark.markRoot] at e
  split at e
  · split at e
    · cases e
      exact bal.markFunc _
    · cases e
  · cases e
    exact bal

/-- The loop over the roots. -/
lemma Balanced.markRoots (bal : m.Balanced) (e : m.markRoots F start h order = .done m') :
    m'.Balanced := by
  induction order generalizing m with
  | nil =>
    cases e
    exact bal
  | cons i order ih =>
    rw [Mark.markRoots] at e
    cases ei : m.markRoot F start h i with
    | timeout =>
      rw [ei] at e
      cases e
    | failed a =>
      rw [ei] at e
      cases e
    | done m₁ =>
      rw [ei] at e
      exact ih (bal.markRoot ei) e

/-- A turn of the loop over the stacks. -/
lemma Balanced.turn (bal : m.Balanced) (e : m.turn F start h = some m') : m'.Balanced := by
  obtain ⟨marked, nodes, funcs, pushed⟩ := m
  cases nodes with
  | nil => cases e
  | cons node nodes =>
    cases funcs with
    | nil => cases e
    | cons func funcs =>
      cases e
      exact Balanced.filterFunc (m := ⟨marked, nodes, funcs, pushed⟩) (Nat.succ.inj bal) ..

/-- The constructor leaves both stacks empty. -/
lemma balanced_new : (new : Mark T).Balanced := rfl

/-- Before every turn the stacks have the same height. -/
lemma Turns.balanced (run : Turns F start h order m) : m.Balanced := by
  induction run with
  | roots e => exact balanced_new.markRoots e
  | turn _ e ih => exact ih.turn e

/-- The stacks always have the same height. -/
lemma Marking.balanced (run : Marking F start h order m) : m.Balanced := by
  have popped : ∀ {m : Mark T} {node nodes func funcs}, m.Balanced →
    m.toFilterNode = node :: nodes →
      m.toFilterFunc = func :: funcs →
      ({ m with toFilterNode := nodes, toFilterFunc := funcs } : Mark T).Balanced := by
    intro m node nodes func funcs bal hn hf
    rw [Balanced, hn, hf] at bal
    exact Nat.succ.inj bal
  cases run with
  | roots k e => exact balanced_new.markRoots e
  | turns run => exact run.balanced
  | filter run hn hf _ n => exact (popped run.balanced hn hf).filterFirst ..
  | own run hn hf _ n => exact (popped run.balanced hn hf).calls _

end balanced

section refinement

/-- `mark_func` is a visit. -/
lemma abs_markFunc (m : Mark T) (x : T × ℕ) : (m.markFunc start h x).abs =
    if inRange start h x.2 then Keyed.visit Prod.snd m.abs x else m.abs := by
  rw [markFunc]
  cases inRange start h x.2 with
  | false => rfl
  | true =>
    simp only [Bool.not_true, Bool.false_eq_true, ↓reduceIte]
    rw [Keyed.visit, show m.abs.marked = m.markedBlk from rfl]
    split <;> rfl

/-- Calls of `mark_func` one after the other. -/
lemma abs_calls (m : Mark T) (l : List (T × ℕ)) : (l.foldl (markFunc start h) m).abs =
    Keyed.visitAll Prod.snd m.abs (inside start h l) := by
  induction l generalizing m with
  | nil => rfl
  | cons x l ih =>
    rw [List.foldl_cons, ih, abs_markFunc, inside, inside, List.filter_cons]
    cases inRange start h x.2 <;> rfl

/-- `filter_func` makes its calls. -/
lemma filterFunc_eq (m : Mark T) (τ : T) (ptr : ℕ) :
    filterFunc F start h m τ ptr = (F.calls start h (τ, ptr)).foldl (markFunc start h) m := by
  rw [filterFunc, Filters.calls]
  cases F.own τ with
  | some calls => rfl
  | none =>
    show filterFirst F start h m ptr _ = ((List.range _).filterMap _).foldl _ _
    rw [filterFirst, List.foldl_filterMap]
    refine congrArg (fun f => List.foldl f m _) (funext fun m => funext fun i => ?_)
    rw [filterAt]
    split <;> rfl

/-- A turn. -/
lemma abs_turn (bal : m.Balanced) :
    m.abs.turn Prod.snd (fun x => inside start h (F.calls start h x)) =
    (m.turn F start h).map abs := by
  obtain ⟨marked, nodes, funcs, pushed⟩ := m
  cases nodes with
  | nil =>
    cases funcs with
    | nil => rfl
    | cons func funcs => cases bal
  | cons node nodes =>
    cases funcs with
    | nil => cases bal
    | cons func funcs =>
      show some _ = some _
      rw [filterFunc_eq, abs_calls]
      rfl

/-- The loop over the stacks ends when the worklist does. -/
lemma loop_of_abs (bal : m.Balanced) {w : Keyed (T × ℕ) ℕ}
    (e : m.abs.loop Prod.snd (fun x => inside start h (F.calls start h x)) fuel = some w) :
    ∃ m', m.loop F start h fuel = .done m' ∧ m'.abs = w := by
  induction fuel generalizing m with
  | zero => cases e
  | succ fuel ih =>
    rw [Keyed.loop, abs_turn bal] at e
    rw [Mark.loop]
    cases et : m.turn F start h with
    | none =>
      rw [et] at e
      cases e
      exact ⟨m, rfl, rfl⟩
    | some m₁ =>
      rw [et] at e
      exact ih (bal.turn et) e

/-- The loop over the roots, if they all have filter functions. -/
lemma markRoots_done (reg : ∀ i ∈ order, visitsRoot h.roots i = true → F.root i ≠ none)
    (m : Mark T) :
    ∃ m', markRoots F start h m order = .done m' ∧
      m'.abs = Keyed.visitAll Prod.snd m.abs
      (inside start h (order.filterMap (rootItem F start h))) := by
  induction order generalizing m with
  | nil => exact ⟨m, rfl, rfl⟩
  | cons i order ih =>
    have rest : ∀ j ∈ order, visitsRoot h.roots j = true → F.root j ≠ none :=
      fun j hj => reg j (List.mem_cons_of_mem _ hj)
    rw [markRoots, markRoot, List.filterMap_cons, rootItem]
    by_cases visits : visitsRoot h.roots i = true
    · rw [if_pos visits, if_pos visits]
      cases e : F.root i with
      | none => exact absurd e (reg i List.mem_cons_self visits)
      | some τ =>
        obtain ⟨m', run, abs'⟩ := ih rest (m.markFunc start h (τ, castCross start (h.roots i)))
        refine ⟨m', run, abs'.trans ?_⟩
        rw [abs_markFunc, inside, inside, Option.map_some, List.filter_cons]
        cases inRange start h (castCross start (h.roots i)) <;> rfl
    · rw [if_neg visits, if_neg visits]
      exact ih rest m

end refinement

/-- The mark phase of a process that has all the filter functions it needs. -/
lemma run_settled (reg : Registered F h) (perm : order.Perm (List.range MAX_ROOTS))
    (enough : h.currAddr - start < fuel) : ∃ m, run F start h order fuel = .done m ∧
      Keyed.Settled (inside start h (order.filterMap (rootItem F start h))) Prod.snd
        (fun x => inside start h (F.calls start h x)) m.abs := by
  have reg' : ∀ i ∈ order, visitsRoot h.roots i = true → F.root i ≠ none :=
    fun i hi => reg i (List.mem_range.1 (perm.mem_iff.1 hi))
  have range : ∀ {l : List (T × ℕ)}, ∀ x ∈ inside start h l, x.2 ∈ Finset.Ico start h.currAddr :=
    fun x hx => inRange_iff.1 (List.mem_filter.1 hx).2
  obtain ⟨m₀, roots, abs₀⟩ : ∃ m₀, markRoots F start h new order = .done m₀ ∧ _ :=
    markRoots_done reg' new
  have card : (Finset.Ico start h.currAddr).card < fuel := by rwa [Nat.card_Ico]
  obtain ⟨w, e, settled⟩ : ∃ w, Keyed.loop Prod.snd
      (fun x => inside start h (F.calls start h x)) fuel
      (Keyed.visitAll Prod.snd Keyed.empty _) = some w ∧ _ :=
    Keyed.loop_spec range (fun x => range) card
  rw [show Keyed.empty = (new : Mark T).abs from rfl, ← abs₀] at e
  obtain ⟨m, em, rfl⟩ := loop_of_abs (balanced_new.markRoots roots) e
  refine ⟨m, ?_, settled⟩
  rw [run, roots, Outcome.bind_done, em]

/-- What the worklist pushes lies in a closed set, if every block leads to such a set only. -/
lemma mem_of_reachFrom {S : Set ℕ} (closed : Closed start h S)
    (words : ∀ x : T × ℕ, x.2 ∈ S → ∀ y ∈ F.calls start h x, inRange start h y.2 = true → y.2 ∈ S)
    (perm : order.Perm (List.range MAX_ROOTS))
    (hx : ReachFrom (inside start h (order.filterMap (rootItem F start h)))
      (fun x => inside start h (F.calls start h x)) x) : x.2 ∈ S := by
  induction hx with
  | root mem =>
    obtain ⟨mem, range⟩ := List.mem_filter.1 mem
    obtain ⟨i, hi, e⟩ := List.mem_filterMap.1 mem
    rw [rootItem] at e
    split at e
    case isFalse => cases e
    case isTrue visits =>
      obtain ⟨τ, -, rfl⟩ := Option.map_eq_some_iff.1 e
      exact closed.root_mem (List.mem_range.1 (perm.mem_iff.1 hi)) visits range
  | step _ mem ih =>
    obtain ⟨mem, range⟩ := List.mem_filter.1 mem
    exact words _ ih _ mem range

/-- The default filter function finds the words of its block. -/
lemma mem_calls_default (none : F.own x.1 = none) : y ∈ F.calls start h x ↔
    ∃ i < (h.desc (sbIndex start x.2)).blockSize, h.link (x.2 + i) ≠ 0 ∧
      (F.char, h.link (x.2 + i)) = y := by
  rw [Filters.calls, none]
  simp only [List.mem_filterMap, List.mem_range, Option.ite_none_right_eq_some, Option.some.injEq]

/-- Without specialisations the marks are closed. -/
lemma closed_of_settled (none : ∀ τ, F.own τ = none) (reg : Registered F h)
    (perm : order.Perm (List.range MAX_ROOTS))
    (settled : Keyed.Settled (inside start h (order.filterMap (rootItem F start h))) Prod.snd
      (fun x => inside start h (F.calls start h x)) m.abs) :
    Closed start h (m.markedBlk : Set ℕ) := by
  refine closed_iff.2 ⟨fun i lt visits range => ?_, fun a ha i hi ne range => ?_⟩
  · obtain ⟨τ, e⟩ := Option.ne_none_iff_exists'.1 (reg i lt visits)
    refine settled.start (τ, castCross start (h.roots i)) (List.mem_filter.2 ⟨?_, range⟩)
    refine List.mem_filterMap.2 ⟨i, perm.mem_iff.2 (List.mem_range.2 lt), ?_⟩
    rw [rootItem, if_pos visits, e]
    rfl
  · obtain ⟨⟨τ, b⟩, hx, rfl⟩ := (settled.mem a).1 ha
    refine settled.closed _ hx (F.char, h.link (b + i)) (List.mem_filter.2 ⟨?_, range⟩)
    exact (mem_calls_default (none τ)).2 ⟨i, hi, ne, rfl⟩

/-- A program without specialisations marks the least closed set, with the roots in any order. -/
lemma run_isLeast (none : ∀ τ, F.own τ = none) (reg : Registered F h)
    (perm : order.Perm (List.range MAX_ROOTS)) (enough : h.currAddr - start < fuel) :
    ∃ m, run F start h order fuel = .done m ∧ (m.pushed.map Prod.snd).Nodup ∧
      IsLeast {S | Closed start h S} (m.markedBlk : Set ℕ) := by
  obtain ⟨m, e, settled⟩ := run_settled reg perm enough
  refine ⟨m, e, settled.nodup, closed_of_settled none reg perm settled, fun S closed a ha => ?_⟩
  obtain ⟨x, hx, rfl⟩ := (settled.mem a).1 ha
  refine mem_of_reachFrom closed (fun x hx y hy range => ?_) perm (settled.reached x hx)
  obtain ⟨i, hi, ne, rfl⟩ := (mem_calls_default (none _)).1 hy
  exact closed.link_mem hx hi ne range

/-- The conservative mark phase. -/
lemma conservative_isLeast (perm : order.Perm (List.range MAX_ROOTS))
    (enough : h.currAddr - start < fuel) :
    ∃ m, run conservative start h order fuel = .done m ∧ (m.pushed.map Prod.snd).Nodup ∧
      IsLeast {S | Closed start h S} (m.markedBlk : Set ℕ) :=
  run_isLeast (fun _ => rfl) (fun _ _ _ => Option.some_ne_none _) perm enough

end Mark

/-- The conservative mark phase of a garbage collection, for any heap, any roots and any order of
the roots: it ends and has marked the least set of addresses that contains the roots in range and
everything in range that a word in the block of one of its addresses decodes to. No address is
pushed twice, and the two stacks have the same height all the time. -/
theorem mark_spec (start : ℕ) (h : Heap) : ∃ marked : Finset ℕ,
    IsLeast {S | Mark.Closed start h S} (marked : Set ℕ) ∧
      ∀ order : List ℕ, order.Perm (List.range MAX_ROOTS) →
        (∀ fuel, h.currAddr - start < fuel →
        ∃ m, Mark.run conservative start h order fuel = .done m ∧
          m.markedBlk = marked ∧ (m.pushed.map Prod.snd).Nodup) ∧
        ∀ m, Mark.Marking conservative start h order m →
          m.toFilterNode.length = m.toFilterFunc.length := by
  obtain ⟨m₀, -, -, least⟩ :=
    Mark.conservative_isLeast (.refl _) (Nat.lt_succ_self (h.currAddr - start))
  refine ⟨m₀.markedBlk, least, fun order perm => ⟨fun fuel enough => ?_, fun m run => run.balanced⟩⟩
  obtain ⟨m, e, nodup, least'⟩ := Mark.conservative_isLeast perm enough
  exact ⟨m, e, Finset.coe_injective (least'.unique least), nodup⟩

section sample

/-- The start of the region of the sample. -/
def cycleStart : ℕ := 2 ^ 40

/-- A block of the second superblock. -/
def cycleBlk (i : ℕ) : ℕ := cycleStart + SBSIZE + 16 * i

/-- Blocks of 16 bytes. Root 0 points to block 0, which has a pointer to block 5 at its byte 3,
where no word is aligned. Block 5 has a pointer back and one out of the region. The block behind
block 0 points to block 7. -/
def cycle : Heap where
  currAddr := cycleStart + 2 * SBSIZE
  head _ := ⟨none, 0⟩
  pushes _ := 0
  desc _ := { Descriptor.reset with blockSize := 16 }
  mem := [(cycleBlk 0 + 3, cycleBlk 5), (cycleBlk 5, cycleBlk 0),
    (cycleBlk 5 + 8, cycleStart + 3 * SBSIZE), (cycleBlk 1, cycleBlk 7)].foldl
    (fun mem w => store mem w.1 8 (toPptrOff w.2 w.1)) fun _ => 0
  roots i := if i = 0 then SBSIZE else 0
  cache _ _ := ⟨0, 0⟩
  client _ := .none
  req _ := 0
  ret _ := 0

/-- The two blocks of the cycle are closed. -/
lemma closed_cycle : Mark.Closed cycleStart cycle ({cycleBlk 0, cycleBlk 5} : Finset ℕ) where
  root i lt ne range := by
    have zero : i = 0 := by
      by_contra other
      exact ne (if_neg other)
    subst zero
    decide +kernel
  word := by
    have test : ∀ a ∈ ({cycleBlk 0, cycleBlk 5} : Finset ℕ), ∀ i < 16,
        cycleStart ≤ cycle.link (a + i) ∧ cycle.link (a + i) < cycle.currAddr →
          cycle.link (a + i) ∈ ({cycleBlk 0, cycleBlk 5} : Finset ℕ) := by
      decide +kernel
    exact fun a ha i hi _ range => test a ha i hi range

/-- They are marked, and nothing else is. -/
theorem mark_spec_sample : ∃ m : Mark Unit,
    Mark.run conservative cycleStart cycle (List.range MAX_ROOTS) (2 * SBSIZE + 1) = .done m ∧
      m.markedBlk = {cycleBlk 0, cycleBlk 5} := by
  obtain ⟨marked, ⟨closed, least⟩, spec⟩ := mark_spec cycleStart cycle
  obtain ⟨m, e, rfl, -⟩ := (spec _ (.refl _)).1 (2 * SBSIZE + 1) (by decide +kernel)
  have first : cycleBlk 0 ∈ m.markedBlk :=
    closed.root 0 (by decide) (by decide +kernel) ⟨by decide +kernel, by decide +kernel⟩
  have word := closed.word _ first 3 (by decide)
  have decoded : fromPptrOff (load cycle.mem (cycleBlk 0 + 3) 8) (cycleBlk 0 + 3) = cycleBlk 5 := by
    decide +kernel
  rw [decoded] at word
  have second : cycleBlk 5 ∈ m.markedBlk :=
    word (by decide +kernel) ⟨by decide +kernel, by decide +kernel⟩
  refine ⟨m, e, Finset.Subset.antisymm (least closed_cycle) fun a ha => ?_⟩
  rcases Finset.mem_insert.1 ha with rfl | ha
  · exact first
  · rwa [Finset.mem_singleton.1 ha]

end sample

end Ralloc
