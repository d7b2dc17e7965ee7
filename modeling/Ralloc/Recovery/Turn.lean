import Ralloc.Lib.Stride
import Ralloc.Machine.Geometry
import Ralloc.Model.Sweep

/-!
# One turn of the sweep

What a turn does to a superblock, without its loops. The blocks that a turn frees in a small
superblock are `gaps`: it goes in steps of `block_size` and starts again one step behind every mark,
wherever the mark points. `FreeList.pushAll_spec` is the free list that comes out of it, and
`sweepTurn_free`, `sweepTurn_large` and `sweepTurn_small` are the three ways a turn can go.
-/

namespace Ralloc

open Lib SuperblockState

/-- Put blocks on the free list one after the other. -/
def FreeList.pushAll (l : FreeList) (C : List ℕ) : FreeList := C.foldl FreeList.push l

/-- The free list that pushes of separate words leave. -/
structure FreeList.Pushed (l : FreeList) (C : List ℕ) (l' : FreeList) : Prop where
  head : l'.head = C.getLast?.getD l.head
  count : l'.count = l.count + C.length
  heap : l'.heap = { l.heap with mem := l'.heap.mem }
  mem : ∀ a, (∀ c ∈ C, a < c ∨ c + 8 ≤ a) → l'.heap.mem a = l.heap.mem a
  linked : Linked l'.heap.link C.reverse

/-- Write links, given by where they are and where they lead to. -/
def linkAll (ls : List (ℕ × ℕ)) (m : Mem) : Mem :=
  ls.foldl (fun m g => store m g.1 8 (toPptrOff g.2 g.1)) m

/-- The first link is written first. -/
lemma linkAll_cons (g : ℕ × ℕ) (ls : List (ℕ × ℕ)) (m : Mem) :
    linkAll (g :: ls) m = linkAll ls (store m g.1 8 (toPptrOff g.2 g.1)) := rfl

/-- Links only change their own words. -/
lemma linkAll_out {ls : List (ℕ × ℕ)} {m : Mem} {x : ℕ}
    (out : ∀ g ∈ ls, x < g.1 ∨ g.1 + 8 ≤ x) : linkAll ls m x = m x := by
  induction ls generalizing m with
  | nil => rfl
  | cons g ls ih =>
    refine (ih fun g' hg => out g' (List.mem_cons_of_mem _ hg)).trans ?_
    exact store_out (out g List.mem_cons_self)

/-- Each block is linked to the one before it. -/
lemma FreeList.pushAll_mem (l : FreeList) (C : List ℕ) :
    (l.pushAll C).heap.mem = linkAll (C.zip (l.head :: C)) l.heap.mem := by
  induction C generalizing l with
  | nil => rfl
  | cons c C ih => exact ih (l.push c)

/-- Writing a link keeps the link words next to it. -/
lemma Heap.link_setLink_apart {h : Heap} {b v c : ℕ} (apart : c + 8 ≤ b ∨ b + 8 ≤ c) :
    (h.setLink b v).link c = h.link c := by
  unfold Heap.link Heap.setLink
  rw [load_store_out (by omega)]

/-- Blocks far enough apart become a list, the last one first. -/
lemma FreeList.pushAll_spec (l : FreeList) {C : List ℕ} (spaced : C.Pairwise fun a b => a + 8 ≤ b)
    (small : ∀ c ∈ C, c < ADDR) : l.Pushed C (l.pushAll C) := by
  induction C using List.reverseRecOn with
  | nil => exact ⟨rfl, rfl, rfl, fun _ _ => rfl, linked_nil⟩
  | append_singleton C c ih =>
    obtain ⟨sp, -, apart⟩ := List.pairwise_append.1 spaced
    have apart : ∀ a ∈ C, a + 8 ≤ c := fun a ha => apart a ha c (by simp)
    have hc : c < ADDR := small c (by simp)
    have p := ih sp fun a ha => small a (by simp [ha])
    have e : l.pushAll (C ++ [c]) = (l.pushAll C).push c := by simp [FreeList.pushAll]
    rw [e]
    constructor
    case head => simp [FreeList.push]
    case count =>
      rw [FreeList.push, p.count, List.length_append]
      rfl
    case heap =>
      rw [FreeList.push, p.heap]
      rfl
    case mem =>
      intro a ha
      rw [FreeList.push]
      refine (store_out (ha c (by simp))).trans ?_
      exact p.mem a fun b hb => ha b (by simp [hb])
    case linked =>
      rw [List.reverse_append, List.reverse_singleton, List.singleton_append]
      have rest : Linked ((l.pushAll C).push c).heap.link C.reverse :=
        p.linked.congr fun b hb => Heap.link_setLink_apart
          (.inl (apart b (List.mem_reverse.1 (List.dropLast_subset _ hb))))
      cases hC : C.reverse with
      | nil => exact linked_singleton
      | cons b bs =>
        rw [hC] at rest
        refine linked_cons_cons.2 ⟨?_, rest⟩
        have hb : C.getLast? = some b := by rw [← List.head?_reverse, hC]; rfl
        have hhead : (l.pushAll C).head = b := by rw [p.head, hb]; rfl
        have hb' : b ∈ C := List.mem_of_getLast? hb
        rw [FreeList.push, hhead]
        exact Heap.link_setLink_self hc (small b (by simp [hb']))

/-- The loop that frees blocks, with enough fuel. -/
lemma freeLoop_eq {step hi lo fuel : ℕ} (pos : 0 < step) (enough : hi - lo < fuel) (l : FreeList) :
    freeLoop step hi fuel lo l = .done (l.pushAll (stride step lo hi)) := by
  induction fuel generalizing lo l with
  | zero => omega
  | succ n ih =>
    rw [freeLoop]
    split
    case isTrue h =>
      rw [ih (by omega), stride_cons pos h]
      rfl
    case isFalse h =>
      rw [stride_nil pos (by omega)]
      rfl

section scan

variable {fuel sb : ℕ} {D : Descriptor} {A B : List ℕ} {c : Scan}

/-- The marks `A ++ B` split at the end of the superblock at `sb`. -/
structure Splits (sb : ℕ) (A B : List ℕ) : Prop where
  here : ∀ m ∈ A, sb >>> SB_SHIFT = m >>> SB_SHIFT
  there : ∀ m ∈ B.head?, sb >>> SB_SHIFT ≠ m >>> SB_SHIFT

/-- The first mark is dealt with. -/
lemma Splits.tail {m} (h : Splits sb (m :: A) B) : Splits sb A B :=
  ⟨fun x hx => h.here x (List.mem_cons_of_mem _ hx), h.there⟩

/-- A mark of another superblock ends the loop. -/
lemma scanMarks_there (h : Splits sb [] B) : scanMarks fuel sb D B c = .done (c, B) := by
  cases B with
  | nil => rfl
  | cons m ms =>
    rw [scanMarks, if_neg (h.there m rfl)]

/-- The loop takes the marks of this superblock one after the other. -/
lemma scanMarks_here {m} (h : Splits sb (m :: A) B) :
    scanMarks fuel sb D (m :: A ++ B) c =
      (scanMark fuel sb D m c).bind (scanMarks fuel sb D (A ++ B)) := by
  rw [List.cons_append, scanMarks, if_pos (h.here m List.mem_cons_self)]

/-- Marks in a superblock that is not in use have no effect. -/
lemma scanMarks_unused (hD : D.heap = none) (h : Splits sb A B) :
    scanMarks fuel sb D (A ++ B) c = .done (c, B) := by
  induction A with
  | nil => exact scanMarks_there h
  | cons m A ih =>
    rw [scanMarks_here h, scanMark, if_neg (by simp [hD])]
    exact ih h.tail

/-- A mark in the first superblock of a large block keeps the block. -/
lemma scanMarks_large (hheap : D.heap = some 0) (hsb : D.superblock = some sb)
    (hmax : D.maxcount = 1) (h : Splits sb A B) :
    scanMarks fuel sb D (A ++ B) c =
      .done ({ c with state := if A = [] then c.state else SB_FULL }, B) := by
  induction A generalizing c with
  | nil => exact scanMarks_there h
  | cons m A ih =>
    rw [scanMarks_here h, scanMark, if_pos ⟨by simp [hheap], hsb⟩, if_pos hheap, if_pos hmax,
      Outcome.bind_done, ih h.tail]
    simp

/-- The two loops over a small superblock together free the gaps between its marks. -/
lemma scanMarks_small {sc step : ℕ} (bound : ℕ) (hheap : D.heap = some sc) (hsc : sc ≠ 0)
    (hsb : D.superblock = some sb) (hstep : D.blockSize = step) (pos : 0 < step)
    (h : Splits sb A B) (hlast : sb ≤ c.last) (hA : ∀ m ∈ A, sb ≤ m ∧ m < sb + fuel)
    (hbound : bound < sb + fuel) (hfuel : 0 < fuel) :
    ∃ c', scanMarks fuel sb D (A ++ B) c = .done (c', B) ∧
      c'.state = (if A = [] then c.state else SB_PARTIAL) ∧
      freeLoop step bound fuel c'.last c'.list =
        .done (c.list.pushAll (gaps step bound c.last A)) := by
  induction A generalizing c with
  | nil => exact ⟨c, scanMarks_there h, rfl, freeLoop_eq pos (by omega) _⟩
  | cons m A ih =>
    obtain ⟨lo, hi⟩ := hA m List.mem_cons_self
    have ih := ih (c := ⟨SB_PARTIAL, c.list.pushAll (stride step c.last m), m + step⟩) h.tail
      (show sb ≤ m + step by omega) fun x hx => hA x (List.mem_cons_of_mem _ hx)
    obtain ⟨c', h1, h2, h3⟩ := ih
    refine ⟨c', ?_, ?_, ?_⟩
    · rw [scanMarks_here h, scanMark, if_pos ⟨by simp [hheap], hsb⟩, if_neg (by simp [hheap, hsc]),
        hstep, freeLoop_eq pos (by omega)]
      exact h1
    · rw [h2]
      simp
    · rw [h3, gaps, FreeList.pushAll, FreeList.pushAll, FreeList.pushAll, List.foldl_append]

end scan

variable {cfg : Cfg} {fuel d : ℕ} {A B : List ℕ} {h : Heap} {av : Option ℕ}

/-- The state of the sweep at superblock `d`. -/
def Sweep.at (cfg : Cfg) (h : Heap) (d : ℕ) (ms : List ℕ) (av : Option ℕ) : Sweep :=
  ⟨h, cfg.sb d, d, ms, av⟩

/-- A superblock that is not in use, or where the loop finds no mark, becomes free. -/
lemma sweepTurn_free (hs : Splits (cfg.sb d) A B) (hfree : A = [] ∨ (h.desc d).heap = none) :
    sweepTurn cfg fuel (.at cfg h d (A ++ B) av) =
      .done (.at cfg (h.setDesc d { Descriptor.reset with nextFree := av }) (d + 1) B
      (some d)) := by
  have scan : ∀ c, scanMarks fuel (cfg.sb d) (h.desc d) (A ++ B) c = .done (c, B) := by
    intro c
    rcases hfree with rfl | hD
    · exact scanMarks_there hs
    · exact scanMarks_unused hD hs
  simp only [sweepTurn, sweepTurnFrom, Sweep.at, scan, Outcome.bind_done, if_true, Cfg.sb_succ]

/-- The first superblock of a large block of `k` superblocks with a mark. -/
lemma sweepTurn_large {k : ℕ} (hs : Splits (cfg.sb d) A B) (hA : A ≠ [])
    (hheap : (h.desc d).heap = some 0) (hsb : (h.desc d).superblock = some (cfg.sb d))
    (hmax : (h.desc d).maxcount = 1) (hsize : (h.desc d).blockSize = k * SBSIZE)
    (hidx : sbIndex cfg.heapStart (cfg.sb (d + k)) = d + k) :
    sweepTurn cfg fuel (.at cfg h d (A ++ B) av) =
      .done (.at cfg (h.setDesc d
        { h.desc d with nextFree := none, nextPartial := none, anchor := ⟨0, 0, SB_FULL⟩ })
        (d + k) B av) := by
  simp only [sweepTurn, sweepTurnFrom, Sweep.at, scanMarks_large hheap hsb hmax hs,
    Outcome.bind_done, if_neg hA, hheap, if_true, reduceCtorEq, if_false, hsize, ← Cfg.sb_add, hidx]

/-- A small superblock with a mark. -/
lemma sweepTurn_small {sc : ℕ} (hs : Splits (cfg.sb d) A B) (hA : A ≠ []) (hsc : SmallClass sc)
    (hheap : (h.desc d).heap = some sc) (hsb : (h.desc d).superblock = some (cfg.sb d))
    (hmax : (h.desc d).maxcount = maxcount sc) (hsize : (h.desc d).blockSize = blockSize sc)
    (hin : ∀ m ∈ A, cfg.sb d ≤ m ∧ m < cfg.sb d + SBSIZE) (hfuel : SBSIZE < fuel) :
    sweepTurn cfg fuel (.at cfg h d (A ++ B) av) =
      finishSmall (.at cfg h d (A ++ B) av) (h.desc d) B
        (FreeList.pushAll ⟨h, 0, 0⟩
          (gaps (blockSize sc) (cfg.sb d + maxcount sc * blockSize sc) (cfg.sb d) A)) := by
  have hle := hsc.mul_le
  have h8 := hsc.eight_le
  have hpos := hsc.1
  have hmod : maxcount sc * blockSize sc % HALF = maxcount sc * blockSize sc :=
    Nat.mod_eq_of_lt (by rw [SBSIZE_eq] at hle; unfold HALF; omega)
  have hin' : ∀ m ∈ A, cfg.sb d ≤ m ∧ m < cfg.sb d + fuel := fun m hm => by
    have := hin m hm
    omega
  obtain ⟨c', h1, h2, h3⟩ := scanMarks_small (c := ⟨SB_EMPTY, ⟨h, 0, 0⟩, cfg.sb d⟩)
    (cfg.sb d + maxcount sc * blockSize sc) hheap (by omega) hsb hsize (by omega) hs le_rfl hin'
    (by omega) (by omega)
  rw [if_neg hA] at h2
  simp only [sweepTurn, sweepTurnFrom, Sweep.at, h1, Outcome.bind_done, h2, reduceCtorEq,
    if_false, hheap, Option.some.injEq, show sc ≠ 0 by omega, hmax, hsize, hmod, h3]

end Ralloc
