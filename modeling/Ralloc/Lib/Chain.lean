import Mathlib.Data.List.Chain
import Mathlib.Data.List.Range
import Mathlib.Data.List.Nodup

/-!
# Linked lists in memory

Two kinds of list a program keeps in cells that name the next cell.

`IsList next h l`: the list that starts at the head `h` and ends at a null link is `l`.
`Linked next l`: each cell of `l` names the one after it, and nothing is said about the link of the
last cell. Such a list is only meaningful together with a length: `walk next a n` are its first `n`
cells.

Both come with the same three facts: they only read the links of their own cells, they determine
the list, and they can be put together.
-/

namespace Lib

variable {α : Type*}

/-- The null-terminated list from the head `h` along `next` is `l`. -/
def IsList (next : α → Option α) : Option α → List α → Prop
  | h, [] => h = none
  | h, a :: l => h = some a ∧ IsList next (next a) l

/-- The empty list has no head. -/
@[simp] lemma isList_nil {next : α → Option α} {h} : IsList next h [] ↔ h = none := Iff.rfl

/-- The head is the first cell, and its link leads to the others. -/
@[simp] lemma isList_cons {next : α → Option α} {h a l} :
    IsList next h (a :: l) ↔ h = some a ∧ IsList next (next a) l := Iff.rfl

/-- The list is empty exactly when its head is null. -/
lemma IsList.eq_nil {next : α → Option α} {l} (h : IsList next none l) : l = [] := by
  cases l with
  | nil => rfl
  | cons a l => exact absurd h.1 (by simp)

/-- A list with a first cell `a` has `a` in front. -/
lemma IsList.of_some {next : α → Option α} {a l} (h : IsList next (some a) l) :
    ∃ l', l = a :: l' ∧ IsList next (next a) l' := by
  cases l with
  | nil => exact absurd h (by simp)
  | cons b l =>
    obtain ⟨e, h⟩ := h
    cases e
    exact ⟨l, rfl, h⟩

/-- The head is the first element. -/
lemma IsList.head_eq {next : α → Option α} {h l} (hl : IsList next h l) : h = l.head? := by
  cases l with
  | nil => exact hl
  | cons a l => exact hl.1

/-- Only the links of the list's own cells are read. -/
lemma IsList.congr {next next' : α → Option α} {h l} (hl : IsList next h l)
    (e : ∀ a ∈ l, next' a = next a) : IsList next' h l := by
  induction l generalizing h with
  | nil => exact hl
  | cons a l ih =>
    refine ⟨hl.1, ?_⟩
    rw [e a List.mem_cons_self]
    exact ih hl.2 fun b hb => e b (List.mem_cons_of_mem _ hb)

/-- A head has at most one list. -/
lemma IsList.unique {next : α → Option α} {h l l'} (hl : IsList next h l)
    (hl' : IsList next h l') : l = l' := by
  induction l generalizing h l' with
  | nil =>
    cases hl
    exact hl'.eq_nil.symm
  | cons a l ih =>
    obtain ⟨rfl, hl⟩ := hl
    obtain ⟨l'', rfl, h''⟩ := hl'.of_some
    rw [ih hl h'']

/-- A stretch of consecutive numbers, each naming its successor, in front of a list. -/
lemma IsList.range_append {next : ℕ → Option ℕ} {first n h l} (hl : IsList next h l)
    (step : ∀ j < n, next (first + j) = some (first + j + 1)) (last : next (first + n) = h) :
    IsList next (some first) (List.range' first (n + 1) ++ l) := by
  induction n generalizing first with
  | zero =>
    refine ⟨rfl, ?_⟩
    rw [show next first = h from last]
    exact hl
  | succ n ih =>
    rw [List.range'_succ, List.cons_append]
    refine ⟨rfl, ?_⟩
    rw [show next first = some (first + 1) from step 0 (by omega)]
    refine ih (fun j hj => ?_) ?_
    · rw [show first + 1 + j = first + (j + 1) by omega]
      exact step (j + 1) (by omega)
    · rw [show first + 1 + n = first + (n + 1) by omega]
      exact last

/-- Every cell names the cell after it; the link of the last cell is not constrained. -/
def Linked (next : α → α) (l : List α) : Prop :=
  l.IsChain fun a b => next a = b

/-- Nothing to link. -/
@[simp] lemma linked_nil {next : α → α} : Linked next [] := .nil

/-- One cell needs no link. -/
@[simp] lemma linked_singleton {next : α → α} {a} : Linked next [a] := .singleton a

/-- The first cell is linked to the second one. -/
@[simp] lemma linked_cons_cons {next : α → α} {a b l} :
    Linked next (a :: b :: l) ↔ next a = b ∧ Linked next (b :: l) := List.isChain_cons_cons

/-- Without its first cell. -/
lemma Linked.tail {next : α → α} {a l} (h : Linked next (a :: l)) : Linked next l :=
  List.IsChain.tail h

/-- Only the links of the cells before the last one are read. -/
lemma Linked.congr {next next' : α → α} {l} (h : Linked next l)
    (e : ∀ a ∈ l.dropLast, next' a = next a) : Linked next' l := by
  induction l with
  | nil => exact linked_nil
  | cons a l ih =>
    cases l with
    | nil => exact linked_singleton
    | cons b l =>
      rw [List.dropLast_cons_cons] at e
      rw [linked_cons_cons] at h ⊢
      rw [e a List.mem_cons_self]
      exact ⟨h.1, ih h.2 fun c hc => e c (List.mem_cons_of_mem _ hc)⟩

/-- Two linked lists joined by the link of the last cell of the first one. -/
lemma Linked.append {next : α → α} {l l' : List α} {z} (h : Linked next (l ++ [z]))
    (h' : Linked next l') (join : ∀ b ∈ l'.head?, next z = b) : Linked next (l ++ [z] ++ l') := by
  refine List.IsChain.append h h' ?_
  intro x hx y hy
  rw [List.getLast?_append_of_ne_nil _ (by simp)] at hx
  cases hx
  exact join y hy

/-- The front part. -/
lemma Linked.left {next : α → α} {l l'} (h : Linked next (l ++ l')) : Linked next l :=
  List.IsChain.left_of_append h

/-- The rear part. -/
lemma Linked.right {next : α → α} {l l'} (h : Linked next (l ++ l')) : Linked next l' :=
  List.IsChain.right_of_append h

/-- The image of a linked list along a map that goes with the links. -/
lemma Linked.map {β : Type*} {next : α → α} {next' : β → β} {f : α → β} {l : List α}
    (h : Linked next l) (e : ∀ a ∈ l, next a ∈ l → next' (f a) = f (next a)) :
    Linked next' (l.map f) := by
  induction l with
  | nil => exact linked_nil
  | cons a l ih =>
    cases l with
    | nil => exact linked_singleton
    | cons b l =>
      rw [linked_cons_cons] at h
      obtain ⟨rfl, h⟩ := h
      refine linked_cons_cons.2 ⟨e a (by simp) (by simp), ?_⟩
      exact ih h fun c hc hn => e c (List.mem_cons_of_mem _ hc) (List.mem_cons_of_mem _ hn)

/-- The link at the seam of a linked list. -/
lemma Linked.seam {next : α → α} {l l' : List α} {z b} (h : Linked next (l ++ [z] ++ b :: l')) :
    next z = b := by
  have := List.isChain_append.1 h
  exact this.2.2 z (by simp) b (by simp)

/-- The first `n` cells from `a` on. -/
def walk (next : α → α) : α → ℕ → List α
  | _, 0 => []
  | a, n + 1 => a :: walk next (next a) n

/-- No steps. -/
@[simp] lemma walk_zero {next : α → α} {a} : walk next a 0 = [] := rfl

/-- A walk has as many cells as asked for, whatever the links are. -/
@[simp] lemma length_walk {next : α → α} {a n} : (walk next a n).length = n := by
  induction n generalizing a with
  | zero => rfl
  | succ n ih => simp [walk, ih]

/-- The cells of a walk are linked. -/
lemma linked_walk {next : α → α} {a n} : Linked next (walk next a n) := by
  induction n generalizing a with
  | zero => exact linked_nil
  | succ n ih =>
    cases n with
    | zero => exact linked_singleton
    | succ n => exact linked_cons_cons.2 ⟨rfl, ih⟩

/-- The first cell of a walk. -/
lemma head_walk {next : α → α} {a n} (ne : walk next a n ≠ []) :
    (walk next a n).head? = some a := by
  cases n with
  | zero => exact absurd rfl ne
  | succ n => rfl

/-- A walk only reads the links of its own cells. -/
lemma walk_congr {next next' : α → α} {a n} (e : ∀ b ∈ walk next a n, next' b = next b) :
    walk next' a n = walk next a n := by
  induction n generalizing a with
  | zero => rfl
  | succ n ih =>
    rw [walk, walk, e a List.mem_cons_self, ih fun b hb => e b (List.mem_cons_of_mem _ hb)]

/-- A walk along a linked list gives the list. -/
lemma Linked.walk_eq {next : α → α} {a l} (h : Linked next (a :: l)) :
    walk next a (l.length + 1) = a :: l := by
  induction l generalizing a with
  | nil => rfl
  | cons b l ih =>
    rw [linked_cons_cons] at h
    rw [List.length_cons, walk, h.1, ih h.2]

/-- A walk along a linked list, the first cell given separately. -/
lemma Linked.walk_eq' {next : α → α} {l : List α} {a n} (h : Linked next l)
    (ha : l ≠ [] → l.head? = some a) (hn : n = l.length) : walk next a n = l := by
  subst hn
  cases l with
  | nil => rfl
  | cons b l =>
    have e : b = a := by simpa using ha (by simp)
    subst e
    exact h.walk_eq

/-- Cells numbered `0 .. n-1`, each naming the next one, form a linked list. -/
lemma linked_map_range {next : α → α} {cell : ℕ → α} {n}
    (h : ∀ j, j + 1 < n → next (cell j) = cell (j + 1)) :
    Linked next ((List.range n).map cell) := by
  rw [Linked, List.isChain_iff_getElem]
  intro i hi
  simp only [List.length_map, List.length_range] at hi
  simpa using h i hi

end Lib
