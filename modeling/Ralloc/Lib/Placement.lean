import Mathlib.Data.List.Nodup
import Mathlib.Data.List.Perm.Subperm
import Mathlib.Data.List.Range

/-!
# Placements

Every item of a type `α` is at exactly one place of a type `β`, and the items of some places are
also written down as duplicate-free lists. A `Placement` keeps both views: `loc` says where an item
is, `items c` lists what is at `c`. Because `loc` is a function an item cannot be at two places;
because `items` is a list the order in which a place hands its items out is kept.

The one operation is `move`: a run of items at the front of one place goes to the front of another.
`Placement.Ok.move` is the only preservation lemma, so a system whose steps are moves gets its
conservation argument from one place.
-/

namespace Lib

variable {α β : Type*}

/-- The list `l` has every item that `f` sends to `c`, and each of them once. -/
def Enum (f : α → β) (c : β) (l : List α) : Prop :=
  l.Nodup ∧ ∀ x, x ∈ l ↔ f x = c

/-- No element is listed twice. -/
lemma Enum.nodup {f : α → β} {c l} (h : Enum f c l) : l.Nodup := h.1

/-- The list has exactly the elements at the place. -/
lemma Enum.mem {f : α → β} {c l x} (h : Enum f c l) : x ∈ l ↔ f x = c := h.2 x

/-- An element of the list is at the place. -/
lemma Enum.loc_of_mem {f : α → β} {c l x} (h : Enum f c l) (hx : x ∈ l) : f x = c := h.mem.1 hx

/-- Items of two different places are different. -/
lemma Enum.disjoint {f : α → β} {c c' l l'} (h : Enum f c l) (h' : Enum f c' l') (ne : c ≠ c') :
    l.Disjoint l' := by
  intro x hx hx'
  exact ne ((h.loc_of_mem hx).symm.trans (h'.loc_of_mem hx'))

section
variable [DecidableEq α]

/-- Send every item of `run` to `c`. -/
def setAll (f : α → β) (run : List α) (c : β) : α → β :=
  fun x => if x ∈ run then c else f x

/-- The elements of the run have the new value. -/
@[simp] lemma setAll_mem {f : α → β} {run c x} (h : x ∈ run) : setAll f run c x = c := if_pos h

/-- The others have their old value. -/
@[simp] lemma setAll_not_mem {f : α → β} {run c x} (h : x ∉ run) : setAll f run c x = f x :=
  if_neg h

/-- What is sent away from a place leaves the list of that place. -/
lemma Enum.setAll_from {f : α → β} {run l c c'} (h : Enum f c (run ++ l)) (ne : c' ≠ c) :
    Enum (setAll f run c') c l := by
  obtain ⟨nd, mem⟩ := h
  refine ⟨(List.nodup_append.1 nd).2.1, fun x => ?_⟩
  by_cases hx : x ∈ run
  · rw [setAll_mem hx]
    refine ⟨fun hl => ?_, fun e => absurd e ne⟩
    exact absurd rfl ((List.nodup_append.1 nd).2.2 x hx x hl)
  · rw [setAll_not_mem hx, ← mem x, List.mem_append]
    simp [hx]

/-- What is sent to a place is put in front of its list. -/
lemma Enum.setAll_to {f : α → β} {run l c} (h : Enum f c l) (nd : run.Nodup)
    (out : ∀ x ∈ run, f x ≠ c) : Enum (setAll f run c) c (run ++ l) := by
  refine ⟨List.nodup_append.2 ⟨nd, h.nodup, ?_⟩, fun x => ?_⟩
  · rintro x hx y hy rfl
    exact out x hx (h.loc_of_mem hy)
  · by_cases hx : x ∈ run
    · simp [hx]
    · rw [setAll_not_mem hx, ← h.mem]
      simp [hx]

/-- A place that is neither left nor reached keeps its list. -/
lemma Enum.setAll_other {f : α → β} {run l c c'} (h : Enum f c l) (ne : c' ≠ c)
    (out : ∀ x ∈ run, f x ≠ c) : Enum (setAll f run c') c l := by
  refine ⟨h.nodup, fun x => ?_⟩
  by_cases hx : x ∈ run
  · rw [setAll_mem hx, h.mem]
    exact ⟨fun e => absurd e (out x hx), fun e => absurd e ne⟩
  · rw [setAll_not_mem hx, h.mem]

end

/-- Items at places, with the items of a place in order. -/
structure Placement (α β : Type*) where
  loc : α → β
  items : β → List α

namespace Placement
variable [DecidableEq α] [DecidableEq β]

/-- At the places in `T` the list has exactly what is there. -/
def Ok (P : Placement α β) (T : β → Prop) : Prop :=
  ∀ c, T c → Enum P.loc c (P.items c)

/-- Take `run` from the front of `c` and put it in front of `c'`. -/
def move (P : Placement α β) (run : List α) (c c' : β) : Placement α β where
  loc := setAll P.loc run c'
  items x := if x = c' then run ++ P.items c' else
    if x = c then (P.items c).drop run.length else P.items x

/-- The run comes first in the list of the new place. -/
lemma move_items_to (P : Placement α β) (run c c') :
    (P.move run c c').items c' = run ++ P.items c' := if_pos rfl

/-- It is gone from the list of the old place, if it came first there. -/
lemma move_items_from {P : Placement α β} {run l c c'} (ne : c ≠ c') (h : P.items c = run ++ l) :
    (P.move run c c').items c = l := by
  simp [move, ne, h]

/-- Other places are not touched. -/
lemma move_items_other {P : Placement α β} {run c c' x} (h : x ≠ c) (h' : x ≠ c') :
    (P.move run c c').items x = P.items x := by
  simp [move, h, h']

/-- Moving a run keeps every list in step with the places. -/
lemma Ok.move {P : Placement α β} {T : β → Prop} (ok : P.Ok T) {run c c'} (ne : c ≠ c')
    (nd : run.Nodup) (at_c : ∀ x ∈ run, P.loc x = c) (front : T c → run <+: P.items c) :
    (P.move run c c').Ok T := by
  intro x hx
  by_cases e : x = c'
  · subst e
    rw [move_items_to]
    exact (ok x hx).setAll_to nd fun y hy => by rw [at_c y hy]; exact ne
  · by_cases e' : x = c
    · subst e'
      obtain ⟨l, hl⟩ := front hx
      rw [move_items_from ne hl.symm]
      have h := ok x hx
      rw [← hl] at h
      exact h.setAll_from (Ne.symm ne)
    · rw [move_items_other e' e]
      exact (ok x hx).setAll_other (Ne.symm e) fun y hy => by rw [at_c y hy]; exact Ne.symm e'

end Placement

/-- A duplicate-free list inside another one that is as long has all of its elements. -/
lemma mem_of_nodup_of_length_le {l l' : List α} (nd : l.Nodup) (sub : l ⊆ l')
    (le : l'.length ≤ l.length) {x} (hx : x ∈ l') : x ∈ l :=
  ((List.subperm_of_subset nd sub).perm_of_length_le le).mem_iff.2 hx

end Lib
