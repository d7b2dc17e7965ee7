import Mathlib.Data.Finset.Card
import Mathlib.Data.List.Nodup

/-!
# Marking by keys

A worklist whose items carry more than what is marked: two items with the same key count as one, and
the one that comes first is the one whose successors are visited. `Keyed.loop_spec`: if all keys are
in a finite set, the loop ends, what it has pushed are reachable items with different keys, and the
keys are closed under the successors of what was pushed.

Which items these are may depend on the order. If no two reachable items have the same key it does
not, and everything that is reachable was pushed (`Settled.mem_iff`).
-/

namespace Lib

variable {ι κ : Type*}

/-- What can be reached from `roots`. -/
inductive ReachFrom (roots : List ι) (succ : ι → List ι) : ι → Prop
  | root {x} (mem : x ∈ roots) : ReachFrom roots succ x
  | step {x y} (reached : ReachFrom roots succ x) (mem : y ∈ succ x) : ReachFrom roots succ y

/-- A set that contains the roots and is closed contains what can be reached. -/
lemma ReachFrom.mem {roots : List ι} {succ : ι → List ι} {S : Set ι} (start : ∀ x ∈ roots, x ∈ S)
    (closed : ∀ x ∈ S, ∀ y ∈ succ x, y ∈ S) {x : ι} (hx : ReachFrom roots succ x) : x ∈ S := by
  induction hx with
  | root mem => exact start _ mem
  | step _ mem ih => exact closed _ ih _ mem

/-- The marked keys, the stack, and everything that was ever pushed on it, newest first. -/
structure Keyed (ι κ : Type*) where
  marked : Finset κ
  stack : List ι
  pushed : List ι

namespace Keyed

variable [DecidableEq κ] {key : ι → κ} {w w' : Keyed ι κ} {x y : ι} {k : κ} {l roots : List ι}
  {succ : ι → List ι}

/-- Nothing is marked. -/
def empty : Keyed ι κ := ⟨∅, [], []⟩

/-- Mark the key of an item and push the item, if the key is not marked. -/
def visit (key : ι → κ) (w : Keyed ι κ) (x : ι) : Keyed ι κ :=
  if key x ∈ w.marked then w else ⟨insert (key x) w.marked, x :: w.stack, x :: w.pushed⟩

/-- Visit the items of a list. -/
def visitAll (key : ι → κ) (w : Keyed ι κ) (l : List ι) : Keyed ι κ := l.foldl (visit key) w

/-- Pop an item and visit its successors. -/
def turn (key : ι → κ) (succ : ι → List ι) (w : Keyed ι κ) : Option (Keyed ι κ) :=
  match w.stack with
  | [] => none
  | x :: s => some (visitAll key { w with stack := s } (succ x))

/-- Turns until the stack is empty. -/
def loop (key : ι → κ) (succ : ι → List ι) : ℕ → Keyed ι κ → Option (Keyed ι κ)
  | 0, _ => none
  | n + 1, w =>
    match w.turn key succ with
    | none => some w
    | some w' => loop key succ n w'

/-- Nothing to visit. -/
@[simp] lemma visitAll_nil : visitAll key w [] = w := rfl

/-- The first item, then the others. -/
@[simp] lemma visitAll_cons : visitAll key w (x :: l) = visitAll key (visit key w x) l := rfl

/-- A visit marks the key of the item. -/
@[simp] lemma mem_visit : k ∈ (visit key w x).marked ↔ k = key x ∨ k ∈ w.marked := by
  rw [visit]
  split
  case isTrue h => exact ⟨.inr, fun hk => hk.elim (fun e => e ▸ h) id⟩
  case isFalse h => exact Finset.mem_insert

/-- The keys that are marked after visiting a list. -/
lemma mem_visitAll : k ∈ (visitAll key w l).marked ↔ (∃ x ∈ l, k = key x) ∨ k ∈ w.marked := by
  induction l generalizing w with
  | nil => simp
  | cons x l ih =>
    rw [visitAll_cons, ih, mem_visit]
    simp only [List.mem_cons, exists_eq_or_imp]
    rw [or_assoc]
    exact or_left_comm

/-- What holds whenever a visit is over. -/
structure Inv (roots : List ι) (key : ι → κ) (succ : ι → List ι) (w : Keyed ι κ) : Prop where
  nodup : (w.pushed.map key).Nodup
  mem : ∀ k, k ∈ w.marked ↔ ∃ x ∈ w.pushed, key x = k
  reached : ∀ x ∈ w.pushed, ReachFrom roots succ x
  stack : ∀ x ∈ w.stack, x ∈ w.pushed

/-- The successors of an item that is not on the stack any more were visited. -/
def Visited (key : ι → κ) (succ : ι → List ι) (w : Keyed ι κ) : Prop :=
  ∀ x ∈ w.pushed, x ∉ w.stack → ∀ y ∈ succ x, key y ∈ w.marked

/-- A visit to an item that can be reached keeps the invariant. -/
lemma Inv.visit (inv : Inv roots key succ w) (hx : ReachFrom roots succ x) :
    Inv roots key succ (visit key w x) := by
  rw [Keyed.visit]
  split
  case isTrue => exact inv
  case isFalse new =>
    constructor
    case nodup =>
      refine List.nodup_cons.2 ⟨fun hk => new ?_, inv.nodup⟩
      obtain ⟨y, hy, e⟩ := List.mem_map.1 hk
      exact (inv.mem _).2 ⟨y, hy, e⟩
    case mem =>
      intro k
      rw [Finset.mem_insert, inv.mem]
      simp only [List.mem_cons, exists_eq_or_imp]
      exact or_congr_left eq_comm
    case reached =>
      intro y hy
      rcases List.mem_cons.1 hy with rfl | hy
      · exact hx
      · exact inv.reached y hy
    case stack =>
      intro y hy
      rcases List.mem_cons.1 hy with rfl | hy
      · exact List.mem_cons_self
      · exact List.mem_cons_of_mem _ (inv.stack y hy)

/-- So do visits to a list of them. -/
lemma Inv.visitAll (inv : Inv roots key succ w) (hl : ∀ x ∈ l, ReachFrom roots succ x) :
    Inv roots key succ (visitAll key w l) := by
  induction l generalizing w with
  | nil => exact inv
  | cons x l ih =>
    exact ih (inv.visit (hl x List.mem_cons_self)) fun y hy => hl y (List.mem_cons_of_mem _ hy)

/-- What a visit pushes is on the stack. -/
lemma visit_old (hy : y ∈ (visit key w x).pushed) (hn : y ∉ (visit key w x).stack) :
    y ∈ w.pushed ∧ y ∉ w.stack := by
  rw [visit] at hy hn
  split at hy
  case isTrue h =>
    rw [if_pos h] at hn
    exact ⟨hy, hn⟩
  case isFalse h =>
    rw [if_neg h, List.mem_cons, not_or] at hn
    exact ⟨(List.mem_cons.1 hy).resolve_left hn.1, hn.2⟩

/-- What was pushed and popped was so before the visits. -/
lemma visitAll_old (hy : y ∈ (visitAll key w l).pushed) (hn : y ∉ (visitAll key w l).stack) :
    y ∈ w.pushed ∧ y ∉ w.stack := by
  induction l generalizing w with
  | nil => exact ⟨hy, hn⟩
  | cons x l ih =>
    obtain ⟨h1, h2⟩ := ih hy hn
    exact visit_old h1 h2

/-- The roots are visited first. -/
lemma inv_roots (key : ι → κ) (succ : ι → List ι) (roots : List ι) :
    Inv roots key succ (visitAll key empty roots) ∧
      Visited key succ (visitAll key empty roots) := by
  have start : Inv roots key succ empty :=
    ⟨List.nodup_nil, by simp [empty], by simp [empty], by simp [empty]⟩
  refine ⟨start.visitAll fun x hx => .root hx, fun x hx hn => ?_⟩
  have old := (visitAll_old hx hn).1
  simp [empty] at old

/-- A turn. -/
lemma Inv.turn (inv : Inv roots key succ w) (vis : Visited key succ w)
    (e : w.turn key succ = some w') : Inv roots key succ w' ∧ Visited key succ w' := by
  obtain ⟨marked, stack, pushed⟩ := w
  cases stack with
  | nil => cases e
  | cons x s =>
    cases e
    have hx : x ∈ pushed := inv.stack x List.mem_cons_self
    have popped : Inv roots key succ ⟨marked, s, pushed⟩ :=
      ⟨inv.nodup, inv.mem, inv.reached, fun y hy => inv.stack y (List.mem_cons_of_mem _ hy)⟩
    refine ⟨popped.visitAll fun y hy => .step (inv.reached x hx) hy, fun y hy hn z hz => ?_⟩
    obtain ⟨old, off⟩ := visitAll_old hy hn
    rw [mem_visitAll]
    by_cases e : y = x
    · subst e
      exact .inl ⟨z, hz, rfl⟩
    · exact .inr (vis y old (fun hs => (List.mem_cons.1 hs).elim e off) z hz)

section measure

variable {U : Finset κ}

/-- How many turns are left at most. -/
def todo (U : Finset κ) (w : Keyed ι κ) : ℕ := (U \ w.marked).card + w.stack.length

/-- A push moves a key from the unmarked ones to the stack. -/
lemma todo_visit (hx : key x ∈ U) : (visit key w x).todo U = w.todo U := by
  rw [visit]
  split
  case isTrue => rfl
  case isFalse h =>
    have mem : key x ∈ U \ w.marked := Finset.mem_sdiff.2 ⟨hx, h⟩
    have card := Finset.card_erase_add_one mem
    have e : U \ insert (key x) w.marked = (U \ w.marked).erase (key x) := by
      ext k
      simp only [Finset.mem_sdiff, Finset.mem_insert, Finset.mem_erase]
      tauto
    simp only [todo, e, List.length_cons]
    omega

/-- Nor do visits to a list. -/
lemma todo_visitAll (hl : ∀ x ∈ l, key x ∈ U) : (visitAll key w l).todo U = w.todo U := by
  induction l generalizing w with
  | nil => rfl
  | cons x l ih =>
    rw [visitAll_cons, ih fun y hy => hl y (List.mem_cons_of_mem _ hy),
      todo_visit (hl x List.mem_cons_self)]

/-- A turn pops one item. -/
lemma todo_turn (hU : ∀ x, ∀ y ∈ succ x, key y ∈ U) (e : w.turn key succ = some w') :
    w'.todo U + 1 = w.todo U := by
  obtain ⟨marked, stack, pushed⟩ := w
  cases stack with
  | nil => cases e
  | cons x s =>
    cases e
    rw [todo_visitAll (hU x)]
    rfl

end measure

/-- What the loop leaves. -/
structure Settled (roots : List ι) (key : ι → κ) (succ : ι → List ι) (w : Keyed ι κ) : Prop where
  nodup : (w.pushed.map key).Nodup
  mem : ∀ k, k ∈ w.marked ↔ ∃ x ∈ w.pushed, key x = k
  reached : ∀ x ∈ w.pushed, ReachFrom roots succ x
  start : ∀ x ∈ roots, key x ∈ w.marked
  closed : ∀ x ∈ w.pushed, ∀ y ∈ succ x, key y ∈ w.marked

/-- The loop ends. -/
lemma Inv.loop {U : Finset κ} (inv : Inv roots key succ w) (vis : Visited key succ w)
    (start : ∀ x ∈ roots, key x ∈ w.marked) (hU : ∀ x, ∀ y ∈ succ x, key y ∈ U) {fuel : ℕ}
    (enough : w.todo U < fuel) : ∃ w', loop key succ fuel w = some w' ∧
      Settled roots key succ w' := by
  induction fuel generalizing w with
  | zero => cases enough
  | succ fuel ih =>
    rw [Keyed.loop]
    cases e : w.turn key succ with
    | none =>
      have nil : w.stack = [] := by
        obtain ⟨marked, stack, pushed⟩ := w
        cases stack with
        | nil => rfl
        | cons x s => cases e
      exact ⟨w, rfl, inv.nodup, inv.mem, inv.reached, start, fun x hx => vis x hx (by simp [nil])⟩
    | some w₁ =>
      obtain ⟨inv₁, vis₁⟩ := inv.turn vis e
      have := todo_turn hU e
      refine ih inv₁ vis₁ (fun x hx => ?_) (by omega)
      obtain ⟨marked, stack, pushed⟩ := w
      cases stack with
      | nil => cases e
      | cons y s =>
        cases e
        exact mem_visitAll.2 (.inr (start x hx))

/-- Marking from a list of roots. -/
theorem loop_spec {U : Finset κ} (hr : ∀ x ∈ roots, key x ∈ U) (hU : ∀ x, ∀ y ∈ succ x, key y ∈ U)
    {fuel : ℕ} (enough : U.card < fuel) :
    ∃ w, loop key succ fuel (visitAll key empty roots) = some w ∧ Settled roots key succ w := by
  obtain ⟨inv, vis⟩ := inv_roots key succ roots
  refine inv.loop vis (fun x hx => mem_visitAll.2 (.inl ⟨x, hx, rfl⟩)) hU ?_
  rw [todo_visitAll hr]
  simpa [todo, empty] using enough

omit [DecidableEq κ] in
/-- Without two reachable items of one key everything that is reachable was pushed. -/
lemma Settled.mem_iff (st : Settled roots key succ w)
    (one : ∀ x y, ReachFrom roots succ x → ReachFrom roots succ y → key x = key y → x = y) :
    x ∈ w.pushed ↔ ReachFrom roots succ x := by
  refine ⟨st.reached x, fun hx => ?_⟩
  -- an item whose key was marked by another one is that one
  have pushed : ∀ {y}, ReachFrom roots succ y → key y ∈ w.marked → y ∈ w.pushed := by
    intro y hy hk
    obtain ⟨z, hz, e⟩ := (st.mem _).1 hk
    exact one z y (st.reached z hz) hy e ▸ hz
  refine hx.mem (S := {y | y ∈ w.pushed}) (fun y hy => pushed (.root hy) (st.start y hy)) ?_
  exact fun y hy z hz => pushed (.step (st.reached y hy) hz) (st.closed y hy z hz)

end Keyed

end Lib
