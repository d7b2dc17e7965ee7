import Ralloc.Model.CrossPtr
import Ralloc.Model.Sweep
import Mathlib.Data.Finset.Sort

/-!
# Garbage collection

Model of `GarbageCollection`: `mark_func<T>`, `filter_func<T>`, and `operator()`, which empties the
lists, marks from the roots and sweeps, with the marked addresses in the order of `std::set`.

`T` is the type of the types of a program. `get_root<T>` registers the type of a root,
`mark_func<T>` pushes a block together with the filter function of `T`, and a specialisation of
`filter_func<T>` says where the pointers in a `T` are and of which types. A type without a
specialisation has the default one, which takes every word for a `char*`. The specialisations belong
to the program and are parameters here, by the calls of `mark_func` that they make. A program
without any is `conservative`.

The superblocks start at `start`. The heap does not change in the mark phase. The loop over the
stacks has a number of turns to end in as an argument.
-/

namespace Ralloc

open Lib

/-- The filter functions of a program. -/
structure Filters (T : Type) where
  /-- what the default filter calls `mark_func` with -/
  char : T
  /-- the specialisations of `filter_func`: what they call `mark_func` with for a block, in order -/
  own : T → Option (Mem → ℕ → List (T × ℕ))
  /-- `roots_filter_func`, which is transient: a process starts without any -/
  root : ℕ → Option T

/-- A program without specialisations that has registered all its roots. -/
def conservative : Filters Unit := ⟨(), fun _ => none, fun _ => some ()⟩

/-- The filter functions of a process that has not called `get_root`. -/
def Filters.fresh {T : Type} (F : Filters T) : Filters T := { F with root := fun _ => none }

/-- `BaseMeta::get_root<T>`: the root, and its filter function from now on. -/
def Filters.getRoot {T : Type} (F : Filters T) (start : ℕ) (roots : ℕ → ℕ) (τ : T) (i : ℕ) :
    Option (ℕ × Filters T) :=
  (Ralloc.getRoot start roots i).map fun p =>
    (p, { F with root := Function.update F.root i (some τ) })

/-- Calls of `get_root` one after the other. -/
def Filters.getRoots {T : Type} (F : Filters T) (start : ℕ) (roots : ℕ → ℕ) :
    List (T × ℕ) → Option (Filters T)
  | [] => some F
  | (τ, i) :: calls => (F.getRoot start roots τ i).bind fun r => r.2.getRoots start roots calls

/-- `GarbageCollection`, and everything that was ever pushed on its stacks, newest first. -/
structure Mark (T : Type) where
  markedBlk : Finset ℕ
  toFilterNode : List ℕ
  toFilterFunc : List T
  pushed : List (T × ℕ)

namespace Mark

variable {T : Type}

/-- The constructor. -/
def new : Mark T := ⟨∅, [], [], []⟩

variable (F : Filters T) (start : ℕ) (h : Heap)

/-- `Regions::in_range` for the superblocks. -/
def inRange (a : ℕ) : Bool := start ≤ a ∧ a < h.currAddr

/-- `mark_func<T>`. -/
def markFunc (m : Mark T) (x : T × ℕ) : Mark T :=
  if !inRange start h x.2 then m
  else if x.2 ∈ m.markedBlk then m
  else ⟨insert x.2 m.markedBlk, x.2 :: m.toFilterNode, x.1 :: m.toFilterFunc, x :: m.pushed⟩

/-- The body of the loop of the default `filter_func`, at the address `curr`. -/
def filterAt (m : Mark T) (curr : ℕ) : Mark T :=
  if h.link curr ≠ 0 then markFunc start h m (F.char, h.link curr) else m

/-- The first `n` turns of the loop of the default `filter_func`. -/
def filterFirst (m : Mark T) (ptr n : ℕ) : Mark T :=
  (List.range n).foldl (fun m i => filterAt F start h m (ptr + i)) m

/-- `filter_func<T>`. -/
def filterFunc (m : Mark T) (τ : T) (ptr : ℕ) : Mark T :=
  match F.own τ with
  | some calls => (calls h.mem ptr).foldl (markFunc start h) m
  | none => filterFirst F start h m ptr (h.desc (sbIndex start ptr)).blockSize

/-- The call of the filter function of root `i`, if the root is not null. The call of an empty
`std::function` throws. -/
def markRoot (m : Mark T) (i : ℕ) : Outcome (Mark T) :=
  if visitsRoot h.roots i then
    match F.root i with
    | some τ => .done (markFunc start h m (τ, castCross start (h.roots i)))
    | none => .failed .rootFilter
  else .done m

/-- The loop over the roots, in the given order. -/
def markRoots (m : Mark T) : List ℕ → Outcome (Mark T)
  | [] => .done m
  | i :: order => (markRoot F start h m i).bind fun m' => markRoots m' order

/-- A turn of the loop over the stacks. -/
def turn (m : Mark T) : Option (Mark T) :=
  match m.toFilterNode, m.toFilterFunc with
  | node :: nodes, func :: funcs =>
    some (filterFunc F start h { m with toFilterNode := nodes, toFilterFunc := funcs } func node)
  | _, _ => none

/-- The loop over the stacks, if it ends within `fuel` turns. -/
def loop : ℕ → Mark T → Outcome (Mark T)
  | 0, _ => .timeout
  | fuel + 1, m =>
    match m.turn F start h with
    | none => .done m
    | some m' => loop fuel m'

/-- The mark phase. -/
def run (order : List ℕ) (fuel : ℕ) : Outcome (Mark T) :=
  (markRoots F start h new order).bind (loop F start h fuel)

end Mark

/-- `GarbageCollection::operator()` with these filter functions in a region that starts at `start`:
the marked addresses and the end of the sweep. -/
def collectWith {T : Type} (F : Filters T) (start fuel : ℕ) (h : Heap) :
    Outcome (Finset ℕ × Sweep) :=
  (Mark.run F start (clearLists h) (List.range MAX_ROOTS) fuel).bind fun m =>
    (sweepFrom start fuel h m.markedBlk.sort).bind fun w => .done (m.markedBlk, w)

/-- The same with the default filter for every root. -/
def collectFrom (start fuel : ℕ) (h : Heap) : Outcome (Finset ℕ × Sweep) :=
  collectWith conservative start fuel h

/-- The same in a region that starts at a multiple of `SBSIZE`. -/
def collect (cfg : Cfg) (fuel : ℕ) (h : Heap) : Outcome (Finset ℕ × Sweep) :=
  collectFrom cfg.heapStart fuel h

end Ralloc
