import Ralloc.Lib.Chain
import Mathlib.Data.List.Basic
import Mathlib.Logic.Function.Basic

/-!
# Stacks with a counted head

Any number of threads push and pop cells on any number of stacks. The head of a stack is one word
that holds a pointer to the first cell and a counter of the pushes, as far as there is room for it
in the word. A push links its last cell to the head it has loaded and publishes its cells by a
compare-and-swap; a pop loads the head, reads the link of the first cell and takes the cell off by a
compare-and-swap that leaves the counter as it is. Several stacks can use the same link field.

In between a thread may do to the cells it owns what it likes, and cells that are on no stack can
get an owner in other ways (`Act.acquire`), so that a cell may be popped, written to and pushed
again, somewhere else, while another thread is still looking at it.

`run_spec`: as long as fewer pushes happen between the load and the compare-and-swap of a pop than
the counter can tell apart, the machine does what stacks do (`Abs.apply`), and the cells linked from
a head are the stack.

The invariant of a pop is the point. If there was no push since the load, then the cell it has seen
is still first and its link is what was read, or the cell is not on the stack any more; the second
case stays as long as there is no push. A successful compare-and-swap excludes it.
-/

namespace Lib

namespace CountedStack

variable {D L F W : Type}

/-- How a pointer and a counter are packed into a word; there is room for `size` values of the
counter. -/
structure Codec (D W : Type) where
  size : ℕ
  enc : Option D → ℕ → W
  dec : W → Option D × ℕ
  dec_enc : ∀ p c, dec (enc p c) = (p, c % size)

/-- A head that a thread has loaded, and how many pushes there had been. -/
structure Seen (D : Type) where
  ptr : Option D
  cnt : ℕ
  stamp : ℕ

/-- A store into a link field. -/
structure Store (D F : Type) where
  field : F
  cell : D
  value : Option D

/-- Where a thread is. -/
inductive PC (D L F : Type) where
  | idle
  /-- before the remaining stores that precede a push -/
  | prepare (ws : List (Store D F)) (l : L) (ds : List D)
  | pushStore (l : L) (ds : List D) (old : Seen D)
  | pushCas (l : L) (ds : List D) (old : Seen D)
  | popLoad (l : L)
  | popNext (l : L) (old : Seen D) (p : D)
  | popCas (l : L) (old : Seen D) (p : D) (next : Option D)

/-- The heads, the links, the owners of cells, and the control states of the threads. The number of
pushes is not part of the program. -/
structure Sys (D L F W : Type) where
  word : L → W
  next : F → D → Option D
  owner : D → Option ℕ
  pc : ℕ → PC D L F
  pushes : L → ℕ

/-- What can happen: calls, steps of a thread, with or without a spurious failure, and what owners
do with their cells. -/
inductive Act (D L F : Type) where
  | push (t : ℕ) (ws : List (Store D F)) (l : L) (ds : List D)
  | pop (t : ℕ) (l : L)
  | run (t : ℕ) (spur : Bool)
  | store (t : ℕ) (w : Store D F)
  | acquire (t : ℕ) (d : D)
  | release (t : ℕ) (d : D)

/-- A successful compare-and-swap. -/
inductive Event (D L : Type) where
  | pushed (t : ℕ) (l : L) (ds : List D)
  | popped (t : ℕ) (l : L) (d : D)

variable [DecidableEq D] [DecidableEq L] [DecidableEq F] [DecidableEq W]

/-- A store. -/
def Store.apply (w : Store D F) (next : F → D → Option D) : F → D → Option D :=
  Function.update next w.field (Function.update (next w.field) w.cell w.value)

/-- Stores in order. -/
def applyAll (ws : List (Store D F)) (next : F → D → Option D) : F → D → Option D :=
  ws.foldl (fun n w => w.apply n) next

namespace Sys

/-- Control of thread `t` goes to `pc`. -/
def goto (s : Sys D L F W) (t : ℕ) (pc : PC D L F) : Sys D L F W :=
  { s with pc := Function.update s.pc t pc }

/-- Load a head. -/
def see (c : Codec D W) (s : Sys D L F W) (l : L) : Seen D :=
  ⟨(c.dec (s.word l)).1, (c.dec (s.word l)).2, s.pushes l⟩

end Sys

/-- The test at the head of the loop of a pop. -/
def popTest (l : L) (old : Seen D) : PC D L F :=
  match old.ptr with
  | none => .idle
  | some p => .popNext l old p

variable (c : Codec D W) (field : L → F)

/-- A step of thread `t`. -/
def exec (t : ℕ) (spur : Bool) (s : Sys D L F W) : PC D L F → Sys D L F W × Option (Event D L)
  | .idle => (s, none)
  | .prepare [] l ds => (s.goto t (.pushStore l ds (s.see c l)), none)
  | .prepare (w :: ws) l ds => ({ s with next := w.apply s.next }.goto t (.prepare ws l ds), none)
  | .pushStore l ds old =>
    match ds.getLast? with
    | none => (s, none)
    | some z =>
      ({ s with next := Store.apply ⟨field l, z, old.ptr⟩ s.next }.goto t (.pushCas l ds old), none)
  | .pushCas l ds old =>
    if s.word l = c.enc old.ptr old.cnt ∧ ¬spur then
      ({ s with
          word := Function.update s.word l (c.enc ds.head? (old.cnt + 1))
          owner := fun d => if d ∈ ds then none else s.owner d
          pushes := Function.update s.pushes l (s.pushes l + 1) }.goto t .idle,
        some (.pushed t l ds))
    else (s.goto t (.pushStore l ds (s.see c l)), none)
  | .popLoad l => (s.goto t (popTest l (s.see c l)), none)
  | .popNext l old p => (s.goto t (.popCas l old p (s.next (field l) p)), none)
  | .popCas l old p next =>
    if s.word l = c.enc old.ptr old.cnt ∧ ¬spur then
      ({ s with
          word := Function.update s.word l (c.enc next old.cnt)
          owner := Function.update s.owner p (some t) }.goto t .idle,
        some (.popped t l p))
    else (s.goto t (popTest l (s.see c l)), none)

/-- What an action does; calls and the other actions of a thread wait until it is idle. -/
def step (s : Sys D L F W) : Act D L F → Sys D L F W × Option (Event D L)
  | .push t ws l ds => (s.goto t (.prepare ws l ds), none)
  | .pop t l => (s.goto t (.popLoad l), none)
  | .run t spur => exec c field t spur s (s.pc t)
  | .store _ w => ({ s with next := w.apply s.next }, none)
  | .acquire t d => ({ s with owner := Function.update s.owner d (some t) }, none)
  | .release _ d => ({ s with owner := Function.update s.owner d none }, none)

/-- Each cell names the next one. -/
def Chained (next : D → Option D) (ds : List D) : Prop := ds.IsChain fun d e => next d = some e

/-- Thread `t` exclusively owns the cells `ds`. -/
structure Owns (s : Sys D L F W) (t : ℕ) (ds : List D) : Prop where
  ne : ds ≠ []
  nodup : ds.Nodup
  owner : ∀ d ∈ ds, s.owner d = some t

/-- What threads may do: they push and write only what they own, a cell gets an owner only if it has
none and is on no stack, and few enough pushes happen while a pop is under way. -/
def Allowed (s : Sys D L F W) : Act D L F → Prop
  | .push t ws l ds => s.pc t = .idle ∧ Owns s t ds ∧ (∀ w ∈ ws, s.owner w.cell = some t) ∧
      Chained (applyAll ws s.next (field l)) ds
  | .pop t _ => s.pc t = .idle
  | .run t _ =>
    match s.pc t with
    | .popCas l old _ _ => s.pushes l - old.stamp < c.size
    | _ => True
  | .store t w => s.pc t = .idle ∧ s.owner w.cell = some t
  | .acquire t d => s.pc t = .idle ∧ s.owner d = none ∧
      ∀ l ds, IsList (s.next (field l)) (c.dec (s.word l)).1 ds → d ∉ ds
  | .release t d => s.pc t = .idle ∧ s.owner d = some t

/-- A run from `s₀` to `s`, and the events in it. -/
inductive Run (s₀ : Sys D L F W) : Sys D L F W → List (Event D L) → Prop
  | refl : Run s₀ s₀ []
  | step {s es} (run : Run s₀ s es) (a : Act D L F) (allowed : Allowed c field s a) :
    Run s₀ (step c field s a).1 (es ++ (step c field s a).2.toList)

/-- Stacks. -/
abbrev Abs (D L : Type) := L → List D

/-- What an event does to stacks: a push puts its cells on top, a pop takes the top. -/
def Abs.apply (A : Abs D L) : Event D L → Option (Abs D L)
  | .pushed _ l ds => some (Function.update A l (ds ++ A l))
  | .popped _ l d => if (A l).head? = some d then some (Function.update A l (A l).tail) else none

/-- Events in order. -/
def Abs.run (A : Abs D L) : List (Event D L) → Option (Abs D L)
  | [] => some A
  | e :: es => (A.apply e).bind (Abs.run · es)

/-- Between two pops of a cell there is a push of it. -/
def PushedBetween (es : List (Event D L)) : Prop :=
  ∀ es₁ es₂ es₃ t t' l l' d, es = es₁ ++ .popped t l d :: (es₂ ++ .popped t' l' d :: es₃) →
    ∃ u k ds, .pushed u k ds ∈ es₂ ∧ d ∈ ds

/-- The stacks are in the heads and links. -/
structure Matches (s : Sys D L F W) (A : Abs D L) : Prop where
  list : ∀ l, IsList (s.next (field l)) (c.dec (s.word l)).1 (A l)
  nodup : ∀ l, (A l).Nodup
  apart : ∀ {l l' d}, d ∈ A l → d ∈ A l' → l = l'
  unowned : ∀ {l d}, d ∈ A l → s.owner d = none
  cnt : ∀ l, (c.dec (s.word l)).2 = s.pushes l % c.size

/-- What a thread knows about a head it has loaded. -/
structure Loaded (s : Sys D L F W) (l : L) (old : Seen D) (p : D) : Prop where
  ptr : old.ptr = some p
  cnt : old.cnt = old.stamp % c.size
  stamp : old.stamp ≤ s.pushes l

/-- What a thread knows, by where it is. -/
def Local (s : Sys D L F W) (A : Abs D L) (t : ℕ) : PC D L F → Prop
  | .idle => True
  | .prepare ws l ds => Owns s t ds ∧ (∀ w ∈ ws, s.owner w.cell = some t) ∧
      Chained (applyAll ws s.next (field l)) ds
  | .pushStore l ds _ => Owns s t ds ∧ Chained (s.next (field l)) ds
  | .pushCas l ds old => Owns s t ds ∧ Chained (s.next (field l)) ds ∧
      ∀ z ∈ ds.getLast?, s.next (field l) z = old.ptr
  | .popLoad _ => True
  | .popNext l old p => Loaded c s l old p ∧
      (s.pushes l = old.stamp → (c.dec (s.word l)).1 = some p ∨ p ∉ A l)
  | .popCas l old p next => Loaded c s l old p ∧
      (s.pushes l = old.stamp →
        (c.dec (s.word l)).1 = some p ∧ s.next (field l) p = next ∨ p ∉ A l)

/-- The invariant. -/
structure Inv (s : Sys D L F W) (A : Abs D L) : Prop extends Matches c field s A where
  thread : ∀ t, Local c field s A t (s.pc t)

/-- What the other threads can do, as far as thread `u` can tell. -/
structure Frame (u : ℕ) (s : Sys D L F W) (A : Abs D L) (s' : Sys D L F W) (A' : Abs D L) :
    Prop where
  owner : ∀ {d}, s.owner d = some u → s'.owner d = some u
  next : ∀ {f d}, s.owner d = some u → s'.next f d = s.next f d
  pushes : ∀ l, s.pushes l ≤ s'.pushes l
  gone : ∀ {l p}, s'.pushes l = s.pushes l → p ∉ A l → p ∉ A' l
  first : ∀ {l p}, s'.pushes l = s.pushes l → (c.dec (s.word l)).1 = some p →
    (c.dec (s'.word l)).1 = some p ∧ s'.next (field l) p = s.next (field l) p ∨ p ∉ A' l

section chains

variable {next next' : D → Option D} {ds : List D}
omit [DecidableEq D]

/-- Only the links of the cells before the last one are read. -/
lemma Chained.congr (h : Chained next ds) (same : ∀ d ∈ ds.dropLast, next' d = next d) :
    Chained next' ds := by
  induction ds with
  | nil => exact .nil
  | cons d ds ih =>
    cases ds with
    | nil => exact .singleton d
    | cons e ds =>
      obtain ⟨h1, h2⟩ := List.isChain_cons_cons.1 h
      rw [List.dropLast_cons_cons] at same
      refine List.isChain_cons_cons.2 ⟨?_, ih h2 fun x hx => same x (List.mem_cons_of_mem _ hx)⟩
      rw [same d List.mem_cons_self, h1]

/-- A chain whose last cell names the head of a list, in front of the list. -/
lemma Chained.append {h : Option D} {l : List D} (chain : Chained next ds) (ne : ds ≠ [])
    (last : ∀ z ∈ ds.getLast?, next z = h) (list : IsList next h l) :
    IsList next ds.head? (ds ++ l) := by
  induction ds with
  | nil => exact absurd rfl ne
  | cons d ds ih =>
    cases ds with
    | nil =>
      refine ⟨rfl, ?_⟩
      rw [last d rfl]
      exact list
    | cons e ds =>
      obtain ⟨h1, h2⟩ := List.isChain_cons_cons.1 chain
      refine ⟨rfl, ?_⟩
      rw [h1]
      exact ih h2 (by simp) fun z hz => last z (by rwa [List.getLast?_cons_cons])

end chains

section stores

variable {w : Store D F} {next next' : F → D → Option D} {f : F} {d : D}

/-- A store changes the links of one cell. -/
lemma Store.apply_of_ne (ne : d ≠ w.cell) : w.apply next f d = next f d := by
  by_cases e : f = w.field
  · rw [Store.apply, e, Function.update_self, Function.update_of_ne ne]
  · rw [Store.apply, Function.update_of_ne e]

/-- The field that was written. -/
@[simp] lemma Store.apply_self : w.apply next w.field w.cell = w.value := by
  rw [Store.apply, Function.update_self, Function.update_self]

/-- What stores leave in a cell depends on what was in it. -/
lemma applyAll_congr (ws : List (Store D F)) (same : ∀ f, next' f d = next f d) (f : F) :
    applyAll ws next' f d = applyAll ws next f d := by
  induction ws generalizing next next' with
  | nil => exact same f
  | cons w ws ih =>
    refine ih fun f => ?_
    show w.apply next' f d = w.apply next f d
    by_cases e : d = w.cell
    · by_cases ef : f = w.field
      · rw [e, ef, Store.apply_self, Store.apply_self]
      · rw [Store.apply, Store.apply, Function.update_of_ne ef, Function.update_of_ne ef, same]
    · rw [Store.apply_of_ne e, Store.apply_of_ne e, same]

/-- Stores into other cells. -/
lemma applyAll_of_ne (ws : List (Store D F)) (ne : ∀ w ∈ ws, d ≠ w.cell) :
    applyAll ws next f d = next f d := by
  induction ws generalizing next with
  | nil => rfl
  | cons w ws ih =>
    refine (ih fun w' hw => ne w' (List.mem_cons_of_mem _ hw)).trans ?_
    exact Store.apply_of_ne (ne w List.mem_cons_self)

end stores

section invariant

variable {c field} {s s' : Sys D L F W} {A A' : Abs D L} {t u : ℕ} {pc : PC D L F}

omit [DecidableEq D] [DecidableEq L] [DecidableEq F] [DecidableEq W] in
/-- The last cell is not one of the cells before it. -/
lemma Owns.last_notMem {ds : List D} {z : D} (owns : Owns s t ds) (hz : ds.getLast? = some z) :
    z ∉ ds.dropLast := by
  have nodup := owns.nodup
  rw [← List.dropLast_append_getLast? z hz] at nodup
  exact fun h => (List.nodup_append.1 nodup).2.2 z h z (by simp) rfl

omit [DecidableEq D] [DecidableEq L] [DecidableEq F] [DecidableEq W] in
/-- What others do leaves the cells of a thread its own. -/
lemma Owns.frame {ds : List D} (owns : Owns s u ds) (fr : Frame c field u s A s' A') :
    Owns s' u ds :=
  ⟨owns.ne, owns.nodup, fun d hd => fr.owner (owns.owner d hd)⟩

omit [DecidableEq L] [DecidableEq W] in
/-- What other threads do does not change what a thread knows. -/
lemma Local.frame (loc : Local c field s A u pc) (fr : Frame c field u s A s' A') :
    Local c field s' A' u pc := by
  cases pc with
  | idle => trivial
  | prepare ws l ds =>
    obtain ⟨owns, writes, chain⟩ := loc
    refine ⟨owns.frame fr, fun w hw => fr.owner (writes w hw), chain.congr fun d hd => ?_⟩
    exact applyAll_congr ws (fun f => fr.next (owns.owner d (List.dropLast_subset _ hd))) _
  | pushStore l ds old =>
    obtain ⟨owns, chain⟩ := loc
    refine ⟨owns.frame fr, chain.congr fun d hd => ?_⟩
    exact fr.next (owns.owner d (List.dropLast_subset _ hd))
  | pushCas l ds old =>
    obtain ⟨owns, chain, last⟩ := loc
    refine ⟨owns.frame fr, chain.congr fun d hd => ?_, fun z hz => ?_⟩
    · exact fr.next (owns.owner d (List.dropLast_subset _ hd))
    · rw [fr.next (owns.owner z (List.mem_of_getLast? hz)), last z hz]
  | popLoad l => trivial
  | popNext l old p =>
    obtain ⟨⟨ptr, cnt, stamp⟩, known⟩ := loc
    have le := fr.pushes l
    refine ⟨⟨ptr, cnt, le_trans stamp le⟩, fun e => ?_⟩
    rcases known (by omega) with first | gone
    · exact (fr.first (by omega) first).imp_left And.left
    · exact .inr (fr.gone (by omega) gone)
  | popCas l old p next =>
    obtain ⟨⟨ptr, cnt, stamp⟩, known⟩ := loc
    have le := fr.pushes l
    refine ⟨⟨ptr, cnt, le_trans stamp le⟩, fun e => ?_⟩
    rcases known (by omega) with ⟨first, rfl⟩ | gone
    · exact fr.first (by omega) first
    · exact .inr (fr.gone (by omega) gone)

omit [DecidableEq L] [DecidableEq W] in
/-- A step of thread `t`: the stacks match, the other threads notice nothing, and `t` knows what it
should. -/
lemma Inv.assemble (inv : Inv c field s A) (hm : Matches c field s' A')
    (pcs : s'.pc = Function.update s.pc t pc) (frame : ∀ u, u ≠ t → Frame c field u s A s' A')
    (loc : Local c field s' A' t pc) : Inv c field s' A' := by
  refine ⟨hm, fun u => ?_⟩
  rw [pcs]
  by_cases e : u = t
  · subst e
    rw [Function.update_self]
    exact loc
  · rw [Function.update_of_ne e]
    exact (inv.thread u).frame (frame u e)

omit [DecidableEq D] [DecidableEq L] [DecidableEq F] [DecidableEq W] in
/-- Control goes somewhere else. -/
lemma Frame.goto (s : Sys D L F W) (A : Abs D L) (t : ℕ) (pc : PC D L F) :
    Frame c field u s A (s.goto t pc) A :=
  ⟨id, fun _ => rfl, fun _ => le_rfl, fun _ h => h, fun _ h => .inl ⟨h, rfl⟩⟩

omit [DecidableEq L] [DecidableEq W] in
/-- A step that changes nothing but where the thread is. -/
lemma Inv.goto (inv : Inv c field s A) (loc : Local c field s A t pc) :
    Inv c field (s.goto t pc) A :=
  inv.assemble ⟨inv.list, inv.nodup, inv.apart, inv.unowned, inv.cnt⟩ rfl
    (fun _ _ => .goto ..) (loc.frame (.goto ..))

omit [DecidableEq D] [DecidableEq L] [DecidableEq F] [DecidableEq W] in
/-- The first cell of a stack. -/
lemma Matches.mem_of_head (hm : Matches c field s A) {l : L} {p : D}
    (e : (c.dec (s.word l)).1 = some p) : p ∈ A l := by
  have list := hm.list l
  rw [e] at list
  obtain ⟨rest, hl, -⟩ := list.of_some
  simp [hl]

omit [DecidableEq L] [DecidableEq W] in
/-- A store of an owner. -/
lemma Inv.store (inv : Inv c field s A) {w : Store D F} (owner : s.owner w.cell = some t)
    (loc : Local c field { s with next := w.apply s.next } A t pc) :
    Inv c field ({ s with next := w.apply s.next }.goto t pc) A := by
  have out : ∀ {l d}, d ∈ A l → d ≠ w.cell := by
    rintro l d hd rfl
    simp [inv.unowned hd] at owner
  have other : ∀ {u d}, u ≠ t → s.owner d = some u → d ≠ w.cell := by
    rintro u d ne hd rfl
    exact ne (Option.some.inj (hd.symm.trans owner))
  refine inv.assemble ⟨fun l => ?_, inv.nodup, inv.apart, inv.unowned, inv.cnt⟩ rfl
    (fun u ne => ⟨id, fun hd => Store.apply_of_ne (other ne hd), fun _ => le_rfl, fun _ h => h,
      fun _ first => .inl ⟨first, Store.apply_of_ne (out (inv.mem_of_head first))⟩⟩)
    (loc.frame (.goto ..))
  exact (inv.list l).congr fun d hd => Store.apply_of_ne (out hd)

omit [DecidableEq L] [DecidableEq W] in
/-- What a thread knows that has just loaded a head. -/
lemma Inv.popTest (inv : Inv c field s A) (l : L) (t : ℕ) :
    Local c field s A t (popTest l (s.see c l)) := by
  rw [CountedStack.popTest]
  split
  · trivial
  case h_2 p e => exact ⟨⟨e, inv.cnt l, le_rfl⟩, fun _ => .inl e⟩

omit [DecidableEq D] in
/-- What is on the stacks after a push. -/
lemma mem_push {l l' : L} {ds : List D} {d : D} :
    d ∈ Function.update A l (ds ++ A l) l' ↔ l' = l ∧ d ∈ ds ∨ d ∈ A l' := by
  by_cases e : l' = l
  · subst e
    simp
  · simp [e]

omit [DecidableEq W] in
/-- A successful push. -/
lemma Inv.pushed (inv : Inv c field s A) {l : L} {ds : List D} {old : Seen D}
    (owns : Owns s t ds) (chain : Chained (s.next (field l)) ds)
    (last : ∀ z ∈ ds.getLast?, s.next (field l) z = old.ptr)
    (swap : s.word l = c.enc old.ptr old.cnt) :
    Inv c field ({ s with
      word := Function.update s.word l (c.enc ds.head? (old.cnt + 1))
      owner := fun d => if d ∈ ds then none else s.owner d
      pushes := Function.update s.pushes l (s.pushes l + 1) }.goto t .idle)
      (Function.update A l (ds ++ A l)) := by
  have dec : c.dec (s.word l) = (old.ptr, old.cnt % c.size) := by rw [swap, c.dec_enc]
  have out : ∀ {l' d}, d ∈ A l' → d ∉ ds := by
    intro l' d hd hds
    simpa [inv.unowned hd] using owns.owner d hds
  refine inv.assemble ⟨fun l' => ?_, fun l' => ?_, @fun l₁ l₂ d h₁ h₂ => ?_, @fun l' d hd => ?_,
    fun l' => ?_⟩ rfl (fun u ne => ?_) trivial
  case refine_1 =>
    by_cases e : l' = l
    · subst e
      simp only [Sys.goto, Function.update_self, c.dec_enc]
      have list := inv.list l'
      rw [dec] at list
      exact chain.append owns.ne last list
    · simp only [Sys.goto, Function.update_of_ne e]
      exact inv.list l'
  case refine_2 =>
    by_cases e : l' = l
    · subst e
      rw [Function.update_self]
      refine List.nodup_append.2 ⟨owns.nodup, inv.nodup l', ?_⟩
      rintro d hds _ hd rfl
      exact out hd hds
    · rw [Function.update_of_ne e]
      exact inv.nodup l'
  case refine_3 =>
    rcases mem_push.1 h₁ with ⟨e₁, g₁⟩ | g₁ <;> rcases mem_push.1 h₂ with ⟨e₂, g₂⟩ | g₂
    · exact e₁.trans e₂.symm
    · exact absurd g₁ (out g₂)
    · exact absurd g₂ (out g₁)
    · exact inv.apart g₁ g₂
  case refine_4 =>
    simp only [Sys.goto]
    split
    · rfl
    case isFalse hds =>
      rcases mem_push.1 hd with ⟨-, hd⟩ | hd
      · exact absurd hd hds
      · exact inv.unowned hd
  case refine_5 =>
    by_cases e : l' = l
    · subst e
      simp only [Sys.goto, Function.update_self, c.dec_enc]
      have cnt := inv.cnt l'
      rw [dec] at cnt
      simp only at cnt
      rw [Nat.add_mod, cnt, ← Nat.add_mod]
    · simp only [Sys.goto, Function.update_of_ne e]
      exact inv.cnt l'
  case refine_6 =>
    have kept : ∀ {d}, s.owner d = some u → d ∉ ds := fun hd hds =>
      ne (Option.some.inj (hd.symm.trans (owns.owner _ hds)))
    have other : ∀ {l'}, Function.update s.pushes l (s.pushes l + 1) l' = s.pushes l' → l' ≠ l := by
      rintro l' e rfl
      simp at e
    refine ⟨fun hd => ?_, fun _ => rfl, fun l' => ?_, fun e hp => ?_, fun e first => .inl ?_⟩
    · simp only [Sys.goto, if_neg (kept hd), hd]
    · by_cases e : l' = l
      · simp [Sys.goto, e]
      · simp [Sys.goto, Function.update_of_ne e]
    · rw [mem_push, not_or]
      exact ⟨fun h => other e h.1, hp⟩
    · simp only [Sys.goto, Function.update_of_ne (other e), first, and_self]

omit [DecidableEq L] [DecidableEq W] in
/-- What a successful compare-and-swap of a pop says. -/
lemma Inv.top (inv : Inv c field s A) {l : L} {old : Seen D} {p : D} {next : Option D}
    (loc : Local c field s A t (.popCas l old p next)) (few : s.pushes l - old.stamp < c.size)
    (swap : s.word l = c.enc old.ptr old.cnt) :
    ∃ rest, A l = p :: rest ∧ IsList (s.next (field l)) next rest := by
  obtain ⟨⟨ptr, cnt, stamp⟩, known⟩ := loc
  have dec : c.dec (s.word l) = (some p, old.cnt % c.size) := by rw [swap, c.dec_enc, ptr]
  -- the counter has the same value as at the load, so it was not changed at all
  have same : s.pushes l % c.size = old.stamp % c.size := by
    rw [← inv.cnt l, dec, cnt, Nat.mod_mod]
  have none : s.pushes l = old.stamp := by
    have := Nat.sub_mod_eq_zero_of_mod_eq same
    rw [Nat.mod_eq_of_lt few] at this
    omega
  have list := inv.list l
  rw [dec] at list
  obtain ⟨rest, hl, list⟩ := list.of_some
  rcases known none with ⟨-, rfl⟩ | gone
  · exact ⟨rest, hl, list⟩
  · exact absurd (by simp [hl]) gone

omit [DecidableEq W] in
/-- A successful pop. -/
lemma Inv.popped (inv : Inv c field s A) {l : L} {old : Seen D} {p : D} {next : Option D}
    {rest : List D} (hl : A l = p :: rest) (list : IsList (s.next (field l)) next rest)
    (swap : s.word l = c.enc old.ptr old.cnt) :
    Inv c field ({ s with
      word := Function.update s.word l (c.enc next old.cnt)
      owner := Function.update s.owner p (some t) }.goto t .idle) (Function.update A l rest) := by
  have hp : p ∈ A l := by simp [hl]
  have nodup : p ∉ rest ∧ rest.Nodup := List.nodup_cons.1 (hl ▸ inv.nodup l)
  have sub : ∀ {l' d}, d ∈ Function.update A l rest l' → d ∈ A l' ∧ d ≠ p := by
    intro l' d hd
    by_cases e : l' = l
    · subst e
      rw [Function.update_self] at hd
      exact ⟨by simp [hl, hd], fun h => nodup.1 (h ▸ hd)⟩
    · rw [Function.update_of_ne e] at hd
      exact ⟨hd, fun h => e (inv.apart (h ▸ hd) hp)⟩
  refine inv.assemble ⟨fun l' => ?_, fun l' => ?_, fun h₁ h₂ => inv.apart (sub h₁).1 (sub h₂).1,
    @fun l' d hd => ?_, fun l' => ?_⟩ rfl (fun u ne => ?_) trivial
  case refine_1 =>
    by_cases e : l' = l
    · subst e
      simpa only [Sys.goto, Function.update_self, c.dec_enc] using list
    · simp only [Sys.goto, Function.update_of_ne e]
      exact inv.list l'
  case refine_2 =>
    by_cases e : l' = l
    · subst e
      rw [Function.update_self]
      exact nodup.2
    · rw [Function.update_of_ne e]
      exact inv.nodup l'
  case refine_3 =>
    simp only [Sys.goto, Function.update_of_ne (sub hd).2]
    exact inv.unowned (sub hd).1
  case refine_4 =>
    by_cases e : l' = l
    · subst e
      simp only [Sys.goto, Function.update_self, c.dec_enc]
      rw [← inv.cnt l', swap, c.dec_enc]
    · simp only [Sys.goto, Function.update_of_ne e]
      exact inv.cnt l'
  case refine_5 =>
    refine ⟨@fun d hd => ?_, fun _ => rfl, fun _ => le_rfl, fun _ hq h => hq (sub h).1,
      @fun l' q _ first => ?_⟩
    · have : d ≠ p := by
        rintro rfl
        simp [inv.unowned hp] at hd
      simpa only [Sys.goto, Function.update_of_ne this] using hd
    · by_cases e : l' = l
      · subst e
        have list := (inv.list l').head_eq
        rw [first, hl, List.head?_cons] at list
        cases list
        exact .inr fun h => (sub h).2 rfl
      · exact .inl ⟨by simpa only [Sys.goto, Function.update_of_ne e] using first, rfl⟩

/-- A step of a thread. -/
lemma Inv.exec (inv : Inv c field s A) (t : ℕ) (spur : Bool)
    (allowed : Allowed c field s (.run t spur)) :
    ∃ A', A.run (exec c field t spur s (s.pc t)).2.toList = some A' ∧
      Inv c field (exec c field t spur s (s.pc t)).1 A' := by
  have loc := inv.thread t
  rw [Allowed] at allowed
  cases e : s.pc t with
  | idle => exact ⟨A, rfl, inv⟩
  | prepare ws l ds =>
    rw [e] at loc
    obtain ⟨owns, writes, chain⟩ := loc
    refine ⟨A, ?_, ?_⟩
    · cases ws <;> rfl
    · cases ws with
      | nil => exact inv.goto ⟨owns, chain⟩
      | cons w ws =>
        refine inv.store (writes w List.mem_cons_self)
          ⟨⟨owns.ne, owns.nodup, owns.owner⟩, ?_, chain⟩
        exact fun w' hw => writes w' (List.mem_cons_of_mem _ hw)
  | pushStore l ds old =>
    rw [e] at loc
    obtain ⟨owns, chain⟩ := loc
    cases hz : ds.getLast? with
    | none => exact absurd (List.getLast?_eq_none_iff.1 hz) owns.ne
    | some z =>
      rw [CountedStack.exec, hz]
      refine ⟨A, rfl, inv.store (owns.owner z (List.mem_of_getLast? hz))
        ⟨⟨owns.ne, owns.nodup, owns.owner⟩, ?_, ?_⟩⟩
      · refine chain.congr fun d hd => Store.apply_of_ne ?_
        rintro rfl
        exact owns.last_notMem hz hd
      · intro z' hz'
        rw [hz] at hz'
        cases hz'
        exact Store.apply_self (w := ⟨field l, z, old.ptr⟩)
  | pushCas l ds old =>
    rw [e] at loc
    obtain ⟨owns, chain, last⟩ := loc
    rw [CountedStack.exec]
    split
    case isTrue swap => exact ⟨_, rfl, inv.pushed owns chain last swap.1⟩
    case isFalse => exact ⟨A, rfl, inv.goto ⟨owns, chain⟩⟩
  | popLoad l => exact ⟨A, rfl, inv.goto (inv.popTest l t)⟩
  | popNext l old p =>
    rw [e] at loc
    refine ⟨A, rfl, inv.goto ⟨loc.1, fun h => ?_⟩⟩
    exact (loc.2 h).imp_left fun first => ⟨first, rfl⟩
  | popCas l old p next =>
    rw [e] at loc allowed
    rw [CountedStack.exec]
    split
    case isTrue swap =>
      obtain ⟨rest, hl, list⟩ := inv.top loc allowed swap.1
      refine ⟨Function.update A l rest, ?_, inv.popped hl list swap.1⟩
      simp [Abs.run, Abs.apply, hl]
    case isFalse => exact ⟨A, rfl, inv.goto (inv.popTest l t)⟩

/-- An action. -/
lemma Inv.step (inv : Inv c field s A) {a : Act D L F} (allowed : Allowed c field s a) :
    ∃ A', A.run (step c field s a).2.toList = some A' ∧ Inv c field (step c field s a).1 A' := by
  have idle : ∀ {t}, s.pc t = .idle → s.pc = Function.update s.pc t .idle := by
    intro t e
    rw [← e, Function.update_eq_self]
  cases a with
  | push t ws l ds => exact ⟨A, rfl, inv.goto allowed.2⟩
  | pop t l => exact ⟨A, rfl, inv.goto trivial⟩
  | run t spur => exact inv.exec t spur allowed
  | store t w =>
    have h : Inv c field ({ s with next := w.apply s.next }.goto t .idle) A :=
      inv.store allowed.2 trivial
    rw [Sys.goto, ← idle allowed.1] at h
    exact ⟨A, rfl, h⟩
  | acquire t d =>
    obtain ⟨hpc, none, fresh⟩ := allowed
    refine ⟨A, rfl, inv.assemble ⟨inv.list, inv.nodup, inv.apart, @fun l x hx => ?_, inv.cnt⟩
      (idle hpc) (fun u ne => ⟨@fun x hx => ?_, fun _ => rfl, fun _ => le_rfl, fun _ h => h,
        fun _ h => .inl ⟨h, rfl⟩⟩) trivial⟩
    · have : x ≠ d := fun e => fresh l _ (inv.list l) (e ▸ hx)
      exact (Function.update_of_ne this ..).trans (inv.unowned hx)
    · have : x ≠ d := fun e => by simp [e, none] at hx
      exact (Function.update_of_ne this ..).trans hx
  | release t d =>
    obtain ⟨hpc, owner⟩ := allowed
    refine ⟨A, rfl, inv.assemble ⟨inv.list, inv.nodup, inv.apart, @fun l x hx => ?_, inv.cnt⟩
      (idle hpc) (fun u ne => ⟨@fun x hx => ?_, fun _ => rfl, fun _ => le_rfl, fun _ h => h,
        fun _ h => .inl ⟨h, rfl⟩⟩) trivial⟩
    · by_cases e : x = d
      · rw [e]
        exact Function.update_self ..
      · exact (Function.update_of_ne e ..).trans (inv.unowned hx)
    · have : x ≠ d := fun e => ne (Option.some.inj ((e ▸ hx).symm.trans owner))
      exact (Function.update_of_ne this ..).trans hx

end invariant

section run

variable {c field} {s₀ s : Sys D L F W} {A₀ A A' : Abs D L} {es : List (Event D L)}

/-- One list of events after another. -/
lemma Abs.run_append (A : Abs D L) (es es' : List (Event D L)) :
    A.run (es ++ es') = (A.run es).bind (Abs.run · es') := by
  induction es generalizing A with
  | nil => rfl
  | cons e es ih =>
    simp only [List.cons_append, Abs.run, Option.bind_assoc]
    exact congrArg _ (funext ih)

/-- A cell that is on no stack gets on one by a push only. -/
lemma Abs.run_notMem {d : D} (e : A.run es = some A') (out : ∀ l, d ∉ A l)
    (no : ∀ t l ds, .pushed t l ds ∈ es → d ∉ ds) : ∀ l, d ∉ A' l := by
  induction es generalizing A with
  | nil =>
    cases e
    exact out
  | cons ev es ih =>
    obtain ⟨A₁, h1, h2⟩ := Option.bind_eq_some_iff.1 e
    refine ih h2 ?_ fun t l ds h => no t l ds (List.mem_cons_of_mem _ h)
    intro l'
    cases ev with
    | pushed t l ds =>
      cases h1
      rw [mem_push, not_or]
      exact ⟨fun h => no t l ds List.mem_cons_self h.2, out l'⟩
    | popped t l x =>
      rw [Abs.apply] at h1
      split at h1
      case isTrue =>
        cases h1
        by_cases e : l' = l
        · subst e
          rw [Function.update_self]
          exact fun h => out l' (List.mem_of_mem_tail h)
        · rw [Function.update_of_ne e]
          exact out l'
      case isFalse => cases h1

/-- What a run keeps. -/
structure Kept (c : Codec D W) (field : L → F) (A₀ : Abs D L) (s : Sys D L F W) (A : Abs D L)
    (es : List (Event D L)) : Prop where
  run : A₀.run es = some A
  inv : Inv c field s A
  between : PushedBetween es
  /-- a cell that was popped and not pushed since is on no stack -/
  gone : ∀ es₁ es₂ t l d, es = es₁ ++ .popped t l d :: es₂ →
    (∀ u k ds, .pushed u k ds ∈ es₂ → d ∉ ds) → ∀ k, d ∉ A k

omit [DecidableEq F] [DecidableEq W] in
/-- A popped cell was on a stack before and is on none after. -/
lemma Matches.mem_popped {t : ℕ} {l : L} {d : D} (hm : Matches c field s A)
    (e : A.apply (.popped t l d) = some A') : d ∈ A l ∧ ∀ k, d ∉ A' k := by
  rw [Abs.apply] at e
  split at e
  case isTrue h =>
    cases e
    obtain ⟨rest, hl⟩ := List.head?_eq_some_iff.1 h
    have hd : d ∈ A l := by simp [hl]
    refine ⟨hd, fun k hk => ?_⟩
    by_cases ek : k = l
    · subst ek
      rw [Function.update_self, hl] at hk
      exact (List.nodup_cons.1 (hl ▸ hm.nodup k)).1 hk
    · rw [Function.update_of_ne ek] at hk
      exact ek (hm.apart hk hd)
  case isFalse => cases e

omit [DecidableEq W] in
/-- One more event. -/
lemma Kept.event {s' : Sys D L F W} {ev : Event D L} (kept : Kept c field A₀ s A es)
    (e : A.apply ev = some A') (inv : Inv c field s' A') : Kept c field A₀ s' A' (es ++ [ev]) := by
  have run : A.run [ev] = some A' := by simp [Abs.run, e]
  refine ⟨by rw [Abs.run_append, kept.run]; exact run, inv, ?_, ?_⟩
  · intro es₁ es₂ es₃ t t' l l' d hes
    rcases es₃.eq_nil_or_concat with rfl | ⟨es₃, x, rfl⟩
    · -- the new event is the second pop
      have split : es ++ [ev] = (es₁ ++ .popped t l d :: es₂) ++ [.popped t' l' d] := by simp [hes]
      obtain ⟨rfl, hx⟩ := List.append_inj' split rfl
      cases hx
      by_contra none
      push Not at none
      exact kept.gone es₁ es₂ t l d rfl none l' (kept.inv.toMatches.mem_popped e).1
    · have split : es ++ [ev] =
          (es₁ ++ .popped t l d :: (es₂ ++ .popped t' l' d :: es₃)) ++ [x] := by simp [hes]
      obtain ⟨rfl, -⟩ := List.append_inj' split rfl
      exact kept.between es₁ es₂ es₃ t t' l l' d rfl
  · intro es₁ es₂ t l d hes no
    rcases es₂.eq_nil_or_concat with rfl | ⟨es₂, x, rfl⟩
    · obtain ⟨rfl, hx⟩ := List.append_inj' hes rfl
      cases hx
      exact (kept.inv.toMatches.mem_popped e).2
    · have split : es ++ [ev] = (es₁ ++ .popped t l d :: es₂) ++ [x] := by simp [hes]
      obtain ⟨rfl, hx⟩ := List.append_inj' split rfl
      cases hx
      refine Abs.run_notMem run (kept.gone es₁ es₂ t l d rfl fun u k ds h => ?_) fun u k ds h => ?_
      · exact no u k ds (by simp [h])
      · exact no u k ds (by simpa using .inr (List.mem_singleton.1 h))

/-- An action. -/
lemma Kept.step (kept : Kept c field A₀ s A es) {a : Act D L F} (allowed : Allowed c field s a) :
    ∃ A', Kept c field A₀ (step c field s a).1 A' (es ++ (step c field s a).2.toList) := by
  obtain ⟨A', run, inv⟩ := kept.inv.step allowed
  cases e : (CountedStack.step c field s a).2 with
  | none =>
    rw [e] at run
    cases run
    rw [Option.toList_none, List.append_nil]
    exact ⟨A, kept.run, inv, kept.between, kept.gone⟩
  | some ev =>
    rw [e] at run
    obtain ⟨A₁, h1, h2⟩ := Option.bind_eq_some_iff.1 run
    cases h2
    exact ⟨A', kept.event h1 inv⟩

/-- In every run that starts with idle threads and given stacks, the stacks do what the events
say, the cells linked from a head are the stack, and no cell is popped twice without a push in
between. -/
theorem run_spec (start : Matches c field s₀ A₀) (idle : ∀ t, s₀.pc t = .idle)
    (run : Run c field s₀ s es) :
    ∃ A, A₀.run es = some A ∧ Matches c field s A ∧ PushedBetween es := by
  have key : ∃ A, Kept c field A₀ s A es := by
    induction run with
    | refl =>
      refine ⟨A₀, rfl, ⟨start, fun t => ?_⟩, fun es₁ _ _ _ _ _ _ _ e => ?_, fun es₁ _ _ _ _ e => ?_⟩
      · rw [idle t]
        trivial
      · cases es₁ <;> cases e
      · cases es₁ <;> cases e
    | step run a allowed ih =>
      obtain ⟨A, kept⟩ := ih
      exact kept.step allowed
  obtain ⟨A, kept⟩ := key
  exact ⟨A, kept.run, kept.inv.toMatches, kept.between⟩

end run

end CountedStack

end Lib
