import Ralloc.Durable.Log

/-!
# What is durable on the way

The invariant of a log beside the machine. The plain fields of a descriptor are settled unless a
thread has just written them and is on its way to its fence (`PC.unsettled`), or they are those of a
large block, whose descriptor nobody flushes (`DescDurable`). The region is settled up to
`curr_addr` but for the space that threads have just taken by an expansion and not fenced yet
(`PC.grown`, `CurrDurable`).

`Turn` has what the proofs need to know about one step of a thread.
-/

namespace Ralloc

open Lib SuperblockState

variable {cfg : Cfg} {s s' : State} {ℓ : HeapLog} {t u d : ℕ} {h : Heap} {pc : PC} {r : Heap × PC}
  {L : Ledger}

/-- The descriptor whose plain fields the thread has written and not made durable. -/
def PC.unsettled : PC → Option ℕ
  | .newLink _ d _ _ | .newAnchor _ d _ | .newFlush _ d | .newFence _ d => some d
  | .ctor d .flush _ | .ctor d .fence _ => some d
  | _ => none

/-- The descriptor that the thread has flushed. -/
def PC.flushedDesc : PC → Option ℕ
  | .newFence _ d | .ctor d .fence _ => some d
  | _ => none

/-- The space that the thread has taken and not made durable. -/
def PC.grown : PC → Option (ℕ × ℕ)
  | .grownFlush _ res | .grownFence _ res => some (res, SB_REGION_EXPAND_SIZE)
  | .largeGrownFlush sbs res | .largeGrownFence sbs res => some (res, sbs)
  | _ => none

/-- The space that the thread has taken and flushed. -/
def PC.flushedCurr : PC → Option (ℕ × ℕ)
  | .grownFence _ res => some (res, SB_REGION_EXPAND_SIZE)
  | .largeGrownFence sbs res => some (res, sbs)
  | _ => none

/-- The space that the thread takes if its compare-and-swap on `curr_addr` succeeds. -/
def PC.takes : PC → Option (ℕ × ℕ)
  | .growCas _ cur => some (cur, SB_REGION_EXPAND_SIZE)
  | .largeCas sbs cur => some (cur, sbs)
  | _ => none

/-- The thread has nothing to make durable. -/
def PC.Clear (pc : PC) : Prop := pc.unsettled = none ∧ pc.grown = none

/-- A step from here can leave something to make durable. -/
def PC.Opens : PC → Prop
  | .newSet _ _ | .newLink _ _ _ _ | .newAnchor _ _ _ | .newFlush _ _ | .ctor _ _ _ | .growCas _ _
  | .grownFlush _ _ | .largeCas _ _ | .largeGrownFlush _ _ => True
  | _ => False

section clear

/-- Then it has flushed no descriptor that it has to fence. -/
lemma PC.Clear.flushedDesc (c : pc.Clear) : pc.flushedDesc = none := by
  obtain ⟨c, -⟩ := c
  cases pc with
  | newFence sc d => cases c
  | ctor d ph k =>
    cases ph with
    | fence => cases c
    | _ => rfl
  | _ => rfl

/-- Nor `curr_addr`. -/
lemma PC.Clear.flushedCurr (c : pc.Clear) : pc.flushedCurr = none := by
  obtain ⟨-, c⟩ := c
  cases pc with
  | grownFence sc res => cases c
  | largeGrownFence sbs res => cases c
  | _ => rfl

/-- An assertion that fails leaves nothing to make durable. -/
lemma check_clear {c : Prop} [Decidable c] {a : Site} (h' : r.2.Clear) :
    (check c a h r).2.Clear := by
  unfold check
  split_ifs
  · exact h'
  · exact ⟨rfl, rfl⟩

/-- The test of a head that was loaded. -/
lemma popTest_clear (l : ListId) (sc : ℕ) (old : Seen) : (popTest l sc old).Clear := by
  unfold popTest
  split <;> exact ⟨rfl, rfl⟩

/-- Going on with what was popped. -/
lemma popped_clear (cfg : Cfg) (l : ListId) (sc p : ℕ) : (popped cfg l sc p).Clear := by
  cases l <;> exact ⟨rfl, rfl⟩

/-- The test of an anchor that was loaded. -/
lemma anchorTest_clear (cfg : Cfg) (sc d : ℕ) (old : Anchor) (maxc bsize sb : ℕ) (h : Heap) :
    (anchorTest cfg sc d old maxc bsize sb h).2.Clear := by
  unfold anchorTest
  split <;> exact check_clear ⟨rfl, rfl⟩

/-- The end of a fill of the cache. -/
lemma filled_clear (sc n : ℕ) (h : Heap) : (filled sc n h).2.Clear := by
  unfold filled
  split
  · exact ⟨rfl, rfl⟩
  · exact check_clear ⟨rfl, rfl⟩

/-- The end of a constructor, which has fenced. -/
lemma ctorDone_clear (d : ℕ) (k : CtorK) : (ctorDone d k).Clear := by
  cases k with
  | organize start count i k =>
    rw [ctorDone]
    split <;> exact ⟨rfl, rfl⟩
  | _ => exact ⟨rfl, rfl⟩

/-- The end of a push. -/
lemma pushDone_clear (cfg : Cfg) (k : PushK) : (pushDone cfg k).Clear := by
  cases k <;> exact ⟨rfl, rfl⟩

/-- The end of `flush_cache` for a class. -/
lemma flushDone_clear (sc : ℕ) (k : FlushK) : (flushDone sc k).Clear := by
  cases k with
  | free p => exact ⟨rfl, rfl⟩
  | exit =>
    rw [flushDone]
    split <;> exact ⟨rfl, rfl⟩

/-- Going on after a run of blocks was given back. -/
lemma gaveBack_clear (cfg : Cfg) (sc : ℕ) (r : Run) (old new : Anchor) (k : FlushK) :
    (gaveBack cfg sc r old new k).Clear := by
  unfold gaveBack
  split_ifs <;> exact ⟨rfl, rfl⟩

/-- Most steps leave nothing to make durable. -/
lemma exec_clear (cfg : Cfg) (t : ℕ) (spur : Bool) (h : Heap) (no : ¬pc.Opens) :
    (exec cfg t spur h pc).2.Clear := by
  cases pc with
  | popLoad l sc => exact popTest_clear ..
  | popCas l sc old p next =>
    rw [exec]
    split
    · exact popped_clear ..
    · exact popTest_clear ..
  | anchorLoad sc d => exact anchorTest_clear ..
  | anchorCas sc d old maxc bsize sb =>
    rw [exec]
    split
    · exact check_clear (filled_clear ..)
    · exact anchorTest_clear ..
  | growCheck sc cur =>
    rw [exec]
    split
    · exact ⟨rfl, rfl⟩
    · exact check_clear ⟨rfl, rfl⟩
  | newFence | popBlock | pushStore | flushStore | largeLoad | largeSet | rootSet =>
    rw [exec]
    exact check_clear ⟨rfl, rfl⟩
  | heapPushPartial d k => rw [exec]; split <;> exact ⟨rfl, rfl⟩
  | pushCas l first last old k =>
    rw [exec]
    split
    · exact pushDone_clear ..
    · exact ⟨rfl, rfl⟩
  | flushHead sc k =>
    rw [exec]
    split
    · exact flushDone_clear ..
    · exact check_clear (by split <;> exact ⟨rfl, rfl⟩)
  | flushCas sc r old k =>
    rw [exec]
    split
    · exact check_clear (gaveBack_clear ..)
    · exact ⟨rfl, rfl⟩
  | newSet | newLink | newAnchor | newFlush | ctor | growCas | grownFlush | largeCas
  | largeGrownFlush =>
    exact absurd trivial no
  | _ => exact ⟨rfl, rfl⟩

/-- The beginning of `do_malloc`. -/
lemma callMalloc_clear (t size : ℕ) (h : Heap) : (callMalloc t size h).2.Clear := by
  unfold callMalloc
  dsimp only
  split_ifs <;> exact ⟨rfl, rfl⟩

/-- The beginning of `do_free`. -/
lemma callFree_clear (cfg : Cfg) (t p : ℕ) (h : Heap) : (callFree cfg t p h).2.Clear := by
  unfold callFree
  split
  · exact ⟨rfl, rfl⟩
  · refine check_clear ?_
    dsimp only
    split
    · exact ⟨rfl, rfl⟩
    · exact check_clear ⟨rfl, rfl⟩
    · dsimp only
      split <;> exact ⟨rfl, rfl⟩

end clear

/-- What one move of a thread from `pc` can do to what is to be made durable. -/
structure Turn (cfg : Cfg) (h : Heap) (pc : PC) (r : Heap × PC) : Prop where
  plain : ∀ d, pc.plainWrite cfg ≠ some d → (r.1.desc d).plain = (h.desc d).plain
  wrote : ∀ d, pc.plainWrite cfg = some d →
    r.2.unsettled = some d ∨ (r.1.desc d).heap = some 0 ∨ r.1 = h
  reset : ∀ d k, pc = .ctor d .fields k → (r.1.desc d).heap = none
  unsettled : ∀ d, pc.unsettled = some d →
    r.2.unsettled = some d ∨ pc.flushedDesc = some d ∨ r.2 = .abort .pushList
  flushedDesc : ∀ d, r.2.flushedDesc = some d → pc.flushes = some (.desc d) ∧
    pc.plainWrite cfg = none
  curr : r.1.currAddr = h.currAddr ∨ ∃ size, pc.takes = some (h.currAddr, size) ∧
    r.1.currAddr = bumpNext h.currAddr PAGESIZE size ∧
    r.2.grown = some (alignAdj h.currAddr PAGESIZE, size)
  grown : ∀ x, pc.grown = some x → r.2.grown = some x ∨ pc.flushedCurr = some x
  grows : ∀ x, r.2.grown = some x → pc.grown = some x ∨ pc.takes = some (h.currAddr, x.2) ∧
    x.1 = alignAdj h.currAddr PAGESIZE ∧ r.1.currAddr = bumpNext h.currAddr PAGESIZE x.2
  flushedCurr : ∀ x, r.2.flushedCurr = some x → pc.flushes = some .curr ∧ pc.grown = some x

section turn

/-- While `malloc_from_newsb` links the blocks, the descriptor is not durable. -/
lemma newLoop_unsettled (sc d sb idx : ℕ) : (newLoop sc d sb idx).unsettled = some d := by
  unfold newLoop
  split <;> rfl

/-- And nothing is flushed yet. -/
lemma newLoop_clear (sc d sb idx : ℕ) :
    (newLoop sc d sb idx).flushedDesc = none ∧ (newLoop sc d sb idx).grown = none ∧
      (newLoop sc d sb idx).flushedCurr = none := by
  unfold newLoop
  split <;> exact ⟨rfl, rfl, rfl⟩

variable {x : ℕ × ℕ}

/-- A check that leads to a control state without a property. -/
lemma check_ne {α : Type} {f : PC → Option α} {c : Prop} [Decidable c] {a : Site}
    (abort : f (.abort a) = none) (go : f r.2 = none) : f (check c a h r).2 = none := by
  unfold check
  split_ifs
  · exact go
  · exact abort

/-- A descriptor stays unsettled until the fence after its flush. -/
lemma exec_unsettled (cfg : Cfg) (t : ℕ) (spur : Bool) (h : Heap) (e : pc.unsettled = some d) :
    (exec cfg t spur h pc).2.unsettled = some d ∨ pc.flushedDesc = some d ∨
      (exec cfg t spur h pc).2 = .abort .pushList := by
  cases pc with
  | newLink sc d' sb idx =>
    obtain rfl := Option.some.inj e
    exact .inl (newLoop_unsettled ..)
  | newAnchor sc d' sb =>
    obtain rfl := Option.some.inj e
    rw [exec, check]
    split
    · exact .inl rfl
    · exact .inr (.inr rfl)
  | newFlush sc d' => exact .inl e
  | newFence sc d' => exact .inr (.inl e)
  | ctor d' ph k =>
    cases ph with
    | flush => exact .inl e
    | fence => exact .inr (.inl e)
    | _ => cases e
  | _ => cases e

/-- Who writes plain fields has them to make durable, unless they are those of a large block. -/
lemma exec_wrote (cfg : Cfg) (t : ℕ) (spur : Bool) (h : Heap) (e : pc.plainWrite cfg = some d) :
    (exec cfg t spur h pc).2.unsettled = some d ∨ ((exec cfg t spur h pc).1.desc d).heap = some 0 ∨
      (exec cfg t spur h pc).1 = h := by
  cases pc with
  | newSet sc sb =>
    obtain rfl := Option.some.inj e
    rw [exec, check]
    split
    · exact .inl (newLoop_unsettled ..)
    · exact .inr (.inr rfl)
  | ctor d' ph k =>
    cases ph with
    | fields => exact .inl e
    | _ => cases e
  | largeSet sbs res =>
    obtain rfl := Option.some.inj e
    rw [exec, check]
    split
    · refine .inr (.inl ?_)
      rw [Heap.desc_setDesc_self]
    · exact .inr (.inr rfl)
  | _ => cases e

/-- A descriptor counts as flushed only by a step that flushes and does not write it. -/
lemma exec_flushedDesc (cfg : Cfg) (t : ℕ) (spur : Bool) (h : Heap)
    (e : (exec cfg t spur h pc).2.flushedDesc = some d) :
    pc.flushes = some (.desc d) ∧ pc.plainWrite cfg = none := by
  by_cases op : pc.Opens
  · cases pc with
    | newSet sc sb =>
      rw [exec, check_ne (f := PC.flushedDesc) rfl (newLoop_clear ..).1] at e
      cases e
    | newLink sc d' sb idx =>
      have : (newLoop sc d' sb (idx + 1)).flushedDesc = some d := e
      rw [(newLoop_clear ..).1] at this
      cases this
    | newAnchor sc d' sb =>
      rw [exec, check_ne (f := PC.flushedDesc) rfl rfl] at e
      cases e
    | newFlush sc d' =>
      obtain rfl : d' = d := Option.some.inj e
      exact ⟨rfl, rfl⟩
    | ctor d' ph k =>
      cases ph with
      | flush =>
        obtain rfl : d' = d := Option.some.inj e
        exact ⟨rfl, rfl⟩
      | fence =>
        have : (ctorDone d' k).flushedDesc = some d := e
        rw [(ctorDone_clear d' k).flushedDesc] at this
        cases this
      | _ => cases e
    | growCas | largeCas => rw [exec] at e; split at e <;> cases e
    | grownFlush | largeGrownFlush => cases e
    | _ => exact op.elim
  · rw [(exec_clear cfg t spur h op).flushedDesc] at e
    cases e

/-- Space that was taken is on the way to its fence. -/
lemma exec_grown (cfg : Cfg) (t : ℕ) (spur : Bool) (h : Heap) (e : pc.grown = some x) :
    (exec cfg t spur h pc).2.grown = some x ∨ pc.flushedCurr = some x := by
  cases pc with
  | grownFlush | largeGrownFlush => exact .inl e
  | grownFence | largeGrownFence => exact .inr e
  | _ => cases e

/-- Space is taken by a compare-and-swap that moves `curr_addr` behind it. -/
lemma exec_grows (cfg : Cfg) (t : ℕ) (spur : Bool) (h : Heap)
    (e : (exec cfg t spur h pc).2.grown = some x) : pc.grown = some x ∨
      pc.takes = some (h.currAddr, x.2) ∧ x.1 = alignAdj h.currAddr PAGESIZE ∧
        (exec cfg t spur h pc).1.currAddr = bumpNext h.currAddr PAGESIZE x.2 := by
  by_cases op : pc.Opens
  · cases pc with
    | newSet sc sb =>
      rw [exec, check_ne (f := PC.grown) rfl (newLoop_clear ..).2.1] at e
      cases e
    | newLink sc d' sb idx =>
      have : (newLoop sc d' sb (idx + 1)).grown = some x := e
      rw [(newLoop_clear ..).2.1] at this
      cases this
    | newAnchor sc d' sb =>
      rw [exec, check_ne (f := PC.grown) rfl rfl] at e
      cases e
    | newFlush sc d' => cases e
    | ctor d' ph k =>
      cases ph with
      | fence =>
        have : (ctorDone d' k).grown = some x := e
        rw [(ctorDone_clear d' k).2] at this
        cases this
      | _ => cases e
    | growCas | largeCas =>
      rw [exec] at e ⊢
      split at e
      · next ec =>
        cases e
        rw [if_pos ec, ec]
        exact .inr ⟨rfl, rfl, rfl⟩
      · cases e
    | grownFlush | largeGrownFlush => exact .inl e
    | _ => exact op.elim
  · rw [(exec_clear cfg t spur h op).2] at e
    cases e

/-- `curr_addr` counts as flushed only by a step that flushes it. -/
lemma exec_flushedCurr (cfg : Cfg) (t : ℕ) (spur : Bool) (h : Heap)
    (e : (exec cfg t spur h pc).2.flushedCurr = some x) :
    pc.flushes = some .curr ∧ pc.grown = some x := by
  by_cases op : pc.Opens
  · cases pc with
    | newSet sc sb =>
      rw [exec, check_ne (f := PC.flushedCurr) rfl (newLoop_clear ..).2.2] at e
      cases e
    | newLink sc d' sb idx =>
      have : (newLoop sc d' sb (idx + 1)).flushedCurr = some x := e
      rw [(newLoop_clear ..).2.2] at this
      cases this
    | newAnchor sc d' sb =>
      rw [exec, check_ne (f := PC.flushedCurr) rfl rfl] at e
      cases e
    | newFlush sc d' => cases e
    | ctor d' ph k =>
      cases ph with
      | fence =>
        have : (ctorDone d' k).flushedCurr = some x := e
        rw [(ctorDone_clear d' k).flushedCurr] at this
        cases this
      | _ => cases e
    | growCas | largeCas => rw [exec] at e; split at e <;> cases e
    | grownFlush | largeGrownFlush => exact ⟨rfl, e⟩
    | _ => exact op.elim
  · rw [(exec_clear cfg t spur h op).flushedCurr] at e
    cases e

/-- A step of the machine. -/
lemma exec_turn (cfg : Cfg) (t : ℕ) (spur : Bool) (h : Heap) (pc : PC) :
    Turn cfg h pc (exec cfg t spur h pc) where
  plain := (exec_effect cfg t spur h pc).plain
  wrote _ := exec_wrote cfg t spur h
  reset d k e := by
    subst e
    rw [exec, Heap.desc_setDesc_self]
    rfl
  unsettled _ := exec_unsettled cfg t spur h
  flushedDesc _ := exec_flushedDesc cfg t spur h
  curr := by
    refine (exec_currAddr cfg t spur h pc).imp_right ?_
    rintro ⟨size, ⟨⟨sc, rfl⟩, rfl⟩ | rfl, e⟩
    · refine ⟨_, rfl, e, ?_⟩
      rw [exec, if_pos rfl]
      rfl
    · refine ⟨_, rfl, e, ?_⟩
      rw [exec, if_pos rfl]
      rfl
  grown _ := exec_grown cfg t spur h
  grows _ := exec_grows cfg t spur h
  flushedCurr _ := exec_flushedCurr cfg t spur h

/-- The start of a call. -/
lemma turn_call (desc : r.1.desc = h.desc) (curr : r.1.currAddr = h.currAddr) (clear : r.2.Clear) :
    Turn cfg h .idle r where
  plain d _ := by rw [desc]
  wrote _ e := by cases e
  reset _ _ e := by cases e
  unsettled _ e := by cases e
  flushedDesc _ e := by
    rw [clear.flushedDesc] at e
    cases e
  curr := .inl curr
  grown _ e := by cases e
  grows _ e := by
    rw [clear.2] at e
    cases e
  flushedCurr _ e := by
    rw [clear.flushedCurr] at e
    cases e

/-- An action is a move of a thread, or a client writes a byte. -/
lemma step_turn {a : Act} (st : step cfg s a = some s') :
    (∃ x v, s' = { s with heap := { s.heap with mem := Function.update s.heap.mem x v } } ∧
      noted s ℓ a = ℓ) ∨
    ∃ t r, s' = s.put t r ∧ Turn cfg s.heap (s.pc t) r ∧ noted s ℓ a = pass ℓ t (s.pc t) := by
  cases a with
  | malloc t size =>
    obtain ⟨hi, rfl⟩ := step_call st
    refine .inr ⟨t, _, rfl, ?_, by rw [hi]; rfl⟩
    rw [hi]
    exact turn_call rfl rfl (callMalloc_clear ..)
  | free t p =>
    obtain ⟨hi, rfl⟩ := step_call st
    refine .inr ⟨t, _, rfl, ?_, by rw [hi]; rfl⟩
    rw [hi]
    rcases callFree_cases cfg t p s.heap with ⟨e, -⟩ | ⟨c, -, e, -⟩
    · exact turn_call (by rw [e]) (by rw [e]) (callFree_clear ..)
    · exact turn_call (by rw [e]; rfl) (by rw [e]; rfl) (callFree_clear ..)
  | exit t =>
    obtain ⟨hi, rfl⟩ := step_call st
    refine .inr ⟨t, _, rfl, ?_, by rw [hi]; rfl⟩
    rw [hi]
    exact turn_call rfl rfl ⟨rfl, rfl⟩
  | setRoot t p i =>
    obtain ⟨hi, rfl⟩ := step_call st
    refine .inr ⟨t, _, rfl, ?_, by rw [hi]; rfl⟩
    rw [hi]
    exact turn_call rfl rfl ⟨rfl, rfl⟩
  | write x v =>
    cases st
    exact .inl ⟨x, v, rfl, rfl⟩
  | run t spur =>
    cases st
    exact .inr ⟨t, _, rfl, exec_turn .., rfl⟩

end turn

end Ralloc
