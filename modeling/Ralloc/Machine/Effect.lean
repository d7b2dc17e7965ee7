import Ralloc.Machine.Reach

/-!
# What a step writes

`exec_effect` says of every control state which link word, which plain descriptor fields, which
roots and whose client status a step can change, and `exec_leads` how control comes into an
expansion or a push; `step_heap` and `step_leads` say the same of an action. They only read off the
code. With the invariant `exec_effect` gives `exec_untouched`: a step leaves a held block, its size
and its bytes alone.
-/

namespace Ralloc

open Lib SuperblockState

variable {cfg : Cfg} {t p : ℕ} {h h' h'' : Heap} {L : Ledger} {pc : PC}

/-- Control states in which a step does not change who has which block. -/
def PC.Quiet : PC → Prop
  | .popBlock _ | .pushBlock _ _ | .largeDescFence _ _ => False
  | _ => True

/-- The block whose link word a step writes. -/
def PC.linkWrite : PC → Option ℕ
  | .newLink sc _ sb idx => some (sb + idx * blockSize sc)
  | .flushStore _ r _ _ => some r.tail
  | .pushBlock _ p => some p
  | _ => none

/-- The descriptor whose plain fields a step writes. -/
def PC.plainWrite (cfg : Cfg) : PC → Option ℕ
  | .newSet _ sb => some (sbIndex cfg.heapStart sb)
  | .ctor d .fields _ => some d
  | .largeSet _ res => some (sbIndex cfg.heapStart res)
  | _ => none

/-- What a step from `pc` can change. -/
structure Effect (cfg : Cfg) (h : Heap) (pc : PC) (h' : Heap) : Prop where
  req : h'.req = h.req
  roots : (∀ p i, pc ≠ .rootSet p i) → h'.roots = h.roots
  client : pc.Quiet → h'.client = h.client
  mem : ∀ a, (∀ b, pc.linkWrite = some b → a < b ∨ b + 8 ≤ a) → h'.mem a = h.mem a
  plain : ∀ d, pc.plainWrite cfg ≠ some d → (h'.desc d).plain = (h.desc d).plain

/-- A step that changes nothing. -/
lemma Effect.refl (h : Heap) (pc : PC) : Effect cfg h pc h :=
  ⟨rfl, fun _ => rfl, fun _ => rfl, fun _ _ => rfl, fun _ _ => rfl⟩

/-- An expansion. -/
lemma Effect.setCurr (h : Heap) (pc : PC) (a : ℕ) : Effect cfg h pc { h with currAddr := a } :=
  ⟨rfl, fun _ => rfl, fun _ => rfl, fun _ _ => rfl, fun _ _ => rfl⟩

/-- A descriptor is written, and its plain fields only where the control state says so. -/
lemma Effect.setDesc {d D} (e : pc.plainWrite cfg = some d ∨ D.plain = (h.desc d).plain) :
    Effect cfg h pc (h.setDesc d D) := by
  refine ⟨rfl, fun _ => rfl, fun _ => rfl, fun _ _ => rfl, fun d' hd' => ?_⟩
  by_cases hd : d' = d
  · subst hd
    rw [Heap.desc_setDesc_self]
    exact e.resolve_left hd'
  · rw [Heap.desc_setDesc_ne hd]

/-- A link word is written where the control state says so. -/
lemma Effect.setLink {b v} (e : pc.linkWrite = some b) : Effect cfg h pc (h.setLink b v) :=
  ⟨rfl, fun _ => rfl, fun _ => rfl, fun _ ha => store_out (ha b e), fun _ _ => rfl⟩

/-- The cache does not matter. -/
lemma Effect.setCache (e : Effect cfg h pc h') (t sc c) : Effect cfg h pc (h'.setCache t sc c) :=
  ⟨e.req, e.roots, e.client, e.mem, e.plain⟩

/-- An assertion. -/
lemma Effect.check {c : Prop} [Decidable c] {a : Site} {go : Heap × PC}
    (e : Effect cfg h pc h') (e' : Effect cfg h pc go.1) :
    Effect cfg h pc (check c a h' go).1 := by
  unfold Ralloc.check
  split_ifs
  · exact e'
  · exact e

/-- The loop of `malloc_from_partial` writes nothing before its compare-and-swap. -/
lemma anchorTest_fst {sc d old maxc bsize sb} :
    (anchorTest cfg sc d old maxc bsize sb h).1 = h := by
  unfold anchorTest check
  split_ifs <;> rfl

/-- The end of `fill_cache` writes nothing. -/
lemma filled_fst {sc n} : (filled sc n h).1 = h := by
  unfold filled check
  split_ifs <;> rfl

/-- The effect of one step. -/
theorem exec_effect (cfg : Cfg) (t : ℕ) (spur : Bool) (h : Heap) (pc : PC) :
    Effect cfg h pc (exec cfg t spur h pc).1 := by
  cases pc with
  | popCas l sc old p next =>
    rw [exec]
    split
    · exact ⟨rfl, fun _ => rfl, fun _ => rfl, fun _ _ => rfl, fun _ _ => rfl⟩
    · exact .refl ..
  | anchorLoad sc d => rw [exec, anchorTest_fst]; exact .refl ..
  | anchorCas sc d old maxc bsize sb =>
    rw [exec]
    split
    · refine .check (.setDesc (.inr rfl)) ?_
      rw [filled_fst]
      refine .setCache ?_ ..
      exact .setDesc (.inr rfl)
    · rw [anchorTest_fst]
      exact .refl ..
  | growCheck sc cur =>
    rw [exec]
    split
    · exact .refl ..
    · exact .check (.refl ..) (.refl ..)
  | growCas sc cur =>
    rw [exec]
    split
    · exact .setCurr ..
    · exact .refl ..
  | newSet sc sb => rw [exec]; exact .check (.refl ..) (.setDesc (.inl rfl))
  | newLink sc d sb idx => rw [exec]; exact .setLink rfl
  | newAnchor sc d sb =>
    rw [exec]
    have e : Effect cfg h (.newAnchor sc d sb)
        (h.setDesc d { h.desc d with anchor := .full (maxcount sc) }) := .setDesc (.inr rfl)
    exact .check (.refl ..) (e.setCache ..)
  | newFence sc d => rw [exec]; exact .check (.refl ..) (.refl ..)
  | popBlock sc =>
    rw [exec]
    exact .check (.refl ..) ⟨rfl, fun _ => rfl, fun hq => hq.elim, fun _ _ => rfl, fun _ _ => rfl⟩
  | ctor d ph k =>
    rw [exec]
    cases ph with
    | fields => exact .setDesc (.inl rfl)
    | _ => exact .setDesc (.inr rfl)
  | orgLink start count i k => rw [exec]; exact .setDesc (.inr rfl)
  | heapPushPartial d k => rw [exec]; split <;> exact .refl ..
  | pushStore l first last old k =>
    rw [exec]
    refine .check (.refl ..) (.setDesc (.inr ?_))
    cases l <;> rfl
  | pushCas l first last old k =>
    rw [exec]
    split
    · exact ⟨rfl, fun _ => rfl, fun _ => rfl, fun _ _ => rfl, fun _ _ => rfl⟩
    · exact .refl ..
  | flushHead sc k =>
    rw [exec]
    split
    · exact .refl ..
    · refine .check (.refl ..) ?_
      split
      · exact .refl ..
      · exact (Effect.refl ..).setCache ..
  | flushStore sc r old k => rw [exec]; exact .check (.setLink rfl) (.setLink rfl)
  | flushCas sc r old k =>
    rw [exec]
    split
    · exact .check (.setDesc (.inr rfl)) (.setDesc (.inr rfl))
    · exact .refl ..
  | pushBlock sc p =>
    rw [exec]
    have e : Effect cfg h (.pushBlock sc p) (h.setLink p (h.cache t sc).block) := .setLink rfl
    exact ⟨e.req, e.roots, fun hq => hq.elim, e.mem, e.plain⟩
  | largeLoad sbs => rw [exec]; exact .check (.refl ..) (.refl ..)
  | largeCas sbs cur =>
    rw [exec]
    split
    · exact .setCurr ..
    · exact .refl ..
  | largeSet sbs res => rw [exec]; exact .check (.refl ..) (.setDesc (.inl rfl))
  | largeAnchor sbs res => rw [exec]; exact .setDesc (.inr rfl)
  | largeDescFence sbs res =>
    exact ⟨rfl, fun _ => rfl, fun hq => hq.elim, fun _ _ => rfl, fun _ _ => rfl⟩
  | rootSet p i =>
    rw [exec]
    exact .check (.refl ..)
      ⟨rfl, fun ne => absurd rfl (ne p i), fun _ => rfl, fun _ _ => rfl, fun _ _ => rfl⟩
  | _ => exact .refl ..

section control

/-- Control states outside the expansions and the pushes. -/
def PC.Bare : PC → Prop
  | .growCheck _ _ | .ctor _ _ (.organize _ _ _ _) | .orgLink _ _ _ _ => False
  | .pushStore _ _ _ _ _ | .pushCas _ _ _ _ _ => False
  | _ => True

/-- How control goes on inside expansions and pushes: `curr_addr` and the list words are loaded from
the heap, everything else is handed on. `do_free` of a large block comes in from outside. -/
inductive Leads (cfg : Cfg) (h : Heap) : PC → PC → Prop
  | bare {pc pc' : PC} (out : pc'.Bare) : Leads cfg h pc pc'
  | retire {sb count} : Leads cfg h .idle (organizeSbList cfg sb count .done)
  | grow {sc} : Leads cfg h (.growLoad sc) (.growCheck sc h.currAddr)
  | expand {sc res} : Leads cfg h (.grownFence sc res)
    (organizeSbList cfg (res + SBSIZE) (SB_REGION_EXPAND_SIZE / SBSIZE - 1) (.newsb sc res))
  | phase {d ph ph' start count i k} : Leads cfg h (.ctor d ph (.organize start count i k))
    (.ctor d ph' (.organize start count i k))
  | link {d ph start count i k} : Leads cfg h (.ctor d ph (.organize start count i k))
    (.orgLink start count i k)
  | next {d start count i k} : Leads cfg h (.orgLink start count i k)
    (.ctor d .nextFree (.organize start count (i + 1) k))
  | see {pc l first last k} : Leads cfg h pc (.pushStore l first last (h.see l) k)
  | push {l first last old k} : Leads cfg h (.pushStore l first last old k)
    (.pushCas l first last old k)

/-- A failed assertion is outside. -/
lemma Leads.check {c : Prop} [Decidable c] {a : Site} {go : Heap × PC} (st : Leads cfg h pc go.2) :
    Leads cfg h pc (check c a h' go).2 := by
  unfold Ralloc.check
  split_ifs
  · exact st
  · exact .bare trivial

/-- The head of a pop. -/
lemma leads_popTest {l : ListId} {sc : ℕ} {old : Seen} : Leads cfg h pc (popTest l sc old) := by
  unfold popTest
  split <;> exact .bare trivial

/-- The loop of `malloc_from_partial`. -/
lemma leads_anchorTest {sc d old maxc bsize sb} :
    Leads cfg h pc (anchorTest cfg sc d old maxc bsize sb h').2 := by
  unfold anchorTest
  split <;> exact .check (.bare trivial)

/-- The end of `fill_cache`. -/
lemma leads_filled {sc n} : Leads cfg h pc (filled sc n h').2 := by
  unfold filled
  split
  · exact .bare trivial
  · exact .check (.bare trivial)

/-- The loop of `malloc_from_newsb`. -/
lemma leads_newLoop {sc d sb idx} : Leads cfg h pc (newLoop sc d sb idx) := by
  unfold newLoop
  split <;> exact .bare trivial

/-- The constructor. -/
lemma leads_ctorNext {d ph k} : Leads cfg h (.ctor d ph k) (ctorNext d k ph) := by
  cases ph with
  | fence =>
    show Leads cfg h _ (ctorDone d k)
    cases k with
    | organize start count i k =>
      rw [ctorDone]
      split
      · exact .link
      · exact .bare trivial
    | _ => exact .bare trivial
  | _ =>
    cases k with
    | organize start count i k => exact .phase
    | _ => exact .bare trivial

/-- The end of a push. -/
lemma leads_pushDone {k : PushK} : Leads cfg h pc (pushDone cfg k) := by
  cases k <;> exact .bare trivial

/-- The end of `flush_cache`. -/
lemma leads_flushDone {sc : ℕ} {k : FlushK} : Leads cfg h pc (flushDone sc k) := by
  cases k with
  | free p => exact .bare trivial
  | exit =>
    rw [flushDone]
    split <;> exact .bare trivial

/-- A turn of `flush_cache`. -/
lemma leads_gaveBack {sc r old new k} : Leads cfg h pc (gaveBack cfg sc r old new k) := by
  unfold gaveBack
  split
  · split <;> exact .bare trivial
  · exact .bare trivial

/-- Where one step leads. -/
theorem exec_leads (cfg : Cfg) (t : ℕ) (spur : Bool) (h : Heap) (pc : PC) :
    Leads cfg h pc (exec cfg t spur h pc).2 := by
  cases pc with
  | popLoad l sc => exact leads_popTest
  | popCas l sc old p next =>
    rw [exec]
    split
    · cases l <;> exact .bare trivial
    · exact leads_popTest
  | anchorLoad sc d => exact leads_anchorTest
  | anchorCas sc d old maxc bsize sb =>
    rw [exec]
    split
    · exact .check leads_filled
    · exact leads_anchorTest
  | growLoad sc => exact .grow
  | growCheck sc cur =>
    rw [exec]
    split
    · exact .bare trivial
    · exact .check (.bare trivial)
  | growCas sc cur => rw [exec]; split <;> exact .bare trivial
  | grownFence sc res => exact .expand
  | newSet sc sb => rw [exec]; exact .check leads_newLoop
  | newLink sc d sb idx => exact leads_newLoop
  | newAnchor sc d sb => rw [exec]; exact .check (.bare trivial)
  | newFence sc d => rw [exec]; exact .check (.bare trivial)
  | popBlock sc => rw [exec]; exact .check (.bare trivial)
  | ctor d ph k => exact leads_ctorNext
  | orgLink start count i k => exact .next
  | pushLoad first last k => exact .see
  | heapPushPartial d k =>
    rw [exec]
    split
    · exact .bare trivial
    · exact .see
  | pushStore l first last old k => rw [exec]; exact .check .push
  | pushCas l first last old k =>
    rw [exec]
    split
    · exact leads_pushDone
    · exact .see
  | flushHead sc k =>
    rw [exec]
    split
    · exact leads_flushDone
    · refine .check ?_
      split <;> exact .bare trivial
  | flushStore sc r old k => rw [exec]; exact .check (.bare trivial)
  | flushCas sc r old k =>
    rw [exec]
    split
    · exact .check leads_gaveBack
    · exact .bare trivial
  | largeLoad sbs => rw [exec]; exact .check (.bare trivial)
  | largeCas sbs cur => rw [exec]; split <;> exact .bare trivial
  | largeSet sbs res => rw [exec]; exact .check (.bare trivial)
  | rootSet p i => rw [exec]; exact .check (.bare trivial)
  | _ => exact .bare trivial

/-- Where `do_malloc` starts. -/
lemma leads_callMalloc {size : ℕ} : Leads cfg h .idle (callMalloc t size h').2 := by
  rw [callMalloc]
  split
  · exact .bare trivial
  · dsimp only
    split <;> exact .bare trivial

/-- Where `do_free` starts. -/
lemma leads_callFree : Leads cfg h .idle (callFree cfg t p h').2 := by
  rw [callFree]
  split
  · exact .bare trivial
  · refine .check ?_
    dsimp only
    split
    · exact .bare trivial
    · exact .check .retire
    · dsimp only
      split <;> exact .bare trivial

/-- `do_free` only writes down what becomes of the block. -/
lemma callFree_fst : (callFree cfg t p h).1.desc = h.desc ∧
    (callFree cfg t p h).1.currAddr = h.currAddr := by
  have same : ∀ {c : Prop} [Decidable c] {a : Site} {go : Heap × PC},
      go.1.desc = h.desc ∧ go.1.currAddr = h.currAddr →
        (check c a h go).1.desc = h.desc ∧ (check c a h go).1.currAddr = h.currAddr := by
    intro c _ a go e
    unfold check
    split_ifs
    · exact e
    · exact ⟨rfl, rfl⟩
  rw [callFree]
  split
  · exact ⟨rfl, rfl⟩
  · refine same ?_
    dsimp only
    split
    · exact ⟨rfl, rfl⟩
    · exact same ⟨rfl, rfl⟩
    · exact ⟨rfl, rfl⟩

/-- A thread that is put into a new control state, and the others. -/
lemma State.leads_put {s : State} {u : ℕ} {r : Heap × PC}
    (st : Leads cfg s.heap (s.pc u) r.2) (t : ℕ) :
    (s.put u r).pc t = s.pc t ∨ Leads cfg s.heap (s.pc t) ((s.put u r).pc t) := by
  by_cases e : t = u
  · subst e
    rw [State.pc_put_self]
    exact .inr st
  · exact .inl (State.pc_put_ne e)

/-- Where one action leads. -/
theorem step_leads {s s' : State} {a : Act} (st : step cfg s a = some s') (t : ℕ) :
    s'.pc t = s.pc t ∨ Leads cfg s.heap (s.pc t) (s'.pc t) := by
  cases a with
  | malloc u size =>
    obtain ⟨idle, rfl⟩ := step_call st
    refine State.leads_put ?_ t
    rw [idle]
    exact leads_callMalloc
  | free u p =>
    obtain ⟨idle, rfl⟩ := step_call st
    refine State.leads_put ?_ t
    rw [idle]
    exact leads_callFree
  | exit u =>
    obtain ⟨-, rfl⟩ := step_call st
    refine State.leads_put (.bare ?_) t
    trivial
  | setRoot u p i =>
    obtain ⟨-, rfl⟩ := step_call st
    refine State.leads_put (.bare ?_) t
    trivial
  | write b v =>
    cases st
    exact .inl rfl
  | run u spur =>
    cases st
    exact State.leads_put (exec_leads ..) t

/-- Only steps write descriptors and move `curr_addr`. -/
theorem step_heap {s s' : State} {a : Act} (st : step cfg s a = some s') :
    (∃ t spur, s'.heap = (exec cfg t spur s.heap (s.pc t)).1) ∨
      s'.heap.desc = s.heap.desc ∧ s'.heap.currAddr = s.heap.currAddr := by
  cases a with
  | malloc u size | exit u | setRoot u p i =>
    obtain ⟨-, rfl⟩ := step_call st
    exact .inr ⟨rfl, rfl⟩
  | free u p =>
    obtain ⟨-, rfl⟩ := step_call st
    exact .inr callFree_fst
  | write b v =>
    cases st
    exact .inr ⟨rfl, rfl⟩
  | run t spur =>
    cases st
    exact .inl ⟨t, spur, rfl⟩

end control

/-- A check leaves what both of its outcomes leave. -/
lemma check_fst {P : Heap → Prop} {c : Prop} [Decidable c] {a : Site} {go : Heap × PC}
    (e : P h) (e' : P go.1) : P (check c a h go).1 := by
  unfold check
  split_ifs
  · exact e'
  · exact e

/-- Only the compare-and-swaps of an expansion move `curr_addr`. -/
lemma exec_currAddr (cfg : Cfg) (t : ℕ) (spur : Bool) (h : Heap) (pc : PC) :
    (exec cfg t spur h pc).1.currAddr = h.currAddr ∨
      ∃ size, ((∃ sc, pc = .growCas sc h.currAddr) ∧ size = SB_REGION_EXPAND_SIZE ∨
        pc = .largeCas size h.currAddr) ∧
        (exec cfg t spur h pc).1.currAddr = bumpNext h.currAddr PAGESIZE size := by
  have same : ∀ {c : Prop} [Decidable c] {a : Site} {g : Heap} {go : Heap × PC},
      g.currAddr = h.currAddr → go.1.currAddr = h.currAddr →
      (check c a g go).1.currAddr = h.currAddr :=
    fun e e' => check_fst (P := fun g => g.currAddr = h.currAddr) e e'
  cases pc with
  | growCas sc cur =>
    rw [exec]
    split
    · next e =>
      subst e
      exact .inr ⟨_, .inl ⟨⟨sc, rfl⟩, rfl⟩, rfl⟩
    · exact .inl rfl
  | largeCas sbs cur =>
    rw [exec]
    split
    · next e =>
      subst e
      exact .inr ⟨sbs, .inr rfl, rfl⟩
    · exact .inl rfl
  | anchorLoad sc d => rw [exec, anchorTest_fst]; exact .inl rfl
  | anchorCas sc d old maxc bsize sb =>
    left
    rw [exec]
    split
    · exact same rfl (by rw [filled_fst]; rfl)
    · rw [anchorTest_fst]
  | flushHead sc k =>
    left
    rw [exec]
    split
    · rfl
    · exact same rfl (by split <;> rfl)
  | popCas | pushCas | heapPushPartial => left; rw [exec]; split <;> rfl
  | growCheck sc cur =>
    left
    rw [exec]
    split
    · rfl
    · exact same rfl rfl
  | flushCas sc r old k =>
    left
    rw [exec]
    split
    · exact same rfl rfl
    · rfl
  | newSet | newAnchor | newFence | popBlock | pushStore | flushStore | largeLoad | largeSet |
    rootSet => left; rw [exec]; exact same rfl rfl
  | _ => exact .inl rfl

/-- The superblock of a held block is assigned or large. -/
lemma Ledger.Ok.role_held (ok : L.Ok cfg) (hp : L.place p = .held) :
    (∃ sc o, L.role (sbIndex cfg.heapStart p) = .small sc o ∧
      p ∈ cfg.blocks sc (sbIndex cfg.heapStart p)) ∨
    L.role (sbIndex cfg.heapStart p) = .large p := by
  have hne : L.place p ≠ .none := by simp [hp]
  rcases ok.block hne with ⟨sc, d, o, hr, hm⟩ | ⟨-, d, hd⟩
  · rw [ok.sbIndex_of_mem hr hm]
    exact .inl ⟨sc, o, hr, hm⟩
  · obtain ⟨e, rfl, he⟩ := ok.largeStart hd
    rw [(ok.insideOf he (by simp)).sbIndex_sb]
    exact .inr he

/-- The heap field of a held large block. -/
lemma Inv.heap_of_large {s : State} (inv : Inv cfg s L)
    (hr : L.role (sbIndex cfg.heapStart p) = .large p) :
    (s.heap.desc (sbIndex cfg.heapStart p)).heap = some 0 := by
  obtain ⟨e, rfl, he⟩ := inv.ok.largeStart hr
  have hD := inv.rep.desc e
  rw [he, DescRep, if_pos rfl] at hD
  rw [(inv.ok.insideOf he (by simp)).sbIndex_sb]
  exact hD.1

/-- A step writes the plain fields of a descriptor whose superblock the thread has in its hands, or
that it retires because all blocks are free. -/
lemma ThInv.plainWrite_role (th : ThInv cfg h L t pc) (ok : L.Ok cfg) {d : ℕ}
    (e : pc.plainWrite cfg = some d) : L.role d = .raw t ∨
      ∃ k, pc = .ctor d .fields (.retire k) ∧ L.role d = .small k.sc (.thr t) ∧
        (L.blks.items (.free d)).length = maxcount k.sc := by
  cases pc with
  | newSet sc sb =>
    rw [← Option.some.inj e]
    exact .inl (th.role_raw ok (by simp [rawOf]))
  | largeSet sbs res =>
    rw [← Option.some.inj e]
    have := th.known.1.count_pos
    exact .inl (th.role_raw ok (by rw [rawOf, List.mem_range'_1]; omega))
  | ctor d' ph k =>
    cases ph with
    | fields =>
      obtain rfl : d' = d := Option.some.inj e
      by_cases hk : ∃ k', k = .retire k'
      · obtain ⟨k', rfl⟩ := hk
        exact .inr ⟨k', rfl, th.role_own ok (rfl : _ = some (k'.sc, _)), th.known.2.2.2.2 trivial⟩
      · exact .inl (th.role_raw ok (CtorOk.mem_raw th.known fun k' hk' => absurd ⟨k', hk'⟩ hk))
    | _ => cases e
  | _ => cases e

/-- A superblock with a block that is not free is not retired. -/
lemma ThInv.plainWrite_ne_of_block (th : ThInv cfg h L t pc) (ok : L.Ok cfg) {b sc d o}
    (hr : L.role d = .small sc o) (hm : b ∈ cfg.blocks sc d) (hb : L.place b ≠ .free d) :
    pc.plainWrite cfg ≠ some d := by
  intro e
  rcases th.plainWrite_role ok e with hr' | ⟨k, -, hr', hall⟩
  · rw [hr] at hr'
    cases hr'
  · rw [hr] at hr'
    cases hr'
    have hf := Ledger.mem_of_full (ok.blks (.free _) trivial).nodup (fun b hb => ok.free_sub hr hb)
      hall hm
    exact hb ((ok.mem_items (c := .free _) trivial).1 hf)

/-- A step writes the plain fields of no descriptor whose superblock has a held block. -/
lemma ThInv.plainWrite_ne (th : ThInv cfg h L t pc) (ok : L.Ok cfg) (hp : L.place p = .held) :
    pc.plainWrite cfg ≠ some (sbIndex cfg.heapStart p) := by
  rcases ok.role_held hp with ⟨sc, o, hr, hm⟩ | hr
  · exact th.plainWrite_ne_of_block ok hr hm (by simp [hp])
  · intro e
    rcases th.plainWrite_role ok e with hr' | ⟨k, -, hr', -⟩ <;> rw [hr] at hr' <;> cases hr'

/-- A step writes the link word of no held block. -/
lemma ThInv.linkWrite_tracked (th : ThInv cfg h L t pc) (ok : L.Ok cfg) {b}
    (e : pc.linkWrite = some b) : ∃ c : Place, c.Tracked ∧ L.place b = c := by
  cases pc with
  | newLink sc d sb idx =>
    obtain ⟨-, hf, rfl, hlt, hh, -⟩ := th
    obtain rfl := Option.some.inj e
    refine ⟨.hands t sc, trivial, (ok.mem_items (c := .hands t sc) trivial).1 ?_⟩
    rw [hh]
    exact Cfg.blk_mem (by omega)
  | flushStore sc r old k =>
    obtain rfl := Option.some.inj e
    exact ⟨.hands t sc, trivial, (ok.mem_items (c := .hands t sc) trivial).1
      (List.mem_of_getLast? th.known.1.tail)⟩
  | pushBlock sc p =>
    obtain rfl := Option.some.inj e
    refine ⟨.freeing t sc, trivial, (ok.mem_items (c := .freeing t sc) trivial).1 ?_⟩
    rw [th.owned.freeing]
    simp [freeOf]
  | _ => cases e

/-- Block `p` is held, and has kept its size and its bytes. -/
structure Untouched (cfg : Cfg) (p : ℕ) (h h' : Heap) : Prop where
  client : h'.client p = .held
  size : mallocSize cfg h' p = mallocSize cfg h p
  bytes : ∀ a, p ≤ a → a < p + mallocSize cfg h p → h'.mem a = h.mem a

/-- No step. -/
lemma Untouched.refl (hp : h.client p = .held) : Untouched cfg p h h :=
  ⟨hp, rfl, fun _ _ _ => rfl⟩

/-- One step after another. -/
lemma Untouched.trans (u : Untouched cfg p h h') (u' : Untouched cfg p h' h'') :
    Untouched cfg p h h'' := by
  refine ⟨u'.client, u'.size.trans u.size, fun a lo hi => ?_⟩
  rw [u'.bytes a lo (by rw [u.size]; exact hi), u.bytes a lo hi]

/-- A step does not take a held block away. -/
lemma exec_held (ok : L.Ok cfg) (rep : Rep cfg h L) (th : ThInv cfg h L t pc) (spur : Bool)
    (hp : h.client p = .held) : (exec cfg t spur h pc).1.client p = .held := by
  by_cases hq : pc.Quiet
  · rw [(exec_effect cfg t spur h pc).client hq]
    exact hp
  cases pc with
  | popBlock sc =>
    rw [exec, check, if_pos th.known.2]
    by_cases e : p = (h.cache t sc).block
    · subst e
      exact Heap.client_setClient_self ..
    · exact (Heap.client_setClient_ne e).trans hp
  | pushBlock sc b =>
    have ne : p ≠ b := by
      rintro rfl
      have hf : p ∈ L.blks.items (.freeing t sc) := by
        rw [th.owned.freeing]
        simp [freeOf]
      have := (ok.mem_items (c := .freeing t sc) trivial).1 hf
      rw [rep.client, this] at hp
      cases hp
    rw [exec]
    exact (Heap.client_setClient_ne ne).trans hp
  | largeDescFence sbs res =>
    rw [exec]
    by_cases e : p = res
    · subst e
      exact Heap.client_setClient_self ..
    · exact (Heap.client_setClient_ne e).trans hp
  | _ => exact absurd trivial hq

/-- A step leaves a held block alone. -/
theorem exec_untouched (ok : L.Ok cfg) (rep : Rep cfg h L) (th : ThInv cfg h L t pc) (spur : Bool)
    (hp : h.client p = .held) : Untouched cfg p h (exec cfg t spur h pc).1 := by
  have e := exec_effect cfg t spur h pc
  have hpl := rep.held_iff.1 hp
  refine ⟨exec_held ok rep th spur hp, ?_, fun a lo hi => e.mem a fun b hb => ?_⟩
  · have := e.plain _ (th.plainWrite_ne ok hpl)
    simp only [Descriptor.plain, Prod.mk.injEq] at this
    exact this.2.2.1
  · obtain ⟨c, hc, hbc⟩ := th.linkWrite_tracked ok hb
    have h8 := rep.eight_le ok hbc hc
    have ne : p ≠ b := by
      rintro rfl
      rw [hpl] at hbc
      subst hbc
      exact hc
    have hb' : L.place b ≠ .none := by
      rw [hbc]
      rintro rfl
      exact hc
    rcases rep.disjoint ok (by simp [hpl]) hb' ne with h1 | h1 <;> omega

end Ralloc
