import Ralloc.Durable.Settled

/-!
# The invariant of the log

`DescDurable` and `CurrDurable` hold in every state that well-behaved clients can reach
(`PReach.durable`).
-/

namespace Ralloc

open Lib SuperblockState

variable {cfg : Cfg} {s s' : State} {ℓ ℓ' : HeapLog} {t u d : ℕ} {r : Heap × PC} {pc : PC}
  {L L' : Ledger}

/-- What is durable of the descriptors. -/
structure DescDurable (s : State) (ℓ : HeapLog) : Prop where
  /-- the plain fields, unless somebody is on the way to a fence or they belong to a large block -/
  settled : ∀ d, (s.heap.desc d).heap ≠ some 0 → (∀ t, (s.pc t).unsettled ≠ some d) →
    ℓ.Settled (.desc d) fun h => (h.desc d).plain = (s.heap.desc d).plain
  /-- between a flush and a fence -/
  flushed : ∀ t d, (s.pc t).flushedDesc = some d →
    ℓ.Since (ℓ.flushed t (.desc d)) fun h => (h.desc d).plain = (s.heap.desc d).plain
  /-- the descriptor of a large block was unused when it was flushed last -/
  stale : ∀ d, (s.heap.desc d).heap = some 0 → ℓ.Stale (.desc d) fun h => (h.desc d).heap = none

/-- The part of it that does not speak of large blocks. -/
structure DescSettled (s : State) (ℓ : HeapLog) : Prop where
  settled : ∀ d, (s.heap.desc d).heap ≠ some 0 → (∀ t, (s.pc t).unsettled ≠ some d) →
    ℓ.Settled (.desc d) fun h => (h.desc d).plain = (s.heap.desc d).plain
  flushed : ∀ t d, (s.pc t).flushedDesc = some d →
    ℓ.Since (ℓ.flushed t (.desc d)) fun h => (h.desc d).plain = (s.heap.desc d).plain

/-- Forget what is said of large blocks. -/
lemma DescDurable.toSettled (dd : DescDurable s ℓ) : DescSettled s ℓ := ⟨dd.settled, dd.flushed⟩

/-- The log goes on to `s'` without a flush of a line outside the blocks. -/
structure Quiet (s' : State) (ℓ ℓ' : HeapLog) : Prop where
  settled : ∀ ln Q, ℓ.Settled ln Q → Q s'.heap → ℓ'.Settled ln Q
  flushed : ∀ t ln Q, (∀ k, ln ≠ .mem k) → ℓ.Since (ℓ.flushed t ln) Q → Q s'.heap →
    ℓ'.Since (ℓ'.flushed t ln) Q
  stale : ∀ ln Q, (∀ k, ln ≠ .mem k) → ℓ.Stale ln Q → ℓ'.Stale ln Q

/-- A write flushes nothing. -/
lemma quiet_write (s' : State) (ℓ : HeapLog) : Quiet s' ℓ (ℓ.write s'.heap) :=
  ⟨fun _ _ h hv => h.write hv, fun _ _ _ _ h hv => Log.Since.write h hv, fun _ _ _ h => h.write _⟩

/-- A client flushes lines of blocks only. -/
lemma quiet_flush (s : State) (ℓ : HeapLog) (t k : ℕ) : Quiet s ℓ (ℓ.flush t (.mem k)) := by
  refine ⟨fun _ _ h _ => h, fun u ln Q ne h _ => ?_, fun ln Q ne h => h.flush t (ne k)⟩
  have old : (ℓ.flush t (.mem k)).flushed u ln = ℓ.flushed u ln := if_neg fun e => ne k e.2
  rw [old]
  exact h

/-- A fence makes durable what was flushed before it. -/
lemma quiet_fence (s : State) (ℓ : HeapLog) (t : ℕ) : Quiet s ℓ (ℓ.fence t) :=
  ⟨fun _ _ h _ => h.fence t, fun _ _ _ _ h _ => h, fun _ _ _ h => h.fence t⟩

section desc

/-- A superblock whose blocks are all in a cache is assigned. -/
lemma Ledger.Ok.role_of_cached (ok : L.Ok cfg) {sc : ℕ} (small : SmallClass sc)
    (cached : L.blks.items (.cached u sc) = cfg.blocks sc d) :
    ∃ o, L.role d = .small sc o ∧ cfg.sb d ∈ cfg.blocks sc d ∧
      L.place (cfg.sb d) = .cached u sc := by
  have first : cfg.sb d ∈ cfg.blocks sc d := by
    rw [← cfg.blk_zero sc d]
    exact Cfg.blk_mem (lt_of_lt_of_le (by decide) small.four_le)
  have place : L.place (cfg.sb d) = .cached u sc :=
    (ok.mem_items (c := .cached u sc) trivial).1 (by rwa [cached])
  obtain ⟨e, o, hr, hm⟩ := ok.inClass place
  obtain rfl : d = e := by
    by_contra ne
    have := Cfg.not_mem_range_of_ne small hm (Ne.symm ne)
    rw [SBSIZE_eq] at this
    omega
  exact ⟨o, hr, first, place⟩

/-- A flushed descriptor is not written by another thread. -/
lemma Inv.plainWrite_ne_flushed (inv : Inv cfg s L) (ne : u ≠ t)
    (hd : (s.pc u).flushedDesc = some d) : (s.pc t).plainWrite cfg ≠ some d := by
  have th := inv.thread u
  generalize s.pc u = pc at th hd
  cases pc with
  | newFence sc d' =>
    obtain rfl : d' = d := Option.some.inj hd
    obtain ⟨asked, cached⟩ := th.known
    obtain ⟨o, hr, hm, place⟩ := inv.ok.role_of_cached asked.small cached
    exact (inv.thread t).plainWrite_ne_of_block inv.ok hr hm (by simp [place])
  | ctor d' ph k =>
    cases ph with
    | fence =>
      obtain rfl : d' = d := Option.some.inj hd
      have hr := th.role_raw inv.ok (CtorOk.mem_raw th.known fun _ _ => id)
      intro e
      rcases (inv.thread t).plainWrite_role inv.ok e with hr' | ⟨k, -, hr', -⟩ <;> rw [hr] at hr'
      · exact ne (Role.raw.inj hr')
      · cases hr'
    | _ => cases hd
  | _ => cases hd

/-- Nobody flushes the descriptor of a large block. -/
lemma Inv.flushes_ne (inv : Inv cfg s L) (heap : (s.heap.desc d).heap = some 0) :
    (s.pc t).flushes ≠ some (.desc d) := by
  intro e
  have th := inv.thread t
  generalize s.pc t = pc at th e
  cases pc with
  | newFlush sc d' =>
    obtain rfl : d' = d := Line.desc.inj (Option.some.inj e)
    obtain ⟨asked, cached⟩ := th.known
    obtain ⟨o, hr, -⟩ := inv.ok.role_of_cached asked.small cached
    have hD := inv.rep.desc d'
    rw [hr] at hD
    have pos := asked.small.1
    rw [hD.1, Option.some.injEq] at heap
    omega
  | ctor d' ph k =>
    cases ph with
    | flush =>
      obtain rfl : d' = d := Line.desc.inj (Option.some.inj e)
      have reset : s.heap.desc d' = .reset := by
        have known := th.known
        cases k with
        | retire k => exact known.2.2.2.1
        | organize start count i k => exact known.2.2.2.2.1
        | newsb sc res => exact known.2.2
        | large sbs res => exact known.2.2.1
      rw [reset] at heap
      cases heap
    | _ => cases e
  | growFlush | grownFlush | largeFlush | largeGrownFlush | rootFlush => cases e
  | _ => cases e

/-- One move of a thread. -/
lemma DescSettled.turn (dd : DescSettled s ℓ) (inv : Inv cfg s L) (inv' : Inv cfg (s.put t r) L')
    (cur : ℓ.cur = s.heap) (tn : Turn cfg s.heap (s.pc t) r) :
    DescSettled (s.put t r) ((pass ℓ t (s.pc t)).write r.1) := by
  have same : ∀ {d}, (s.pc t).plainWrite cfg ≠ some d →
      (r.1.desc d).plain = (s.heap.desc d).plain :=
    fun ne => tn.plain _ ne
  have heap : ∀ {D D' : Descriptor}, D.plain = D'.plain → D.heap = D'.heap := fun e =>
    congrArg (fun x => x.2.1) e
  constructor
  case settled =>
    intro d notLarge clear
    -- the thread has not written the plain fields, or it has nothing left to do for them
    have plain : (r.1.desc d).plain = (s.heap.desc d).plain := by
      by_cases e : (s.pc t).plainWrite cfg = some d
      · rcases tn.wrote d e with e | e | e
        · exact absurd e (by simpa using clear t)
        · exact absurd e notLarge
        · rw [e]
      · exact same e
    have notLarge' : (s.heap.desc d).heap ≠ some 0 := heap plain ▸ notLarge
    show Log.Settled _ _ fun (h : Heap) => (h.desc d).plain = (r.1.desc d).plain
    rw [plain]
    refine Log.Settled.write ?_ plain
    by_cases clear' : ∀ u, (s.pc u).unsettled ≠ some d
    · exact settled_pass (dd.settled d notLarge' clear')
    · obtain ⟨u, hu⟩ := not_forall.1 clear'
      have hu := not_not.1 hu
      obtain rfl : u = t := by
        by_contra ne
        exact clear u (by rwa [State.pc_put_ne ne])
      rcases tn.unsettled d hu with e | e | e
      · exact absurd e (by simpa using clear u)
      · have fence : pass ℓ u (s.pc u) = ℓ.fence u := by
          generalize s.pc u = pc at e
          cases pc with
          | newFence => rfl
          | ctor d' ph k =>
            cases ph with
            | fence => rfl
            | _ => cases e
          | _ => cases e
        rw [fence]
        exact (dd.flushed u d e).fence
      · have known := (inv'.thread u).known
        rw [State.pc_put_self, e] at known
        exact absurd known (by simp [Local])
  case flushed =>
    intro u d hu
    by_cases e : u = t
    · subst e
      rw [State.pc_put_self] at hu
      obtain ⟨flush, noWrite⟩ := tn.flushedDesc d hu
      have plain : (r.1.desc d).plain = (s.heap.desc d).plain := same (by simp [noWrite])
      show Log.Since _ _ fun (h : Heap) => (h.desc d).plain = (r.1.desc d).plain
      rw [plain, pass_of_flushes flush]
      exact Log.Since.write (Log.since_flush (by rw [cur])) plain
    · rw [State.pc_put_ne e] at hu
      have plain := same (inv.plainWrite_ne_flushed e hu)
      show Log.Since _ _ fun (h : Heap) => (h.desc d).plain = (r.1.desc d).plain
      rw [plain]
      refine Log.Since.write ?_ plain
      have flushed : ((pass ℓ t (s.pc t)).write r.1).flushed u = ℓ.flushed u := flushed_pass e
      rw [flushed]
      exact since_pass (dd.flushed u d hu)

/-- One move of a thread. -/
lemma DescDurable.turn (dd : DescDurable s ℓ) (inv : Inv cfg s L) (inv' : Inv cfg (s.put t r) L')
    (cur : ℓ.cur = s.heap) (tn : Turn cfg s.heap (s.pc t) r) :
    DescDurable (s.put t r) ((pass ℓ t (s.pc t)).write r.1) := by
  obtain ⟨settled, flushed⟩ := dd.toSettled.turn inv inv' cur tn
  refine ⟨settled, flushed, fun d large => ?_⟩
  by_cases large' : (s.heap.desc d).heap = some 0
  · exact (stale_pass (dd.stale d large') (inv.flushes_ne large')).write _
  · -- the descriptor becomes that of a large block
    refine Log.Stale.write (Log.stale_now ?_) _
    rw [cur_pass, cur]
    by_cases e : (s.pc t).plainWrite cfg = some d
    · rcases (inv.thread t).plainWrite_role inv.ok e with hr | ⟨k, hk, -⟩
      · have hD := inv.rep.desc d
        rw [hr] at hD
        exact hD.resolve_right large'
      · have : (r.1.desc d).heap = some 0 := large
        rw [tn.reset d _ hk] at this
        cases this
    · have heap : (r.1.desc d).heap = (s.heap.desc d).heap :=
        congrArg (fun x => x.2.1) (tn.plain d e)
      exact absurd large (heap ▸ large')

/-- The descriptors do not change, and their lines are not flushed. -/
lemma DescSettled.congr (dd : DescSettled s ℓ) (pc : s'.pc = s.pc)
    (desc : s'.heap.desc = s.heap.desc) (quiet : Quiet s' ℓ ℓ') : DescSettled s' ℓ' := by
  constructor
  · rw [pc, desc]
    exact fun d h1 h2 => quiet.settled _ _ (dd.settled d h1 h2) (by rw [desc])
  · rw [pc, desc]
    exact fun t d h => quiet.flushed _ _ _ (by simp) (dd.flushed t d h) (by rw [desc])

/-- What a client does outside the descriptors keeps them durable. -/
lemma DescDurable.congr (dd : DescDurable s ℓ) (pc : s'.pc = s.pc)
    (desc : s'.heap.desc = s.heap.desc) (quiet : Quiet s' ℓ ℓ') : DescDurable s' ℓ' := by
  obtain ⟨settled, flushed⟩ := dd.toSettled.congr pc desc quiet
  refine ⟨settled, flushed, ?_⟩
  rw [desc]
  exact fun d h => quiet.stale _ _ (by simp) (dd.stale d h)

end desc

/-- What is durable of `curr_addr`. -/
structure CurrDurable (cfg : Cfg) (s : State) (ℓ : HeapLog) : Prop where
  /-- it is at least `a`, unless `a` lies in space that a thread has just taken -/
  below : ∀ a ≤ s.heap.currAddr, ℓ.Settled .curr (fun h => a ≤ h.currAddr) ∨
    ∃ t x, (s.pc t).grown = some x ∧ x.1 < a ∧ a ≤ x.1 + x.2
  grown : ∀ t x, (s.pc t).grown = some x → x.1 + x.2 ≤ s.heap.currAddr
  /-- between a flush and a fence -/
  flushed : ∀ t x, (s.pc t).flushedCurr = some x →
    ℓ.Since (ℓ.flushed t .curr) fun h => x.1 + x.2 ≤ h.currAddr
  /-- it is the end of some superblock -/
  shape : ℓ.Settled .curr fun h => h.currAddr ≤ s.heap.currAddr ∧ ∃ n, 0 < n ∧ h.currAddr = cfg.sb n

section curr

/-- An expansion that succeeds takes the space behind `curr_addr`. -/
lemma Inv.takes (inv : Inv cfg s L) {size : ℕ} (e : (s.pc t).takes = some (s.heap.currAddr, size)) :
    alignAdj s.heap.currAddr PAGESIZE = s.heap.currAddr ∧
      bumpNext s.heap.currAddr PAGESIZE size = s.heap.currAddr + size := by
  have known := (inv.thread t).known
  have fits : ∃ k, size = k * SBSIZE ∧ size < HALF ∧
      cfg.fits s.heap.currAddr PAGESIZE size = true := by
    generalize s.pc t = pc at e known
    cases pc with
    | growCas sc cur =>
      cases e
      exact ⟨EXPAND_SBS, by decide, by decide, known.2⟩
    | largeCas sbs cur =>
      cases e
      exact ⟨_, (Nat.div_mul_cancel (Nat.dvd_of_mod_eq_zero known.1.mod)).symm, known.1.lt, known.2⟩
    | _ => cases e
  obtain ⟨k, rfl, lt, fits⟩ := fits
  rw [inv.rep.curr] at fits ⊢
  obtain ⟨adj, next, -⟩ := Cfg.grow_of_fits inv.ok.inside lt fits
  rw [next, Cfg.sb_add]
  exact ⟨adj, rfl⟩

/-- One move of a thread. -/
lemma CurrDurable.turn (cd : CurrDurable cfg s ℓ) (inv : Inv cfg s L)
    (inv' : Inv cfg (s.put t r) L') (cur : ℓ.cur = s.heap) (tn : Turn cfg s.heap (s.pc t) r) :
    CurrDurable cfg (s.put t r) ((pass ℓ t (s.pc t)).write r.1) := by
  have le : s.heap.currAddr ≤ r.1.currAddr := by
    rcases tn.curr with e | ⟨size, takes, e, -⟩
    · exact e.ge
    · rw [e, (inv.takes takes).2]
      omega
  constructor
  case below =>
    intro a ha
    have ha : a ≤ r.1.currAddr := ha
    by_cases old : a ≤ s.heap.currAddr
    · rcases cd.below a old with settled | ⟨u, x, grown, lo, hi⟩
      · exact .inl ((settled_pass settled).write ha)
      · by_cases e : u = t
        · subst e
          rcases tn.grown x grown with grown | flushed
          · exact .inr ⟨u, x, by rwa [State.pc_put_self], lo, hi⟩
          · have fence : pass ℓ u (s.pc u) = ℓ.fence u := by
              generalize s.pc u = pc at flushed
              cases pc with
              | grownFence | largeGrownFence => rfl
              | _ => cases flushed
            rw [fence]
            refine .inl (Log.Settled.write ?_ ha)
            exact (cd.flushed u x flushed).fence.imp fun _ h => hi.trans h
        · exact .inr ⟨u, x, by rwa [State.pc_put_ne e], lo, hi⟩
    · rcases tn.curr with e | ⟨size, takes, e, grown⟩
      · exact absurd (e ▸ ha) old
      · obtain ⟨adj, next⟩ := inv.takes takes
        rw [adj] at grown
        exact .inr ⟨t, _, by rwa [State.pc_put_self], by omega, by rw [← next, ← e]; exact ha⟩
  case grown =>
    intro u x grown
    by_cases e : u = t
    · subst e
      rw [State.pc_put_self] at grown
      rcases tn.grows x grown with grown | ⟨takes, start, e⟩
      · exact (cd.grown u x grown).trans le
      · obtain ⟨adj, next⟩ := inv.takes takes
        rw [start, adj, ← next, ← e]
        exact le_rfl
    · rw [State.pc_put_ne e] at grown
      exact (cd.grown u x grown).trans le
  case flushed =>
    intro u x flushed
    by_cases e : u = t
    · subst e
      rw [State.pc_put_self] at flushed
      obtain ⟨flush, grown⟩ := tn.flushedCurr x flushed
      have here := cd.grown u x grown
      rw [pass_of_flushes flush]
      exact Log.Since.write (Log.since_flush (by rwa [cur])) (here.trans le)
    · rw [State.pc_put_ne e] at flushed
      have old : ((pass ℓ t (s.pc t)).write r.1).flushed u = ℓ.flushed u := flushed_pass e
      rw [old]
      refine Log.Since.write (since_pass (cd.flushed u x flushed)) ?_
      exact (cd.flushed u x flushed).cur (ℓ.flushed_le _ _) |>.trans (by rw [cur]; exact le)
  case shape =>
    refine Log.Settled.write ((settled_pass cd.shape).imp fun _ h => ⟨h.1.trans le, h.2⟩) ?_
    exact ⟨le_rfl, L'.n, inv'.rep.pos, inv'.rep.curr⟩

/-- `curr_addr` does not change, and its line is not flushed. -/
lemma CurrDurable.congr (cd : CurrDurable cfg s ℓ) (pc : s'.pc = s.pc)
    (curr : s'.heap.currAddr = s.heap.currAddr) (quiet : Quiet s' ℓ ℓ') (cur : ℓ.cur = s.heap) :
    CurrDurable cfg s' ℓ' := by
  constructor
  · rw [pc, curr]
    exact fun a ha => (cd.below a ha).imp_left fun h => quiet.settled _ _ h (by rwa [curr])
  · rw [pc, curr]
    exact cd.grown
  · rw [pc]
    intro t x h
    have since := cd.flushed t x h
    refine quiet.flushed _ _ _ (by simp) since ?_
    have := since.cur (ℓ.flushed_le t _)
    rwa [curr, ← cur]
  · rw [curr]
    refine quiet.settled _ _ cd.shape ⟨by rw [curr], ?_⟩
    rw [curr, ← cur]
    exact cd.shape.cur.2

end curr

/-- Both parts hold in every state that well-behaved clients can reach. -/
theorem PReach.durable (h : PReach cfg s ℓ) : DescDurable s ℓ ∧ CurrDurable cfg s ℓ := by
  refine h.induction (P := fun s ℓ => DescDurable s ℓ ∧ CurrDurable cfg s ℓ) ?_ ?_
  · intro ℓ born
    have plain : ∀ d, ((init cfg).heap.desc d).heap = none := fun d =>
      congrArg (fun x => x.2.1) (init_plain cfg d)
    refine ⟨⟨fun d _ _ => ?_, fun t d e => (by cases e), fun d e => ?_⟩,
      ⟨fun a ha => .inl ?_, fun t x e => (by cases e), fun t x e => (by cases e), ?_⟩⟩
    · rw [init_plain]
      exact born.desc d
    · rw [plain] at e
      cases e
    · exact born.currAddr.imp fun _ h => by rwa [h]
    · exact born.currAddr.imp fun _ h => ⟨h.le, EXPAND_SBS, by decide, by rw [h]; rfl⟩
  · intro s s' ℓ ℓ' hs st ih
    obtain ⟨dd, cd⟩ := ih
    obtain ⟨reach, cur⟩ := hs.reach
    cases st with
    | @act _ _ _ a allowed st =>
      obtain ⟨L, inv⟩ := reach.inv
      obtain ⟨L', inv'⟩ := inv.step ⟨a, allowed, st⟩
      rcases step_turn (ℓ := ℓ) st with ⟨x, v, rfl, e⟩ | ⟨t, r, rfl, tn, e⟩ <;> rw [e]
      · exact ⟨dd.congr rfl rfl (quiet_write ..), cd.congr rfl rfl (quiet_write ..) cur⟩
      · exact ⟨dd.turn inv inv' cur tn, cd.turn inv inv' cur tn⟩
    | flush t k => exact ⟨dd.congr rfl rfl (quiet_flush ..), cd.congr rfl rfl (quiet_flush ..) cur⟩
    | fence t => exact ⟨dd.congr rfl rfl (quiet_fence ..), cd.congr rfl rfl (quiet_fence ..) cur⟩

end Ralloc
