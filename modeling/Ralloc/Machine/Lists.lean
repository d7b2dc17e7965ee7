import Ralloc.Machine.Frame

/-!
# Transitions on descriptors and their lists

`Trans cfg t h L h' L'`: thread `t` changes the heap from `h` to `h'` and the ledger from `L` to
`L'`; both ledgers are represented and no other thread loses anything. This module has the
transitions that move whole superblocks without touching their blocks: pops and pushes on `avail_sb`
and the partial lists, growth of the region, and writes to a descriptor that no list can reach.
-/

namespace Ralloc

open Lib SuperblockState

/-- A change by thread `t` that keeps the ledger represented and respects the other threads. -/
structure Trans (cfg : Cfg) (t : ℕ) (h : Heap) (L : Ledger) (h' : Heap) (L' : Ledger) : Prop where
  ok : L'.Ok cfg
  rep : Rep cfg h' L'
  frame : ∀ u, u ≠ t → Frame u h L h' L'

variable {cfg : Cfg} {t : ℕ} {h h' : Heap} {L L' : Ledger}

/-- No step. -/
lemma Frame.refl (u : ℕ) (h : Heap) (L : Ledger) : Frame u h L h L := by
  constructor
  case next => exact fun _ hp => ⟨hp, rfl⟩
  case ownDesc => exact fun _ => ⟨rfl, rfl⟩
  all_goals intros; rfl

/-- A step that changes nothing but control. -/
lemma Trans.refl (ok : L.Ok cfg) (rep : Rep cfg h L) : Trans cfg t h L h L :=
  ⟨ok, rep, fun u _ => Frame.refl u h L⟩

namespace Ledger

/-- The lists of superblocks after a move, in one equation. -/
lemma moveSb_items (L : Ledger) (run r r' x) : (L.moveSb run r r').sbs.items x =
    if x = r' then run ++ L.sbs.items r' else
      if x = r then (L.sbs.items r).drop run.length else L.sbs.items x := rfl

/-- The lists of blocks. -/
lemma moveBlk_items (L : Ledger) (run c c' x) : (L.moveBlk run c c').blks.items x =
    if x = c' then run ++ L.blks.items c' else
      if x = c then (L.blks.items c).drop run.length else L.blks.items x := rfl

end Ledger

namespace ListId

/-- The role of a superblock that thread `t` has popped. -/
def taken (t : ℕ) : ListId → Role
  | .avail => .raw t
  | .part sc => .small sc (.thr t)

/-- The members of a list are known. -/
lemma role_tracked (l : ListId) : l.role.Tracked := by cases l <;> trivial

/-- So are the superblocks that a thread has taken from it. -/
lemma taken_tracked (l : ListId) (t : ℕ) : (l.taken t).Tracked := by cases l <;> trivial

/-- Each list has a role of its own. -/
lemma role_inj {l l' : ListId} : l.role = l'.role ↔ l = l' := by
  cases l <;> cases l' <;> simp [role]

/-- Who is on a list has not been taken. -/
lemma role_ne_taken (l l' : ListId) (t : ℕ) : l.role ≠ l'.taken t := by
  cases l <;> cases l' <;> simp [role, taken]

/-- A superblock on a list is not part of a large block. -/
lemma role_ne_large (l : ListId) (p : ℕ) : l.role ≠ .large p := by cases l <;> simp [role]

/-- Nor is one that was taken. -/
lemma taken_ne_large (l : ListId) (t p : ℕ) : l.taken t ≠ .large p := by cases l <;> simp [taken]

end ListId

/-- A superblock changes between a list and the thread `t`. -/
lemma Ledger.Ok.moveSb_list (ok : L.Ok cfg) {l : ListId} {run} (nd : run.Nodup)
    (one : l ≠ .avail → ∃ d, run = [d]) :
    (run <+: L.sbs.items l.role → (L.moveSb run l.role (l.taken t)).Ok cfg) ∧
      (run <+: L.sbs.items (l.taken t) → (L.moveSb run (l.taken t) l.role).Ok cfg) := by
  cases l with
  | avail =>
    exact ⟨ok.moveSb_plain (.inl rfl) (.inr ⟨t, rfl⟩) (by simp [ListId.role, ListId.taken]) nd,
      ok.moveSb_plain (.inr ⟨t, rfl⟩) (.inl rfl) (by simp [ListId.role, ListId.taken]) nd⟩
  | part sc =>
    obtain ⟨d, rfl⟩ := one (by simp)
    refine ⟨fun front => ?_, fun front => ?_⟩
    · have hd : L.role d = .small sc .listed :=
        (ok.mem_sbs (by trivial)).1 (front.subset (by simp))
      exact ok.moveSb_owner (by simp) hd fun _ => front
    · have hd : L.role d = .small sc (.thr t) :=
        (ok.mem_sbs (by trivial)).1 (front.subset (by simp))
      exact ok.moveSb_owner (by simp) hd fun _ => front

/-- A listed descriptor serves a thread as well. -/
lemma DescRep.taken {l : ListId} {d D} (hd : DescRep cfg d D l.role) :
    DescRep cfg d D (l.taken t) := by
  cases l with
  | avail =>
    have e : D.heap = none := by
      rw [show D = _ from hd]
      rfl
    exact .inl e
  | part sc => exact hd

/-- A transition that only moves superblocks between a list and thread `t`, seen by the others. -/
lemma Frame.moveSb_list {u : ℕ} (ne : u ≠ t) {l : ListId} {run : List ℕ} {r r' : Role}
    (hr : r = l.role ∧ r' = l.taken t ∨ r = l.taken t ∧ r' = l.role)
    (cache : h'.cache = h.cache) (req : h'.req = h.req) (mem : h'.mem = h.mem)
    (desc : h'.desc = h.desc) (pushes : ∀ l, h.pushes l ≤ h'.pushes l)
    (next : ∀ {l' p}, h'.pushes l' = h.pushes l' → p ∈ (L.moveSb run r r').sbs.items l'.role →
      p ∈ L.sbs.items l'.role) :
    Frame u h L h' (L.moveSb run r r') := by
  have items : ∀ x, x ≠ l.role → x ≠ l.taken t →
      (L.moveSb run r r').sbs.items x = L.sbs.items x := by
    intro x h1 h2
    rcases hr with ⟨rfl, rfl⟩ | ⟨rfl, rfl⟩
    · exact Placement.move_items_other h1 h2
    · exact Placement.move_items_other h2 h1
  have mine : ∀ {x : Role}, x = .raw u ∨ (∃ sc, x = .small sc (.thr u)) ∨
      (∃ sc, x = .small sc (.fresh u)) → x ≠ l.role ∧ x ≠ l.taken t := by
    rintro x (rfl | ⟨sc, rfl⟩ | ⟨sc, rfl⟩) <;> cases l <;> simp [ListId.role, ListId.taken, ne]
  constructor
  case cache => rw [cache]
  case req => rw [req]
  case raw => exact items _ (mine (.inl rfl)).1 (mine (.inl rfl)).2
  case own =>
    intro sc
    have := mine (.inr (.inl ⟨sc, rfl⟩))
    exact items _ this.1 this.2
  case fresh =>
    intro sc
    have := mine (.inr (.inr ⟨sc, rfl⟩))
    exact items _ this.1 this.2
  case freeing => exact fun _ => rfl
  case hands => exact fun _ => rfl
  case cached => exact fun _ => rfl
  case free => exact fun _ => le_rfl
  case link =>
    intro sc b _
    rw [Heap.link, Heap.link, mem]
  case rawDesc => exact fun _ => by rw [desc]
  case ownDesc => exact fun _ => by rw [desc]; exact ⟨rfl, rfl⟩
  case pushes => exact pushes
  case next => exact fun e hp => ⟨next e hp, by rw [desc]⟩

/-- The part of `Rep` that a move between a list and a thread keeps: everything but the lists. -/
lemma Rep.moveSb_list (rep : Rep cfg h L) {l : ListId} {run : List ℕ}
    {r r' : Role} (hr : r = l.role ∧ r' = l.taken t ∨ r = l.taken t ∧ r' = l.role)
    (at_r : ∀ d ∈ run, L.role d = r) (descRep : ∀ d ∈ run, DescRep cfg d (h.desc d) r')
    (curr : h'.currAddr = h.currAddr) (desc : h'.desc = h.desc) (mem : h'.mem = h.mem)
    (cache : h'.cache = h.cache) (client : h'.client = h.client)
    (list : ∀ l', IsList (fun d => (h.desc d).next l') (h'.head l').ptr
      ((L.moveSb run r r').sbs.items l'.role))
    (cnt : ∀ l', (h'.head l').cnt = h'.pushes l' % CNT) :
    Rep cfg h' (L.moveSb run r r') := by
  have link : h'.link = h.link := by
    funext b
    rw [Heap.link, Heap.link, mem]
  have large : ∀ {d p}, (L.moveSb run r r').role d = .large p → L.role d = .large p := by
    intro d p hd
    by_cases hm : d ∈ run
    · rw [Ledger.moveSb_role_mem hm] at hd
      rcases hr with ⟨_, rfl⟩ | ⟨_, rfl⟩
      · exact absurd hd (l.taken_ne_large t p)
      · exact absurd hd (l.role_ne_large p)
    · rwa [Ledger.moveSb_role_not_mem hm] at hd
  constructor
  case curr => rw [curr]; exact rep.curr
  case pos => exact rep.pos
  case desc =>
    intro d
    rw [desc]
    by_cases hm : d ∈ run
    · rw [Ledger.moveSb_role_mem hm]
      exact descRep d hm
    · rw [Ledger.moveSb_role_not_mem hm]
      exact rep.desc d
  case anchor =>
    intro d sc o hd
    rw [desc]
    by_cases hm : d ∈ run
    · rw [Ledger.moveSb_role_mem hm] at hd
      have hd' := at_r d hm
      -- `listed` and `thr` ask the same of an anchor
      cases l with
      | avail => rcases hr with ⟨_, rfl⟩ | ⟨_, rfl⟩ <;> cases hd
      | part sc' =>
        rcases hr with ⟨rfl, rfl⟩ | ⟨rfl, rfl⟩
        · cases hd
          exact rep.anchor (o := .listed) hd'
        · cases hd
          exact rep.anchor (o := .thr t) hd'
    · rw [Ledger.moveSb_role_not_mem hm] at hd
      exact rep.anchor hd
  case free => rw [link]; exact rep.free
  case fresh =>
    intro d sc u hd
    by_cases hm : d ∈ run
    · rw [Ledger.moveSb_role_mem hm] at hd
      rcases hr with ⟨-, rfl⟩ | ⟨-, rfl⟩ <;> cases l <;> cases hd
    · rw [Ledger.moveSb_role_not_mem hm] at hd
      exact rep.fresh hd
  case list => rw [desc]; exact list
  case cnt => exact cnt
  case cache =>
    intro u sc
    rw [cache, link]
    exact rep.cache u sc
  case client => rw [client]; exact rep.client
  case large =>
    intro d hd
    obtain ⟨k, hk, hi, hb⟩ := rep.large (large hd)
    refine ⟨k, hk, ?_, by rw [desc]; exact hb⟩
    rw [← hi]
    have h1 := (l.role_ne_large (cfg.sb d)).symm
    have h2 := (l.taken_ne_large t (cfg.sb d)).symm
    rcases hr with ⟨rfl, rfl⟩ | ⟨rfl, rfl⟩
    · exact Placement.move_items_other h1 h2
    · exact Placement.move_items_other h2 h1

/-- A successful pop. -/
theorem Trans.pop (ok : L.Ok cfg) (rep : Rep cfg h L) {l : ListId} {p rest}
    (hl : L.sbs.items l.role = p :: rest) :
    Trans cfg t h L (h.setHead l ⟨(h.desc p).next l, (h.head l).cnt⟩)
      (L.moveSb [p] l.role (l.taken t)) := by
  have front : [p] <+: L.sbs.items l.role := by simp [hl]
  have hp : L.role p = l.role := (ok.mem_sbs l.role_tracked).1 (by simp [hl])
  have items_l : (L.moveSb [p] l.role (l.taken t)).sbs.items l.role = rest :=
    Placement.move_items_from (l.role_ne_taken l t) hl
  have items_ne : ∀ l', l' ≠ l →
      (L.moveSb [p] l.role (l.taken t)).sbs.items l'.role = L.sbs.items l'.role := fun l' ne =>
    Placement.move_items_other (fun e => ne (ListId.role_inj.1 e)) (l'.role_ne_taken l t)
  have at_r : ∀ d ∈ [p], L.role d = l.role := fun d hd => List.mem_singleton.1 hd ▸ hp
  refine ⟨(ok.moveSb_list (by simp) fun _ => ⟨p, rfl⟩).1 front, ?_, fun u ne => ?_⟩
  · refine rep.moveSb_list (.inl ⟨rfl, rfl⟩) at_r (fun d hd => ?_) rfl rfl rfl rfl rfl ?_ ?_
    · exact (at_r d hd ▸ rep.desc d : DescRep cfg d (h.desc d) l.role).taken
    · intro l'
      by_cases e : l' = l
      · subst e
        rw [items_l]
        have := rep.list l'
        rw [hl] at this
        simpa [Heap.setHead] using this.2
      · rw [items_ne l' e]
        simpa [Heap.setHead, e] using rep.list l'
    · intro l'
      by_cases e : l' = l
      · subst e
        simpa [Heap.setHead] using rep.cnt l'
      · simpa [Heap.setHead, e] using rep.cnt l'
  · refine Frame.moveSb_list ne (.inl ⟨rfl, rfl⟩) rfl rfl rfl rfl (fun _ => le_rfl) ?_
    intro l' q _ hq
    by_cases e : l' = l
    · subst e
      rw [items_l] at hq
      rw [hl]
      exact List.mem_cons_of_mem _ hq
    · rwa [items_ne l' e] at hq

/-- A successful push of `run`, which starts at `first`. -/
theorem Trans.push (ok : L.Ok cfg) (rep : Rep cfg h L) {l : ListId} {run rest : List ℕ} {first : ℕ}
    (hrun : L.sbs.items (l.taken t) = run ++ rest) (one : l ≠ .avail → run = [first])
    (desc : ∀ d ∈ run, DescRep cfg d (h.desc d) l.role)
    (list : IsList (fun d => (h.desc d).next l) (some first) (run ++ L.sbs.items l.role)) :
    Trans cfg t h L
      { h.setHead l ⟨some first, ((h.head l).cnt + 1) % CNT⟩ with
        pushes := Function.update h.pushes l (h.pushes l + 1) }
      (L.moveSb run (l.taken t) l.role) := by
  have front : run <+: L.sbs.items (l.taken t) := by simp [hrun]
  have enum := ok.sbs (l.taken t) (l.taken_tracked t)
  have nd : run.Nodup := by
    have := enum.nodup
    rw [hrun] at this
    exact (List.nodup_append.1 this).1
  have items_l : (L.moveSb run (l.taken t) l.role).sbs.items l.role = run ++ L.sbs.items l.role :=
    Placement.move_items_to _ _ _ _
  have items_ne : ∀ l', l' ≠ l →
      (L.moveSb run (l.taken t) l.role).sbs.items l'.role = L.sbs.items l'.role := fun l' ne =>
    Placement.move_items_other (l'.role_ne_taken l t) (fun e => ne (ListId.role_inj.1 e))
  have at_r : ∀ d ∈ run, L.role d = l.taken t := fun d hd => enum.loc_of_mem (front.subset hd)
  refine ⟨(ok.moveSb_list nd fun e => ⟨first, one e⟩).2 front, ?_, fun u ne => ?_⟩
  · refine rep.moveSb_list (.inr ⟨rfl, rfl⟩) at_r desc rfl rfl rfl rfl rfl ?_ ?_
    · intro l'
      by_cases e : l' = l
      · subst e
        rw [items_l]
        simpa [Heap.setHead] using list
      · rw [items_ne l' e]
        simpa [Heap.setHead, e] using rep.list l'
    · intro l'
      by_cases e : l' = l
      · subst e
        simp [Heap.setHead, rep.cnt]
      · simpa [Heap.setHead, e] using rep.cnt l'
  · refine Frame.moveSb_list ne (.inr ⟨rfl, rfl⟩) rfl rfl rfl rfl (fun l' => ?_) ?_
    · by_cases e : l' = l
      · subst e
        simp
      · simp [e]
    · intro l' q same hq
      by_cases e : l' = l
      · subst e
        simp at same
      · rwa [items_ne l' e] at hq

/-- A write to a descriptor that thread `t` has taken. -/
theorem Trans.setDesc (ok : L.Ok cfg) (rep : Rep cfg h L) {l : ListId} {d D}
    (hd : L.role d = l.taken t) (descRep : DescRep cfg d D (l.taken t))
    (anchor : l ≠ .avail → D.anchor = (h.desc d).anchor) : Trans cfg t h L (h.setDesc d D) L := by
  have ne_of_role : ∀ {e r}, L.role e = r → r ≠ l.taken t → e ≠ d := by
    rintro e r he hr rfl
    exact hr (he.symm.trans hd)
  have not_listed : ∀ {l' : ListId} {e}, e ∈ L.sbs.items l'.role → e ≠ d := fun he =>
    ne_of_role ((ok.mem_sbs (ListId.role_tracked _)).1 he) (ListId.role_ne_taken _ l t)
  refine ⟨ok, ?_, fun u ne => ?_⟩
  · refine { rep with
      desc := fun e => ?_
      anchor := ?_
      list := fun l' => ?_
      large := ?_ }
    · by_cases e' : e = d
      · subst e'
        rw [Heap.desc_setDesc_self, hd]
        exact descRep
      · rw [Heap.desc_setDesc_ne e']
        exact rep.desc e
    · intro e sc o he
      by_cases e' : e = d
      · subst e'
        rw [Heap.desc_setDesc_self, anchor]
        · exact rep.anchor he
        · rintro rfl
          rw [hd] at he
          cases he
      · rw [Heap.desc_setDesc_ne e']
        exact rep.anchor he
    · refine (rep.list l').congr fun e he => ?_
      show ((h.setDesc d D).desc e).next l' = _
      rw [Heap.desc_setDesc_ne (not_listed he)]
    · intro e he
      have ne := ne_of_role he (l.taken_ne_large t _).symm
      obtain ⟨k, hk, hi, hb⟩ := rep.large he
      exact ⟨k, hk, hi, by rw [Heap.desc_setDesc_ne ne]; exact hb⟩
  · refine { Frame.refl u h L with
      rawDesc := fun he => ?_
      ownDesc := fun he => ?_
      next := fun _ hp => ⟨hp, ?_⟩ }
    · refine Heap.desc_setDesc_ne (ne_of_role he ?_)
      cases l <;> simp [ListId.taken, ne]
    · rw [Heap.desc_setDesc_ne (ne_of_role he (by cases l <;> simp [ListId.taken, ne]))]
      exact ⟨rfl, rfl⟩
    · rw [Heap.desc_setDesc_ne (not_listed hp)]

/-- Thread `t` has grown the region by `k` superblocks. -/
theorem Trans.grow (ok : L.Ok cfg) (rep : Rep cfg h L) {k run} (nd : run.Nodup)
    (hrun : ∀ d, d ∈ run ↔ L.n ≤ d ∧ d < L.n + k)
    (room : cfg.sb (L.n + k) ≤ cfg.base + cfg.filesize) :
    Trans cfg t h L { h with currAddr := cfg.sb (L.n + k) }
      ({ L with n := L.n + k }.moveSb run .unborn (.raw t)) := by
  set L' := ({ L with n := L.n + k }.moveSb run .unborn (.raw t)) with hL'
  have at_u : ∀ d ∈ run, L.role d = .unborn := fun d hd => (ok.born d).2 (.inr ((hrun d).1 hd).1)
  have role_run : ∀ {d}, d ∈ run → L'.role d = .raw t := fun hd => Ledger.moveSb_role_mem hd
  have role : ∀ {d}, d ∉ run → L'.role d = L.role d := fun hd => Ledger.moveSb_role_not_mem hd
  have items : ∀ {r}, r ≠ .unborn → r ≠ .raw t → L'.sbs.items r = L.sbs.items r := fun h1 h2 =>
    Placement.move_items_other h1 h2
  have back : ∀ {d r}, L'.role d = r → r ≠ .raw t → L.role d = r := by
    intro d r hd hr
    by_cases hm : d ∈ run
    · exact absurd ((role_run hm).symm.trans hd).symm hr
    · rwa [role hm] at hd
  refine ⟨ok.grow rep.pos nd hrun room, ?_, fun u ne => ?_⟩
  · refine { rep with
      curr := rfl
      pos := ?_
      desc := fun d => ?_
      anchor := fun hd => ?_
      fresh := fun hd => rep.fresh (back hd (by simp))
      list := fun l => ?_
      large := fun hd => ?_ }
    · have := rep.pos
      show 0 < L.n + k
      omega
    · by_cases hm : d ∈ run
      · have hd := rep.desc d
        rw [at_u d hm] at hd
        rw [role_run hm]
        exact .inl (by rw [show h.desc d = .reset from hd]; rfl)
      · rw [role hm]
        exact rep.desc d
    · exact rep.anchor (back hd (by simp))
    · rw [items (by cases l <;> simp [ListId.role]) (by cases l <;> simp [ListId.role])]
      exact rep.list l
    · rw [items (by simp) (by simp)]
      exact rep.large (back hd (by simp))
  · refine { Frame.refl u h L with
      raw := ?_
      own := fun sc => ?_
      fresh := fun sc => ?_
      next := fun _ hp => ⟨?_, rfl⟩ }
    · exact items (by simp) (by simpa using ne)
    · exact items (by simp) (by simp)
    · exact items (by simp) (by simp)
    · rename_i l p _
      rwa [items (by cases l <;> simp [ListId.role]) (by cases l <;> simp [ListId.role])] at hp

end Ralloc
