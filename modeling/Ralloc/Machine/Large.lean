import Ralloc.Machine.Lists

/-!
# Transitions on large blocks, and the ones that change nothing

A large block is a run of superblocks that one thread has just reserved; it becomes a block when
`do_malloc` returns it (`Trans.largeAlloc`) and falls apart into superblocks of the freeing thread
(`Trans.largeFree`). The other transitions write data that the ledger does not see: the argument and
the result of a call, a root, a byte of a block that a client holds.
-/

namespace Ralloc

open Lib SuperblockState

variable {cfg : Cfg} {t : ℕ} {h h' : Heap} {L L' : Ledger}

/-- The result of a call is not part of the representation. -/
lemma Trans.setRet {p : ℕ} (tr : Trans cfg t h L h' L') :
    Trans cfg t h L (h'.setRet t p) L' :=
  ⟨tr.ok, { tr.rep with }, fun u ne => { tr.frame u ne with }⟩

/-- A thread writes down the argument of its `do_malloc`. -/
lemma Trans.setReq (ok : L.Ok cfg) (rep : Rep cfg h L) {size : ℕ} :
    Trans cfg t h L { h with req := Function.update h.req t size } L :=
  ⟨ok, { rep with }, fun u ne => { Frame.refl u h L with req := Function.update_of_ne ne .. }⟩

/-- A thread writes a root. -/
lemma Trans.setRoot (ok : L.Ok cfg) (rep : Rep cfg h L) {roots ret : ℕ → ℕ} :
    Trans cfg t h L { h with roots := roots, ret := ret } L :=
  ⟨ok, { rep with }, fun u _ => { Frame.refl u h L with }⟩

/-- Superblocks become a large block or stop being one. -/
lemma Rep.moveLarge (rep : Rep cfg h L) {p run r r' c c'}
    (dir : r = .raw t ∧ r' = .large p ∧ c = .none ∧ c' = .held ∨
      r = .large p ∧ r' = .raw t ∧ c = .held ∧ c' = .none)
    (at_c : L.place p = c) (descRep : ∀ d ∈ run, DescRep cfg d (h.desc d) r')
    (whole : ∀ d ∈ run, r' = .large (cfg.sb d) → ∃ k, 0 < k ∧ run = List.range' d k ∧
      L.sbs.items (.large (cfg.sb d)) = [] ∧ (h.desc d).blockSize = k * SBSIZE)
    (all : ∀ d, L.role d = .large p → r = .large p → d ∈ run)
    (none : ∀ d, r' = .large p → L.role d ≠ .large p) :
    Rep cfg (h.setClient p c'.client) ((L.moveSb run r r').moveBlk [p] c c') := by
  set L' := (L.moveSb run r r').moveBlk [p] c c' with hL'
  have role_run : ∀ {d}, d ∈ run → L'.role d = r' := fun hd => Ledger.moveSb_role_mem hd
  have role : ∀ {d}, d ∉ run → L'.role d = L.role d := fun hd => Ledger.moveSb_role_not_mem hd
  have blks : ∀ {x}, x ≠ .none → x ≠ .held → L'.blks.items x = L.blks.items x := by
    intro x h1 h2
    rcases dir with ⟨-, -, rfl, rfl⟩ | ⟨-, -, rfl, rfl⟩
    · exact Placement.move_items_other h1 h2
    · exact Placement.move_items_other h2 h1
  have sbs : ∀ {x}, x ≠ .raw t → x ≠ .large p → L'.sbs.items x = L.sbs.items x := by
    intro x h1 h2
    rcases dir with ⟨rfl, rfl, -, -⟩ | ⟨rfl, rfl, -, -⟩
    · exact Placement.move_items_other h1 h2
    · exact Placement.move_items_other h2 h1
  constructor
  case curr => exact rep.curr
  case pos => exact rep.pos
  case desc =>
    intro d
    by_cases hd : d ∈ run
    · rw [role_run hd]
      exact descRep d hd
    · rw [role hd]
      exact rep.desc d
  case anchor =>
    intro d sc o hd
    rw [blks (by simp) (by simp)]
    by_cases hm : d ∈ run
    · rw [role_run hm] at hd
      rcases dir with ⟨-, rfl, -, -⟩ | ⟨-, rfl, -, -⟩ <;> cases hd
    · rw [role hm] at hd
      exact rep.anchor hd
  case free =>
    intro d
    rw [blks (by simp) (by simp)]
    exact rep.free d
  case fresh =>
    intro d sc u hd b hb
    have hm : d ∉ run := by
      intro hm
      rw [role_run hm] at hd
      rcases dir with ⟨-, rfl, -, -⟩ | ⟨-, rfl, -, -⟩ <;> cases hd
    rw [role hm] at hd
    have hp := rep.fresh hd b hb
    have hne : b ≠ p := by
      rintro rfl
      rcases dir with ⟨-, -, rfl, -⟩ | ⟨-, -, rfl, -⟩ <;> simp [hp] at at_c
    rw [hL', Ledger.moveBlk_place_not_mem (by simpa using hne)]
    exact hp
  case list =>
    intro l
    rw [sbs (l.role_ne_taken .avail t) (l.role_ne_large p)]
    exact rep.list l
  case cnt => exact rep.cnt
  case cache =>
    intro u sc
    rw [blks (by simp) (by simp)]
    exact rep.cache u sc
  case client =>
    intro b
    by_cases e : b = p
    · subst e
      rw [Heap.client_setClient_self, hL', Ledger.moveBlk_place_mem (by simp)]
    · rw [Heap.client_setClient_ne e, hL', Ledger.moveBlk_place_not_mem (by simpa using e)]
      exact rep.client b
  case large =>
    intro d hd
    by_cases hm : d ∈ run
    · rw [role_run hm] at hd
      obtain ⟨k, hk, hrun, hnil, hb⟩ := whole d hm hd
      refine ⟨k, hk, ?_, hb⟩
      rw [hL', Ledger.moveBlk_sbs, Ledger.moveSb_items, if_pos hd.symm, hd, hnil, List.append_nil,
        hrun]
    · rw [role hm] at hd
      have hp : cfg.sb d ≠ p := by
        rintro rfl
        rcases dir with ⟨-, rfl, -, -⟩ | ⟨rfl, -, -, -⟩
        · exact none d rfl hd
        · exact hm (all d hd rfl)
      rw [sbs (by simp) (by simpa using hp)]
      exact rep.large hd

/-- The same seen by another thread. -/
lemma Frame.moveLarge {u p : ℕ} (ne : u ≠ t) {run r r' c c' k}
    (dir : r = .raw t ∧ r' = .large p ∧ c = .none ∧ c' = .held ∨
      r = .large p ∧ r' = .raw t ∧ c = .held ∧ c' = .none) :
    Frame u h L (h.setClient p k) ((L.moveSb run r r').moveBlk [p] c c') := by
  have sbs : ∀ {x}, x ≠ .raw t → x ≠ .large p →
      ((L.moveSb run r r').moveBlk [p] c c').sbs.items x = L.sbs.items x := by
    intro x h1 h2
    rcases dir with ⟨rfl, rfl, -, -⟩ | ⟨rfl, rfl, -, -⟩
    · exact Placement.move_items_other h1 h2
    · exact Placement.move_items_other h2 h1
  have blks : ∀ {x}, x ≠ .none → x ≠ .held →
      ((L.moveSb run r r').moveBlk [p] c c').blks.items x = L.blks.items x := by
    intro x h1 h2
    rcases dir with ⟨-, -, rfl, rfl⟩ | ⟨-, -, rfl, rfl⟩
    · exact Placement.move_items_other h1 h2
    · exact Placement.move_items_other h2 h1
  refine { Frame.refl u h L with
    raw := sbs (by simpa using ne) (by simp)
    own := fun sc => sbs (by simp) (by simp)
    fresh := fun sc => sbs (by simp) (by simp)
    freeing := fun sc => blks (by simp) (by simp)
    hands := fun sc => blks (by simp) (by simp)
    cached := fun sc => blks (by simp) (by simp)
    free := fun _ => by rw [blks (by simp) (by simp)]
    next := fun {l q} _ hq => ⟨?_, rfl⟩ }
  rwa [sbs (l.role_ne_taken .avail t) (l.role_ne_large p)] at hq

/-- `do_malloc` returns a large block. -/
theorem Trans.largeAlloc (ok : L.Ok cfg) (rep : Rep cfg h L) {d k : ℕ} (pos : 0 < k)
    (hraw : L.sbs.items (.raw t) = List.range' d k)
    (first : LargeDesc (h.desc d) (k * SBSIZE) (cfg.sb d))
    (rest : ∀ j, d < j → j < d + k → h.desc j = .reset) :
    Trans cfg t h L (h.setClient (cfg.sb d) .held)
      ((L.moveSb (List.range' d k) (.raw t) (.large (cfg.sb d))).moveBlk
        [cfg.sb d] .none .held) := by
  have hd : d ∈ List.range' d k := by simp [pos]
  have hr : L.role d = .raw t := (ok.mem_sbs (r := .raw t) trivial).1 (hraw ▸ hd)
  have hnone : L.place (cfg.sb d) = .none :=
    ok.place_sb_none (ok.insideOf hr (by simp)) (by simp [hr]) (by simp [hr])
  have fresh : ∀ e, L.role e ≠ .large (cfg.sb d) := fun e he => by
    simp [ok.largeHeld he] at hnone
  have nil : L.sbs.items (.large (cfg.sb d)) = [] :=
    List.eq_nil_iff_forall_not_mem.2 fun e he =>
      fresh e ((ok.mem_sbs (r := .large (cfg.sb d)) trivial).1 he)
  refine ⟨ok.largeAlloc hraw hd, ?_, fun u ne => Frame.moveLarge ne (.inl ⟨rfl, rfl, rfl, rfl⟩)⟩
  refine rep.moveLarge (.inl ⟨rfl, rfl, rfl, rfl⟩) hnone (fun e he => ?_)
    (fun e _ h' => ?_) (by simp)
    fun e _ => fresh e
  · show if cfg.sb d = cfg.sb e then _ else _
    split
    case isTrue h' =>
      cases Cfg.sb_inj.1 h'
      exact ⟨first.1, first.2.1, first.2.2.1⟩
    case isFalse h' =>
      rw [List.mem_range'_1] at he
      have : d ≠ e := fun e => h' (by rw [e])
      exact rest e (by omega) he.2
  · cases Cfg.sb_inj.1 (Role.large.inj h')
    exact ⟨k, pos, rfl, nil, first.2.2.2⟩

/-- `do_free` of a large block takes its superblocks. -/
theorem Trans.largeFree (ok : L.Ok cfg) (rep : Rep cfg h L) {p d : ℕ}
    (hd : L.role d = .large p) :
    Trans cfg t h L (h.setClient p .none)
      ((L.moveSb (L.sbs.items (.large p)) (.large p) (.raw t)).moveBlk [p] .held .none) := by
  refine ⟨ok.largeFree hd, ?_, fun u ne => Frame.moveLarge ne (.inr ⟨rfl, rfl, rfl, rfl⟩)⟩
  refine rep.moveLarge (.inr ⟨rfl, rfl, rfl, rfl⟩) (ok.largeHeld hd) (fun e he => ?_) (by simp)
    (fun e he _ => ?_) (by simp)
  · have hr : L.role e = .large p := (ok.mem_sbs (r := .large p) trivial).1 he
    have hrep := rep.desc e
    rw [hr] at hrep
    by_cases e' : p = cfg.sb e
    · rw [DescRep, if_pos e'] at hrep
      exact .inr hrep.1
    · rw [DescRep, if_neg e'] at hrep
      exact .inl (by rw [hrep]; rfl)
  · exact (ok.mem_sbs (r := .large p) trivial).2 he

end Ralloc
