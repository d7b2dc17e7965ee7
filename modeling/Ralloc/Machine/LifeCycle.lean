import Ralloc.Machine.Conservation

/-!
# The life of a superblock

Who is responsible for an assigned superblock that has free blocks: the partial list of its heap, or
one thread. A thread is responsible for a superblock that it has popped and neither emptied nor
retired yet (`popped`), whose anchor it has changed from full to partial without having pushed it
yet (`madePartial`), and whose anchor it has changed from full to empty without having reset it yet
(`madeEmpty`). `life_cycle` says that there is always exactly one such keeper, and what else holds
of anchors, lists and caches in every reachable state; in particular no assertion fails but those
that the space runs out and that a root index is in range.
-/

namespace Ralloc

open Lib SuperblockState

variable {cfg : Cfg} {s : State} {L : Ledger} {h : Heap}

/-- Why a thread is responsible for a superblock. -/
inductive Reason where
  | popped
  | madePartial
  | madeEmpty
  deriving DecidableEq

/-- The superblock a thread is responsible for. -/
def PC.duty : PC → Option (ℕ × Reason)
  | .anchorLoad _ d => some (d, .popped)
  | .anchorCas _ d _ _ _ _ => some (d, .popped)
  | .ctor d ph (.retire (.retry _)) => if ph.Early then some (d, .popped) else none
  | .ctor d ph (.retire (.flush _ _)) => if ph.Early then some (d, .madeEmpty) else none
  | .heapPushPartial d _ => some (d, .madePartial)
  | .pushStore (.part _) d _ _ _ => some (d, .madePartial)
  | .pushCas (.part _) d _ _ _ => some (d, .madePartial)
  | _ => none

/-- Who can be responsible for an assigned superblock with free blocks. -/
inductive Keeper where
  | list
  | thread (t : ℕ) (why : Reason)
  deriving DecidableEq

/-- The partial list of class `sc` has superblock `d` exactly once, or a thread is responsible. -/
def Keeper.Has (s : State) (sc d : ℕ) : Keeper → Prop
  | .list => ∃ D, s.heap.Lists (.part sc) D ∧ D.count d = 1
  | .thread t why => (s.pc t).duty = some (d, why)

/-- What a list has that is empty or has one item. -/
lemma eq_of_mem_only {o : Option (ℕ × ℕ)} {sc d} (h : d ∈ only o sc) : o = some (sc, d) := by
  match o with
  | none => cases h
  | some (c, x) =>
    by_cases e : c = sc
    · subst e
      rw [only_self, List.mem_singleton] at h
      rw [h]
    · rw [only_ne e] at h
      cases h

/-- A superblock that a thread has taken is one it has a duty for. -/
lemma ThInv.duty_of_own {t pc sc d} (th : ThInv cfg h L t pc) (e : ownOf pc = some (sc, d)) :
    ∃ why, pc.duty = some (d, why) := by
  obtain ⟨-, lo⟩ := th
  cases pc with
  | anchorLoad sc' d' => cases e; exact ⟨.popped, rfl⟩
  | anchorCas sc' d' old maxc bsize sb => cases e; exact ⟨.popped, rfl⟩
  | heapPushPartial d' k => cases e; exact ⟨.madePartial, rfl⟩
  | pushStore l first last old k =>
    cases l with
    | avail => cases e
    | part sc' => cases e; exact ⟨.madePartial, rfl⟩
  | pushCas l first last old k =>
    cases l with
    | avail => cases e
    | part sc' => cases e; exact ⟨.madePartial, rfl⟩
  | ctor d' ph k =>
    cases k with
    | retire k =>
      obtain ⟨-, hsc, hraw, -⟩ := lo
      by_cases he : ph.Early
      · rw [ownOf, if_pos he] at e
        cases e
        cases k with
        | retry sc => exact ⟨.popped, if_pos he⟩
        | flush sc k => exact ⟨.madeEmpty, if_pos he⟩
        | newsb sc res => cases hraw
        | done => exact absurd hsc.1 (by simp [PushK.sc])
      · rw [ownOf, if_neg he] at e
        cases e
    | _ => cases e
  | _ => cases e

/-- A thread has a duty only for a superblock that it has taken. -/
lemma PC.own_of_duty {pc : PC} {d why} (e : pc.duty = some (d, why)) :
    ∃ sc, ownOf pc = some (sc, d) := by
  cases pc with
  | anchorLoad sc' d' => cases e; exact ⟨_, rfl⟩
  | anchorCas sc' d' old maxc bsize sb => cases e; exact ⟨_, rfl⟩
  | heapPushPartial d' k => cases e; exact ⟨_, rfl⟩
  | pushStore l first last old k =>
    cases l with
    | avail => cases e
    | part sc' => cases e; exact ⟨_, rfl⟩
  | pushCas l first last old k =>
    cases l with
    | avail => cases e
    | part sc' => cases e; exact ⟨_, rfl⟩
  | ctor d' ph k =>
    cases k with
    | retire k =>
      by_cases he : ph.Early
      · refine ⟨k.sc, ?_⟩
        cases k <;> simp_all [PC.duty, ownOf]
      · cases k <;> simp_all [PC.duty]
    | _ => cases e
  | _ => cases e

/-- The superblocks on a list are those the ledger has there. -/
lemma Rep.lists_iff (rep : Rep cfg h L) {l D} : h.Lists l D ↔ D = L.sbs.items l.role :=
  ⟨fun hD => IsList.unique hD (rep.list l), fun e => e ▸ rep.list l⟩

/-- The keepers of an assigned superblock, by its owner in the ledger. -/
lemma Inv.keeper_iff (inv : Inv cfg s L) {sc d o} (hr : L.role d = .small sc o) (k : Keeper) :
    k.Has s sc d ↔ match k with
      | .list => o = .listed
      | .thread t why => o = .thr t ∧ (s.pc t).duty = some (d, why) := by
  cases k with
  | list =>
    have enum := inv.ok.sbs (.small sc .listed) trivial
    simp only [Keeper.Has, inv.rep.lists_iff]
    refine ⟨fun ⟨D, e, hc⟩ => ?_, fun e => ⟨_, rfl, ?_⟩⟩
    · subst e
      have hm : d ∈ L.sbs.items (.small sc .listed) := List.count_pos_iff.1 (by
        rw [show L.sbs.items (.small sc .listed) = L.sbs.items (ListId.part sc).role from rfl]
        omega)
      have := enum.loc_of_mem hm
      rw [show L.sbs.loc d = L.role d from rfl, hr] at this
      cases this
      rfl
    · subst e
      exact List.count_eq_one_of_mem enum.nodup (enum.mem.2 hr)
  | thread t why =>
    refine ⟨fun e => ⟨?_, e⟩, fun e => e.2⟩
    obtain ⟨sc', he⟩ := PC.own_of_duty e
    have := (inv.thread t).role_own inv.ok he
    rw [hr] at this
    cases this
    rfl

/-- No superblock has two keepers. -/
lemma Inv.keeper_unique (inv : Inv cfg s L) {sc d o} (hr : L.role d = .small sc o) {k k' : Keeper}
    (hk : k.Has s sc d) (hk' : k'.Has s sc d) : k = k' := by
  rw [inv.keeper_iff hr] at hk hk'
  cases k with
  | list =>
    cases k' with
    | list => rfl
    | thread t why => rw [hk] at hk'; cases hk'.1
  | thread t why =>
    obtain ⟨rfl, hw⟩ := hk
    cases k' with
    | list => cases hk'
    | thread u why' =>
      obtain ⟨e, hw'⟩ := hk'
      cases e
      rw [hw] at hw'
      cases hw'
      rfl

/-- What holds of superblocks, lists and caches in a reachable state. -/
structure LifeCycle (s : State) : Prop where
  /-- a full superblock is on no list -/
  full : ∀ {d sc}, s.heap.Assigned d sc → (s.heap.desc d).anchor.state = SB_FULL →
    ∀ l D, s.heap.Lists l D → d ∉ D
  /-- a superblock with free blocks has exactly one keeper -/
  kept : ∀ {d sc}, s.heap.Assigned d sc → (s.heap.desc d).anchor.state = SB_PARTIAL ∨
    (s.heap.desc d).anchor.state = SB_EMPTY → ∃! k : Keeper, k.Has s sc d
  /-- the anchor of a partial superblock -/
  anchor : ∀ {d sc}, s.heap.Assigned d sc → (s.heap.desc d).anchor.state = SB_PARTIAL →
    1 ≤ (s.heap.desc d).anchor.count ∧ (s.heap.desc d).anchor.count < (s.heap.desc d).maxcount ∧
      (s.heap.desc d).anchor.avail < (s.heap.desc d).maxcount
  /-- every list ends, and the free superblocks are there once, reset, and on no partial list -/
  avail : ∃ D, s.heap.Lists .avail D ∧ D.Nodup ∧ ∀ d ∈ D,
    s.heap.desc d = { Descriptor.reset with nextFree := (s.heap.desc d).nextFree } ∧
      ∀ sc, ∃ D', s.heap.Lists (.part sc) D' ∧ d ∉ D'
  /-- no cache bin overflows -/
  cache : ∀ t sc, (s.heap.cache t sc).num ≤ cacheBlockNum sc
  /-- the only assertions that can fail -/
  asserts : ∀ t a, s.pc t = .abort a → a = .smallSbAlloc ∨ a = .expandGetLargeSb ∨ a = .setRoot

/-- A superblock on a list is the one role the list has. -/
lemma Inv.role_of_listed (inv : Inv cfg s L) {l D d} (hD : s.heap.Lists l D) (hd : d ∈ D) :
    L.role d = l.role := by
  rw [inv.rep.lists_iff] at hD
  subst hD
  cases l with
  | avail => exact (inv.ok.mem_sbs (r := .avail) trivial).1 hd
  | part sc => exact (inv.ok.mem_sbs (r := .small sc .listed) trivial).1 hd

/-- An assigned superblock that is neither full nor being set up is on its list or with a thread. -/
lemma Inv.owner_of_state (inv : Inv cfg s L) {d sc o} (hr : L.role d = .small sc o)
    (hst : (s.heap.desc d).anchor.state = SB_PARTIAL ∨ (s.heap.desc d).anchor.state = SB_EMPTY) :
    o = .listed ∨ ∃ t, o = .thr t := by
  have ha := inv.rep.anchor hr
  cases o with
  | full => rw [ha.1] at hst; simp [Anchor.full] at hst
  | fresh t => rw [ha.1] at hst; simp [Anchor.zero] at hst
  | listed => exact .inl rfl
  | thr t => exact .inr ⟨t, rfl⟩

/-- The life cycle of superblocks, in every reachable state. -/
theorem life_cycle (hs : Reach cfg s) : LifeCycle s := by
  obtain ⟨L, inv⟩ := hs.inv
  constructor
  case full =>
    intro d sc ha hst l D hD hd
    obtain ⟨o, hr⟩ := inv.rep.role_of_assigned ha
    have hl := inv.role_of_listed hD hd
    have hA := inv.rep.anchor hr
    rw [hr] at hl
    cases l with
    | avail => cases hl
    | part sc' =>
      cases hl
      rcases hA.2.2 with ⟨he, -⟩ | ⟨he, -⟩ <;> rw [hst] at he <;> cases he
  case kept =>
    intro d sc ha hst
    obtain ⟨o, hr⟩ := inv.rep.role_of_assigned ha
    rcases inv.owner_of_state hr hst with rfl | ⟨t, rfl⟩
    · have hl : Keeper.list.Has s sc d := (inv.keeper_iff hr _).2 rfl
      exact ⟨.list, hl, fun k hk => inv.keeper_unique hr hk hl⟩
    · have hm := (inv.ok.mem_sbs (r := .small sc (.thr t)) trivial).2 hr
      rw [(inv.thread t).owned.own sc] at hm
      obtain ⟨why, hw⟩ := (inv.thread t).duty_of_own (eq_of_mem_only hm)
      exact ⟨.thread t why, hw, fun k hk => inv.keeper_unique hr hk hw⟩
  case anchor =>
    intro d sc ha hst
    obtain ⟨o, hr⟩ := inv.rep.role_of_assigned ha
    have hA := inv.rep.anchor hr
    have hD := inv.rep.desc d
    rw [hr] at hD
    rw [hD.2.2.1]
    have key : AnchorRep cfg sc d (s.heap.desc d).anchor (L.blks.items (.free d)) .listed := by
      rcases inv.owner_of_state hr (.inl hst) with rfl | ⟨t, rfl⟩ <;> exact hA
    obtain ⟨hh, hav, ⟨-, hc, hlt⟩ | ⟨he, -⟩⟩ := key
    · have : L.blks.items (.free d) ≠ [] := by rintro e; rw [e] at hh; cases hh
      have := List.length_pos_iff.2 this
      omega
    · rw [hst] at he
      cases he
  case avail =>
    refine ⟨_, inv.rep.list .avail, (inv.ok.sbs .avail trivial).nodup, fun d hd => ?_⟩
    have hr := inv.role_of_listed (inv.rep.list .avail) hd
    have hD := inv.rep.desc d
    rw [hr] at hD
    refine ⟨hD, fun sc => ⟨_, inv.rep.list (.part sc), fun hd' => ?_⟩⟩
    have hr' := inv.role_of_listed (inv.rep.list (.part sc)) hd'
    rw [hr] at hr'
    cases hr'
  case cache =>
    intro t sc
    rw [(inv.rep.cache t sc).num]
    exact (inv.rep.cache t sc).le
  case asserts =>
    intro t a e
    have := (inv.thread t).known
    rw [e] at this
    exact this

/-- A run after which thread 1 has given back all blocks of superblock 1 and has not reset it. -/
def retiringRun : List Act :=
  (.malloc 1 14336 :: List.replicate 12 (.run 1 false)) ++
    (.malloc 2 14336 :: List.replicate 12 (.run 2 false)) ++
    [.free 1 (sample.blk 39 1 0), .run 1 false, .free 1 (sample.blk 39 2 0), .run 1 false,
      .run 1 false, .run 1 false, .run 1 false]

/-- While `flush_cache` retires a superblock that it has found full and made empty, the superblock
is assigned and empty, on no list, and was neither popped nor made partial by anyone. -/
theorem life_cycle_retiring : ∃ s, Reach sample s ∧ s.heap.Assigned 1 39 ∧
    (s.heap.desc 1).anchor.state = SB_EMPTY ∧
      ¬∃ k : Keeper, k.Has s 39 1 ∧ ∀ t, k ≠ .thread t .madeEmpty := by
  obtain ⟨s, hs, ht⟩ := reach_of_test retiringRun
    (fun s => decide ((s.heap.desc 1).heap = some 39 ∧ (s.heap.desc 1).anchor.state = SB_EMPTY ∧
      (s.pc 1).duty = some (1, .madeEmpty))) (by decide +kernel)
  obtain ⟨hheap, hst, hduty⟩ := of_decide_eq_true ht
  have ha : s.heap.Assigned 1 39 := ⟨hheap, by decide⟩
  obtain ⟨L, inv⟩ := hs.inv
  obtain ⟨o, hr⟩ := inv.rep.role_of_assigned ha
  refine ⟨s, hs, ha, hst, ?_⟩
  rintro ⟨k, hk, hne⟩
  have hd : (Keeper.thread 1 .madeEmpty).Has s 39 1 := hduty
  exact hne 1 (inv.keeper_unique hr hk hd)

/-- The life cycle at a state with an assigned superblock. -/
theorem life_cycle_sample : ∃ s, Reach sample s ∧ s.heap.Assigned 1 39 ∧ LifeCycle s := by
  obtain ⟨s, hs, ht⟩ := reach_of_test (.malloc 1 14336 :: List.replicate 12 (.run 1 false))
    (fun s => decide ((s.heap.desc 1).heap = some 39)) (by decide +kernel)
  exact ⟨s, hs, ⟨of_decide_eq_true ht, by decide⟩, life_cycle hs⟩

end Ralloc
