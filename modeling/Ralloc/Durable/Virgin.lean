import Ralloc.Durable.Crash
import Ralloc.Machine.Refine

/-!
# Descriptors that nobody has written

`Virgin cfg s d`: descriptor `d` is as it was when the file was created. That is so for the
descriptor of the skipped superblock, for those behind `curr_addr`, for those of an expansion that
is not durable yet, and for those behind the first one of a large block. Looked at backwards, such a
descriptor was virgin before the step (`Inv.virgin_back`), so it has had no other contents since its
line was durable (`Unwritten`), and a crash leaves it as it is.
-/

namespace Ralloc

open Lib SuperblockState

variable {cfg : Cfg} {s s' : State} {ℓ ℓ' : HeapLog} {t u d p : ℕ} {h : Heap} {pc : PC}
  {r : Heap × PC}
  {L L' : Ledger}

/-- The superblocks of the large block that a thread is setting up: the first one and how many. -/
def PC.building (cfg : Cfg) : PC → Option (ℕ × ℕ)
  | .largeGrownFlush sbs res | .largeGrownFence sbs res | .largeSet sbs res | .largeAnchor sbs res
  | .largeDescFlush sbs res | .largeDescFence sbs res =>
    some (sbIndex cfg.heapStart res, sbs / SBSIZE)
  | .ctor d _ (.large sbs _) => some (d, sbs / SBSIZE)
  | _ => none

/-- Nobody has written descriptor `d` yet. -/
inductive Virgin (cfg : Cfg) (s : State) (d : ℕ) : Prop
  | first (e : d = 0)
  | beyond (lt : s.heap.currAddr < cfg.sb (d + 1))
  | taken {t : ℕ} {x : ℕ × ℕ} (grown : (s.pc t).grown = some x) (lo : x.1 < cfg.sb (d + 1))
    (hi : cfg.sb (d + 1) ≤ x.1 + x.2)
  | built {t : ℕ} {y : ℕ × ℕ} (building : (s.pc t).building cfg = some y) (lo : y.1 < d)
    (hi : d < y.1 + y.2)
  | inner {p : ℕ} (held : s.heap.client p = .held) (lo : p < cfg.sb d)
    (hi : cfg.sb d < p + mallocSize cfg s.heap p)

section reset

/-- A thread that builds a large block has not written the descriptors behind the first one. -/
lemma ThInv.building (th : ThInv cfg h L t pc) {y : ℕ × ℕ} (e : pc.building cfg = some y) :
    LargeOk h t (y.2 * SBSIZE) ∧ ∀ j, y.1 < j → j < y.1 + y.2 → h.desc j = .reset := by
  have key : ∀ {d sbs}, LargeOk h t sbs → RestReset h d sbs → LargeOk h t (sbs / SBSIZE * SBSIZE) ∧
      ∀ j, d < j → j < d + sbs / SBSIZE → h.desc j = .reset := by
    intro d sbs large rest
    rw [Nat.div_mul_cancel (Nat.dvd_of_mod_eq_zero large.mod)]
    exact ⟨large, rest⟩
  have known := th.known
  cases pc with
  | largeGrownFlush | largeGrownFence | largeSet =>
    obtain rfl := Option.some.inj e
    exact key known.1 known.2.2
  | largeAnchor | largeDescFlush | largeDescFence =>
    obtain rfl := Option.some.inj e
    exact key known.1 known.2.2.1
  | ctor d ph k =>
    cases k with
    | large sbs res =>
      obtain rfl := Option.some.inj e
      exact key known.1 known.2.2.2
    | _ => cases e
  | _ => cases e

/-- A superblock that starts inside a held block belongs to a large block. -/
lemma Inv.role_inner (inv : Inv cfg s L) (held : s.heap.client p = .held) (lo : p < cfg.sb d)
    (hi : cfg.sb d < p + mallocSize cfg s.heap p) : L.role d = .large p := by
  rcases inv.ok.role_held (inv.rep.held_iff.1 held) with ⟨sc, o, hr, hm⟩ | hr
  · have x := (inv.rep.extent_small inv.ok hr hm).2
    have h1 := lt_of_le_of_lt x.lo lo
    have h2 := lt_of_lt_of_le hi x.hi
    rw [← not_le, Cfg.sb_le_sb] at h1 h2
    omega
  · obtain ⟨e, k, -, -, -, x⟩ := inv.rep.extent_large inv.ok hr
    have h1 := lt_of_le_of_lt x.lo lo
    have h2 := lt_of_lt_of_le hi x.hi
    rw [← not_le, Cfg.sb_le_sb] at h1 h2
    refine x.large d (by omega) (by omega) fun sc o hs => ?_
    obtain ⟨rfl, -⟩ := x.small (by omega) (by omega) hs
    omega

/-- A virgin descriptor that is not part of an expansion has its first contents. -/
lemma Inv.reset_of_virgin (inv : Inv cfg s L) (vg : Virgin cfg s d) :
    s.heap.desc d = .reset ∨ ∃ t x, (s.pc t).grown = some x ∧ x.1 < cfg.sb (d + 1) ∧
      cfg.sb (d + 1) ≤ x.1 + x.2 := by
  have unborn : d = 0 ∨ L.n ≤ d → s.heap.desc d = .reset := by
    intro out
    have hD := inv.rep.desc d
    rwa [(inv.ok.born d).2 out] at hD
  cases vg with
  | first e => exact .inl (unborn (.inl e))
  | beyond lt =>
    rw [inv.rep.curr, ← not_le, Cfg.sb_le_sb] at lt
    exact .inl (unborn (.inr (by omega)))
  | taken grown lo hi => exact .inr ⟨_, _, grown, lo, hi⟩
  | built building lo hi => exact .inl (((inv.thread _).building building).2 d lo hi)
  | inner held lo hi =>
    have hD := inv.rep.desc d
    rw [inv.role_inner held lo hi, DescRep, if_neg lo.ne] at hD
    exact .inl hD

end reset

section back

/-- The control states of a `do_malloc` of a large block. -/
def PC.Large : PC → Prop
  | .largeLoad _ | .largeFlush _ _ | .largeFence _ _ | .largeCas _ _ | .largeGrownFlush _ _
  | .largeGrownFence _ _ | .largeSet _ _ | .largeAnchor _ _ | .largeDescFlush _ _
  | .largeDescFence _ _ | .ctor _ _ (.large _ _) => True
  | _ => False

/-- A push inside `do_malloc` is done for a class that was asked for. -/
lemma PushK.Ok.asked {k : PushK} (ok : k.Ok cfg h t) (inside : k.inMalloc = true) :
    ∃ sc, Asked h t sc := by
  cases k with
  | retry sc => exact ⟨sc, ok.toAsked⟩
  | newsb sc res => exact ⟨sc, ok.1.toAsked⟩
  | flush | done => cases inside

/-- A thread inside a `do_malloc` was asked for a small size or is on its way to a large block. -/
lemma ThInv.asked_or_large (th : ThInv cfg h L t pc) (inside : pc.inMalloc = true) :
    (∃ sc, Asked h t sc) ∨ pc.Large := by
  have known := th.known
  cases pc with
  | popLoad l sc => exact .inl ⟨sc, known.2.toAsked⟩
  | popNext l sc | popCas l sc => exact .inl ⟨sc, known.2.1.toAsked⟩
  | anchorLoad sc | growLoad sc | growCheck sc => exact .inl ⟨sc, known.toAsked⟩
  | anchorCas sc | growFlush sc | growFence sc | growCas sc | grownFlush sc | grownFence sc
  | newSet sc | newLink sc | newAnchor sc => exact .inl ⟨sc, known.1.toAsked⟩
  | newFlush sc | newFence sc | popBlock sc => exact .inl ⟨sc, known.1⟩
  | ctor d ph k =>
    cases k with
    | retire k => exact .inl (PushK.Ok.asked known.1 inside)
    | organize start count i k => exact .inl (PushK.Ok.asked known.1 inside)
    | newsb sc res => exact .inl ⟨sc, known.1.toAsked⟩
    | large => exact .inr trivial
  | orgLink start count i k | pushLoad first last k => exact .inl (PushK.Ok.asked known.1 inside)
  | heapPushPartial d k => exact .inl (PushK.Ok.asked known.1 inside)
  | pushStore l first last old k | pushCas l first last old k =>
    cases l with
    | avail => exact .inl (PushK.Ok.asked known.1 inside)
    | part sc =>
      obtain ⟨-, -, -, fk, rfl⟩ := known
      cases inside
  | largeLoad | largeFlush | largeFence | largeCas | largeGrownFlush | largeGrownFence | largeSet
  | largeAnchor | largeDescFlush | largeDescFence => exact .inr trivial
  | _ => cases inside

/-- Only `do_malloc` makes large blocks. -/
lemma PC.inMalloc_of_building {y : ℕ × ℕ} (e : pc.building cfg = some y) : pc.inMalloc = true := by
  cases pc with
  | largeGrownFlush | largeGrownFence | largeSet | largeAnchor | largeDescFlush | largeDescFence =>
    rfl
  | ctor d ph k =>
    cases k with
    | large => rfl
    | _ => cases e
  | _ => cases e

/-- A thread starts to build a large block when it has taken the space for it. -/
lemma exec_builds (ok : L.Ok cfg) (th : ThInv cfg h L t pc) (spur : Bool)
    (th' : ThInv cfg (exec cfg t spur h pc).1 L' t (exec cfg t spur h pc).2) {y : ℕ × ℕ}
    (e : (exec cfg t spur h pc).2.building cfg = some y) : pc.building cfg = some y ∨
      pc = .largeCas (y.2 * SBSIZE) h.currAddr ∧
        y.1 = sbIndex cfg.heapStart (alignAdj h.currAddr PAGESIZE) := by
  have inside : pc.inMalloc = true := by
    rcases exec_inMalloc cfg t spur h pc with same | ⟨a, abort⟩ | ⟨idle, -⟩
    · rw [← same]
      exact PC.inMalloc_of_building e
    · rw [abort] at e
      cases e
    · rw [idle] at e
      cases e
  rcases th.asked_or_large inside with ⟨sc, asked⟩ | large
  · have lt := (th'.building e).1.large
    rw [(exec_effect cfg t spur h pc).req] at lt
    exact absurd asked.le (not_le.2 lt)
  cases pc with
  | largeLoad sbs =>
    rw [exec, check] at e
    split at e <;> cases e
  | largeFlush | largeFence => cases e
  | largeCas sbs cur =>
    have mod := th.known.1.mod
    rw [exec] at e
    split at e
    case isTrue now =>
      cases e
      refine .inr ⟨?_, by rw [now]⟩
      rw [now]
      dsimp only
      rw [Nat.div_mul_cancel (Nat.dvd_of_mod_eq_zero mod)]
    case isFalse => cases e
  | largeGrownFlush | largeGrownFence | largeAnchor | largeDescFlush => exact .inl e
  | largeSet sbs res =>
    rw [exec, check] at e
    split at e
    · exact .inl e
    · cases e
  | largeDescFence sbs res => cases e
  | ctor d ph k =>
    cases k with
    | large sbs res =>
      cases ph with
      | fence =>
        obtain ⟨size, rfl, -⟩ := th.known
        have raw : d ∈ rawOf cfg (.ctor d .fence (.large sbs (cfg.sb d))) := by
          rw [rawOf, List.mem_range'_1]
          have := size.count_pos
          omega
        have idx := (ok.insideOf (th.role_raw ok raw) (by simp)).sbIndex_sb
        have e : some (sbIndex cfg.heapStart (cfg.sb d), sbs / SBSIZE) = some y := e
        rw [idx] at e
        exact .inl e
      | _ => exact .inl e
    | _ => exact large.elim
  | _ => exact large.elim

/-- An expansion writes no descriptor. -/
lemma Heap.desc_setCurr (h : Heap) (a : ℕ) : ({ h with currAddr := a } : Heap).desc = h.desc := rfl

/-- What a step leaves of the descriptors when space has just been taken. -/
lemma exec_desc_of_grown (cfg : Cfg) (t : ℕ) (spur : Bool) {x : ℕ × ℕ}
    (e : (exec cfg t spur h pc).2.grown = some x) : (exec cfg t spur h pc).1.desc = h.desc := by
  rcases exec_grows cfg t spur h e with grown | ⟨takes, -⟩
  · cases pc with
    | grownFlush | grownFence | largeGrownFlush | largeGrownFence => rw [exec]
    | _ => cases grown
  · cases pc with
    | growCas | largeCas =>
      rw [exec]
      split
      · exact Heap.desc_setCurr ..
      · exact Eq.refl h.desc
    | _ => cases takes

/-- Where a block comes from that is held after a move of thread `t` and starts before superblock
`d`. -/
def Comes (cfg : Cfg) (s : State) (t : ℕ) (h' : Heap) (p : ℕ) : Prop :=
  (s.heap.client p = .held ∧ mallocSize cfg h' p = mallocSize cfg s.heap p) ∨
  (∃ y, (s.pc t).building cfg = some y ∧ p = cfg.sb y.1 ∧ mallocSize cfg h' p = y.2 * SBSIZE) ∨
  ∃ e, cfg.sb e ≤ p ∧ p + mallocSize cfg h' p ≤ cfg.sb (e + 1)

/-- What a move of thread `t` says about the state before it. -/
structure Backs (cfg : Cfg) (s : State) (L : Ledger) (t : ℕ) (r : Heap × PC) : Prop where
  curr : s.heap.currAddr ≤ r.1.currAddr
  grows : ∀ x, r.2.grown = some x → r.1.desc = s.heap.desc ∧
    ((s.pc t).grown = some x ∨ x.1 = s.heap.currAddr)
  builds : ∀ y, r.2.building cfg = some y →
    (s.pc t).building cfg = some y ∨ cfg.sb y.1 = s.heap.currAddr
  holds : ∀ p, r.1.client p = .held → Comes cfg s t r.1 p
  raw : ∀ u d, u ≠ t → L.role d = .raw u → r.1.desc d = s.heap.desc d

/-- `curr_addr` does not go back. -/
lemma Inv.curr_le_turn (inv : Inv cfg s L) (tn : Turn cfg s.heap (s.pc t) r) :
    s.heap.currAddr ≤ r.1.currAddr := by
  rcases tn.curr with e | ⟨size, takes, e, -⟩
  · exact e.ge
  · rw [e, (inv.takes takes).2]
    omega

/-- A block that a step makes held comes from the cache, or it is the large block that was built. -/
lemma Inv.exec_comes (inv : Inv cfg s L) (spur : Bool)
    (hp : (exec cfg t spur s.heap (s.pc t)).1.client p = .held) :
    Comes cfg s t (exec cfg t spur s.heap (s.pc t)).1 p := by
  have th := inv.thread t
  by_cases old : s.heap.client p = .held
  · exact .inl ⟨old, (exec_untouched inv.ok inv.rep th spur old).size⟩
  obtain ⟨ret, e⟩ := (exec_new spur hp).resolve_left old
  unfold Comes
  generalize s.pc t = pc at *
  cases pc with
  | popBlock sc =>
    obtain ⟨-, asked, pos⟩ := th
    have bin := inv.rep.cache t sc
    have ne : L.blks.items (.cached t sc) ≠ [] := by
      intro nil
      rw [bin.num, nil] at pos
      exact absurd pos (by simp)
    have place := (inv.ok.mem_items (c := .cached t sc) trivial).1 (List.mem_of_head? (bin.head ne))
    obtain ⟨d, o, hr, hm⟩ := inv.ok.inClass place
    obtain ⟨size, x⟩ := inv.rep.extent_small inv.ok hr hm
    rw [exec, check, if_pos pos] at e ⊢
    obtain rfl : p = (s.heap.cache t sc).block := e.trans (Heap.ret_setRet_self ..)
    exact .inr (.inr ⟨d, x.lo, x.hi⟩)
  | largeDescFence sbs res =>
    obtain ⟨-, size, sb, -, desc⟩ := th
    rw [exec] at e ⊢
    obtain rfl : p = res := e.trans (Heap.ret_setRet_self ..)
    refine .inr (.inl ⟨_, rfl, Eq.symm sb, ?_⟩)
    dsimp only
    rw [Nat.div_mul_cancel (Nat.dvd_of_mod_eq_zero size.mod)]
    exact desc.2.2.2
  | _ => exact ret.elim

/-- A step of the machine. -/
lemma Inv.exec_backs (inv : Inv cfg s L) (spur : Bool) (wrap : NoWrap s.heap (s.pc t)) :
    Backs cfg s L t (exec cfg t spur s.heap (s.pc t)) := by
  have th := inv.thread t
  have tn := exec_turn cfg t spur s.heap (s.pc t)
  obtain ⟨L', tr, th'⟩ := exec_sound inv.ok inv.rep spur th wrap
  have takes : ∀ {size}, (s.pc t).takes = some (s.heap.currAddr, size) →
      alignAdj s.heap.currAddr PAGESIZE = s.heap.currAddr := fun e => (inv.takes e).1
  refine ⟨inv.curr_le_turn tn, fun x e => ⟨exec_desc_of_grown cfg t spur e, ?_⟩, fun y e => ?_,
    fun p => inv.exec_comes spur, fun u d ne hr => (tr.frame u ne).rawDesc hr⟩
  · rcases tn.grows x e with grown | ⟨e, start, -⟩
    · exact .inl grown
    · exact .inr (start.trans (takes e))
  · rcases exec_builds inv.ok th spur th' e with building | ⟨cas, first⟩
    · exact .inl building
    · have e : (s.pc t).takes = some (s.heap.currAddr, y.2 * SBSIZE) := by
        rw [cas]
        rfl
      exact .inr (by rw [first, takes e, inv.rep.curr, Cfg.sbIndex_sb_le inv.ok.inside])

/-- The start of a call. -/
lemma backs_call (L : Ledger) (desc : r.1.desc = s.heap.desc)
    (curr : r.1.currAddr = s.heap.currAddr) (clear : r.2.Clear) (none : r.2.building cfg = none)
    (client : ∀ p, r.1.client p = .held → s.heap.client p = .held) : Backs cfg s L t r := by
  refine ⟨curr.ge, fun x e => ?_, fun y e => ?_, fun p hp => .inl ⟨client p hp, ?_⟩,
    fun _ _ _ _ => by rw [desc]⟩
  · rw [clear.2] at e
    cases e
  · rw [none] at e
    cases e
  · rw [mallocSize, desc]
    rfl

end back

section unwritten

/-- Virgin descriptors have not changed since they were durable. -/
def Unwritten (cfg : Cfg) (s : State) (ℓ : HeapLog) : Prop :=
  ∀ d, Virgin cfg s d → ℓ.Settled (.desc d) fun h => h.desc d = .reset

/-- A virgin descriptor was virgin before. -/
lemma Backs.virgin (b : Backs cfg s L t r) (vg : Virgin cfg (s.put t r) d) :
    Virgin cfg s d := by
  have beyond : ∀ {e}, cfg.sb e = s.heap.currAddr → e < d + 1 → Virgin cfg s d := by
    intro e curr lt
    refine .beyond ?_
    rw [← curr, ← not_le, Cfg.sb_le_sb]
    omega
  cases vg with
  | first e => exact .first e
  | beyond lt => exact .beyond (lt_of_le_of_lt b.curr lt)
  | @taken u x grown lo hi =>
    by_cases e : u = t
    · subst e
      rw [State.pc_put_self] at grown
      rcases (b.grows x grown).2 with grown | start
      · exact .taken grown lo hi
      · exact .beyond (start ▸ lo)
    · rw [State.pc_put_ne e] at grown
      exact .taken grown lo hi
  | @built u y building lo hi =>
    by_cases e : u = t
    · subst e
      rw [State.pc_put_self] at building
      rcases b.builds y building with building | curr
      · exact .built building lo hi
      · exact beyond curr (by omega)
    · rw [State.pc_put_ne e] at building
      exact .built building lo hi
  | @inner p held lo hi =>
    rcases b.holds p held with ⟨held, size⟩ | ⟨y, building, rfl, size⟩ | ⟨e, lo', hi'⟩
    · exact .inner held lo (size ▸ hi)
    · have hi : cfg.sb d < cfg.sb y.1 + mallocSize cfg r.1 (cfg.sb y.1) := hi
      rw [size, ← Cfg.sb_add, ← not_le, Cfg.sb_le_sb] at hi
      rw [← not_le, Cfg.sb_le_sb] at lo
      exact .built building (by omega) (by omega)
    · have h1 := lt_of_le_of_lt lo' lo
      have h2 := lt_of_lt_of_le hi hi'
      rw [← not_le, Cfg.sb_le_sb] at h1 h2
      omega

/-- And it is not written. -/
lemma Backs.reset (b : Backs cfg s L t r) (inv : Inv cfg s L) (inv' : Inv cfg (s.put t r) L')
    (vg : Virgin cfg (s.put t r) d) (reset : s.heap.desc d = .reset) : r.1.desc d = .reset := by
  rcases inv'.reset_of_virgin vg with e | ⟨u, x, grown, lo, hi⟩
  · exact e
  by_cases e : u = t
  · subst e
    rw [State.pc_put_self] at grown
    rw [(b.grows x grown).1]
    exact reset
  · rw [State.pc_put_ne e] at grown
    rw [b.raw u d e (inv.role_grown grown lo hi)]
    exact reset

/-- A step keeps virgin descriptors unwritten, since they were virgin before it. -/
lemma Unwritten.turn (un : Unwritten cfg s ℓ) (b : Backs cfg s L t r) (inv : Inv cfg s L)
    (inv' : Inv cfg (s.put t r) L') (cur : ℓ.cur = s.heap) :
    Unwritten cfg (s.put t r) ((pass ℓ t (s.pc t)).write r.1) := by
  intro d vg
  have settled := un d (b.virgin vg)
  have reset : s.heap.desc d = .reset := cur ▸ settled.cur
  exact (settled_pass settled).write (b.reset inv inv' vg reset)

/-- Nothing changes that has to do with descriptors. -/
lemma Unwritten.congr (un : Unwritten cfg s ℓ) (pc : s'.pc = s.pc)
    (desc : s'.heap.desc = s.heap.desc) (curr : s'.heap.currAddr = s.heap.currAddr)
    (client : s'.heap.client = s.heap.client) (quiet : Quiet s' ℓ ℓ') (cur : ℓ.cur = s.heap) :
    Unwritten cfg s' ℓ' := by
  intro d vg
  have size : ∀ p, mallocSize cfg s'.heap p = mallocSize cfg s.heap p := fun p => by
    rw [mallocSize, desc]
    rfl
  have settled : ℓ.Settled (.desc d) fun h => h.desc d = .reset := by
    refine un d ?_
    cases vg with
    | first e => exact .first e
    | beyond lt => exact .beyond (curr ▸ lt)
    | taken grown lo hi => exact .taken (pc ▸ grown) lo hi
    | built building lo hi => exact .built (pc ▸ building) lo hi
    | inner held lo hi => exact .inner (client ▸ held) lo (size _ ▸ hi)
  refine quiet.settled _ _ settled ?_
  rw [desc]
  exact cur ▸ settled.cur

end unwritten

end Ralloc
