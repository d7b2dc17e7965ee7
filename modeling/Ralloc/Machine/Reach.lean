import Ralloc.Machine.Extent
import Ralloc.Machine.Solo

/-!
# Reachable states

`init` is the heap as `BaseMeta::BaseMeta` leaves it (`init_of_constructor`). `Act.Allowed` says
what clients may do: free a block they hold, write inside a block they hold, ask for a small size or
for a large size whose length fits the 32-bit `block_size` of a descriptor. It also has the
assumption on the ABA counter. `Reach.inv`: every state that such clients can reach has a ledger.
-/

namespace Ralloc

open Lib SuperblockState

variable {cfg : Cfg} {s s' : State} {L : Ledger}

/-- What well-behaved clients do, and when a thread may take a step. -/
def Act.Allowed (cfg : Cfg) (s : State) : Act → Prop
  | .malloc _ size => size ≤ MAX_SZ ∨ (size + SBSIZE - 1) / SBSIZE * SBSIZE < HALF
  | .free _ p => s.heap.client p = .held
  | .exit _ => True
  | .setRoot _ _ _ => True
  | .write a _ => ∃ p, s.heap.client p = .held ∧ p ≤ a ∧ a < p + mallocSize cfg s.heap p
  | .run t _ => NoWrap s.heap (s.pc t)

/-- One allowed action. -/
def Step (cfg : Cfg) (s s' : State) : Prop := ∃ a, a.Allowed cfg s ∧ step cfg s a = some s'

/-- The heap in `BaseMeta::BaseMeta` after the region is expanded for the first time. -/
def blank (cfg : Cfg) : Heap where
  currAddr := cfg.heapStart + SB_REGION_EXPAND_SIZE
  head _ := ⟨none, 0⟩
  pushes _ := 0
  desc _ := .reset
  mem _ := 0
  roots _ := 0
  cache _ _ := ⟨0, 0⟩
  client _ := .none
  req _ := 0
  ret _ := 0

/-- The heap as `BaseMeta::BaseMeta` leaves it: the first superblock is skipped, the others of the
first expansion are free. -/
def init (cfg : Cfg) : State := ⟨organized (blank cfg) 1 (EXPAND_SBS - 1), fun _ => .idle⟩

/-- For `omega`. -/
lemma EXPAND_SBS_eq : EXPAND_SBS = 16384 := rfl

/-- The end of the first expansion. -/
lemma Cfg.sb_expand (cfg : Cfg) : cfg.sb EXPAND_SBS = cfg.heapStart + SB_REGION_EXPAND_SIZE := rfl

/-- There is a superblock behind the skipped one. -/
lemma Cfg.inside_one (cfg : Cfg) : cfg.Inside 1 := by
  refine le_trans (Cfg.sb_le_sb.2 (show 2 ≤ EXPAND_SBS by decide)) ?_
  rw [cfg.sb_expand]
  exact cfg.warm

/-- The end of `BaseMeta::BaseMeta` turns the blank heap into the initial one. -/
theorem init_of_constructor (cfg : Cfg) :
    Solo cfg 0 (blank cfg, organizeSbList cfg (cfg.heapStart + SBSIZE)
      (SB_REGION_EXPAND_SIZE / SBSIZE - 1) .done) ((init cfg).heap, .idle) := by
  have idx : sbIndex cfg.heapStart (cfg.heapStart + SBSIZE) = 1 := by
    have := cfg.inside_one.sbIndex_sb
    rwa [Cfg.sb, Nat.one_mul] at this
  rw [organizeSbList, idx]
  exact organize_solo cfg 0 (blank cfg) (by decide) .done

/-- The ledger of the initial heap. -/
def initLedger : Ledger where
  n := EXPAND_SBS
  sbs :=
    { loc := fun d => if d = 0 ∨ EXPAND_SBS ≤ d then .unborn else .avail
      items := fun r => if r = .avail then List.range' 1 (EXPAND_SBS - 1) else [] }
  blks := { loc := fun _ => .none, items := fun _ => [] }

/-- At the start all superblocks of the first expansion but the skipped one are available. -/
lemma initLedger_role (d : ℕ) : initLedger.role d = .unborn ∧ (d = 0 ∨ EXPAND_SBS ≤ d) ∨
    initLedger.role d = .avail ∧ 0 < d ∧ d < EXPAND_SBS := by
  by_cases hd : d = 0 ∨ EXPAND_SBS ≤ d
  · exact .inl ⟨if_pos hd, hd⟩
  · exact .inr ⟨if_neg hd, by omega, by omega⟩

/-- There are no other roles. -/
lemma initLedger_role_ne {d r} (h1 : r ≠ .unborn) (h2 : r ≠ .avail) : initLedger.role d ≠ r := by
  rcases initLedger_role d with ⟨e, -⟩ | ⟨e, -⟩ <;> rw [e]
  · exact h1.symm
  · exact h2.symm

/-- The first ledger is consistent. -/
lemma initLedger_ok (cfg : Cfg) : initLedger.Ok cfg := by
  constructor
  case sbs =>
    intro r hr
    by_cases e : r = .avail
    · subst e
      refine ⟨by simp [initLedger, List.nodup_range'], fun d => ?_⟩
      show d ∈ List.range' 1 (EXPAND_SBS - 1) ↔ initLedger.role d = .avail
      rw [List.mem_range'_1, EXPAND_SBS_eq]
      rcases initLedger_role d with ⟨e, hd⟩ | ⟨e, hd⟩ <;> rw [e] <;> rw [EXPAND_SBS_eq] at hd
      · simp only [reduceCtorEq, iff_false]
        omega
      · simp only [iff_true]
        omega
    · have items : initLedger.sbs.items r = [] := if_neg e
      rw [items]
      refine ⟨List.nodup_nil, fun d => ⟨fun h => (by cases h), fun h => ?_⟩⟩
      exact absurd h (initLedger_role_ne (by rintro rfl; exact hr) e)
  case blks =>
    intro c hc
    refine ⟨List.nodup_nil, fun b => ⟨fun h => (by cases h), fun h => ?_⟩⟩
    subst h
    exact hc.elim
  case inside => rw [show initLedger.n = EXPAND_SBS from rfl, cfg.sb_expand]; exact cfg.warm
  case born =>
    intro d
    rcases initLedger_role d with ⟨e, hd⟩ | ⟨e, hd⟩ <;> rw [e]
    · exact ⟨fun _ => hd, fun _ => rfl⟩
    · refine ⟨fun h => (by cases h), fun h => ?_⟩
      have : d = 0 ∨ EXPAND_SBS ≤ d := h
      omega
  case cls => exact fun h => absurd h (initLedger_role_ne (by simp) (by simp))
  case placed => exact fun h => absurd h (initLedger_role_ne (by simp) (by simp))
  case home => exact fun b => trivial
  case largeHeld => exact fun h => absurd h (initLedger_role_ne (by simp) (by simp))
  case largeStart => exact fun h => absurd h (initLedger_role_ne (by simp) (by simp))

/-- The descriptors of the initial heap. -/
lemma init_desc (cfg : Cfg) (d : ℕ) : (init cfg).heap.desc d =
    if 0 < d ∧ d < EXPAND_SBS then
      { Descriptor.reset with nextFree := if d + 1 < EXPAND_SBS then some (d + 1) else none }
    else .reset := by
  show (if 1 ≤ d ∧ d < 1 + (EXPAND_SBS - 1) then _ else _) = _
  have e : 1 + (EXPAND_SBS - 1) = EXPAND_SBS := rfl
  rw [e]
  rfl

/-- And the first heap is what it says. -/
lemma init_rep (cfg : Cfg) : Rep cfg (init cfg).heap initLedger := by
  constructor
  case curr => exact cfg.sb_expand.symm
  case pos => exact show 0 < EXPAND_SBS by decide
  case desc =>
    intro d
    rw [init_desc]
    rcases initLedger_role d with ⟨e, hd⟩ | ⟨e, hd⟩ <;> rw [e]
    · rw [if_neg (by omega)]
      rfl
    · rw [if_pos hd]
      rfl
  case anchor => exact fun h => absurd h (initLedger_role_ne (by simp) (by simp))
  case free => exact fun _ => linked_nil
  case fresh => exact fun h => absurd h (initLedger_role_ne (by simp) (by simp))
  case list =>
    intro l
    cases l with
    | avail =>
      have next : ∀ j < EXPAND_SBS - 2,
          ((init cfg).heap.desc (1 + j)).next .avail = some (1 + j + 1) := by
        intro j hj
        rw [init_desc, if_pos (by omega), if_pos (by omega)]
        rfl
      have last : ((init cfg).heap.desc (1 + (EXPAND_SBS - 2))).next .avail = none := by
        rw [init_desc, if_pos (by decide), if_neg (by decide)]
        rfl
      have nil : IsList (fun d => ((init cfg).heap.desc d).next .avail) none [] := rfl
      have := nil.range_append next last
      rwa [List.append_nil] at this
    | part sc => exact rfl
  case cnt =>
    intro l
    cases l <;> rfl
  case cache => exact fun u sc => ⟨rfl, fun h => absurd rfl h, linked_nil, Nat.zero_le _⟩
  case client => exact fun _ => rfl
  case large => exact fun h => absurd h (initLedger_role_ne (by simp) (by simp))

/-- The initial state has a ledger. -/
lemma init_inv (cfg : Cfg) : Inv cfg (init cfg) initLedger :=
  ⟨initLedger_ok cfg, init_rep cfg, fun _ =>
    ⟨⟨rfl, fun _ => rfl, fun _ => rfl, fun _ => rfl, fun _ _ => rfl⟩, trivial⟩⟩

/-- A sound step of one thread keeps the invariant of all. -/
lemma Inv.put (inv : Inv cfg s L) {t r} (hs : Sound cfg t s.heap L r) :
    ∃ L', Inv cfg (s.put t r) L' := by
  obtain ⟨L', tr, th⟩ := hs
  refine ⟨L', tr.ok, tr.rep, fun u => ?_⟩
  by_cases e : u = t
  · subst e
    rw [State.pc_put_self]
    exact th
  · rw [State.pc_put_ne e]
    exact (tr.frame u e).thInv inv.ok tr.ok (inv.thread u)

/-- An action that starts a call. -/
lemma step_call {t : ℕ} {r : Heap × PC} {c : Prop} [Decidable c]
    (h : (if c then some (s.put t r) else none) = some s') : c ∧ s.put t r = s' := by
  split at h
  case isTrue hc => exact ⟨hc, Option.some.inj h⟩
  case isFalse => cases h

/-- Every allowed action keeps the invariant. -/
theorem Inv.step (inv : Inv cfg s L) (st : Step cfg s s') : ∃ L', Inv cfg s' L' := by
  obtain ⟨a, al, st⟩ := st
  have idle : ∀ {t}, s.pc t = .idle → ThInv cfg s.heap L t .idle := fun e => e ▸ inv.thread _
  cases a with
  | malloc t size =>
    obtain ⟨hi, rfl⟩ := step_call st
    exact inv.put (sound_callMalloc inv.ok inv.rep (idle hi) al)
  | free t p =>
    obtain ⟨hi, rfl⟩ := step_call st
    exact inv.put (sound_callFree inv.ok inv.rep (idle hi) (inv.rep.held_iff.1 al))
  | exit t =>
    obtain ⟨hi, rfl⟩ := step_call st
    refine inv.put (.stay inv.ok inv.rep ⟨(idle hi).owned.same ⟨rfl, rfl, rfl, rfl, rfl⟩, ?_⟩)
    exact show SmallClass 1 by decide
  | setRoot t p i =>
    obtain ⟨hi, rfl⟩ := step_call st
    exact inv.put (.stay inv.ok inv.rep ⟨(idle hi).owned.same ⟨rfl, rfl, rfl, rfl, rfl⟩, trivial⟩)
  | write a v =>
    cases st
    obtain ⟨p, hp, lo, hi⟩ := al
    have hw := inv.rep.write (v := v) inv.ok (inv.rep.held_iff.1 hp) lo hi
    exact ⟨L, inv.ok, (hw 0).1, fun u => (hw u).2.thInv inv.ok inv.ok (inv.thread u)⟩
  | run t spur =>
    cases st
    exact inv.put (exec_sound inv.ok inv.rep spur (inv.thread t) al)

/-- The states that well-behaved clients can reach. -/
def Reach (cfg : Cfg) : State → Prop := Relation.ReflTransGen (Step cfg) (init cfg)

/-- Every reachable state has a ledger. -/
theorem Reach.inv (h : Reach cfg s) : ∃ L, Inv cfg s L := by
  induction h with
  | refl => exact ⟨initLedger, init_inv cfg⟩
  | tail _ st ih =>
    obtain ⟨L, inv⟩ := ih
    exact inv.step st

end Ralloc
