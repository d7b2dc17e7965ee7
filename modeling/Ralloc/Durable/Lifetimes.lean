import Ralloc.Durable.Close
import Ralloc.Durable.Contents
import Ralloc.Durable.Logged

/-!
# Many lifetimes of a heap

Processes use the heap one after the other. A process ends with a crash, after which a recovery runs
that may be interrupted by further crashes, or it closes the heap and the next one opens it as it
is. `lifetimes cfg` is this system with the log beside it, and `lifetimes_refine` says that its
clients cannot tell it from an `Arena`: over all lifetimes blocks that are held never overlap, a
block that comes back from `do_malloc` has room and is new, and the marked blocks are there after a
crash with the same address and the same length.

The marks are those of filter functions that find blocks of clients only, and large ones only if
their descriptors are durable. Those of small blocks always are (`Inv.durable_of_le`).
-/

namespace Ralloc

open Lib SuperblockState

variable {cfg : Cfg} {s s' : State} {ℓ ℓ' : HeapLog} {t d p N fuel numSb : ℕ} {m m' : Heap}
  {L : Ledger}
  {M : Finset ℕ} {A : Arena ℕ UInt8} {ln : Line} {Q : Heap → Prop}

/-- A file that was just created: the constructor of `BaseMeta` has left it, and it has not written
the descriptors of the skipped superblock and of those behind the first expansion. -/
structure Fresh (cfg : Cfg) (ℓ : HeapLog) : Prop extends Born cfg ℓ where
  rest : ∀ d, d = 0 ∨ EXPAND_SBS ≤ d → ℓ.Settled (.desc d) fun h => h.desc d = .reset

/-- The recovery for the marks `M` after a crash that has left `m`, with all its interruptions. The
last one comes to the end of its sweep, flushes everything as a close does, and hands the heap to
the next process. -/
inductive Recovers (cfg : Cfg) (M : Finset ℕ) (m : Heap) : State → HeapLog → Prop
  | intro {N fuel t numSb : ℕ} {m' : Heap} {w : Sweep} {ℓ : HeapLog} (curr : m.currAddr = cfg.sb N)
    (enough : N + SBSIZE < fuel) (room : N ≤ numSb) (it : Interrupted cfg fuel M m m')
    (hist : ∀ k ≤ ℓ.now, Passes cfg fuel M m' (ℓ.hist k)) (e : sweep cfg fuel m' M.sort = .done w) :
    Recovers cfg M m (restarted cfg M w.heap)
    (close cfg t numSb (ℓ.write (restarted cfg M w.heap).heap))

/-- The process that opens a heap of which a clean close has left `m`. -/
def reopened (s : State) (m : Heap) : State where
  heap := { m with
    pushes := s.heap.pushes
    cache := fun _ _ => ⟨0, 0⟩
    client := s.heap.client
    req := fun _ => 0
    ret := fun _ => 0 }
  pc _ := .idle

/-- One step of the clients, the allocator or the machine they run on. -/
inductive LifeStep (cfg : Cfg) : State × HeapLog → Option (Arena.Event ℕ UInt8) →
    State × HeapLog → Prop
  | act {s s' : State} {ℓ : HeapLog} {a : Act} (allowed : a.Allowed cfg s)
    (st : step cfg s a = some s') :
    LifeStep cfg (s, ℓ) (seen cfg s s' a) (s', (noted s ℓ a).write s'.heap)
  /-- a client reads a byte of a block that is held -/
  | read {s : State} {ℓ : HeapLog} {p a : ℕ} (held : s.heap.client p = .held) (lo : p ≤ a)
    (hi : a < p + mallocSize cfg s.heap p) :
    LifeStep cfg (s, ℓ) (some (.read a (s.heap.mem a))) (s, ℓ)
  | flush {s : State} {ℓ : HeapLog} (t k : ℕ) : LifeStep cfg (s, ℓ) none (s, ℓ.flush t (.mem k))
  | fence {s : State} {ℓ : HeapLog} (t : ℕ) : LifeStep cfg (s, ℓ) none (s, ℓ.fence t)
  | crash {s s' : State} {ℓ ℓ' : HeapLog} {m : Heap} {M : Finset ℕ} (im : CrashImage ℓ m)
    (marks : MarksHeld cfg s m M) (rec : Recovers cfg M m s' ℓ') :
    LifeStep cfg (s, ℓ) (some (.crash M)) (s', ℓ')
  /-- all threads have returned their caches, and nothing is lost in the close -/
  | reopen {s : State} {ℓ : HeapLog} {t numSb : ℕ} {m : Heap} (idle : ∀ u, s.pc u = .idle)
    (empty : ∀ u sc, (s.heap.cache u sc).num = 0) (im : CrashImage (close cfg t numSb ℓ) m)
    (whole : ∀ l, m.read l = s.heap.read l) :
    LifeStep cfg (s, ℓ) none (reopened s m, .start (reopened s m).heap)

/-- All lifetimes of a heap. -/
def lifetimes (cfg : Cfg) : System (State × HeapLog) (Arena.Event ℕ UInt8) where
  init r := r.1 = init cfg ∧ Fresh cfg r.2
  step := LifeStep cfg

section idle

/-- The start of a process. -/
lemma Inv.logged (inv : Inv cfg s L) (idle : ∀ u, s.pc u = .idle) (cur : ℓ.cur = s.heap)
    (curr : ℓ.Settled .curr fun h => h.currAddr = s.heap.currAddr)
    (plain : ∀ d, ℓ.Settled (.desc d) fun h => (h.desc d).plain = (s.heap.desc d).plain)
    (unwritten : Unwritten cfg s ℓ) : Logged cfg s ℓ := by
  have pc : ∀ {α : Type} {f : PC → Option α} {u : ℕ} {x : α}, f .idle = none →
      f (s.pc u) ≠ some x := by
    intro α f u x e
    rw [idle u, e]
    exact Option.some_ne_none x ∘ Eq.symm
  refine ⟨⟨L, inv⟩, cur, ⟨fun d _ _ => plain d, fun u d e => absurd e (pc rfl)⟩, ?_, unwritten⟩
  refine ⟨fun a ha => .inl ?_, fun u x e => absurd e (pc rfl), fun u x e => absurd e (pc rfl), ?_⟩
  · exact curr.imp fun _ e => e ▸ ha
  · exact curr.imp fun _ e => ⟨e.le, L.n, inv.rep.pos, e.trans inv.rep.curr⟩

/-- A process all of whose descriptors are durable. -/
lemma Inv.logged_of_desc (inv : Inv cfg s L) (idle : ∀ u, s.pc u = .idle) (cur : ℓ.cur = s.heap)
    (curr : ℓ.Settled .curr fun h => h.currAddr = s.heap.currAddr)
    (desc : ∀ d, ℓ.Settled (.desc d) fun h => h.desc d = s.heap.desc d) : Logged cfg s ℓ := by
  refine inv.logged idle cur curr (fun d => (desc d).imp fun _ e => by rw [e]) fun d vg => ?_
  rcases inv.reset_of_virgin vg with e | ⟨u, x, grown, -⟩
  · exact e ▸ desc d
  · rw [idle u] at grown
    cases grown

/-- The first process. -/
lemma Fresh.logged (fr : Fresh cfg ℓ) : Logged cfg (init cfg) ℓ := by
  refine (init_inv cfg).logged (fun _ => rfl) fr.cur fr.currAddr (fun d => ?_) fun d vg =>
    fr.rest d ?_
  · rw [init_plain]
    exact fr.desc d
  · cases vg with
    | first e => exact .inl e
    | beyond lt =>
      have lt : cfg.sb EXPAND_SBS < cfg.sb (d + 1) := lt
      rw [← not_le, Cfg.sb_le_sb] at lt
      exact .inr (by omega)
    | taken grown => cases grown
    | built building => cases building
    | inner held => cases held

end idle

section recovery

/-- A close changes nothing that can be read. -/
lemma cur_close (cfg : Cfg) (t numSb : ℕ) (ℓ : HeapLog) : (close cfg t numSb ℓ).cur = ℓ.cur := by
  rw [close, writeback, flushRegion, flushRegion, Log.cur_persistAll, Log.cur_persistAll,
    Log.cur_persistAll]

/-- What has been so all the time is settled. -/
lemma settled_close_write {v : Heap} (always : ∀ k ≤ ℓ.now, Q (ℓ.hist k)) (hv : Q v) :
    (close cfg t numSb (ℓ.write v)).Settled ln Q := by
  have since : (ℓ.write v).Since 0 Q := Log.Since.write (fun k _ le => always k le) hv
  rw [settled_close]
  split
  · exact since.cur (Nat.zero_le _)
  · exact Log.Since.mono since (Nat.zero_le _)

/-- A descriptor of the file is durable after the close. -/
lemma settled_close_desc (lt : d < numSb) (h : Q ℓ.cur) :
    (close cfg t numSb ℓ).Settled (.desc d) Q := by
  rw [settled_close]
  have mem : (Loc.nextFree d).line ∈ closeLines cfg numSb ℓ.cur.currAddr :=
    line_mem lt (by simp) (by simp)
  exact (if_pos mem).symm ▸ h

/-- The process that goes on after a recovery. -/
lemma Rebuildable.logged (rd : Rebuildable cfg m N M) (room : N ≤ numSb)
    (enough : N + SBSIZE < fuel) (it : Interrupted cfg fuel M m m')
    (hist : ∀ k ≤ ℓ.now, Passes cfg fuel M m' (ℓ.hist k)) {w : Sweep}
    (e : sweep cfg fuel m' M.sort = .done w) :
    Logged cfg (restarted cfg M w.heap)
    (close cfg t numSb (ℓ.write (restarted cfg M w.heap).heap)) := by
  have rd' := (it.torn rd enough).rebuildable rd
  have rb := sweep_rebuilt rd'.sweepable rd'.precise enough e
  have torn : ∀ k ≤ ℓ.now, Torn cfg N M m' (ℓ.hist k) := fun k le => (hist k le).torn rd' enough
  obtain ⟨L, inv⟩ := rb.inv rd'.unborn rd'.interior
  refine inv.logged_of_desc (fun _ => rfl) ?_ ?_ fun d => ?_
  · rw [cur_close, Log.cur_write]
  · refine settled_close_write (Q := fun h => h.currAddr = _) (fun k le => ?_) rfl
    exact (torn k le).same.currAddr.trans rb.currAddr.symm
  · by_cases lt : d < numSb
    · exact settled_close_desc lt (by rw [Log.cur_write])
    · refine settled_close_write (Q := fun h => h.desc d = _) (fun k le => ?_) rfl
      have out : d = 0 ∨ N ≤ d := .inr (room.trans (not_lt.1 lt))
      exact ((torn k le).outside d out).trans (rb.outside d out).symm

end recovery

section reopen

variable (inv : Inv cfg s L) (idle : ∀ u, s.pc u = .idle)
  (empty : ∀ u sc, (s.heap.cache u sc).num = 0)
  (whole : ∀ l, m.read l = s.heap.read l)

include whole

/-- Nothing changes but what a process has for itself. -/
lemma reopened_heap : (reopened s m).heap =
    { s.heap with cache := fun _ _ => ⟨0, 0⟩, req := fun _ => 0, ret := fun _ => 0 } := by
  have im : CrashImage (.start s.heap) m := fun l => ⟨0, le_rfl, le_rfl, (whole l).symm⟩
  have curr : m.currAddr = s.heap.currAddr := whole .currAddr
  have head : m.head = s.heap.head := funext fun l => whole (.head l)
  have roots : m.roots = s.heap.roots := funext fun i => whole (.root i)
  have mem : m.mem = s.heap.mem := funext fun a => whole (.byte a)
  have desc : m.desc = s.heap.desc := funext fun d => im.desc_eq fun _ _ _ => rfl
  rw [reopened, curr, head, roots, mem, desc]

include inv idle empty

/-- The ledger of the closed heap is one of the reopened heap. -/
lemma Inv.reopened : Inv cfg (reopened s m) L := by
  refine ⟨inv.ok, ?_, fun u => ?_⟩
  · rw [reopened_heap whole]
    have rep := inv.rep
    refine ⟨rep.curr, rep.pos, rep.desc, rep.anchor, rep.free, rep.fresh, rep.list, rep.cnt,
      fun u sc => ?_, rep.client, rep.large⟩
    have nil : L.blks.items (.cached u sc) = [] := by
      rw [← List.length_eq_zero_iff, ← (rep.cache u sc).num, empty]
    rw [nil]
    exact ⟨rfl, fun ne => absurd rfl ne, linked_nil, Nat.zero_le _⟩
  · have th := inv.thread u
    rw [idle u] at th
    exact ⟨th.1, trivial⟩

end reopen

section refine

variable (sh : Shows cfg s A)

/-- What the clients know of a process that starts. -/
lemma shows_arenaOf (inv : ∃ L, Inv cfg s L) (idle : ∀ u, s.pc u = .idle) :
    Shows cfg s (arenaOf inv fun _ => none) := by
  refine ⟨inv, rfl, rfl, fun u inside => ?_, fun _ _ _ => rfl⟩
  rw [idle u] at inside
  cases inside

/-- A marked block keeps its descriptor. -/
lemma Rebuildable.plain_of_mark (rd : Rebuildable cfg m N M) (enough : N + SBSIZE < fuel)
    (it : Interrupted cfg fuel M m m') {w : Sweep} (e : sweep cfg fuel m' M.sort = .done w)
    (hp : p ∈ M) (start : StartsBlock cfg m N p) :
    (w.heap.desc (sbIndex cfg.heapStart p)).plain = (m.desc (sbIndex cfg.heapStart p)).plain ∧
      (m.desc (sbIndex cfg.heapStart p)).heap ≠ none := by
  have tn := it.torn rd enough
  have rd' := tn.rebuildable rd
  have rb := sweep_rebuilt rd'.sweepable rd'.precise enough e
  have index : ∀ {d}, d < N → InSb cfg d p → sbIndex cfg.heapStart p = d := fun lt hin =>
    (rd.sweepable.insideOf lt).sbIndex hin.1 (by rw [← Cfg.sb_succ]; exact hin.2)
  have plain : ∀ {d}, (0 < d ∧ d < N) → ¬Reclaimed cfg m M d →
      (w.heap.desc d).plain = (m.desc d).plain := by
    intro d hd no
    refine Eq.trans ?_ (tn.plain d no)
    exact (rb.swept.settled d hd.1 hd.2).plain_eq fun hr => no (tn.reclaimed_iff.1 hr)
  rcases start with ⟨d, sc, hd, hs, hm⟩ | ⟨d, k, hd, hl, rfl⟩
  · have hin := inSb_of_mem_blocks hs.cls hm
    rw [index hd.2 hin, hs.heap]
    exact ⟨plain hd fun hr => hr.used sc ⟨hs, p, hp, hin⟩, by simp⟩
  · have hin := inSb_sb cfg d
    rw [index hd.2 hin, hl.heap]
    exact ⟨plain hd fun hr => hr.kept k ⟨hl, _, hp, hin⟩, by simp⟩

/-- A block is where its superblock says. -/
lemma IsBlock.starts {n : ℕ} (blk : IsBlock cfg m N p n) : StartsBlock cfg m N p := by
  rcases blk with ⟨d, sc, hd, hs, hm, -⟩ | ⟨d, k, hd, hl, e, -⟩
  · exact .inl ⟨d, sc, hd, hs, hm⟩
  · exact .inr ⟨d, k, hd, hl, e⟩

/-- A marked block is one in what is left, with the same length. -/
lemma Logged.isBlock (lg : Logged cfg s ℓ) (im : CrashImage ℓ m) (marks : MarksHeld cfg s m M)
    (curr : m.currAddr = cfg.sb N) (hp : p ∈ M) : IsBlock cfg m N p (mallocSize cfg s.heap p) := by
  obtain ⟨L, inv⟩ := lg.inv
  have held := (marks p hp).1
  have dur := lg.durable_of_mark im marks hp
  rcases le_or_gt (mallocSize cfg s.heap p) MAX_SZ with le | lt
  · exact .inl (dur.isSmall inv curr held le)
  · obtain ⟨d, k, hd, hl, e, size⟩ := dur.isLarge inv curr held lt
    have := hl.pos
    exact .inr ⟨d, k, by omega, hl, e, size⟩

/-- The marks find the lengths that the blocks had. -/
lemma Logged.mallocSize_eq (lg : Logged cfg s ℓ) (im : CrashImage ℓ m) (marks : MarksHeld cfg s m M)
    (hp : p ∈ M) : mallocSize cfg m p = mallocSize cfg s.heap p := by
  have desc := (lg.durable_of_mark im marks hp).desc
  simp only [Descriptor.plain, Prod.mk.injEq] at desc
  exact desc.2.2.1

/-- After a recovery the clients have the marked blocks. -/
lemma Rebuildable.blockLen_restarted (rd : Rebuildable cfg m N M)
    (starts : ∀ p ∈ M, StartsBlock cfg m N p) (enough : N + SBSIZE < fuel)
    (it : Interrupted cfg fuel M m m') {w : Sweep} (e : sweep cfg fuel m' M.sort = .done w)
    (p : ℕ) :
    blockLen cfg (restarted cfg M w.heap).heap p =
      if p ∈ M then some (mallocSize cfg m p) else none := by
  by_cases hp : p ∈ M
  · obtain ⟨plain, used⟩ := rd.plain_of_mark enough it e hp (starts p hp)
    simp only [Descriptor.plain, Prod.mk.injEq] at plain
    have client : (restarted cfg M w.heap).heap.client p = .held := if_pos ⟨hp, by rwa [plain.2.1]⟩
    have size : mallocSize cfg (restarted cfg M w.heap).heap p = mallocSize cfg m p := plain.2.2.1
    rw [if_pos hp, blockLen, if_pos client, size]
  · have client : (restarted cfg M w.heap).heap.client p = .none := if_neg fun both => hp both.1
    rw [if_neg hp, blockLen, if_neg (by rw [client]; simp)]

/-- These are the blocks that they had before. -/
lemma Logged.blockLen_restarted (lg : Logged cfg s ℓ) (im : CrashImage ℓ m)
    (marks : MarksHeld cfg s m M) (curr : m.currAddr = cfg.sb N) (enough : N + SBSIZE < fuel)
    (it : Interrupted cfg fuel M m m') {w : Sweep} (e : sweep cfg fuel m' M.sort = .done w)
    (p : ℕ) :
    blockLen cfg (restarted cfg M w.heap).heap p =
      if p ∈ M then blockLen cfg s.heap p else none := by
  have starts : ∀ p ∈ M, StartsBlock cfg m N p := fun p hp => (lg.isBlock im marks curr hp).starts
  rw [(lg.rebuildable im curr marks).blockLen_restarted starts enough it e]
  by_cases hp : p ∈ M
  · rw [if_pos hp, if_pos hp, blockLen, if_pos (marks p hp).1, lg.mallocSize_eq im marks hp]
  · rw [if_neg hp, if_neg hp]

/-- The relation between a process with its log and what its clients know. -/
structure Follows (cfg : Cfg) (r : State × HeapLog) (A : Arena ℕ UInt8) : Prop where
  logged : Logged cfg r.1 r.2
  shows : Shows cfg r.1 A

/-- An arena can follow every step, also over a crash. -/
lemma Follows.step {r r' : State × HeapLog} {o : Option (Arena.Event ℕ UInt8)}
    (fl : Follows cfg r A) (st : LifeStep cfg r o r') :
    ∃ A', Arena.Step (cfg.heapStart + SBSIZE) (cfg.base + cfg.filesize) A A' o ∧
      Follows cfg r' A' := by
  obtain ⟨lg, sh⟩ := fl
  cases st with
  | act allowed st =>
    obtain ⟨A', step, sh'⟩ := sh.act allowed st
    exact ⟨A', step, lg.act allowed st, sh'⟩
  | read held lo hi =>
    refine ⟨A, .read _ _ ⟨_, _, ?_, lo, hi⟩ (by rw [sh.byte]) rfl, lg, sh⟩
    rw [sh.len]
    exact if_pos held
  | flush t k => exact ⟨A, .quiet rfl rfl fun _ _ _ => rfl, lg.flush t k, sh⟩
  | fence t => exact ⟨A, .quiet rfl rfl fun _ _ _ => rfl, lg.fence t, sh⟩
  | @crash s _ ℓ _ m M im marks rec =>
    cases rec with | @intro N fuel t numSb m' w ℓ₁ curr enough room it hist e =>
    have lg' := (lg.rebuildable im curr marks).logged (t := t) room enough it hist e
    refine ⟨arenaOf lg'.inv fun _ => none, .crash M (fun p hp => ?_) (fun p => ?_) fun _ => rfl,
      lg', shows_arenaOf lg'.inv fun _ => rfl⟩
    · rw [sh.len]
      exact ⟨_, if_pos (marks p hp).1⟩
    · rw [sh.len]
      exact lg.blockLen_restarted im marks curr enough it e p
  | @reopen s ℓ t numSb m idle empty im whole =>
    obtain ⟨L, inv⟩ := lg.inv
    have inv' := inv.reopened idle empty whole
    have heap := reopened_heap whole
    refine ⟨A, .quiet rfl rfl fun _ _ _ => rfl, inv'.logged_of_desc (fun _ => rfl) rfl
      (fun _ _ _ => rfl)
      fun _ _ _ _ => rfl, ⟨L, inv'⟩, ?_, ?_, fun u inside => ?_, fun u _ _ => ?_⟩
    · rw [heap]
      exact sh.len
    · rw [heap]
      exact sh.byte
    · cases inside
    · exact sh.idle u (by rw [idle u]; rfl) (by simp [idle u])

/-- Over all its lifetimes the heap is an allocator. -/
theorem lifetimes_simulation (cfg : Cfg) : (lifetimes cfg).Simulation
    (Arena.system ℕ UInt8 (cfg.heapStart + SBSIZE) (cfg.base + cfg.filesize)) (Follows cfg) := by
  constructor
  case init =>
    rintro ⟨s, ℓ⟩ ⟨rfl, fresh⟩
    have inv : ∃ L, Inv cfg (Ralloc.init cfg) L := ⟨_, init_inv cfg⟩
    refine ⟨arenaOf inv fun _ => none, ⟨fun p => ?_, fun _ => rfl⟩, fresh.logged,
      shows_arenaOf inv fun _ => rfl⟩
    have nobody : (Ralloc.init cfg).heap.client p = .none := rfl
    show blockLen cfg (Ralloc.init cfg).heap p = none
    rw [blockLen, nobody, if_neg (by simp)]
  case step =>
    intro r A o r' fl st
    obtain ⟨A', step, fl'⟩ := fl.step st
    exact ⟨A', .single step, fl'⟩

/-- A recovery that is not interrupted again comes to its end. -/
lemma Logged.recovers (lg : Logged cfg s ℓ) (im : CrashImage ℓ m) (marks : MarksHeld cfg s m M) :
    ∃ s' ℓ', Recovers cfg M m s' ℓ' := by
  obtain ⟨L, inv⟩ := lg.inv
  obtain ⟨N, -, curr, -⟩ := lg.curr.exists_end inv im
  obtain ⟨w, e, -⟩ := (lg.rebuildable im curr marks).sweeps (Nat.lt_succ_self _)
  exact ⟨_, _, .intro (t := 0) (ℓ := .start m) curr (Nat.lt_succ_self _) le_rfl .never
    (fun _ _ => .start) e⟩

/-- Run a list of actions and note what is seen. -/
def observe (cfg : Cfg) : State → List Act → Option (State × List (Arena.Event ℕ UInt8))
  | s, [] => some (s, [])
  | s, a :: as =>
    if a.allowed s then
      (quickStep cfg s a).bind fun s₁ => (observe cfg s₁ as).map fun r =>
        (r.1, (seen cfg s s₁ a).toList ++ r.2)
    else none

/-- Actions whose events are computed are a run of the system. -/
lemma run_of_observe {as : List Act} {r : State × List (Arena.Event ℕ UInt8)}
    (e : observe cfg s as = some r) (ℓ : HeapLog) :
    ∃ ℓ', (lifetimes cfg).Run (s, ℓ) r.2 (r.1, ℓ') := by
  induction as generalizing s r ℓ with
  | nil =>
    cases e
    exact ⟨ℓ, .refl⟩
  | cons a as ih =>
    rw [observe] at e
    split at e
    case isTrue allowed =>
      rw [quickStep_eq] at e
      obtain ⟨s₁, st, e⟩ := Option.bind_eq_some_iff.1 e
      obtain ⟨r', e', rfl⟩ := Option.map_eq_some_iff.1 e
      obtain ⟨ℓ', run⟩ := ih e' ((noted s ℓ a).write s₁.heap)
      exact ⟨ℓ', .trans (.single (.act (Act.allowed_sound allowed) st)) run⟩
    case isFalse => cases e

/-- The first heap of a file that was just created. -/
lemma fresh_start (cfg : Cfg) : Fresh cfg (.start (init cfg).heap) :=
  ⟨born_start cfg, fun d out _ _ _ => by
    show (init cfg).heap.desc d = .reset
    rw [init_desc, if_neg (by omega)]⟩

/-- What holds after every run of lifetimes. -/
lemma run_logged {r : State × HeapLog} {es : List (Arena.Event ℕ UInt8)}
    (start : (lifetimes cfg).init r) (run : (lifetimes cfg).Run r es (s, ℓ)) : Logged cfg s ℓ := by
  obtain ⟨A, -, fl⟩ := (lifetimes_simulation cfg).init start
  obtain ⟨-, -, lg, -⟩ := (lifetimes_simulation cfg).run fl run
  exact lg

/-- A crash can leave what is in the caches. -/
lemma Logged.image (lg : Logged cfg s ℓ) : CrashImage ℓ s.heap := by
  rw [← show _ = s.heap from lg.cur]
  exact Log.image_cur

end refine

section bytes

variable {n e c sc a : ℕ}

/-- What the sweep frees shares no byte with a marked block. -/
lemma Rebuildable.freed_apart (rd : Rebuildable cfg m N M) (hp : p ∈ M) (blk : IsBlock cfg m N p n)
    (hu : Used cfg m M e sc) (hc : c ∈ freedBlocks cfg M e sc) :
    c + blockSize sc ≤ p ∨ p + n ≤ c := by
  have cls := hu.small.cls
  obtain ⟨hb, no⟩ := (rd.precise.mem_freedBlocks hu).1 hc
  obtain ⟨j, hj, rfl⟩ := Cfg.mem_blocks.1 hb
  obtain ⟨clo, chi⟩ := Cfg.blk_bounds cfg e cls hj
  rw [← Cfg.sb_succ] at chi
  rcases blk with ⟨d, sc', hd, hs, hm, rfl⟩ | ⟨d, k, hd, hl, rfl, rfl⟩
  · obtain ⟨i, hi, rfl⟩ := Cfg.mem_blocks.1 hm
    obtain ⟨lo, hi'⟩ := Cfg.blk_bounds cfg d hs.cls hi
    rw [← Cfg.sb_succ] at hi'
    rcases lt_trichotomy e d with lt | rfl | lt
    · exact .inl (chi.trans ((Cfg.sb_le_sb.2 lt).trans lo))
    · obtain rfl := hs.unique hu.small
      exact Cfg.blk_disjoint fun ji => no (ji ▸ hp)
    · exact .inr (hi'.trans ((Cfg.sb_le_sb.2 lt).trans clo))
  · have hk : Kept cfg m M d k := ⟨hl, _, hp, inSb_sb cfg d⟩
    rw [← Cfg.sb_add]
    by_cases lt : e < d
    · exact .inl (chi.trans (Cfg.sb_le_sb.2 lt))
    · refine .inr (le_trans (Cfg.sb_le_sb.2 ?_) clo)
      by_contra inside
      exact rd.sweepable.not_used_kept hd.1 hk (not_lt.1 lt) (not_le.1 inside)
        (rd.sweepable.fits hd.1 hd.2 hk) hu

/-- A recovery leaves the bytes of marked blocks alone. -/
lemma Rebuildable.mem_of_mark (rd : Rebuildable cfg m N M) (enough : N + SBSIZE < fuel)
    (it : Interrupted cfg fuel M m m') {w : Sweep} (es : sweep cfg fuel m' M.sort = .done w)
    (hp : p ∈ M) (blk : IsBlock cfg m N p n) (lo : p ≤ a) (hi : a < p + n) :
    w.heap.mem a = m.mem a := by
  have tn := it.torn rd enough
  have rd' := tn.rebuildable rd
  have rb := sweep_rebuilt rd'.sweepable rd'.precise enough es
  have out : ∀ e sc, 0 < e → e < N → Used cfg m M e sc → ∀ c ∈ freedBlocks cfg M e sc,
      a < c ∨ c + 8 ≤ a := by
    intro e sc _ _ hu c hc
    have := hu.small.cls.eight_le
    rcases rd.freed_apart hp blk hu hc with le | le
    · exact .inr (by omega)
    · exact .inl (by omega)
  refine (rb.swept.mem a fun e sc h1 h2 hu => ?_).trans (tn.mem a out)
  exact out e sc h1 h2 (tn.used_iff.1 hu)

/-- No action of a thread is a crash. -/
lemma seen_ne_crash (cfg : Cfg) (s s' : State) (a : Act) (M : Finset ℕ) :
    seen cfg s s' a ≠ some (.crash M) := by
  cases a with
  | run t spur =>
    rw [seen]
    split <;> simp
  | _ => simp [seen]

/-- A byte of a marked block that is durable when the machine crashes is there after the
recovery. -/
lemma Logged.crash_keeps {v : UInt8} (lg : Logged cfg s ℓ)
    (crash : LifeStep cfg (s, ℓ) (some (.crash M)) (s', ℓ')) (hp : p ∈ M) (lo : p ≤ a)
    (hi : a < p + mallocSize cfg s.heap p) (dur : DurableByte ℓ a v) :
    s'.heap.client p = .held ∧ mallocSize cfg s'.heap p = mallocSize cfg s.heap p ∧
      s'.heap.mem a = v := by
  generalize eo : some (Arena.Event.crash M) = o at crash
  cases crash with
  | @act _ _ _ x allowed st => exact absurd eo.symm (seen_ne_crash cfg s s' x M)
  | read | flush | fence | reopen => cases eo
  | @crash _ _ _ _ m M im marks rec =>
    cases eo
    cases rec with | @intro N fuel t numSb m' w ℓ₁ curr enough room it hist e =>
    have rd := lg.rebuildable im curr marks
    have held := (marks p hp).1
    have len := lg.blockLen_restarted im marks curr enough it e p
    rw [if_pos hp, show blockLen cfg s.heap p = _ from if_pos held] at len
    obtain ⟨client, size⟩ := blockLen_eq_some.1 len
    have blk := lg.isBlock im marks curr hp
    exact ⟨client, size, (rd.mem_of_mark enough it e hp blk lo hi).trans (dur m im)⟩

end bytes

section sample

/-- What the client of the samples sees before the crash. -/
def sampleEvents (b : ℕ) : List (Arena.Event ℕ UInt8) :=
  [.malloc 0 14336, .malloc 1 14336, .got 1 b 14336, .write (b + 8) 7, .read (b + 8) 7]

/-- Two threads ask for a block. One gets it, writes into it, makes its first line durable and reads
what it has written. The first word of the block is still a link to the next one. -/
lemma exists_marked : ∃ r s ℓ, (lifetimes sample).init r ∧
    (lifetimes sample).Run r (sampleEvents (sample.blk 39 1 0)) (s, ℓ) ∧
    Logged sample s ℓ ∧ MarksHeld sample s s.heap {sample.blk 39 1 0} ∧
    mallocSize sample s.heap (sample.blk 39 1 0) = 14336 ∧ s.heap.mem (sample.blk 39 1 0 + 8) = 7 ∧
    s.heap.link (sample.blk 39 1 0) = sample.blk 39 1 1 ∧
    ∀ i < CACHELINE_SIZE, DurableByte ℓ (sample.blk 39 1 0 + i)
    (s.heap.mem (sample.blk 39 1 0 + i)) := by
  have test : (observe sample (init sample) ([.malloc 0 14336, .malloc 1 14336] ++
      List.replicate 12 (.run 1 false))).any
      (fun r => decide (r.2 = [.malloc 0 14336, .malloc 1 14336,
        .got 1 (sample.blk 39 1 0) 14336] ∧ r.1.heap.client (sample.blk 39 1 0) = .held ∧
        mallocSize sample r.1.heap (sample.blk 39 1 0) = 14336 ∧
        r.1.heap.link (sample.blk 39 1 0) = sample.blk 39 1 1)) = true := by
    decide +kernel
  obtain ⟨⟨s, es⟩, e, hs⟩ := Option.any_eq_true _ _ |>.1 test
  obtain ⟨rfl, held, size, link⟩ := of_decide_eq_true hs
  obtain ⟨ℓ, run⟩ := run_of_observe e (.start (init sample).heap)
  have start : (lifetimes sample).init (init sample, .start (init sample).heap) :=
    ⟨rfl, fresh_start sample⟩
  have line : ∀ i < CACHELINE_SIZE, (Loc.byte (sample.blk 39 1 0 + i)).line =
      .mem (sample.blk 39 1 0 / CACHELINE_SIZE) := by decide +kernel
  generalize sample.blk 39 1 0 = b at *
  have allowed : (Act.write (b + 8) 7).Allowed sample s := ⟨b, held, by omega, by rw [size]; omega⟩
  obtain ⟨s₁, st, client, desc, mem⟩ : ∃ s₁, step sample s (.write (b + 8) 7) = some s₁ ∧
      s₁.heap.client = s.heap.client ∧ s₁.heap.desc = s.heap.desc ∧
      s₁.heap.mem = Function.update s.heap.mem (b + 8) 7 := ⟨_, rfl, rfl, rfl, rfl⟩
  have held₁ : s₁.heap.client b = .held := by rw [client, held]
  have size₁ : mallocSize sample s₁.heap b = 14336 := by rw [mallocSize, desc, ← size, mallocSize]
  have seven : s₁.heap.mem (b + 8) = 7 := by rw [mem, Function.update_self]
  have link₁ : s₁.heap.link b = sample.blk 39 1 1 := by
    rw [← link, Heap.link, mem, Heap.link]
    exact congrArg (fromPptrOff · b) (load_congr fun x _ lt => Function.update_of_ne (by omega) ..)
  have wrote := ((run.tail (.act allowed st)).tail (.flush 1 (b / CACHELINE_SIZE))).tail (.fence 1)
  have read : ∀ {ℓ}, LifeStep sample (s₁, ℓ) (some (.read (b + 8) 7)) (s₁, ℓ) := by
    intro ℓ
    rw [← seven]
    exact .read held₁ (by omega) (by rw [size₁]; omega)
  have run := wrote.tail read
  refine ⟨_, s₁, _, start, run, run_logged start run, fun p hp => ?_, size₁, seven, link₁,
    fun i hi => ?_⟩
  · rw [Finset.mem_singleton.1 hp, size₁]
    exact ⟨held₁, fun lt => absurd lt (by decide)⟩
  · rw [durableByte_iff, line i hi]
    exact Log.Since.fence (Log.since_flush (by rw [Log.cur_write]))

/-- Then the machine crashes. -/
lemma exists_lifetime : ∃ r s ℓ s' ℓ', (lifetimes sample).init r ∧
    (lifetimes sample).Run r (sampleEvents (sample.blk 39 1 0)) (s, ℓ) ∧
    LifeStep sample (s, ℓ) (some (.crash {sample.blk 39 1 0})) (s', ℓ') ∧ Logged sample s ℓ ∧
    mallocSize sample s.heap (sample.blk 39 1 0) = 14336 ∧
    DurableByte ℓ (sample.blk 39 1 0 + 8) 7 := by
  obtain ⟨r, s, ℓ, start, run, lg, marks, size, seven, -, dur⟩ := exists_marked
  obtain ⟨s', ℓ', rec⟩ := lg.recovers lg.image marks
  exact ⟨r, s, ℓ, s', ℓ', start, run, .crash lg.image marks rec, lg, size,
    seven ▸ dur 8 (by decide)⟩

/-- Whatever clients see of a heap over all its lifetimes they could see of an arena. -/
theorem lifetimes_refine {es : List (Arena.Event ℕ UInt8)} (tr : (lifetimes cfg).Trace es) :
    (Arena.system ℕ UInt8 (cfg.heapStart + SBSIZE) (cfg.base + cfg.filesize)).Trace es :=
  (lifetimes_simulation cfg).trace tr

/-- What they have seen, and after the crash they read the byte again. -/
theorem lifetimes_refine_sample :
    (Arena.system ℕ UInt8 (sample.heapStart + SBSIZE) (sample.base + sample.filesize)).Trace
      (sampleEvents (sample.blk 39 1 0) ++
        [.crash {sample.blk 39 1 0}, .read (sample.blk 39 1 0 + 8) 7]) := by
  obtain ⟨r, s, ℓ, s', ℓ', start, run, crash, lg, size, dur⟩ := exists_lifetime
  generalize sample.blk 39 1 0 = b at *
  obtain ⟨held, same, seven⟩ : s'.heap.client b = .held ∧ _ ∧ s'.heap.mem (b + 8) = 7 :=
    lg.crash_keeps crash (Finset.mem_singleton_self _) (by omega) (by rw [size]; omega) dur
  have read : LifeStep sample (s', ℓ') (some (.read (b + 8) 7)) (s', ℓ') := by
    rw [← seven]
    exact .read held (by omega) (by rw [same, size]; omega)
  have run := (run.tail crash).tail read
  rw [List.append_assoc] at run
  exact lifetimes_refine ⟨r, (s', ℓ'), start, run⟩

/-- In any lifetime: a byte of a marked block that is durable when the machine crashes is there
after the recovery, however often that is interrupted. -/
theorem crash_keeps_bytes {r : State × HeapLog} {es : List (Arena.Event ℕ UInt8)}
    {a : ℕ} {v : UInt8} (start : (lifetimes cfg).init r) (run : (lifetimes cfg).Run r es (s, ℓ))
    (crash : LifeStep cfg (s, ℓ) (some (.crash M)) (s', ℓ')) (hp : p ∈ M) (lo : p ≤ a)
    (hi : a < p + mallocSize cfg s.heap p) (dur : DurableByte ℓ a v) :
    s'.heap.client p = .held ∧ mallocSize cfg s'.heap p = mallocSize cfg s.heap p ∧
      s'.heap.mem a = v :=
  (run_logged start run).crash_keeps crash hp lo hi dur

/-- A byte of a block whose first line was made durable. -/
theorem crash_keeps_bytes_sample : ∃ r s ℓ s' ℓ', (lifetimes sample).init r ∧
    (lifetimes sample).Run r (sampleEvents (sample.blk 39 1 0)) (s, ℓ) ∧
    LifeStep sample (s, ℓ) (some (.crash {sample.blk 39 1 0})) (s', ℓ') ∧
    s'.heap.client (sample.blk 39 1 0) = .held ∧
    mallocSize sample s'.heap (sample.blk 39 1 0) = mallocSize sample s.heap (sample.blk 39 1 0) ∧
    s'.heap.mem (sample.blk 39 1 0 + 8) = 7 := by
  obtain ⟨r, s, ℓ, s', ℓ', start, run, crash, -, size, dur⟩ := exists_lifetime
  exact ⟨r, s, ℓ, s', ℓ', start, run, crash, crash_keeps_bytes start run crash
    (Finset.mem_singleton_self _) (Nat.le_add_right ..) (by rw [size]; omega) dur⟩

end sample

end Ralloc
