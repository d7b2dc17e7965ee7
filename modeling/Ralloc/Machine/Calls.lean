import Ralloc.Machine.Effect
import Ralloc.Machine.Trace

/-!
# Whole calls

`Call cfg s a s'`: the call that action `a` starts is executed as a whole. A run of whole calls is a
run of the step machine (`Calls.reach`): nobody pushes between a thread's load of a list head and
its compare-and-swap, so the counter cannot wrap. What is said here about calls therefore rests on
the invariant of the machine. `live_blocks` is the result: held blocks are large enough, disjoint,
inside the region, and no call changes a byte of a block that stays held.
-/

namespace Ralloc

open Lib SuperblockState

variable {cfg : Cfg} {t p : ℕ} {h h' : Heap} {L : Ledger} {pc : PC} {s s' : State}

/-- The push belongs to a `do_malloc`. -/
def PushK.inMalloc : PushK → Bool
  | .retry _ | .newsb _ _ => true
  | .flush _ _ | .done => false

/-- The constructor runs for a `do_malloc`. -/
def CtorK.inMalloc : CtorK → Bool
  | .retire k | .organize _ _ _ k => k.inMalloc
  | .newsb _ _ | .large _ _ => true

/-- The thread is inside a `do_malloc`. -/
def PC.inMalloc : PC → Bool
  | .ctor _ _ k => k.inMalloc
  | .orgLink _ _ _ k | .pushLoad _ _ k | .heapPushPartial _ k | .pushStore _ _ _ _ k
  | .pushCas _ _ _ _ k => k.inMalloc
  | .idle | .abort _ | .flushHead _ _ | .flushLoad _ _ _ | .flushStore _ _ _ _ | .flushCas _ _ _ _
  | .pushBlock _ _ | .rootSet _ _ | .rootFlush _ _ | .rootFence _ _ => false
  | _ => true

/-- A list word that the thread has loaded is the last one written. -/
def Current (h : Heap) : PC → Prop
  | .popNext l _ old _ | .popCas l _ old _ _ => h.pushes l = old.stamp
  | _ => True

/-- Then its counter has not wrapped. -/
lemma Current.noWrap (c : Current h pc) : NoWrap h pc := by
  cases pc with
  | popCas l sc old p next =>
    have e : h.pushes l = old.stamp := c
    rw [NoWrap, e, Nat.sub_self]
    exact CNT_pos
  | _ => trivial

/-- Control is inside a `do_malloc` or outside, with a current view of the lists. -/
def Goes (m : Bool) (r : Heap × PC) : Prop := r.2.inMalloc = m ∧ Current r.1 r.2

/-- The same, or an assertion has failed. -/
def Stays (m : Bool) (r : Heap × PC) : Prop := Goes m r ∨ ∃ a, r.2 = .abort a

/-- An assertion. -/
lemma Stays.check {m : Bool} {c : Prop} [Decidable c] {a : Site} {go : Heap × PC}
    (e : Stays m go) : Stays m (check c a h go) := by
  unfold Ralloc.check
  split_ifs
  · exact e
  · exact .inr ⟨a, rfl⟩

/-- A head that is tested right after it was loaded is current. -/
lemma goes_popTest {l sc} : Goes true (h, popTest l sc (h.see l)) := by
  unfold popTest
  split
  · exact ⟨rfl, rfl⟩
  · exact ⟨rfl, trivial⟩
  · exact ⟨rfl, trivial⟩

/-- The test of an anchor. -/
lemma stays_anchorTest {sc d old maxc bsize sb} :
    Stays true (anchorTest cfg sc d old maxc bsize sb h) := by
  unfold anchorTest
  split <;> exact .check (.inl ⟨rfl, trivial⟩)

/-- The end of a fill of the cache. -/
lemma stays_filled {sc n} : Stays true (filled sc n h) := by
  unfold filled
  split
  · exact .inl ⟨rfl, trivial⟩
  · exact .check (.inl ⟨rfl, trivial⟩)

/-- Linking the blocks of a new superblock. -/
lemma goes_newLoop {sc d sb idx} : Goes true (h, newLoop sc d sb idx) := by
  unfold newLoop
  split <;> exact ⟨rfl, trivial⟩

/-- A constructor goes on in the call that it was called in. -/
lemma goes_ctorNext {d ph k} : Goes k.inMalloc (h, ctorNext d k ph) := by
  cases ph with
  | fence =>
    cases k with
    | organize start count i k =>
      rw [ctorNext, ctorDone]
      split <;> exact ⟨rfl, trivial⟩
    | _ => exact ⟨rfl, trivial⟩
  | _ => exact ⟨rfl, trivial⟩

/-- So does what follows a push. -/
lemma goes_pushDone {k} : Goes k.inMalloc (h, pushDone cfg k) := by
  cases k <;> exact ⟨rfl, trivial⟩

/-- `flush_cache` is outside of `do_malloc`. -/
lemma goes_flushDone {sc k} : Goes false (h, flushDone sc k) := by
  cases k with
  | free p => exact ⟨rfl, trivial⟩
  | exit =>
    rw [flushDone]
    split <;> exact ⟨rfl, trivial⟩

/-- So is what follows a run of blocks given back. -/
lemma goes_gaveBack {sc r old new k} : Goes false (h, gaveBack cfg sc r old new k) := by
  unfold gaveBack
  split
  · split <;> exact ⟨rfl, trivial⟩
  · exact ⟨rfl, trivial⟩

/-- Control states that end a `do_malloc`. -/
def PC.Returns : PC → Prop
  | .popBlock _ | .largeDescFence _ _ => True
  | _ => False

/-- Where control goes in one step. -/
lemma exec_stays (cfg : Cfg) (t : ℕ) (spur : Bool) (cur : Current h pc) :
    Stays pc.inMalloc (exec cfg t spur h pc) ∨
      (exec cfg t spur h pc).2 = .idle ∧ pc.Returns := by
  cases pc with
  | popBlock sc =>
    rw [exec, check]
    split
    · exact .inr ⟨rfl, trivial⟩
    · exact .inl (.inr ⟨_, rfl⟩)
  | largeDescFence sbs res => exact .inr ⟨rfl, trivial⟩
  | popLoad l sc => exact .inl (.inl goes_popTest)
  | popNext l sc old p => exact .inl (.inl ⟨rfl, cur⟩)
  | popCas l sc old p next =>
    rw [exec]
    split
    · cases l <;> exact .inl (.inl ⟨rfl, trivial⟩)
    · exact .inl (.inl goes_popTest)
  | anchorLoad sc d => exact .inl stays_anchorTest
  | anchorCas sc d old maxc bsize sb =>
    rw [exec]
    split
    · exact .inl (.check stays_filled)
    · exact .inl stays_anchorTest
  | growCheck sc cur =>
    rw [exec]
    split
    · exact .inl (.inl ⟨rfl, trivial⟩)
    · exact .inl (.check (.inl ⟨rfl, trivial⟩))
  | growCas sc cur => rw [exec]; split <;> exact .inl (.inl ⟨rfl, trivial⟩)
  | newSet sc sb => rw [exec]; exact .inl (.check (.inl goes_newLoop))
  | newLink sc d sb idx => exact .inl (.inl goes_newLoop)
  | newAnchor sc d sb => rw [exec]; exact .inl (.check (.inl ⟨rfl, trivial⟩))
  | newFence sc d => rw [exec]; exact .inl (.check (.inl ⟨rfl, trivial⟩))
  | ctor d ph k => exact .inl (.inl goes_ctorNext)
  | heapPushPartial d k =>
    rw [exec]
    split
    · exact .inl (.inr ⟨_, rfl⟩)
    · exact .inl (.inl ⟨rfl, trivial⟩)
  | pushStore l first last old k => rw [exec]; exact .inl (.check (.inl ⟨rfl, trivial⟩))
  | pushCas l first last old k =>
    rw [exec]
    split
    · exact .inl (.inl goes_pushDone)
    · exact .inl (.inl ⟨rfl, trivial⟩)
  | flushHead sc k =>
    rw [exec]
    split
    · exact .inl (.inl goes_flushDone)
    · refine .inl (.check ?_)
      split
      · exact .inr ⟨_, rfl⟩
      · exact .inl ⟨rfl, trivial⟩
  | flushStore sc r old k => rw [exec]; exact .inl (.check (.inl ⟨rfl, trivial⟩))
  | flushCas sc r old k =>
    rw [exec]
    split
    · exact .inl (.check (.inl goes_gaveBack))
    · exact .inl (.inl ⟨rfl, trivial⟩)
  | largeLoad sbs => rw [exec]; exact .inl (.check (.inl ⟨rfl, trivial⟩))
  | largeCas sbs cur => rw [exec]; split <;> exact .inl (.inl ⟨rfl, trivial⟩)
  | largeSet sbs res => rw [exec]; exact .inl (.check (.inl ⟨rfl, trivial⟩))
  | rootSet p i => rw [exec]; exact .inl (.check (.inl ⟨rfl, trivial⟩))
  | _ => exact .inl (.inl ⟨rfl, trivial⟩)

/-- The view of the lists stays current while one thread runs. -/
lemma exec_current (cfg : Cfg) (t : ℕ) (spur : Bool) (cur : Current h pc) :
    Current (exec cfg t spur h pc).1 (exec cfg t spur h pc).2 := by
  rcases exec_stays cfg t spur cur with (hg | ⟨a, e⟩) | ⟨e, -⟩
  · exact hg.2
  · rw [e]
    trivial
  · rw [e]
    trivial

/-- The last step of a thread counts. -/
lemma State.put_put (s : State) (t : ℕ) (r r' : Heap × PC) :
    (s.put t r).put t r' = s.put t r' := by
  simp [State.put]

/-- A step that changes nothing. -/
lemma State.put_self (s : State) (t : ℕ) : s.put t (s.heap, s.pc t) = s := by
  simp [State.put]

/-- What one thread does alone from a reachable state. -/
theorem Reach.solo (hs : Reach cfg s) (cur : Current s.heap (s.pc t)) {r}
    (run : Solo cfg t (s.heap, s.pc t) r) : Reach cfg (s.put t r) ∧ Current r.1 r.2 ∧
      r.1.req = s.heap.req ∧
      ∀ p, s.heap.client p = .held → Untouched cfg p s.heap r.1 := by
  induction run with
  | refl => exact ⟨by rwa [s.put_self], cur, rfl, fun p hp => .refl hp⟩
  | @tail r r' _ st ih =>
    obtain ⟨spur, rfl⟩ := st
    obtain ⟨hr, hc, hq, hu⟩ := ih
    have st : Step cfg (s.put t r) (s.put t (exec cfg t spur r.1 r.2)) := by
      refine ⟨.run t spur, ?_, ?_⟩
      · rw [Act.Allowed, State.pc_put_self]
        exact hc.noWrap
      · rw [step, State.pc_put_self, State.put_put]
        rfl
    refine ⟨.tail hr st, exec_current cfg t spur hc, ?_, fun p hp => ?_⟩
    · rw [(exec_effect cfg t spur r.1 r.2).req, hq]
    · obtain ⟨L, inv⟩ := hr.inv
      have th := inv.thread t
      rw [State.pc_put_self] at th
      exact (hu p hp).trans (exec_untouched inv.ok inv.rep th spur (hu p hp).client)

/-- A `do_malloc` has returned a block to thread `t` that no client held in `h`. -/
structure Got (cfg : Cfg) (t : ℕ) (h h' : Heap) : Prop where
  new : h.client (h'.ret t) ≠ .held
  client : h'.client (h'.ret t) = .held
  size : h'.req t ≤ mallocSize cfg h' (h'.ret t)

/-- The same with a name for the block. -/
lemma Got.of_ret {b} (e : h'.ret t = b) (new : h.client b ≠ .held) (client : h'.client b = .held)
    (size : h'.req t ≤ mallocSize cfg h' b) : Got cfg t h h' := by
  subst e
  exact ⟨new, client, size⟩

/-- The last step of a `do_malloc`. -/
lemma exec_got (ok : L.Ok cfg) (rep : Rep cfg h L) (th : ThInv cfg h L t pc) (spur : Bool)
    (ret : pc.Returns) : Got cfg t h (exec cfg t spur h pc).1 := by
  cases pc with
  | popBlock sc =>
    obtain ⟨-, ask, pos⟩ := th
    have hc := rep.cache t sc
    have hne : L.blks.items (.cached t sc) ≠ [] := by
      intro e
      rw [hc.num, e] at pos
      exact absurd pos (by simp)
    have hm : (h.cache t sc).block ∈ L.blks.items (.cached t sc) :=
      List.mem_of_head? (hc.head hne)
    have hpl := (ok.mem_items (c := .cached t sc) trivial).1 hm
    obtain ⟨d, o, hr, hb⟩ := ok.inClass hpl
    rw [exec, check, if_pos pos]
    refine .of_ret (Function.update_self ..) ?_ (Heap.client_setClient_self ..) ?_
    · rw [rep.client, hpl]
      simp [Place.client]
    · show h.req t ≤ mallocSize cfg h (h.cache t sc).block
      rw [(rep.extent_small ok hr hb).1, ask.eq]
      exact (getSizeclass_spec ask.le).2.1
  | largeDescFence sbs res =>
    have hr := th.role_first ok rfl th.known.1
    obtain ⟨-, hl, hs, -, hd⟩ := th
    have hs' : cfg.sb (sbIndex cfg.heapStart res) = res := hs
    have hpl := ok.place_sb_none (ok.insideOf hr (by simp)) (by simp [hr]) (by simp [hr])
    rw [hs'] at hpl
    rw [exec]
    refine .of_ret (Function.update_self ..) ?_ (Heap.client_setClient_self ..) ?_
    · rw [rep.client, hpl]
      simp [Place.client]
    · show h.req t ≤ (h.desc (sbIndex cfg.heapStart res)).blockSize
      rw [hd.2.2.2]
      exact hl.req
  | _ => exact ret.elim

/-- A thread that runs a `do_malloc` alone is still inside, has failed, or has got a block. -/
lemma Reach.solo_malloc (hs : Reach cfg s) (goes : Goes true (s.heap, s.pc t)) {r}
    (run : Solo cfg t (s.heap, s.pc t) r) :
    Stays true r ∨ r.2 = .idle ∧ Got cfg t s.heap r.1 := by
  induction run with
  | refl => exact .inl (.inl goes)
  | @tail r r' run st ih =>
    obtain ⟨spur, rfl⟩ := st
    obtain ⟨hr, hc, -, hu⟩ := hs.solo goes.2 run
    rcases ih with (hg | ⟨a, e⟩) | ⟨e, hgot⟩
    · rcases exec_stays cfg t spur hc with hst | ⟨e, hret⟩
      · rw [hg.1] at hst
        exact .inl hst
      · obtain ⟨L, inv⟩ := hr.inv
        have th := inv.thread t
        rw [State.pc_put_self] at th
        obtain ⟨h1, h2, h3⟩ := exec_got inv.ok inv.rep th spur hret
        exact .inr ⟨e, fun hp => h1 (hu _ hp).client, h2, h3⟩
    · rw [e]
      exact .inl (.inr ⟨a, rfl⟩)
    · rw [e]
      exact .inr ⟨rfl, hgot⟩

/-- Outside a `do_malloc` no block becomes held. -/
lemma exec_no_new (spur : Bool) (out : pc.inMalloc = false)
    (hp : (exec cfg t spur h pc).1.client p = .held) : h.client p = .held := by
  by_cases hq : pc.Quiet
  · rwa [(exec_effect cfg t spur h pc).client hq] at hp
  cases pc with
  | pushBlock sc b =>
    rw [exec] at hp
    by_cases e : p = b
    · subst e
      rw [Heap.client_setClient_self] at hp
      cases hp
    · rwa [Heap.client_setClient_ne e] at hp
  | popBlock sc => cases out
  | largeDescFence sbs res => cases out
  | _ => exact absurd trivial hq

/-- A thread that is not inside a `do_malloc` gets no block. -/
lemma solo_no_new {r r' : Heap × PC} (goes : Goes false r) (run : Solo cfg t r r') :
    Goes false r' ∧ (r'.1.client p = .held → r.1.client p = .held) := by
  induction run with
  | refl => exact ⟨goes, id⟩
  | @tail r' r'' _ st ih =>
    obtain ⟨spur, rfl⟩ := st
    obtain ⟨hg, hp⟩ := ih
    refine ⟨?_, fun hp' => hp (exec_no_new spur hg.1 hp')⟩
    refine ⟨?_, exec_current cfg t spur hg.2⟩
    rcases exec_stays cfg t spur hg.2 with (hst | ⟨a, e⟩) | ⟨e, -⟩
    · rw [hst.1, hg.1]
    · rw [e]
      rfl
    · rw [e]
      rfl

/-- The thread that makes a call. -/
def Act.caller : Act → Option ℕ
  | .malloc t _ | .free t _ | .exit t | .setRoot t _ _ => some t
  | .write _ _ | .run _ _ => none

/-- The call that action `a` starts, executed as a whole. -/
inductive Call (cfg : Cfg) (s : State) (a : Act) : State → Prop where
  | mk {t : ℕ} {s₁ : State} {h : Heap} (caller : a.caller = some t) (allowed : a.Allowed cfg s)
      (start : step cfg s a = some s₁) (run : Solo cfg t (s₁.heap, s₁.pc t) (h, .idle)) :
      Call cfg s a (s₁.put t (h, .idle))

/-- The states between calls: whole calls in any order by any threads, and in between the clients
write into blocks they hold. -/
inductive Calls (cfg : Cfg) : State → Prop where
  | init : Calls cfg (init cfg)
  | call {s a s'} : Calls cfg s → Call cfg s a s' → Calls cfg s'
  | write {s a v s'} : Calls cfg s → (Act.write a v).Allowed cfg s →
      step cfg s (.write a v) = some s' → Calls cfg s'

/-- How `do_free` starts: it does nothing, fails, or takes the block from the client. -/
lemma callFree_cases (cfg : Cfg) (t p : ℕ) (h : Heap) :
    (callFree cfg t p h).1 = h ∧
        (p = 0 ∧ (callFree cfg t p h).2 = .idle ∨ ∃ a, (callFree cfg t p h).2 = .abort a) ∨
      ∃ c, c ≠ .held ∧ (callFree cfg t p h).1 = h.setClient p c ∧
      Goes false (callFree cfg t p h) := by
  rw [callFree]
  split
  case isTrue hp => exact .inl ⟨rfl, .inl ⟨hp, rfl⟩⟩
  case isFalse =>
    rw [check]
    split
    case isFalse => exact .inl ⟨rfl, .inr ⟨_, rfl⟩⟩
    case isTrue =>
      dsimp only
      split
      · exact .inl ⟨rfl, .inr ⟨_, rfl⟩⟩
      · rw [check]
        split
        · exact .inr ⟨.none, by simp, rfl, rfl, trivial⟩
        · exact .inl ⟨rfl, .inr ⟨_, rfl⟩⟩
      · refine .inr ⟨.freeing t, by simp, rfl, ?_⟩
        split <;> exact ⟨rfl, trivial⟩

/-- `do_free` leaves the other blocks alone. -/
lemma callFree_untouched {q : ℕ} (ne : p ≠ q) (hp : h.client p = .held) :
    Untouched cfg p h (callFree cfg t q h).1 := by
  rcases callFree_cases cfg t q h with ⟨e, -⟩ | ⟨c, -, e, -⟩
  · rw [e]
    exact .refl hp
  · rw [e]
    exact ⟨(Heap.client_setClient_ne ne).trans hp, rfl, fun _ _ _ => rfl⟩

/-- How `do_malloc` starts. -/
lemma callMalloc_goes (t size : ℕ) (h : Heap) : Goes true (callMalloc t size h) := by
  rw [callMalloc]
  split
  · exact ⟨rfl, trivial⟩
  · by_cases num : (h.cache t (getSizeclass size)).num = 0
    · simp only [if_pos num]
      exact ⟨rfl, trivial⟩
    · simp only [if_neg num]
      exact ⟨rfl, trivial⟩

/-- A thread that has failed stays where it is. -/
lemma solo_abort {a r} (run : Solo cfg t (h, .abort a) r) : r.2 = .abort a := by
  induction run with
  | refl => rfl
  | @tail r r' _ st ih =>
    obtain ⟨spur, rfl⟩ := st
    rw [ih]
    rfl

/-- How a call starts. -/
lemma step_start {a : Act} {s₁ : State} (caller : a.caller = some t)
    (st : step cfg s a = some s₁) : s.pc t = .idle ∧ ∃ r, s₁ = s.put t r ∧ Current r.1 r.2 := by
  cases a with
  | malloc u size =>
    cases caller
    obtain ⟨hi, rfl⟩ := step_call st
    exact ⟨hi, _, rfl, (callMalloc_goes ..).2⟩
  | free u p =>
    cases caller
    obtain ⟨hi, rfl⟩ := step_call st
    refine ⟨hi, _, rfl, ?_⟩
    rcases callFree_cases cfg t p s.heap with ⟨-, ⟨-, e⟩ | ⟨a, e⟩⟩ | ⟨c, -, -, hg⟩
    · rw [e]
      trivial
    · rw [e]
      trivial
    · exact hg.2
  | exit u =>
    cases caller
    obtain ⟨hi, rfl⟩ := step_call st
    exact ⟨hi, _, rfl, trivial⟩
  | setRoot u p i =>
    cases caller
    obtain ⟨hi, rfl⟩ := step_call st
    exact ⟨hi, _, rfl, trivial⟩
  | write x v => cases caller
  | run u spur => cases caller

/-- A run of whole calls is a run of the machine, with every thread idle between the calls. -/
theorem Calls.reach (hs : Calls cfg s) : Reach cfg s ∧ ∀ t, s.pc t = .idle := by
  induction hs with
  | init => exact ⟨.refl, fun _ => rfl⟩
  | call _ hc ih =>
    obtain ⟨hr, hidle⟩ := ih
    obtain @⟨t, _, _, caller, allowed, start, run⟩ := hc
    obtain ⟨-, r, rfl, hcur⟩ := step_start caller start
    have hr₁ := hr.tail ⟨_, allowed, start⟩
    refine ⟨(Reach.solo hr₁ (by rwa [State.pc_put_self]) run).1, fun u => ?_⟩
    rw [State.put_put]
    by_cases e : u = t
    · subst e
      exact State.pc_put_self ..
    · rw [State.pc_put_ne e]
      exact hidle u
  | write _ allowed st ih =>
    obtain ⟨hr, hidle⟩ := ih
    refine ⟨hr.tail ⟨_, allowed, st⟩, ?_⟩
    cases st
    exact hidle

/-- A held block lies between the first superblock and `curr_addr`. -/
lemma Rep.held_inside (rep : Rep cfg h L) (ok : L.Ok cfg) (hp : h.client p = .held) :
    cfg.heapStart + SBSIZE ≤ p ∧ p + mallocSize cfg h p ≤ h.currAddr := by
  have hne : L.place p ≠ .none := by simp [rep.held_iff.1 hp]
  obtain ⟨d, m, x⟩ := rep.extent ok hne
  have born : ∀ j, d ≤ j → j < d + m → j ≠ 0 ∧ j < L.n := by
    intro j h1 h2
    have := mt (ok.born j).2 (x.born j h1 h2)
    omega
  have hm := x.pos
  have h0 := (born d le_rfl (by omega)).1
  have h1 := (born (d + m - 1) (by omega) (by omega)).2
  have h2 : cfg.sb 1 ≤ cfg.sb d := Cfg.sb_le_sb.2 (by omega)
  have h3 : cfg.sb (d + m) ≤ cfg.sb L.n := Cfg.sb_le_sb.2 (by omega)
  have h4 := x.lo
  have h5 := x.hi
  have h6 : cfg.sb 1 = cfg.heapStart + SBSIZE := by simp [Cfg.sb]
  rw [rep.curr]
  omega

/-- A call leaves alone every block but the one it frees. -/
lemma step_untouched {a : Act} {s₁ : State} (caller : a.caller = some t)
    (st : step cfg s a = some s₁) (hp : s.heap.client p = .held) :
    a = .free t p ∨ Untouched cfg p s.heap s₁.heap := by
  cases a with
  | malloc u size =>
    obtain ⟨-, rfl⟩ := step_call st
    exact .inr ⟨hp, rfl, fun _ _ _ => rfl⟩
  | free u q =>
    cases caller
    obtain ⟨-, rfl⟩ := step_call st
    by_cases e : p = q
    · exact .inl (by rw [e])
    · exact .inr (callFree_untouched e hp)
  | exit u =>
    obtain ⟨-, rfl⟩ := step_call st
    exact .inr (.refl hp)
  | setRoot u q i =>
    obtain ⟨-, rfl⟩ := step_call st
    exact .inr (.refl hp)
  | write x v => cases caller
  | run u spur => cases caller

/-- A freed block is not held when the `do_free` is over. -/
lemma Call.free_not_held (hs : Reach cfg s) (hc : Call cfg s (.free t p) s') :
    s'.heap.client p ≠ .held := by
  obtain ⟨caller, allowed, start, run⟩ := hc
  cases caller
  obtain ⟨-, rfl⟩ := step_call start
  rw [State.pc_put_self] at run
  intro hp
  rcases callFree_cases cfg t p s.heap with ⟨-, ⟨h0, -⟩ | ⟨a, e⟩⟩ | ⟨c, hne, e, hg⟩
  · -- a held block has an address
    obtain ⟨L, inv⟩ := hs.inv
    have h1 := (inv.rep.held_inside inv.ok allowed).1
    rw [h0, SBSIZE_eq] at h1
    omega
  · rw [e] at run
    cases solo_abort run
  · have h1 := (solo_no_new (p := p) hg run).2 hp
    rw [e, Heap.client_setClient_self] at h1
    exact hne h1

/-- A `do_malloc` that is over has returned a block for its request. -/
lemma Call.malloc_got {size : ℕ} (hs : Reach cfg s) (hc : Call cfg s (.malloc t size) s') :
    Got cfg t s.heap s'.heap ∧ s'.heap.req t = size := by
  obtain ⟨caller, allowed, start, run⟩ := hc
  cases caller
  have hs₁ : Reach cfg _ := hs.tail ⟨_, allowed, start⟩
  obtain ⟨-, rfl⟩ := step_call start
  have goes : Goes true ((s.put t (callMalloc t size s.heap)).heap,
      (s.put t (callMalloc t size s.heap)).pc t) := by
    rw [State.pc_put_self]
    exact callMalloc_goes ..
  have hreq := (hs₁.solo goes.2 run).2.2.1
  rcases hs₁.solo_malloc goes run with (hg | ⟨a, e⟩) | ⟨-, hgot⟩
  · cases hg.1
  · cases e
  · exact ⟨⟨hgot.new, hgot.client, hgot.size⟩, (congrFun hreq t).trans (Function.update_self ..)⟩

/-- A call leaves a block alone that is held before and after it. -/
lemma Call.untouched {a : Act} (hs : Reach cfg s) (hc : Call cfg s a s')
    (hp : s.heap.client p = .held) (hp' : s'.heap.client p = .held) :
    Untouched cfg p s.heap s'.heap := by
  have hc' := hc
  obtain ⟨caller, allowed, start, run⟩ := hc
  rcases step_untouched caller start hp with rfl | hu
  · exact absurd hp' (hc'.free_not_held hs)
  · have hs₁ : Reach cfg _ := hs.tail ⟨_, allowed, start⟩
    obtain ⟨-, r, rfl, hcur⟩ := step_start caller start
    obtain ⟨-, -, -, hu'⟩ := hs₁.solo (by rwa [State.pc_put_self]) run
    exact hu.trans (hu' p hu.client)

/-- Blocks that clients hold are disjoint, a new one is large enough and inside the region, and no
call changes a byte of a block that stays held. -/
theorem live_blocks (hs : Calls cfg s) :
    (∀ p q, s.heap.client p = .held → s.heap.client q = .held → p ≠ q →
      p + mallocSize cfg s.heap p ≤ q ∨ q + mallocSize cfg s.heap q ≤ p) ∧
    (∀ t size s', Call cfg s (.malloc t size) s' →
      s.heap.client (s'.heap.ret t) ≠ .held ∧ s'.heap.client (s'.heap.ret t) = .held ∧
      size ≤ mallocSize cfg s'.heap (s'.heap.ret t) ∧
      cfg.heapStart + SBSIZE ≤ s'.heap.ret t ∧
      s'.heap.ret t + mallocSize cfg s'.heap (s'.heap.ret t) ≤ s'.heap.currAddr) ∧
    ∀ a s', Call cfg s a s' → ∀ p, s.heap.client p = .held → s'.heap.client p = .held →
      ∀ x, p ≤ x → x < p + mallocSize cfg s.heap p → s'.heap.mem x = s.heap.mem x := by
  have hr := hs.reach.1
  refine ⟨fun p q hp hq ne => ?_, fun t size s' hc => ?_, fun a s' hc p hp hp' => ?_⟩
  · obtain ⟨L, inv⟩ := hr.inv
    exact inv.rep.disjoint inv.ok (by simp [inv.rep.held_iff.1 hp])
      (by simp [inv.rep.held_iff.1 hq]) ne
  · obtain ⟨got, hsize⟩ := hc.malloc_got hr
    obtain ⟨L, inv⟩ := (hs.call hc).reach.1.inv
    have inside := inv.rep.held_inside inv.ok got.client
    exact ⟨got.new, got.client, hsize ▸ got.size, inside.1, inside.2⟩
  · exact (hc.untouched hr hp hp').bytes

/-- The first `n` steps of a thread alone. -/
def alone (cfg : Cfg) (t : ℕ) : ℕ → Heap × PC → Heap × PC
  | 0, r => r
  | n + 1, r => alone cfg t n (exec cfg t false r.1 r.2)

/-- Running a thread for `n` steps is a run of it alone. -/
lemma solo_alone (cfg : Cfg) (t n : ℕ) (r : Heap × PC) : Solo cfg t r (alone cfg t n r) := by
  induction n generalizing r with
  | zero => exact .refl r
  | succ n ih => exact .step false rfl (ih _)

/-- A thread that is idle after `n` steps alone. -/
lemma solo_of_idle {n : ℕ} {r : Heap × PC} (idle : (alone cfg t n r).2 = .idle) :
    Solo cfg t r ((alone cfg t n r).1, .idle) := by
  have run := solo_alone cfg t n r
  rwa [← Prod.eta (alone cfg t n r), idle] at run

/-- Run calls, each with the number of steps it takes. -/
def runCalls (cfg : Cfg) : State → List (Act × ℕ) → Option State
  | s, [] => some s
  | s, (a, n) :: as => do
    let t ← a.caller
    let s₁ ← quickStep cfg s a
    let r := alone cfg t n (s₁.heap, s₁.pc t)
    if a.allowed s ∧ r.2 = .idle then runCalls cfg (s₁.put t r) as else none

/-- What a list of calls leads to is a state between calls. -/
lemma Calls.runCalls (h : Calls cfg s) {as : List (Act × ℕ)}
    (e : runCalls cfg s as = some s') : Calls cfg s' := by
  induction as generalizing s with
  | nil =>
    cases e
    exact h
  | cons x as ih =>
    obtain ⟨a, n⟩ := x
    simp only [Ralloc.runCalls, quickStep_eq, bind, Option.bind_eq_some_iff] at e
    obtain ⟨t, ht, s₁, hs₁, e⟩ := e
    split at e
    case isTrue hc =>
      have split : alone cfg t n (s₁.heap, s₁.pc t) =
          ((alone cfg t n (s₁.heap, s₁.pc t)).1, .idle) := by rw [← hc.2]
      rw [split] at e
      exact ih (h.call (.mk ht (Act.allowed_sound hc.1) hs₁ (solo_of_idle hc.2))) e
    case isFalse => cases e

/-- Two threads have allocated 14336 bytes each. -/
theorem live_blocks_sample : ∃ s, Calls sample s ∧ s.heap.client (sample.blk 39 1 0) = .held ∧
    s.heap.client (sample.blk 39 2 0) = .held ∧
    (sample.blk 39 1 0 + mallocSize sample s.heap (sample.blk 39 1 0) ≤ sample.blk 39 2 0 ∨
      sample.blk 39 2 0 + mallocSize sample s.heap (sample.blk 39 2 0) ≤ sample.blk 39 1 0) ∧
    ∀ a s', Call sample s a s' → s'.heap.client (sample.blk 39 1 0) = .held →
      ∀ x, sample.blk 39 1 0 ≤ x →
        x < sample.blk 39 1 0 + mallocSize sample s.heap (sample.blk 39 1 0) →
        s'.heap.mem x = s.heap.mem x := by
  have test : (runCalls sample (init sample) [(.malloc 1 14336, 12), (.malloc 2 14336, 12)]).any
      (fun s => decide (s.heap.client (sample.blk 39 1 0) = .held ∧
        s.heap.client (sample.blk 39 2 0) = .held)) = true := by decide +kernel
  cases e : runCalls sample (init sample) [(.malloc 1 14336, 12), (.malloc 2 14336, 12)] with
  | none =>
    rw [e] at test
    cases test
  | some s =>
    rw [e] at test
    obtain ⟨h1, h2⟩ := of_decide_eq_true test
    have hs : Calls sample s := Calls.init.runCalls e
    obtain ⟨disjoint, -, bytes⟩ := live_blocks hs
    exact ⟨s, hs, h1, h2, disjoint _ _ h1 h2 (by decide), fun a s' hc => bytes a s' hc _ h1⟩

end Ralloc
