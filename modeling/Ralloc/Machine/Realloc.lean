import Ralloc.Machine.LargeCall

/-!
# `RP_realloc`

Model of `RP_realloc`, with `RP_malloc` and `RP_free` as runs of the machine by one thread.

The first part shows that a `do_free` returns when its thread runs alone (`Reach.free_returns`):
each turn of the loop of `flush_cache` takes at least one block out of the cache, and the invariant
rules out that an assertion fails.
-/

namespace Ralloc

open Lib SuperblockState

variable {cfg : Cfg} {t sc p n : ℕ} {h h' : Heap} {pc : PC} {s : State} {r : Heap × PC}

/-- Thread `t` can get to `r` while the other threads stay where they are in `s`. -/
structure At (cfg : Cfg) (t : ℕ) (s : State) (r : Heap × PC) : Prop where
  reach : Reach cfg (s.put t r)
  current : Current r.1 r.2

/-- A run of the thread. -/
lemma At.run {r' : Heap × PC} (a : At cfg t s r) (run : Solo cfg t r r') : At cfg t s r' := by
  have cur : Current (s.put t r).heap ((s.put t r).pc t) := by
    rw [State.pc_put_self]
    exact a.current
  obtain ⟨h1, h2, -⟩ := Reach.solo a.reach cur (by rw [State.pc_put_self]; exact run)
  rw [State.put_put] at h1
  exact ⟨h1, h2⟩

/-- A run leaves the blocks alone that clients hold. -/
lemma At.untouched {r' : Heap × PC} (a : At cfg t s r) (run : Solo cfg t r r')
    (hp : r.1.client p = .held) : Untouched cfg p r.1 r'.1 := by
  have cur : Current (s.put t r).heap ((s.put t r).pc t) := by
    rw [State.pc_put_self]
    exact a.current
  obtain ⟨-, -, -, hu⟩ := Reach.solo a.reach cur (by rw [State.pc_put_self]; exact run)
  exact hu p hp

/-- The next step. -/
lemma At.step (a : At cfg t s r) : At cfg t s (exec cfg t false r.1 r.2) :=
  a.run (.step false rfl (.refl _))

/-- Only three assertions can fail. -/
lemma At.not_abort {a : Site} (at_abort : At cfg t s (h, .abort a)) :
    a = .smallSbAlloc ∨ a = .expandGetLargeSb ∨ a = .setRoot := by
  obtain ⟨L, inv⟩ := at_abort.reach.inv
  have := (inv.thread t).known
  rwa [State.pc_put_self] at this

/-- A step passes any other one. -/
lemma At.passes {c : Prop} [Decidable c] {a : Site} {g : Heap} {go : Heap × PC}
    (at_r : At cfg t s (h, pc)) (e : exec cfg t false h pc = check c a g go)
    (site : ¬(a = .smallSbAlloc ∨ a = .expandGetLargeSb ∨ a = .setRoot)) :
    exec cfg t false h pc = go ∧ At cfg t s go := by
  have next := at_r.step
  rw [e, check] at next
  rw [e, check]
  split at next
  case isTrue hc => exact ⟨if_pos hc, next⟩
  case isFalse => exact absurd next.not_abort site

/-- The scan of the cache counts at least the first block. -/
lemma le_scanRun (next : ℕ → ℕ) (lo hi m tail count : ℕ) :
    count ≤ (scanRun next lo hi m tail count).2 := by
  induction m generalizing tail count with
  | zero => exact le_rfl
  | succ m ih =>
    rw [scanRun]
    split
    · exact le_rfl
    · exact le_trans (Nat.le_succ _) (ih ..)

/-- The first step of a turn of `flush_cache` takes blocks out of the cache. -/
lemma At.flushHead {k : FlushK} (at_head : At cfg t s (h, .flushHead sc k))
    (ne : (h.cache t sc).num ≠ 0) : ∃ c r, c.num < (h.cache t sc).num ∧
      exec cfg t false h (.flushHead sc k) = (h.setCache t sc c, .flushLoad sc r k) := by
  have next := at_head.step
  dsimp only at next
  rw [exec, if_neg ne] at next ⊢
  dsimp only at next ⊢
  generalize hq : scanRun h.link _ _ _ _ 1 = q at next ⊢
  have le : 1 ≤ q.2 := hq ▸ le_scanRun ..
  obtain ⟨tail, count⟩ := q
  dsimp only at next le ⊢
  by_cases hc : count ≤ (h.cache t sc).num
  · rw [check, if_pos hc] at next ⊢
    cases e : computeIdx _ (h.cache t sc).block sc with
    | none =>
      rw [e] at next
      exact absurd next.not_abort (by simp)
    | some idx => exact ⟨_, _, by dsimp only; omega, rfl⟩
  · rw [check, if_neg hc] at next
    exact absurd next.not_abort (by simp)

/-- A push whose head is current. -/
lemma exec_pushCas_current (cfg : Cfg) (t first last : ℕ) {l : ListId} {old : Seen} (k : PushK)
    (e : h.head l = old.toPtrCnt) : ∃ h', h'.cache = h.cache ∧
      exec cfg t false h (.pushCas l first last old k) = (h', pushDone cfg k) := by
  rw [exec, if_pos ⟨e, by simp⟩]
  refine ⟨_, ?_, rfl⟩
  rfl

/-- The push of one descriptor on a partial list, alone. -/
lemma At.pushPartial {d : ℕ} {k : PushK} (at_push : At cfg t s (h, .heapPushPartial d k)) :
    ∃ h', h'.cache = h.cache ∧ Solo cfg t (h, .heapPushPartial d k) (h', pushDone cfg k) := by
  cases e : (h.desc d).heap with
  | none =>
    have next := at_push.step
    dsimp only at next
    rw [exec, e] at next
    exact absurd next.not_abort (by simp)
  | some sc =>
    have load : exec cfg t false h (.heapPushPartial d k) =
        (h, .pushStore (.part sc) d d (h.see (.part sc)) k) := by rw [exec, e]
    have at_store : At cfg t s (h, .pushStore (.part sc) d d (h.see (.part sc)) k) :=
      load ▸ at_push.step
    obtain ⟨store, -⟩ := at_store.passes (by rw [exec]) (by simp)
    have current : (h.setDesc d ((h.desc d).setNext (.part sc) (h.see (.part sc)).ptr)).head
        (.part sc) = (h.see (.part sc)).toPtrCnt := rfl
    obtain ⟨h', cache, cas⟩ := exec_pushCas_current cfg t d d k current
    exact ⟨h', cache, .step false load (.step false store (.step false cas (.refl _)))⟩

/-- What follows the compare-and-swap of `flush_cache`, alone. -/
lemma At.gaveBack {r : Run} {old new : Anchor} {k : FlushK}
    (at_gave : At cfg t s (h, gaveBack cfg sc r old new k)) :
    ∃ h', h'.cache = h.cache ∧
      Solo cfg t (h, gaveBack cfg sc r old new k) (h', .flushHead sc k) := by
  rw [Ralloc.gaveBack] at at_gave ⊢
  split at at_gave
  case isTrue hf =>
    rw [if_pos hf]
    split at at_gave
    case isTrue he =>
      rw [if_pos he]
      refine ⟨_, ?_, (ctor_fixed cfg t h _ _).solo.trans (push_avail_via ..).solo⟩
      rfl
    case isFalse he =>
      rw [if_neg he]
      exact at_gave.pushPartial
  case isFalse hf =>
    rw [if_neg hf]
    exact ⟨h, rfl, .refl _⟩

/-- One turn of the loop of `flush_cache`, alone. -/
lemma At.flushTurn {k : FlushK} (at_head : At cfg t s (h, .flushHead sc k))
    (ne : (h.cache t sc).num ≠ 0) : ∃ h', (h'.cache t sc).num < (h.cache t sc).num ∧
      Solo cfg t (h, .flushHead sc k) (h', .flushHead sc k) := by
  obtain ⟨c, r, lt, e₁⟩ := at_head.flushHead ne
  have at₁ : At cfg t s (h.setCache t sc c, .flushLoad sc r k) := e₁ ▸ at_head.step
  generalize hg : h.setCache t sc c = g at e₁ at₁
  have at₂ : At cfg t s (g, .flushStore sc r (g.desc r.d).anchor k) := at₁.step
  obtain ⟨e₃, at₃⟩ := at₂.passes (by rw [exec]) (by simp)
  generalize hg' : g.setLink r.tail _ = g' at e₃ at₃
  have anchor : (g'.desc r.d).anchor = (g.desc r.d).anchor := by rw [← hg']; rfl
  obtain ⟨e₄, at₄⟩ := at₃.passes (by rw [exec, if_pos ⟨anchor, by simp⟩]) (by simp)
  obtain ⟨h', cache, run⟩ := at₄.gaveBack
  refine ⟨h', ?_, .step false e₁ (.step false rfl (.step false e₃ (.step false e₄ run)))⟩
  rw [cache]
  show (g'.cache t sc).num < _
  rw [← hg', show (Heap.setLink g _ _).cache = g.cache from rfl, ← hg, Heap.cache_setCache_self]
  exact lt

/-- `flush_cache` returns, alone. -/
lemma At.flush {k : FlushK} (at_head : At cfg t s (h, .flushHead sc k)) :
    ∃ h', Solo cfg t (h, .flushHead sc k) (h', flushDone sc k) := by
  induction hn : (h.cache t sc).num using Nat.strong_induction_on generalizing h with
  | _ m ih =>
    by_cases ne : (h.cache t sc).num = 0
    · exact ⟨h, .step false (by rw [exec, if_pos ne]) (.refl _)⟩
    · obtain ⟨g, lt, turn⟩ := at_head.flushTurn ne
      obtain ⟨h', run⟩ := ih _ (hn ▸ lt) (at_head.run turn) rfl
      exact ⟨h', turn.trans run⟩

/-- How the `do_free` of a held small block starts. -/
lemma Inv.callFree_small {L : Ledger} (inv : Inv cfg s L) {o : Owner}
    (hr : L.role (sbIndex cfg.heapStart p) = .small sc o)
    (hm : p ∈ cfg.blocks sc (sbIndex cfg.heapStart p)) :
    callFree cfg t p s.heap = (s.heap.setClient p (.freeing t),
      if (s.heap.cache t sc).num ≥ cacheBlockNum sc then .flushHead sc (.free p)
      else .pushBlock sc p) := by
  have hsc := inv.ok.cls hr
  obtain ⟨i, hi, hpi⟩ := Cfg.mem_blocks.1 hm
  have lo := (Cfg.blk_bounds cfg (sbIndex cfg.heapStart p) hsc hi).1
  have hi' := Cfg.blk_lt cfg (sbIndex cfg.heapStart p) hsc hi
  rw [← Cfg.sb_succ, hpi] at hi'
  rw [hpi] at lo
  obtain ⟨h0, h1, h2⟩ := inv.ok.in_range inv.rep hr (by simp) lo hi'
  obtain ⟨sc, rfl⟩ : ∃ n, sc = n + 1 := ⟨sc - 1, by have := hsc.1; omega⟩
  rw [callFree, if_neg h0, check, if_pos ⟨h1, h2⟩]
  simp only [(inv.rep.small hr).1]

/-- The `do_free` of a held block returns when its thread runs alone. -/
theorem Reach.free_returns (hs : Reach cfg s) (idle : s.pc t = .idle)
    (hp : s.heap.client p = .held) : ∃ h', Solo cfg t (callFree cfg t p s.heap) (h', .idle) := by
  obtain ⟨L, inv⟩ := hs.inv
  rcases inv.ok.role_held (inv.rep.held_iff.1 hp) with ⟨sc, o, hr, hm⟩ | hr
  · have start := inv.callFree_small (t := t) hr hm
    have hs₁ : Reach cfg (s.put t (callFree cfg t p s.heap)) :=
      hs.tail ⟨.free t p, hp, if_pos idle⟩
    rw [start] at hs₁ ⊢
    have push : ∀ g : Heap, ∃ h', Solo cfg t (g, .pushBlock sc p) (h', .idle) :=
      fun g => ⟨_, .step false rfl (.refl _)⟩
    split at hs₁
    case isTrue full =>
      rw [if_pos full]
      obtain ⟨g, run⟩ := At.flush ⟨hs₁, trivial⟩
      obtain ⟨h', run'⟩ := push g
      exact ⟨h', run.trans run'⟩
    case isFalse full =>
      rw [if_neg full]
      exact push _
  · have heap := inv.heap_of_large hr
    obtain ⟨k, -, size, -⟩ := inv.large_sbs hp heap
    exact (free_large hs hp heap size).1

/-- How large the block is that `do_malloc(n)` returns. -/
def allocSize (n : ℕ) : ℕ := if n ≤ MAX_SZ then blockSize (getSizeclass n) else roundUp n SBSIZE

/-- `RP_realloc(p, n)` by thread `t`: the heap and the result when it returns. -/
inductive Realloc (cfg : Cfg) (t p n : ℕ) (h : Heap) : Heap → ℕ → Prop
  | null {h₁ : Heap} (zero : p = 0) (malloc : Solo cfg t (callMalloc t n h) (h₁, .idle)) :
    Realloc cfg t p n h h₁ (h₁.ret t)
  | outside (ne : p ≠ 0) (out : ¬(cfg.heapStart ≤ p ∧ p < h.currAddr)) : Realloc cfg t p n h h 0
  | same (inRange : cfg.heapStart ≤ p ∧ p < h.currAddr) (size : mallocSize cfg h p = n) :
    Realloc cfg t p n h h p
  | failed {h₁ : Heap} (inRange : cfg.heapStart ≤ p ∧ p < h.currAddr)
    (size : mallocSize cfg h p ≠ n) (malloc : Solo cfg t (callMalloc t n h) (h₁, .idle))
    (none : h₁.ret t = 0) : Realloc cfg t p n h h₁ 0
  | moved {h₁ h₂ : Heap} (inRange : cfg.heapStart ≤ p ∧ p < h.currAddr)
    (size : mallocSize cfg h p ≠ n) (malloc : Solo cfg t (callMalloc t n h) (h₁, .idle))
    (got : h₁.ret t ≠ 0)
    (free : Solo cfg t (callFree cfg t p
      { h₁ with mem := copy h₁.mem (h₁.ret t) p (mallocSize cfg h p) }) (h₂, .idle)) :
    Realloc cfg t p n h h₂ (h₁.ret t)

/-- What `RP_realloc(p, n)` has to leave behind when it returns `q`. -/
structure Reallocated (cfg : Cfg) (p n : ℕ) (h h' : Heap) (q : ℕ) : Prop where
  held : h'.client q = .held
  size : n ≤ mallocSize cfg h' q
  data : ∀ i, i < mallocSize cfg h p → i < mallocSize cfg h' q → h'.mem (q + i) = h.mem (p + i)
  kept : q = p → h' = h
  freed : q ≠ p → h'.client p ≠ .held
  others : ∀ x, x ≠ p → h.client x = .held → Untouched cfg x h h'

/-- `RP_realloc(p, n)` returns, leaves the right things behind, and apart from what `RP_malloc` and
`RP_free` do it writes only into the block that `RP_malloc` has given to it. Whether a byte that is
overwritten changes depends on what is in memory, so the last part is about any memory `m`. -/
structure ReallocOk (cfg : Cfg) (t p n : ℕ) (h : Heap) : Prop where
  returns : ∃ h' q, Realloc cfg t p n h h' q
  result : ∀ h' q, Realloc cfg t p n h h' q → Reallocated cfg p n h h' q
  inside : mallocSize cfg h p ≠ n → ∀ h₁, Solo cfg t (callMalloc t n h) (h₁, .idle) →
    n ≤ mallocSize cfg h₁ (h₁.ret t) ∧
      ∀ m x, x < h₁.ret t ∨ h₁.ret t + mallocSize cfg h₁ (h₁.ret t) ≤ x →
        copy m (h₁.ret t) p (mallocSize cfg h p) x = m x

/-- Writes of a client into a block it holds. -/
lemma Reach.writes (hs : Reach cfg s) {q : ℕ} (hq : s.heap.client q = .held) {m : Mem}
    (same : ∀ x, x < q ∨ q + mallocSize cfg s.heap q ≤ x → m x = s.heap.mem x) :
    Reach cfg { s with heap := { s.heap with mem := m } } := by
  -- the first `k` bytes of the block are written
  let part : ℕ → Mem := fun k x => if q ≤ x ∧ x < q + k then m x else s.heap.mem x
  have key : ∀ k ≤ mallocSize cfg s.heap q,
      Reach cfg { s with heap := { s.heap with mem := part k } } := by
    intro k hk
    induction k with
    | zero =>
      have : part 0 = s.heap.mem := funext fun x => if_neg (by omega)
      rw [this]
      exact hs
    | succ k ih =>
      refine (ih (by omega)).tail ⟨.write (q + k) (m (q + k)), ⟨q, hq, by omega, ?_⟩, ?_⟩
      · exact show q + k < q + mallocSize cfg s.heap q by omega
      · have : Function.update (part k) (q + k) (m (q + k)) = part (k + 1) := by
          funext x
          by_cases e : x = q + k
          · subst e
            rw [Function.update_self]
            exact (if_pos ⟨by omega, by omega⟩).symm
          · rw [Function.update_of_ne e]
            exact if_congr (by omega) rfl rfl
        rw [step]
        simp only [this]
  have all : part (mallocSize cfg s.heap q) = m := by
    funext x
    by_cases hx : q ≤ x ∧ x < q + mallocSize cfg s.heap q
    · exact if_pos hx
    · rw [same x (by omega)]
      exact if_neg hx
  rw [← all]
  exact key _ le_rfl

/-- The last step of a `do_malloc`. -/
lemma Reach.malloc_last (hs : Reach cfg s) (goes : Goes true (s.heap, s.pc t))
    (run : Solo cfg t (s.heap, s.pc t) (h', .idle)) : ∃ g pc spur,
      Solo cfg t (s.heap, s.pc t) (g, pc) ∧ pc.Returns ∧ exec cfg t spur g pc = (h', .idle) := by
  have key : ∀ r, Solo cfg t (s.heap, s.pc t) r → Stays true r ∨ ∃ g pc spur,
      Solo cfg t (s.heap, s.pc t) (g, pc) ∧ pc.Returns ∧ exec cfg t spur g pc = r ∧
        r.2 = .idle := by
    intro r run
    induction run with
    | refl => exact .inl (.inl goes)
    | @tail r r' run st ih =>
      obtain ⟨spur, rfl⟩ := st
      rcases ih with (hg | ⟨a, e⟩) | ⟨g, pc, spur', run', ret, e, idle⟩
      · rcases exec_stays cfg t spur (hs.solo goes.2 run).2.1 with hst | ⟨e, hret⟩
        · rw [hg.1] at hst
          exact .inl hst
        · exact .inr ⟨r.1, r.2, spur, run, hret, rfl, e⟩
      · rw [e]
        exact .inl (.inr ⟨a, rfl⟩)
      · have stay : exec cfg t spur r.1 r.2 = r := by
          obtain ⟨g', pc'⟩ := r
          obtain rfl : pc' = .idle := idle
          rfl
        rw [stay]
        exact .inr ⟨g, pc, spur', run', ret, e, idle⟩
  rcases key _ run with (hg | ⟨a, e⟩) | ⟨g, pc, spur, run', ret, e, -⟩
  · cases hg.1
  · cases e
  · exact ⟨g, pc, spur, run', ret, e⟩

/-- A `do_malloc` of thread `t` that is about to start. -/
lemma Reach.at_malloc (hs : Reach cfg s) (idle : s.pc t = .idle)
    (small : (Act.malloc t n).Allowed cfg s) : At cfg t s (callMalloc t n s.heap) :=
  ⟨hs.tail ⟨.malloc t n, small, by rw [step, if_pos idle]⟩, (callMalloc_goes ..).2⟩

/-- The size of a large block that is as long as its descriptor says. -/
lemma mallocSize_large (large : MAX_SZ < n)
    (run : Solo cfg t (callMalloc t n h) (h', .idle)) :
    mallocSize cfg h' (h'.ret t) = roundUp n SBSIZE % HALF := by
  rw [malloc_large large run, mallocedLarge_ret, mallocSize, mallocedLarge_desc,
    largeDesc_blockSize]

/-- The size of a block from the cache. -/
lemma exec_popBlock_size {L : Ledger} (ok : L.Ok cfg) (rep : Rep cfg h L)
    (th : ThInv cfg h L t (.popBlock sc)) (spur : Bool) :
    mallocSize cfg (exec cfg t spur h (.popBlock sc)).1
    ((exec cfg t spur h (.popBlock sc)).1.ret t) =
      blockSize (getSizeclass (h.req t)) := by
  obtain ⟨-, ask, pos⟩ := th
  have hc := rep.cache t sc
  have hne : L.blks.items (.cached t sc) ≠ [] := by
    intro hnil
    rw [hc.num, hnil] at pos
    exact absurd pos (by simp)
  obtain ⟨d, o, hr, hb⟩ := ok.inClass
    ((ok.mem_items (c := .cached t sc) trivial).1 (List.mem_of_head? (hc.head hne)))
  have hret : ((h.setCache t sc ⟨h.link (h.cache t sc).block, (h.cache t sc).num - 1⟩).setClient
      (h.cache t sc).block .held |>.setRet t (h.cache t sc).block).ret t = (h.cache t sc).block :=
    Function.update_self ..
  rw [exec, check, if_pos pos, hret, ← ask.eq]
  exact (rep.extent_small ok hr hb).1

/-- The size of the block that a `do_malloc` returns. -/
lemma Reach.mallocSize_eq (hs : Reach cfg s) (idle : s.pc t = .idle)
    (fits : n ≤ MAX_SZ ∨ (n + SBSIZE - 1) / SBSIZE * SBSIZE < HALF)
    (run : Solo cfg t (callMalloc t n s.heap) (h', .idle)) :
    mallocSize cfg h' (h'.ret t) = allocSize n := by
  rw [allocSize]
  split
  case isFalse large =>
    have lt := fits.resolve_left large
    have le := Nat.lt_div_mul_add (a := n + SBSIZE - 1) (b := SBSIZE) (by decide)
    have hr : roundUp n SBSIZE = (n + SBSIZE - 1) / SBSIZE * SBSIZE := by
      refine roundUp_eq ?_
      rw [SBSIZE_eq] at lt le ⊢
      unfold HALF at lt
      unfold WORD
      omega
    rw [mallocSize_large (by omega) run, hr, Nat.mod_eq_of_lt lt]
  case isTrue small =>
    have hs₁ := (hs.at_malloc idle fits).reach
    generalize hs₁' : s.put t (callMalloc t n s.heap) = s₁ at hs₁
    have at_start : (s₁.heap, s₁.pc t) = callMalloc t n s.heap := by
      rw [← hs₁', State.pc_put_self]
      rfl
    have goes : Goes true (s₁.heap, s₁.pc t) := at_start ▸ callMalloc_goes t n s.heap
    obtain ⟨g, pc, spur, run', ret, e⟩ := hs₁.malloc_last goes (at_start ▸ run)
    obtain ⟨hg, -, hreq, -⟩ := hs₁.solo goes.2 run'
    have req : g.req t = n := by
      rw [show g.req = s₁.heap.req from hreq, ← hs₁']
      exact Function.update_self ..
    obtain ⟨L, inv⟩ := hg.inv
    have th : ThInv cfg g L t pc := by
      have := inv.thread t
      rwa [State.pc_put_self] at this
    cases pc with
    | popBlock sc =>
      have size := exec_popBlock_size inv.ok inv.rep th spur
      rw [show (s₁.put t (g, .popBlock sc)).heap = g from rfl, e, req] at size
      exact size
    | largeDescFence sbs res =>
      have := th.known.1.large
      omega
    | _ => exact ret.elim

/-- A block that is too long for its descriptor. -/
lemma not_le_mallocSize (not_fits : ¬(n ≤ MAX_SZ ∨ (n + SBSIZE - 1) / SBSIZE * SBSIZE < HALF))
    (run : Solo cfg t (callMalloc t n h) (h', .idle)) :
    ¬n ≤ mallocSize cfg h' (h'.ret t) := by
  obtain ⟨large, ge⟩ := not_or.1 not_fits
  rw [mallocSize_large (by omega) run]
  have lt : roundUp n SBSIZE % HALF < HALF := Nat.mod_lt _ (by decide)
  by_cases hn : HALF ≤ n
  · omega
  · -- such a request is rounded up to `2 ^ 32`
    have hr : roundUp n SBSIZE = HALF := by
      rw [SBSIZE_eq] at ge
      rw [roundUp_eq, SBSIZE_eq]
      · unfold HALF at hn ge ⊢
        omega
      · rw [SBSIZE_eq]
        unfold HALF at hn
        unfold WORD
        omega
    rw [hr, Nat.mod_self]
    omega

/-- `RP_realloc` of a block to its own size. -/
lemma reallocOk_same (hp : h.client p = .held) (ne : p ≠ 0)
    (inRange : cfg.heapStart ≤ p ∧ p < h.currAddr) (size : mallocSize cfg h p = n) :
    ReallocOk cfg t p n h := by
  refine ⟨⟨h, p, .same inRange size⟩, fun h' q run => ?_, fun hne => absurd size hne⟩
  cases run with
  | null zero _ => exact absurd zero ne
  | outside _ out => exact absurd inRange out
  | same _ _ =>
    exact ⟨hp, size.ge, fun _ _ _ => rfl, fun _ => rfl, fun hne => absurd rfl hne,
      fun x _ hx => .refl hx⟩
  | failed _ hne _ _ => exact absurd size hne
  | moved _ hne _ _ _ => exact absurd size hne

/-- What `RP_malloc` leads to. -/
structure Mallocked (cfg : Cfg) (t n : ℕ) (s : State) (h₁ : Heap) : Prop where
  reach : Reach cfg (s.put t (h₁, .idle))
  got : Got cfg t s.heap h₁
  size : mallocSize cfg h₁ (h₁.ret t) = allocSize n
  le : n ≤ allocSize n
  others : ∀ x, s.heap.client x = .held → Untouched cfg x s.heap h₁

/-- What the `RP_malloc` inside an `RP_realloc` has done when it returns. -/
lemma Reach.mallocked (hs : Reach cfg s) (idle : s.pc t = .idle)
    (fits : n ≤ MAX_SZ ∨ (n + SBSIZE - 1) / SBSIZE * SBSIZE < HALF) {h₁ : Heap}
    (run : Solo cfg t (callMalloc t n s.heap) (h₁, .idle)) : Mallocked cfg t n s h₁ := by
  have start : step cfg s (.malloc t n) = some (s.put t (callMalloc t n s.heap)) := by
    rw [step, if_pos idle]
  have call : Call cfg s (.malloc t n) ((s.put t (callMalloc t n s.heap)).put t (h₁, .idle)) :=
    .mk rfl fits start (by rwa [State.pc_put_self])
  have reach := ((hs.at_malloc idle fits).run run).reach
  rw [State.put_put] at call
  obtain ⟨got, req⟩ := call.malloc_got hs
  have size := hs.mallocSize_eq idle fits run
  refine ⟨reach, got, size, ?_, fun x hx => ?_⟩
  · have := got.size
    rw [show (s.put t (h₁, .idle)).heap = h₁ from rfl] at this req
    rwa [size, req] at this
  · rcases step_untouched rfl start hx with e | hu
    · cases e
    · exact hu.trans ((hs.at_malloc idle fits).untouched run hu.client)

section moved

variable {h₁ : Heap}

/-- The heap after the copy. -/
def copied (cfg : Cfg) (t p : ℕ) (h h₁ : Heap) : Heap :=
  { h₁ with mem := copy h₁.mem (h₁.ret t) p (mallocSize cfg h p) }

/-- The new block is not the old one. -/
lemma Mallocked.ret_ne (ml : Mallocked cfg t n s h₁) {x : ℕ} (hx : s.heap.client x = .held) :
    h₁.ret t ≠ x := by
  rintro rfl
  exact ml.got.new hx

/-- It has an address. -/
lemma Mallocked.ret_ne_zero (ml : Mallocked cfg t n s h₁) : h₁.ret t ≠ 0 := by
  obtain ⟨L, inv⟩ := ml.reach.inv
  have := (inv.rep.held_inside inv.ok ml.got.client).1
  rw [SBSIZE_eq] at this
  omega

/-- The copy stays inside the new block. -/
lemma Mallocked.copy_reach (ml : Mallocked cfg t n s h₁)
    (le : mallocSize cfg s.heap p ≤ allocSize n) :
    Reach cfg (s.put t (copied cfg t p s.heap h₁, .idle)) :=
  ml.reach.writes ml.got.client fun x hx => copy_out (by
    have size : mallocSize cfg (s.put t (h₁, .idle)).heap (h₁.ret t) = allocSize n := ml.size
    omega)

/-- The copy leaves the blocks alone that were there before. -/
lemma Mallocked.copy_untouched (ml : Mallocked cfg t n s h₁)
    (le : mallocSize cfg s.heap p ≤ allocSize n) {x : ℕ} (hx : s.heap.client x = .held) :
    Untouched cfg x s.heap (copied cfg t p s.heap h₁) := by
  have old := ml.others x hx
  refine old.trans ⟨old.client, rfl, fun a lo hi => copy_out ?_⟩
  obtain ⟨L, inv⟩ := ml.reach.inv
  have hq := inv.rep.held_iff.1 ml.got.client
  have hx' := inv.rep.held_iff.1 old.client
  have size : mallocSize cfg (s.put t (h₁, .idle)).heap (h₁.ret t) = allocSize n := ml.size
  rcases inv.rep.disjoint inv.ok (by simp [hq]) (by simp [hx']) (ml.ret_ne hx) with h1 | h1
  · omega
  · have : mallocSize cfg (s.put t (h₁, .idle)).heap x = mallocSize cfg h₁ x := rfl
    omega

/-- The first step of a `do_free`. -/
lemma Reach.at_free (hs : Reach cfg s) (idle : s.pc t = .idle) (hp : s.heap.client p = .held) :
    At cfg t s (callFree cfg t p s.heap) := by
  refine ⟨hs.tail ⟨.free t p, hp, if_pos idle⟩, ?_⟩
  rcases callFree_cases cfg t p s.heap with ⟨-, ⟨-, e⟩ | ⟨a, e⟩⟩ | ⟨c, -, -, hg⟩
  · rw [e]
    trivial
  · rw [e]
    trivial
  · exact hg.2

/-- What the `do_free` of `p` leaves alone, up to any point. -/
lemma Reach.freeing_untouched (hs : Reach cfg s) (idle : s.pc t = .idle)
    (hp : s.heap.client p = .held) (run : Solo cfg t (callFree cfg t p s.heap) r) {x : ℕ}
    (ne : x ≠ p) (hx : s.heap.client x = .held) : Untouched cfg x s.heap r.1 := by
  have hu : Untouched cfg x s.heap (callFree cfg t p s.heap).1 := callFree_untouched ne hx
  exact hu.trans ((hs.at_free idle hp).untouched run hu.client)

/-- What the `do_free` of `p` leaves alone. -/
lemma Reach.free_untouched (hs : Reach cfg s) (idle : s.pc t = .idle)
    (hp : s.heap.client p = .held) (run : Solo cfg t (callFree cfg t p s.heap) (h', .idle)) :
    h'.client p ≠ .held ∧ ∀ x, x ≠ p → s.heap.client x = .held → Untouched cfg x s.heap h' := by
  have start : step cfg s (.free t p) = some (s.put t (callFree cfg t p s.heap)) := if_pos idle
  have call : Call cfg s (.free t p) ((s.put t (callFree cfg t p s.heap)).put t (h', .idle)) :=
    .mk rfl hp start (by rwa [State.pc_put_self])
  exact ⟨call.free_not_held hs, fun x ne hx => hs.freeing_untouched idle hp run ne hx⟩

/-- Where a block that a client holds is. -/
lemma Reach.held_inRange (hs : Reach cfg s) (hp : s.heap.client p = .held) :
    cfg.heapStart ≤ p ∧ p < s.heap.currAddr := by
  obtain ⟨L, inv⟩ := hs.inv
  have inside := inv.rep.held_inside inv.ok hp
  have pos : 0 < mallocSize cfg s.heap p := by
    rcases inv.ok.role_held (inv.rep.held_iff.1 hp) with ⟨sc, o, hr, hm⟩ | hr
    · rw [(inv.rep.extent_small inv.ok hr hm).1]
      exact lt_of_lt_of_le (by decide) (inv.ok.cls hr).eight_le
    · obtain ⟨e, k, hk, -, size, -⟩ := inv.rep.extent_large inv.ok hr
      rw [size]
      exact Nat.mul_pos hk (by decide)
  omega

/-- Its address is not null. -/
lemma Reach.held_ne_zero (hs : Reach cfg s) (hp : s.heap.client p = .held) : p ≠ 0 := by
  obtain ⟨L, inv⟩ := hs.inv
  have := (inv.rep.held_inside inv.ok hp).1
  rw [SBSIZE_eq] at this
  omega

/-- What is there after the copy and the `do_free` of the old block. -/
lemma Mallocked.reallocated {h₂ : Heap} (ml : Mallocked cfg t n s h₁)
    (hp : s.heap.client p = .held) (le : mallocSize cfg s.heap p ≤ allocSize n)
    (free : Solo cfg t (callFree cfg t p (copied cfg t p s.heap h₁)) (h₂, .idle)) :
    Reallocated cfg p n s.heap h₂ (h₁.ret t) := by
  have oldp := ml.others p hp
  obtain ⟨freed, others⟩ := (ml.copy_reach le).free_untouched (State.pc_put_self ..)
    (ml.copy_untouched le hp).client free
  have new : Untouched cfg (h₁.ret t) (copied cfg t p s.heap h₁) h₂ :=
    others _ (ml.ret_ne hp) ml.got.client
  have size : mallocSize cfg (copied cfg t p s.heap h₁) (h₁.ret t) = allocSize n := ml.size
  refine ⟨new.client, ?_, fun i old _ => ?_, fun e => absurd e (ml.ret_ne hp), fun _ => freed,
    fun x ne hx => ?_⟩
  · rw [new.size, size]
    exact ml.le
  · calc h₂.mem (h₁.ret t + i)
      _ = (copied cfg t p s.heap h₁).mem (h₁.ret t + i) :=
        new.bytes _ (by omega) (by omega)
      _ = h₁.mem (p + i) := copy_in old
      _ = s.heap.mem (p + i) := oldp.bytes _ (by omega) (by omega)
  · have hc := ml.copy_untouched le hx
    exact hc.trans (others x ne hc.client)

/-- `RP_realloc` to another size. -/
lemma Reach.reallocOk_moved (hs : Reach cfg s) (idle : s.pc t = .idle)
    (hp : s.heap.client p = .held) (ne : mallocSize cfg s.heap p ≠ n)
    (fits : n ≤ MAX_SZ ∨ (n + SBSIZE - 1) / SBSIZE * SBSIZE < HALF)
    (le : mallocSize cfg s.heap p ≤ allocSize n)
    (succeeds : ∃ h₁, Solo cfg t (callMalloc t n s.heap) (h₁, .idle)) :
    ReallocOk cfg t p n s.heap := by
  have inRange := hs.held_inRange hp
  refine ⟨?_, fun h' q run => ?_, fun _ h₁ malloc => ?_⟩
  · obtain ⟨h₁, malloc⟩ := succeeds
    have ml := hs.mallocked idle fits malloc
    have kept := ml.copy_untouched le hp
    obtain ⟨h₂, free⟩ := (ml.copy_reach le).free_returns (State.pc_put_self ..) kept.client
    exact ⟨h₂, h₁.ret t, .moved inRange ne malloc ml.ret_ne_zero free⟩
  · cases run with
    | null zero _ => exact absurd zero (hs.held_ne_zero hp)
    | outside _ out => exact absurd inRange out
    | same _ size => exact absurd size ne
    | failed _ _ malloc none => exact absurd none (hs.mallocked idle fits malloc).ret_ne_zero
    | moved _ _ malloc _ free =>
      exact (hs.mallocked idle fits malloc).reallocated hp le free
  · have ml := hs.mallocked idle fits malloc
    rw [ml.size]
    refine ⟨ml.le, fun m x hx => copy_out ?_⟩
    omega

end moved

/-- An `RP_realloc` whose `RP_malloc` succeeds does what it should exactly when the block has the
new size already, or the length of the new block fits into its descriptor and the new block is not
shorter than the old one. -/
theorem realloc_iff (hs : Reach cfg s) (idle : s.pc t = .idle) (hp : s.heap.client p = .held)
    (succeeds : ∃ h₁, Solo cfg t (callMalloc t n s.heap) (h₁, .idle)) :
    ReallocOk cfg t p n s.heap ↔ mallocSize cfg s.heap p = n ∨
      (n ≤ MAX_SZ ∨ (n + SBSIZE - 1) / SBSIZE * SBSIZE < HALF) ∧
        mallocSize cfg s.heap p ≤ allocSize n := by
  constructor
  · intro ok
    refine or_iff_not_imp_left.2 fun ne => ?_
    obtain ⟨h₁, malloc⟩ := succeeds
    obtain ⟨size, frame⟩ := ok.inside ne h₁ malloc
    have fits := not_not.1 (mt (not_le_mallocSize · malloc) (not_not.2 size))
    have ml := hs.mallocked idle fits malloc
    refine ⟨fits, ?_⟩
    rw [ml.size] at frame
    exact (copy_frame_iff (ml.ret_ne hp)).1 frame
  · rintro (size | ⟨fits, le⟩)
    · exact reallocOk_same hp (hs.held_ne_zero hp) (hs.held_inRange hp) size
    · by_cases size : mallocSize cfg s.heap p = n
      · exact reallocOk_same hp (hs.held_ne_zero hp) (hs.held_inRange hp) size
      · exact hs.reallocOk_moved idle hp size fits le succeeds

/-- What is left to run of an `RP_realloc` on `sample`: the `do_malloc` of a block of 12288 bytes,
the copy and the `do_free`. -/
def runRealloc (p : ℕ) (s : State) : Option (Heap × ℕ) := do
  let s₁ ← quickStep sample s (.malloc 0 12288)
  let r₁ := alone sample 0 1 (s₁.heap, s₁.pc 0)
  let r₂ := alone sample 0 1 (callFree sample 0 p (copied sample 0 p s.heap r₁.1))
  if sample.heapStart ≤ p ∧ p < s.heap.currAddr ∧ mallocSize sample s.heap p ≠ 12288 ∧
    r₁.2 = .idle ∧ r₁.1.ret 0 ≠ 0 ∧ r₂.2 = .idle then some (r₂.1, r₁.1.ret 0) else none

/-- A run on the sample that computes an `RP_realloc`. -/
lemma realloc_of_run {q : ℕ} (e : runRealloc p s = some (h', q)) :
    Realloc sample 0 p 12288 s.heap h' q := by
  simp only [runRealloc, quickStep_eq, bind, Option.bind_eq_some_iff] at e
  obtain ⟨s₁, start, e⟩ := e
  obtain ⟨-, rfl⟩ := step_call start
  rw [State.pc_put_self] at e
  split at e
  case isTrue hc =>
    obtain ⟨lo, hi, ne, idle₁, got, idle₂⟩ := hc
    cases e
    exact .moved ⟨lo, hi⟩ ne (solo_of_idle idle₁) got (solo_of_idle idle₂)
  case isFalse => cases e

/-- A client holds a block of 14336 bytes and a block of 12288 bytes, and the block before the
second one is free. Shrinking the first block to 12288 bytes overwrites the second. -/
theorem realloc_overwrites : ∃ s, Calls sample s ∧
    s.heap.client (sample.blk 39 1 0) = .held ∧ s.heap.client (sample.blk 38 2 1) = .held ∧
    ∃ h' q, Realloc sample 0 (sample.blk 39 1 0) 12288 s.heap h' q ∧
      h'.mem (sample.blk 38 2 1 + 1) ≠ s.heap.mem (sample.blk 38 2 1 + 1) := by
  let calls : List (Act × ℕ) := [(.malloc 0 14336, 12), (.malloc 0 12288, 13),
    (.malloc 0 12288, 1), (.free 0 (sample.blk 38 2 0), 1)]
  have test : (runCalls sample (init sample) calls).any (fun s =>
      decide (s.heap.client (sample.blk 39 1 0) = .held ∧
        s.heap.client (sample.blk 38 2 1) = .held) &&
      (runRealloc (sample.blk 39 1 0) s).any fun r =>
        decide (r.1.mem (sample.blk 38 2 1 + 1) ≠ s.heap.mem (sample.blk 38 2 1 + 1))) = true := by
    decide +kernel
  obtain ⟨s, e, hs⟩ := Option.any_eq_true _ _ |>.1 test
  obtain ⟨held, run⟩ := Bool.and_eq_true_iff.1 hs
  obtain ⟨⟨h', q⟩, e', ne⟩ := Option.any_eq_true _ _ |>.1 run
  obtain ⟨h1, h2⟩ := of_decide_eq_true held
  exact ⟨s, Calls.init.runCalls e, h1, h2, h', q, realloc_of_run e', of_decide_eq_true ne⟩

/-- Growing the block of 12288 bytes to 14336 bytes. -/
theorem realloc_sample : ∃ s, Reach sample s ∧ s.heap.client (sample.blk 38 1 0) = .held ∧
    ReallocOk sample 0 (sample.blk 38 1 0) 14336 s.heap := by
  let calls : List (Act × ℕ) := [(.malloc 0 12288, 13)]
  have test : (runCalls sample (init sample) calls).any (fun s =>
      decide (s.pc 0 = .idle ∧ s.heap.client (sample.blk 38 1 0) = .held ∧
        mallocSize sample s.heap (sample.blk 38 1 0) = 12288) &&
      (quickStep sample s (.malloc 0 14336)).any fun s₁ =>
        decide ((alone sample 0 12 (s₁.heap, s₁.pc 0)).2 = .idle)) = true := by
    decide +kernel
  obtain ⟨s, e, hs⟩ := Option.any_eq_true _ _ |>.1 test
  obtain ⟨held, run⟩ := Bool.and_eq_true_iff.1 hs
  obtain ⟨s₁, e', idle'⟩ := Option.any_eq_true _ _ |>.1 run
  obtain ⟨idle, hp, size⟩ := of_decide_eq_true held
  rw [quickStep_eq] at e'
  obtain ⟨-, rfl⟩ := step_call e'
  rw [State.pc_put_self] at idle'
  have hs := (Calls.init.runCalls e).reach.1
  refine ⟨s, hs, hp, (realloc_iff hs idle hp ⟨_, solo_of_idle (of_decide_eq_true idle')⟩).2 ?_⟩
  have room := (getSizeclass_spec (show 14336 ≤ MAX_SZ by decide)).2.1
  refine .inr ⟨.inl (by decide), ?_⟩
  rw [size, allocSize, if_pos (by decide)]
  omega

end Ralloc
