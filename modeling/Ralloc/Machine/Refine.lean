import Ralloc.Lib.Arena
import Ralloc.Machine.LargeCall
import Ralloc.Machine.Realloc

/-!
# The machine is an allocator

The clients of the step machine see calls of `do_malloc` and `do_free`, the blocks that come back,
and what they write themselves. Whatever a thread does in a state with a ledger, an `Arena` can do
so that the same is seen: a `do_malloc` takes effect when it returns, a `do_free` when it is called,
and no other step can be noticed (`Shows.act`).
-/

namespace Ralloc

open Lib

variable {cfg : Cfg} {s s' : State} {L : Ledger} {t p : ℕ} {h : Heap} {pc : PC} {A : Arena ℕ UInt8}

/-- What is seen of an action that leads from `s` to `s'`. -/
def seen (cfg : Cfg) (s s' : State) : Act → Option (Arena.Event ℕ UInt8)
  | .malloc t size => some (.malloc t size)
  | .free t p => some (.free t p)
  | .write a v => some (.write a v)
  | .run t _ =>
    if (s.pc t).inMalloc = true ∧ s'.pc t = .idle then
      some (.got t (s'.heap.ret t) (mallocSize cfg s'.heap (s'.heap.ret t)))
    else none
  | .exit _ | .setRoot _ _ _ => none

/-- The length of a held block. -/
def blockLen (cfg : Cfg) (h : Heap) (p : ℕ) : Option ℕ :=
  if h.client p = .held then some (mallocSize cfg h p) else none

/-- The blocks that are held, with their lengths. -/
lemma blockLen_eq_some {n : ℕ} :
    blockLen cfg h p = some n ↔ h.client p = .held ∧ mallocSize cfg h p = n := by
  simp [blockLen]

/-- `A` is what the clients know in state `s`. A thread whose assertion has failed may wait
forever. -/
structure Shows (cfg : Cfg) (s : State) (A : Arena ℕ UInt8) : Prop where
  inv : ∃ L, Inv cfg s L
  len : A.len = blockLen cfg s.heap
  byte : A.byte = s.heap.mem
  waits : ∀ t, (s.pc t).inMalloc = true → A.asked t = some (s.heap.req t)
  idle : ∀ t, (s.pc t).inMalloc = false → (∀ a, s.pc t ≠ .abort a) → A.asked t = none

/-- The blocks held in a state with a ledger, and the requests that are still open. -/
def arenaOf (inv : ∃ L, Inv cfg s L) (asked : ℕ → Option ℕ) : Arena ℕ UInt8 where
  len := blockLen cfg s.heap
  byte := s.heap.mem
  asked := asked
  apart := by
    intro p q m n hp hq ne
    obtain ⟨L, inv⟩ := inv
    obtain ⟨held, rfl⟩ := blockLen_eq_some.1 hp
    obtain ⟨held', rfl⟩ := blockLen_eq_some.1 hq
    exact inv.rep.disjoint inv.ok (by simp [inv.rep.held_iff.1 held])
      (by simp [inv.rep.held_iff.1 held']) ne

/-- Where control goes in one step, whatever other threads have done. -/
lemma exec_inMalloc (cfg : Cfg) (t : ℕ) (spur : Bool) (h : Heap) (pc : PC) :
    (exec cfg t spur h pc).2.inMalloc = pc.inMalloc ∨ (∃ a, (exec cfg t spur h pc).2 = .abort a) ∨
      (exec cfg t spur h pc).2 = .idle ∧ pc.Returns := by
  have key : Current h pc → (exec cfg t spur h pc).2.inMalloc = pc.inMalloc ∨
      (∃ a, (exec cfg t spur h pc).2 = .abort a) ∨
      (exec cfg t spur h pc).2 = .idle ∧ pc.Returns := by
    intro cur
    rcases exec_stays cfg t spur cur with (goes | abort) | ret
    · exact .inl goes.1
    · exact .inr (.inl abort)
    · exact .inr (.inr ret)
  cases pc with
  | popNext l sc old p => exact .inl rfl
  | popCas l sc old p next =>
    rw [exec]
    split
    · cases l <;> exact .inl rfl
    · exact .inl goes_popTest.1
  | _ => exact key trivial

/-- Only `do_malloc` returns a block. -/
lemma PC.Returns.inMalloc (ret : pc.Returns) : pc.inMalloc = true := by
  cases pc with
  | popBlock sc => rfl
  | largeDescFence sbs res => rfl
  | _ => exact ret.elim

/-- The last step of a `do_malloc` ends it. -/
lemma exec_returns (th : ThInv cfg h L t pc) (spur : Bool) (ret : pc.Returns) :
    (exec cfg t spur h pc).2 = .idle := by
  cases pc with
  | popBlock sc => rw [exec, check, if_pos th.known.2]
  | largeDescFence sbs res => rfl
  | _ => exact ret.elim

/-- The block that was returned. -/
lemma Heap.ret_setRet_self (h : Heap) (t p : ℕ) : (h.setRet t p).ret t = p :=
    Function.update_self ..

/-- Only the last step of a `do_malloc` makes a block held, and only the one it returns. -/
lemma exec_new (spur : Bool) (hp : (exec cfg t spur h pc).1.client p = .held) :
    h.client p = .held ∨ pc.Returns ∧ p = (exec cfg t spur h pc).1.ret t := by
  by_cases quiet : pc.Quiet
  · exact .inl (by rwa [(exec_effect cfg t spur h pc).client quiet] at hp)
  cases pc with
  | popBlock sc =>
    rw [exec, check] at hp ⊢
    split at hp
    case isTrue pos =>
      rw [if_pos pos]
      by_cases e : p = (h.cache t sc).block
      · exact .inr ⟨trivial, e.trans (Heap.ret_setRet_self ..).symm⟩
      · exact .inl ((Heap.client_setClient_ne e).symm.trans hp)
    case isFalse => exact .inl hp
  | largeDescFence sbs res =>
    rw [exec] at hp ⊢
    by_cases e : p = res
    · exact .inr ⟨trivial, e.trans (Heap.ret_setRet_self ..).symm⟩
    · exact .inl ((Heap.client_setClient_ne e).symm.trans hp)
  | pushBlock sc b => exact .inl (exec_no_new spur rfl hp)
  | _ => exact absurd trivial quiet

section run

variable (inv : Inv cfg s L) (spur : Bool)

include inv

/-- Blocks that are held stay what they are. -/
lemma Inv.blockLen_run {m : ℕ} (hm : blockLen cfg s.heap p = some m) :
    blockLen cfg (exec cfg t spur s.heap (s.pc t)).1 p = some m := by
  obtain ⟨hp, rfl⟩ := blockLen_eq_some.1 hm
  have kept := exec_untouched inv.ok inv.rep (inv.thread t) spur hp
  exact blockLen_eq_some.2 ⟨kept.client, kept.size⟩

/-- A step that does not return from `do_malloc` changes no block. -/
lemma Inv.blockLen_quiet (stays : ¬(s.pc t).Returns) :
    blockLen cfg (exec cfg t spur s.heap (s.pc t)).1 = blockLen cfg s.heap := by
  funext p
  by_cases hp : s.heap.client p = .held
  · have hm : blockLen cfg s.heap p = some (mallocSize cfg s.heap p) := if_pos hp
    rw [hm]
    exact inv.blockLen_run spur hm
  · rw [blockLen, if_neg fun hp' => ?_, blockLen, if_neg hp]
    rcases exec_new spur hp' with held | ⟨ret, -⟩
    · exact hp held
    · exact stays ret

/-- The step that returns from `do_malloc` adds one block. -/
lemma Inv.blockLen_got (ret : (s.pc t).Returns) :
    blockLen cfg (exec cfg t spur s.heap (s.pc t)).1 =
      Function.update (blockLen cfg s.heap) ((exec cfg t spur s.heap (s.pc t)).1.ret t)
        (some (mallocSize cfg (exec cfg t spur s.heap (s.pc t)).1
          ((exec cfg t spur s.heap (s.pc t)).1.ret t))) := by
  have got := exec_got inv.ok inv.rep (inv.thread t) spur ret
  funext p
  by_cases e : p = (exec cfg t spur s.heap (s.pc t)).1.ret t
  · rw [e, Function.update_self]
    exact if_pos got.client
  · rw [Function.update_of_ne e]
    by_cases hp : s.heap.client p = .held
    · have hm : blockLen cfg s.heap p = some (mallocSize cfg s.heap p) := if_pos hp
      rw [hm]
      exact inv.blockLen_run spur hm
    · rw [blockLen, if_neg fun hp' => ?_, blockLen, if_neg hp]
      rcases exec_new spur hp' with held | ⟨-, e'⟩
      · exact hp held
      · exact e e'

end run

section step

variable (sh : Shows cfg s A)

include sh

/-- The memory that is left to held blocks when no byte changes. -/
lemma Shows.keeps {A' : Arena ℕ UInt8} (byte : A'.byte = s.heap.mem) : A.Keeps A' := fun a _ _ => by
  rw [byte, sh.byte]

/-- A thread starts a call and only its own requests change. -/
lemma Shows.call {t : ℕ} {r : Heap × PC} {asked : ℕ → Option ℕ} (next : ∃ L, Inv cfg (s.put t r) L)
    (other : ∀ u, u ≠ t → asked u = A.asked u ∧ r.1.req u = s.heap.req u)
    (waits : r.2.inMalloc = true → asked t = some (r.1.req t))
    (idle : r.2.inMalloc = false → asked t = none) :
    Shows cfg (s.put t r) (arenaOf next asked) := by
  refine ⟨next, rfl, rfl, fun u hu => ?_, fun u hu run => ?_⟩
  · by_cases e : u = t
    · subst e
      rw [State.pc_put_self] at hu
      exact waits hu
    · rw [State.pc_put_ne e] at hu
      exact ((other u e).1.trans (sh.waits u hu)).trans (congrArg some (other u e).2.symm)
  · by_cases e : u = t
    · subst e
      rw [State.pc_put_self] at hu
      exact idle hu
    · rw [State.pc_put_ne e] at hu run
      exact (other u e).1.trans (sh.idle u hu run)

/-- A thread that starts a call has no open request. -/
lemma Shows.asked_none (hi : s.pc t = .idle) : A.asked t = none :=
  sh.idle t (by rw [hi]; rfl) (by simp [hi])

/-- A call to `do_malloc` is a request. -/
lemma Shows.malloc {size : ℕ} (allowed : (Act.malloc t size).Allowed cfg s) (hi : s.pc t = .idle) :
    ∃ A', Arena.Step (cfg.heapStart + SBSIZE) (cfg.base + cfg.filesize) A A'
    (some (.malloc t size)) ∧
      Shows cfg (s.put t (callMalloc t size s.heap)) A' := by
  obtain ⟨L, inv⟩ := sh.inv
  have next : ∃ L, Inv cfg (s.put t (callMalloc t size s.heap)) L :=
    inv.step ⟨.malloc t size, allowed, if_pos hi⟩
  have goes := (callMalloc_goes t size s.heap).1
  refine ⟨arenaOf next (Function.update A.asked t (some size)),
    .malloc t size (sh.asked_none hi) sh.len.symm rfl (sh.keeps rfl),
    sh.call next (fun u ne => ⟨Function.update_of_ne ne .., Function.update_of_ne ne ..⟩) ?_ ?_⟩
  · intro _
    have req : (callMalloc t size s.heap).1.req t = size := Function.update_self ..
    rw [Function.update_self, req]
  · intro hf
    rw [goes] at hf
    cases hf

/-- `do_free` takes the block from the client at once. -/
lemma Shows.free (allowed : (Act.free t p).Allowed cfg s) (hi : s.pc t = .idle) :
    ∃ A', Arena.Step (cfg.heapStart + SBSIZE) (cfg.base + cfg.filesize) A A' (some (.free t p)) ∧
      Shows cfg (s.put t (callFree cfg t p s.heap)) A' := by
  have held : s.heap.client p = .held := allowed
  obtain ⟨L, inv⟩ := sh.inv
  have next : ∃ L, Inv cfg (s.put t (callFree cfg t p s.heap)) L :=
    inv.step ⟨.free t p, allowed, if_pos hi⟩
  obtain ⟨c, ne, e, out⟩ : ∃ c, c ≠ .held ∧ (callFree cfg t p s.heap).1 = s.heap.setClient p c ∧
      (callFree cfg t p s.heap).2.inMalloc = false := by
    rcases inv.ok.role_held (inv.rep.held_iff.1 held) with ⟨sc, o, hr, hm⟩ | hr
    · rw [inv.callFree_small hr hm]
      refine ⟨_, by simp, rfl, ?_⟩
      dsimp only
      split <;> rfl
    · have heap := inv.heap_of_large hr
      obtain ⟨k, -, size, -⟩ := inv.large_sbs held heap
      rw [inv.callFree_large held heap size]
      exact ⟨_, by simp, rfl, rfl⟩
  have len : blockLen cfg (callFree cfg t p s.heap).1 =
      Function.update (blockLen cfg s.heap) p none := by
    funext q
    rw [e]
    by_cases hq : q = p
    · subst hq
      rw [Function.update_self, blockLen, Heap.client_setClient_self, if_neg ne]
    · rw [Function.update_of_ne hq, blockLen, Heap.client_setClient_ne hq]
      rfl
  have mem : (callFree cfg t p s.heap).1.mem = s.heap.mem := by rw [e]; rfl
  have req : (callFree cfg t p s.heap).1.req = s.heap.req := by rw [e]; rfl
  have hlen : A.len p = some (mallocSize cfg s.heap p) := by rw [sh.len]; exact if_pos held
  refine ⟨arenaOf next A.asked, .free t p (sh.asked_none hi) hlen (len.trans (by rw [sh.len])) rfl
    (sh.keeps mem), sh.call next (fun u _ => ⟨rfl, by rw [req]⟩) ?_ fun _ => sh.asked_none hi⟩
  intro hf
  rw [out] at hf
  cases hf

/-- A call that clients do not see. -/
lemma Shows.silent {pc : PC} (next : ∃ L, Inv cfg (s.put t (s.heap, pc)) L) (hi : s.pc t = .idle)
    (out : pc.inMalloc = false) :
    ∃ A', Arena.Step (cfg.heapStart + SBSIZE) (cfg.base + cfg.filesize) A A' none ∧
      Shows cfg (s.put t (s.heap, pc)) A' := by
  refine ⟨arenaOf next A.asked, .quiet sh.len.symm rfl (sh.keeps rfl),
    sh.call next (fun u _ => ⟨rfl, rfl⟩) (fun hf => ?_) fun _ => sh.asked_none hi⟩
  rw [out] at hf
  cases hf

/-- A client writes into a block it holds. -/
lemma Shows.write {a : ℕ} {v : UInt8} (allowed : (Act.write a v).Allowed cfg s)
    (next : ∃ L,
      Inv cfg { s with heap := { s.heap with mem := Function.update s.heap.mem a v } } L) :
    ∃ A', Arena.Step (cfg.heapStart + SBSIZE) (cfg.base + cfg.filesize) A A' (some (.write a v)) ∧
      Shows cfg { s with heap := { s.heap with mem := Function.update s.heap.mem a v } } A' := by
  obtain ⟨p, held, lo, hi⟩ := allowed
  refine ⟨arenaOf next A.asked, .write a v ⟨p, mallocSize cfg s.heap p, ?_, lo, hi⟩
    sh.len.symm rfl ?_, next, rfl, rfl, sh.waits, sh.idle⟩
  · rw [sh.len]
    exact if_pos held
  · rw [sh.byte]
    rfl

/-- A step of a thread leaves the bytes of held blocks alone. -/
lemma Shows.keeps_run (spur : Bool) {A' : Arena ℕ UInt8}
    (byte : A'.byte = (exec cfg t spur s.heap (s.pc t)).1.mem) : A.Keeps A' := by
  rintro a ⟨p, m, hp, lo, hi⟩ -
  rw [sh.len] at hp
  obtain ⟨held, rfl⟩ := blockLen_eq_some.1 hp
  obtain ⟨L, inv⟩ := sh.inv
  rw [byte, sh.byte]
  exact (exec_untouched inv.ok inv.rep (inv.thread t) spur held).bytes a lo hi

/-- The return from `do_malloc`. -/
lemma Shows.got {spur : Bool} (next : ∃ L, Inv cfg (s.put t (exec cfg t spur s.heap (s.pc t))) L)
    (ret : (s.pc t).Returns) :
    ∃ A', Arena.Step (cfg.heapStart + SBSIZE) (cfg.base + cfg.filesize) A A'
        (some (.got t ((exec cfg t spur s.heap (s.pc t)).1.ret t)
          (mallocSize cfg (exec cfg t spur s.heap (s.pc t)).1
            ((exec cfg t spur s.heap (s.pc t)).1.ret t)))) ∧
      Shows cfg (s.put t (exec cfg t spur s.heap (s.pc t))) A' := by
  obtain ⟨L, inv⟩ := sh.inv
  have ⟨L', inv'⟩ := next
  have effect := exec_effect cfg t spur s.heap (s.pc t)
  have got := exec_got inv.ok inv.rep (inv.thread t) spur ret
  have inside := inv'.rep.held_inside inv'.ok (p := (exec cfg t spur s.heap (s.pc t)).1.ret t)
    got.client
  have room : (exec cfg t spur s.heap (s.pc t)).1.currAddr ≤ cfg.base + cfg.filesize := by
    have curr : (exec cfg t spur s.heap (s.pc t)).1.currAddr = cfg.sb L'.n := inv'.rep.curr
    rw [curr]
    exact inv'.ok.inside
  have size := got.size
  rw [effect.req] at size
  refine ⟨arenaOf next (Function.update A.asked t none),
    .got t _ _ (sh.waits t ret.inMalloc) size ?_ inside.1 (inside.2.trans room) ?_ rfl
      (sh.keeps_run spur rfl), sh.call next (fun u ne => ⟨Function.update_of_ne ne .., ?_⟩) ?_
        fun _ => ?_⟩
  · rw [sh.len]
    exact if_neg got.new
  · rw [sh.len]
    exact inv.blockLen_got spur ret
  · rw [effect.req]
  · rw [exec_returns (inv.thread t) spur ret]
    intro hf
    cases hf
  · exact Function.update_self ..

/-- Any other step. -/
lemma Shows.quiet {spur : Bool} (next : ∃ L, Inv cfg (s.put t (exec cfg t spur s.heap (s.pc t))) L)
    (stays : ¬(s.pc t).Returns) :
    ∃ A', Arena.Step (cfg.heapStart + SBSIZE) (cfg.base + cfg.filesize) A A' none ∧
      Shows cfg (s.put t (exec cfg t spur s.heap (s.pc t))) A' := by
  obtain ⟨L, inv⟩ := sh.inv
  have effect := exec_effect cfg t spur s.heap (s.pc t)
  have goes := exec_inMalloc cfg t spur s.heap (s.pc t)
  refine ⟨arenaOf next A.asked, .quiet ?_ rfl (sh.keeps_run spur rfl), next, rfl, rfl,
    fun u hu => ?_, fun u hu run => ?_⟩
  · rw [sh.len]
    exact inv.blockLen_quiet spur stays
  · show A.asked u = some ((exec cfg t spur s.heap (s.pc t)).1.req u)
    rw [effect.req]
    by_cases e : u = t
    · subst e
      rw [State.pc_put_self] at hu
      rcases goes with same | ⟨a, e⟩ | ⟨-, ret⟩
      · exact sh.waits u (same ▸ hu)
      · rw [e] at hu
        cases hu
      · exact absurd ret stays
    · rw [State.pc_put_ne e] at hu
      exact sh.waits u hu
  · by_cases e : u = t
    · subst e
      rw [State.pc_put_self] at hu run
      rcases goes with same | ⟨a, e⟩ | ⟨-, ret⟩
      · refine sh.idle u (same ▸ hu) fun a e => run a ?_
        rw [e]
        rfl
      · exact absurd e (run a)
      · exact absurd ret stays
    · rw [State.pc_put_ne e] at hu run
      exact sh.idle u hu run

/-- The arena can follow every allowed action. -/
theorem Shows.act {a : Act} (allowed : a.Allowed cfg s) (st : step cfg s a = some s') :
    ∃ A', Arena.Step (cfg.heapStart + SBSIZE) (cfg.base + cfg.filesize) A A' (seen cfg s s' a) ∧
      Shows cfg s' A' := by
  obtain ⟨L, inv⟩ := sh.inv
  have next : ∃ L, Inv cfg s' L := inv.step ⟨a, allowed, st⟩
  cases a with
  | malloc t size =>
    obtain ⟨hi, rfl⟩ := step_call st
    exact sh.malloc allowed hi
  | free t p =>
    obtain ⟨hi, rfl⟩ := step_call st
    exact sh.free allowed hi
  | exit t =>
    obtain ⟨hi, rfl⟩ := step_call st
    exact sh.silent next hi rfl
  | setRoot t p i =>
    obtain ⟨hi, rfl⟩ := step_call st
    exact sh.silent next hi rfl
  | write a v =>
    cases st
    exact sh.write allowed next
  | run t spur =>
    cases st
    by_cases ret : (s.pc t).Returns
    · have idle := exec_returns (inv.thread t) spur ret
      rw [seen, if_pos ⟨ret.inMalloc, by rw [State.pc_put_self, idle]⟩]
      exact sh.got next ret
    · rw [seen, if_neg]
      · exact sh.quiet next ret
      · rintro ⟨inside, idle⟩
        rw [State.pc_put_self] at idle
        rcases exec_inMalloc cfg t spur s.heap (s.pc t) with same | ⟨a, e⟩ | ⟨-, ret'⟩
        · rw [idle, inside] at same
          cases same
        · rw [idle] at e
          cases e
        · exact ret ret'

end step

end Ralloc
