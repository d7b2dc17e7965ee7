import Ralloc.Lib.Persist
import Ralloc.Machine.Calls
import Ralloc.Model.Image

/-!
# The heap behind the cache

Which cache line each persistent field of the heap lies on, and what the steps of the machine flush
and fence. The machine itself is unchanged; a log of its heap runs beside it. `PReach cfg s ℓ`:
clients that behave well can get to `s` with the log `ℓ`. Clients may flush lines of their blocks
and fence as they like.

The thread caches, the state of the clients, and the arguments and results of calls are not
persistent.
-/

namespace Ralloc

open Lib SuperblockState

/-- Cache lines: the one at the start of the superblock region file with `curr_addr`, those of
`BaseMeta`, the descriptors, and those of the superblocks. -/
inductive Line where
  | curr
  | base (k : ℕ)
  | desc (d : ℕ)
  | mem (k : ℕ)
  deriving DecidableEq

/-- The persistent fields. -/
inductive Loc where
  | currAddr
  | head (l : ListId)
  | root (i : ℕ)
  | nextFree (d : ℕ)
  | nextPartial (d : ℕ)
  | anchor (d : ℕ)
  | superblock (d : ℕ)
  | heap (d : ℕ)
  | blockSize (d : ℕ)
  | maxcount (d : ℕ)
  | byte (a : ℕ)

namespace Loc

/-- What is stored in a field. -/
def Val : Loc → Type
  | currAddr | root _ | blockSize _ | maxcount _ => ℕ
  | head _ => PtrCnt
  | nextFree _ | nextPartial _ | superblock _ | heap _ => Option ℕ
  | anchor _ => Anchor
  | byte _ => UInt8

/-- The line of a field. A descriptor is one line, and `BaseMeta` starts at the start of a line. -/
def line : Loc → Line
  | currAddr => .curr
  | head l => .base (l.headOff / CACHELINE_SIZE)
  | root i => .base ((ROOTS_OFF + i * 8) / CACHELINE_SIZE)
  | nextFree d | nextPartial d | anchor d | superblock d | heap d | blockSize d | maxcount d =>
    .desc d
  | byte a => .mem (a / CACHELINE_SIZE)

end Loc

/-- The value of a field. -/
def Heap.read (h : Heap) : (l : Loc) → l.Val
  | .currAddr => h.currAddr
  | .head l => h.head l
  | .root i => h.roots i
  | .nextFree d => (h.desc d).nextFree
  | .nextPartial d => (h.desc d).nextPartial
  | .anchor d => (h.desc d).anchor
  | .superblock d => (h.desc d).superblock
  | .heap d => (h.desc d).heap
  | .blockSize d => (h.desc d).blockSize
  | .maxcount d => (h.desc d).maxcount
  | .byte a => h.mem a

/-- Change a field. -/
def Heap.put (h : Heap) : (l : Loc) → l.Val → Heap
  | .currAddr, v => { h with currAddr := v }
  | .head l, v => h.setHead l v
  | .root i, v => { h with roots := Function.update h.roots i v }
  | .nextFree d, v => h.setDesc d { h.desc d with nextFree := v }
  | .nextPartial d, v => h.setDesc d { h.desc d with nextPartial := v }
  | .anchor d, v => h.setDesc d { h.desc d with anchor := v }
  | .superblock d, v => h.setDesc d { h.desc d with superblock := v }
  | .heap d, v => h.setDesc d { h.desc d with heap := v }
  | .blockSize d, v => h.setDesc d { h.desc d with blockSize := v }
  | .maxcount d, v => h.setDesc d { h.desc d with maxcount := v }
  | .byte a, v => { h with mem := Function.update h.mem a v }

/-- A location that was put reads back. -/
lemma Heap.read_put_self (h : Heap) (l : Loc) (v : l.Val) : (h.put l v).read l = v := by
  cases l with
  | currAddr => rfl
  | head | root | byte => exact Function.update_self ..
  | _ => simp only [Heap.put, Heap.read, Heap.desc_setDesc_self]

/-- Other locations are not touched. -/
lemma Heap.read_put_ne {h : Heap} {l l' : Loc} (ne : l' ≠ l) (v : l.Val) :
    (h.put l v).read l' = h.read l' := by
  -- the same kind of field elsewhere, or another kind
  cases l <;> cases l' <;>
    first
    | rfl
    | exact absurd rfl ne
    | (simp only [ne_eq, Loc.head.injEq, Loc.root.injEq, Loc.byte.injEq] at ne
       exact Function.update_of_ne ne ..)
    | (simp only [Heap.put, Heap.read, Heap.setDesc, Function.update_apply]
       split_ifs with e
       · first | (subst e; rfl) | exact absurd (congrArg _ e) ne
       · rfl)

/-- A log of the heap. -/
abbrev HeapLog := Log Heap Line

/-- What a crash can leave of the heap. -/
def CrashImage (ℓ : HeapLog) (m : Heap) : Prop := Log.Image Loc.line Heap.read ℓ m

/-- What is settled for a field holds of what is left of it. -/
lemma CrashImage.sat {ℓ : HeapLog} {m : Heap} (im : CrashImage ℓ m) (l : Loc) {P : l.Val → Prop}
    (h : ℓ.Settled l.line fun h => P (h.read l)) : P (m.read l) := Log.Image.sat im h

/-- A field is sure to have a value after a crash exactly if it has had it since its line was
durable. -/
lemma durable_iff {ℓ : HeapLog} (l : Loc) (x : l.Val) :
    (∀ m, CrashImage ℓ m → m.read l = x) ↔ ℓ.Settled l.line fun h => h.read l = x :=
  Log.settled_iff fun n => ⟨ℓ.cur.put l ((ℓ.hist n).read l), Heap.read_put_self .., fun _ ne =>
    Heap.read_put_ne ne _⟩

/-- The line that a step flushes. -/
def PC.flushes : PC → Option Line
  | .growFlush _ _ | .grownFlush _ _ | .largeFlush _ _ | .largeGrownFlush _ _ => some .curr
  | .newFlush _ d => some (.desc d)
  | .ctor d .flush _ => some (.desc d)
  | .rootFlush _ i => some (Loc.root i).line
  -- `FLUSH(&desc)` at `largeDescFlush` flushes the local variable
  | _ => none

/-- The steps that are a `FLUSHFENCE`. -/
def PC.fences : PC → Bool
  | .growFence _ _ | .grownFence _ _ | .largeFence _ _ | .largeGrownFence _ _ | .newFence _ _
  | .ctor _ .fence _ | .largeDescFence _ _ | .rootFence _ _ => true
  | _ => false

/-- What a step of thread `t` at `pc` does to the log besides writing. -/
def pass (ℓ : HeapLog) (t : ℕ) (pc : PC) : HeapLog :=
  match pc.flushes with
  | some ln => ℓ.flush t ln
  | none => if pc.fences then ℓ.fence t else ℓ

/-- The same for an action. -/
def noted (s : State) (ℓ : HeapLog) : Act → HeapLog
  | .run t _ => pass ℓ t (s.pc t)
  | _ => ℓ

/-- One allowed action, or a flush or fence of a client. -/
inductive PStep (cfg : Cfg) : State × HeapLog → State × HeapLog → Prop
  | act {s s' : State} {ℓ : HeapLog} {a : Act} (allowed : a.Allowed cfg s)
    (st : step cfg s a = some s') :
    PStep cfg (s, ℓ) (s', (noted s ℓ a).write s'.heap)
  | flush {s : State} {ℓ : HeapLog} (t k : ℕ) : PStep cfg (s, ℓ) (s, ℓ.flush t (.mem k))
  | fence {s : State} {ℓ : HeapLog} (t : ℕ) : PStep cfg (s, ℓ) (s, ℓ.fence t)

/-- What `BaseMeta::BaseMeta` leaves behind. The constructor of each descriptor and the expansion of
the region have flushed and fenced; the links between the descriptors and the push on `avail_sb` may
or may not be durable. -/
structure Born (cfg : Cfg) (ℓ : HeapLog) : Prop where
  cur : ℓ.cur = (init cfg).heap
  currAddr : ℓ.Settled .curr fun h => h.currAddr = (init cfg).heap.currAddr
  desc : ∀ d, ℓ.Settled (.desc d) fun h => (h.desc d).plain = Descriptor.reset.plain

/-- The states that well-behaved clients can reach, with their logs. -/
def PReach (cfg : Cfg) (s : State) (ℓ : HeapLog) : Prop :=
  ∃ ℓ₀, Born cfg ℓ₀ ∧ Relation.ReflTransGen (PStep cfg) (init cfg, ℓ₀) (s, ℓ)

variable {cfg : Cfg} {s s' : State} {ℓ ℓ' : HeapLog} {t : ℕ}

/-- At the start no descriptor has a class. -/
lemma init_plain (cfg : Cfg) (d : ℕ) : ((init cfg).heap.desc d).plain = Descriptor.reset.plain := by
  rw [init_desc]
  split <;> rfl

/-- Everything that the constructor has written may be durable. -/
lemma born_start (cfg : Cfg) : Born cfg (.start (init cfg).heap) :=
  ⟨rfl, fun _ _ _ => rfl, fun d _ _ _ => init_plain cfg d⟩

/-- Nothing that `organize_sb_list` has written after the constructors of the descriptors may be
durable. -/
lemma born_blank (cfg : Cfg) : Born cfg ((Log.start (blank cfg)).write (init cfg).heap) :=
  ⟨Log.cur_write, Log.Settled.write (fun _ _ _ => rfl) rfl,
    fun d => Log.Settled.write (fun _ _ _ => rfl) (init_plain cfg d)⟩

section pass

variable {pc : PC} {ln : Line} {n u : ℕ} {Q : Heap → Prop}

/-- A step that flushes. -/
lemma pass_of_flushes (e : pc.flushes = some ln) : pass ℓ t pc = ℓ.flush t ln := by
  rw [pass, e]

/-- Flushes and fences change nothing that can be read. -/
@[simp] lemma cur_pass : (pass ℓ t pc).cur = ℓ.cur := by
  unfold pass
  split
  · rfl
  · split <;> rfl

/-- What has held since a time still has. -/
lemma since_pass (h : ℓ.Since n Q) : (pass ℓ t pc).Since n Q := by
  unfold pass
  split
  · exact h
  · split <;> exact h

/-- What is settled stays so. -/
lemma settled_pass (h : ℓ.Settled ln Q) : (pass ℓ t pc).Settled ln Q := by
  unfold pass
  split
  · exact h
  · split
    · exact h.fence t
    · exact h

/-- Only a flush of the line itself can end what is stale. -/
lemma stale_pass (h : ℓ.Stale ln Q) (ne : pc.flushes ≠ some ln) : (pass ℓ t pc).Stale ln Q := by
  unfold pass
  split
  case h_1 ln' e => exact h.flush t fun e' => ne (e' ▸ e)
  case h_2 =>
    split
    · exact h.fence t
    · exact h

/-- The flushes of the other threads are as they were. -/
lemma flushed_pass (ne : u ≠ t) : (pass ℓ t pc).flushed u = ℓ.flushed u := by
  unfold pass
  split
  · funext ln
    exact if_neg fun e => ne e.1
  · split <;> rfl

end pass

/-- An invariant of the states with their logs. -/
lemma PReach.induction {P : State → HeapLog → Prop} (h : PReach cfg s ℓ)
    (born : ∀ ℓ₀, Born cfg ℓ₀ → P (init cfg) ℓ₀)
    (step : ∀ s s' ℓ ℓ', PReach cfg s ℓ → PStep cfg (s, ℓ) (s', ℓ') → P s ℓ → P s' ℓ') : P s ℓ := by
  obtain ⟨ℓ₀, hb, run⟩ := h
  suffices h : ∀ r, Relation.ReflTransGen (PStep cfg) (init cfg, ℓ₀) r → P r.1 r.2 from h _ run
  intro r run
  induction run with
  | refl => exact born ℓ₀ hb
  | tail run st ih => exact step _ _ _ _ ⟨ℓ₀, hb, run⟩ st ih

/-- The steps of a log are the steps of the machine. -/
lemma PReach.reach (h : PReach cfg s ℓ) : Reach cfg s ∧ ℓ.cur = s.heap := by
  refine h.induction (P := fun s ℓ => Reach cfg s ∧ ℓ.cur = s.heap) (fun _ hb => ⟨.refl, hb.cur⟩) ?_
  intro s s' ℓ ℓ' _ st ih
  cases st with
  | act allowed st => exact ⟨ih.1.tail ⟨_, allowed, st⟩, Log.cur_write⟩
  | flush t k => exact ih
  | fence t => exact ih

/-- Every reachable state has a log. -/
lemma Reach.log (h : Reach cfg s) : ∃ ℓ, PReach cfg s ℓ := by
  induction h with
  | refl => exact ⟨_, _, born_start cfg, .refl⟩
  | tail _ st ih =>
    obtain ⟨ℓ, ℓ₀, born, run⟩ := ih
    obtain ⟨a, allowed, st⟩ := st
    exact ⟨_, ℓ₀, born, run.tail (.act allowed st)⟩

/-- Perhaps everything is durable. -/
lemma PReach.image (h : PReach cfg s ℓ) : CrashImage ℓ s.heap := by
  rw [← h.reach.2]
  exact Log.image_cur

section solo

/-- One thread alone, with the log. -/
def PSolo (cfg : Cfg) (t : ℕ) : HeapLog × PC → HeapLog × PC → Prop :=
  Relation.ReflTransGen fun r r' => ∃ spur,
    ((pass r.1 t r.2).write (exec cfg t spur r.1.cur r.2).1, (exec cfg t spur r.1.cur r.2).2) = r'

/-- The first step of a call that is not a step of the machine. -/
def enter (ℓ : HeapLog) (call : Heap → Heap × PC) : HeapLog × PC :=
  (ℓ.write (call ℓ.cur).1, (call ℓ.cur).2)

variable {r r' : HeapLog × PC}

/-- The steps of a log are the steps of the thread. -/
lemma PSolo.solo (run : PSolo cfg t r r') : Solo cfg t (r.1.cur, r.2) (r'.1.cur, r'.2) := by
  induction run with
  | refl => exact .refl _
  | tail _ st ih =>
    obtain ⟨spur, rfl⟩ := st
    refine Relation.ReflTransGen.tail ih ⟨spur, ?_⟩
    rw [Log.cur_write]

/-- Every run of the thread has a log. -/
lemma Solo.log {g : Heap × PC} (run : Solo cfg t (r.1.cur, r.2) g) :
    ∃ ℓ, PSolo cfg t r (ℓ, g.2) ∧ ℓ.cur = g.1 := by
  induction run with
  | refl => exact ⟨r.1, .refl, rfl⟩
  | tail _ st ih =>
    obtain ⟨ℓ, run, e⟩ := ih
    obtain ⟨spur, rfl⟩ := st
    rw [← e]
    exact ⟨_, run.tail ⟨spur, rfl⟩, Log.cur_write⟩

end solo

section clear

variable {S : ℕ → Bool} {r : ℕ} {h m : Heap} {pc : PC}

/-- The bytes in `S` are zero, and no root is set but root 0, which can only be `r`. -/
structure Clear (S : ℕ → Bool) (r : ℕ) (h : Heap) : Prop where
  mem : ∀ a, S a = true → h.mem a = 0
  roots : ∀ i, h.roots i = 0 ∨ i = 0 ∧ h.roots i = r

/-- A step from `pc` leaves it so. -/
def PC.spares (cfg : Cfg) (S : ℕ → Bool) (r : ℕ) (pc : PC) : Bool :=
  pc.linkWrite.all (fun b => (List.range 8).all fun i => !S (b + i)) &&
    match pc with
    | .rootSet p i => i = 0 ∧ (p + WORD - cfg.heapStart) % WORD = r
    | _ => true

/-- Only the memory and the roots matter. -/
lemma Clear.congr {h' : Heap} (c : Clear S r h) (mem : h'.mem = h.mem)
    (roots : h'.roots = h.roots) :
    Clear S r h' := ⟨mem ▸ c.mem, roots ▸ c.roots⟩

/-- A word of zeros is no pointer. -/
lemma Clear.link_eq (c : Clear S r h) {b : ℕ} (inside : ∀ x, b ≤ x → x < b + 8 → S x = true) :
    h.link b = 0 := by
  have zero : load h.mem b 8 = load (fun _ => 0) b 8 :=
    load_congr fun x lo hi => c.mem x (inside x lo hi)
  have none : load (fun _ => 0) b 8 = 0 := by simp [load]
  rw [Heap.link, zero, none]
  rfl

/-- One step. -/
lemma Clear.exec (c : Clear S r h) (sp : pc.spares cfg S r = true) (t : ℕ) (spur : Bool) :
    Clear S r (exec cfg t spur h pc).1 := by
  have eff := exec_effect cfg t spur h pc
  obtain ⟨links, root⟩ := Bool.and_eq_true_iff.1 sp
  constructor
  · intro a ha
    rw [eff.mem a fun b hb => ?_]
    · exact c.mem a ha
    · by_contra inside
      rw [hb, Option.all_some, List.all_eq_true] at links
      have out := links (a - b) (List.mem_range.2 (by omega))
      rw [show b + (a - b) = a by omega, ha] at out
      cases out
  · by_cases hpc : ∃ p i, pc = .rootSet p i
    · obtain ⟨p, i, rfl⟩ := hpc
      obtain ⟨rfl, hr⟩ := of_decide_eq_true root
      intro j
      rw [Ralloc.exec, check, if_pos (by decide)]
      show Function.update h.roots 0 _ j = 0 ∨ j = 0 ∧ Function.update h.roots 0 _ j = r
      by_cases e : j = 0
      · subst e
        exact .inr ⟨rfl, (Function.update_self ..).trans hr⟩
      · exact .inl ((Function.update_of_ne e ..).trans ((c.roots j).resolve_right fun h => e h.1))
    · rw [eff.roots fun p i e => hpc ⟨p, i, e⟩]
      exact c.roots

/-- An action leaves it so. -/
def Act.spares (cfg : Cfg) (S : ℕ → Bool) (r : ℕ) (s : State) : Act → Bool
  | .malloc _ _ | .setRoot _ _ _ => true
  | .run t _ => (s.pc t).spares cfg S r
  | _ => false

/-- Run a list of actions that leave it so. -/
def runSparing (cfg : Cfg) (S : ℕ → Bool) (r : ℕ) : State → List Act → Option State
  | s, [] => some s
  | s, a :: as =>
    if a.allowed s ∧ a.spares cfg S r s then (quickStep cfg s a).bind (runSparing cfg S r · as)
    else none

/-- One action. -/
lemma Clear.step {a : Act} (c : Clear S r s.heap) (sp : a.spares cfg S r s = true)
    (st : step cfg s a = some s') : Clear S r s'.heap := by
  cases a with
  | malloc u size | setRoot u p i =>
    obtain ⟨-, rfl⟩ := step_call st
    exact c.congr rfl rfl
  | run u spur =>
    cases st
    exact c.exec sp u spur
  | _ => cases sp

/-- It has always been so in a log of such a run. -/
lemma PReach.runSparing (reach : PReach cfg s ℓ) (clear : ℓ.Since 0 (Clear S r)) {as : List Act}
    (e : runSparing cfg S r s as = some s') :
    ∃ ℓ', PReach cfg s' ℓ' ∧ ℓ'.Since 0 (Clear S r) := by
  induction as generalizing s ℓ with
  | nil =>
    cases e
    exact ⟨ℓ, reach, clear⟩
  | cons a as ih =>
    rw [Ralloc.runSparing] at e
    split at e
    case isTrue ha =>
      rw [quickStep_eq] at e
      obtain ⟨s₁, st, e⟩ := Option.bind_eq_some_iff.1 e
      obtain ⟨ℓ₀, born, run⟩ := reach
      have now : Clear S r s.heap := by
        have := clear.cur (Nat.zero_le _)
        rwa [PReach.reach ⟨ℓ₀, born, run⟩ |>.2] at this
      have noted_clear : (noted s ℓ a).Since 0 (Clear S r) := by
        cases a with
        | run u spur => exact since_pass clear
        | _ => exact clear
      exact ih ⟨ℓ₀, born, run.tail (.act (Act.allowed_sound ha.1) st)⟩
        (noted_clear.write (now.step ha.2 st)) e
    case isFalse => cases e

/-- So it is after a crash. -/
lemma CrashImage.clear (im : CrashImage ℓ m) (clear : ℓ.Since 0 (Clear S r)) : Clear S r m := by
  have settled : ∀ ln, ℓ.Settled ln (Clear S r) := fun ln => clear.mono (Nat.zero_le _)
  constructor
  · intro a ha
    exact im.sat (.byte a) (P := (· = (0 : UInt8))) ((settled _).imp fun h c => c.mem a ha)
  · intro i
    exact im.sat (.root i) (P := fun (v : ℕ) => v = 0 ∨ i = 0 ∧ v = r)
      ((settled _).imp fun h c => c.roots i)

/-- A state with such a log in which a given test holds. -/
lemma preach_of_test (as : List Act) (test : State → Bool)
    (e : (runSparing sample S r (init sample) as).any test = true) :
    ∃ s ℓ, PReach sample s ℓ ∧ ℓ.Since 0 (Clear S r) ∧ test s = true := by
  obtain ⟨s, run, ht⟩ := Option.any_eq_true _ _ |>.1 e
  have start : PReach sample (init sample) (.start (init sample).heap) :=
    ⟨_, born_start sample, .refl⟩
  obtain ⟨ℓ, reach, clear⟩ := start.runSparing
    (fun _ _ _ => ⟨fun _ _ => rfl, fun _ => .inl rfl⟩) run
  exact ⟨s, ℓ, reach, clear, ht⟩

end clear

end Ralloc
