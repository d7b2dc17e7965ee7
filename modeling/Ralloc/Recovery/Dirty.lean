import Ralloc.Lib.RobustMutex
import Mathlib.Logic.Basic
import Mathlib.Tactic.SplitIfs

/-!
# Dirty detection

Model of the flag that tells `RP_recover` whether the heap was closed properly: `set_dirty`,
`is_dirty`, `set_clean` and their callers over any number of process lifetimes. The flag is a robust
mutex in the heap. The constructor of `BaseMeta` locks it when the heap is created, `restart` locks
it when the heap is recovered, the destructor of the process unlocks it, and a process that dies
leaves it behind locked. A process may die at any point of this, in the middle of a recovery in
particular.

A process that opens an existing heap and does not call `RP_recover` does not lock the mutex.
`crashesDetected_iff`: crashes are detected, whenever they happen, exactly when no allocator
operation is done while the mutex is free.
-/

namespace Ralloc

open Lib

/-- `BaseMeta::is_dirty`, called by process `p`. A mutex that is taken over is made consistent. -/
def isDirty (p : ℕ) (m : Mutex ℕ) : Bool × Mutex ℕ :=
  match m.trylock p with
  | (.EOWNERDEAD, m') => (true, m')
  | (.ok, m') => (false, m'.unlock p)
  | (.EBUSY, m') => (false, m')
  | (.EAGAIN, m') => (false, m')
  | (.EINVAL, _) => (true, .free)

/-- `BaseMeta::set_dirty`, unless its assertion fails. -/
def setDirty (p : ℕ) (m : Mutex ℕ) : Option (Mutex ℕ) :=
  match m.trylock p with
  | (.EOWNERDEAD, _) => none
  | (_, m') => some m'

/-- `BaseMeta::set_clean`. -/
def setClean (p : ℕ) (m : Mutex ℕ) : Mutex ℕ := m.unlock p

/-- Where a process is. -/
inductive Phase where
  /-- there is no process -/
  | off
  /-- in the constructor of `BaseMeta`, where the mutex is initialised and not yet locked -/
  | constructing
  | running
  /-- in `restart`, in the garbage collection -/
  | collecting
  /-- in `restart`, before `set_dirty` -/
  | settingDirty
  deriving DecidableEq, Repr

/-- A heap and the processes that use it one after the other. -/
structure Lives where
  mtx : Mutex ℕ
  /-- the heap has been created -/
  created : Bool
  phase : Phase
  /-- the number of processes so far -/
  life : ℕ
  /-- what `is_dirty` has returned to `restart` -/
  ret : Bool
  /-- this process has called `do_malloc` or `do_free` -/
  ops : Bool
  /-- a process that had called `do_malloc` or `do_free` crashed, and no garbage collection was
  completed since -/
  needsGC : Bool
  /-- some process crashed -/
  crashed : Bool
  deriving DecidableEq, Repr

/-- What can happen next. -/
inductive Event where
  /-- a process calls `RP_init` -/
  | start
  /-- the constructor or `restart` goes on -/
  | step
  /-- the process calls `RP_recover` -/
  | recover
  /-- the process calls `do_malloc` or `do_free` -/
  | op
  /-- the process ends, with the destructor of `RallocHolder` -/
  | exit
  | crash
  deriving DecidableEq, Repr

namespace Lives

/-- The process dies. -/
def die (s : Lives) : Lives :=
  { s with
    mtx := s.mtx.die s.life, phase := .off, needsGC := s.needsGC || s.ops, crashed := true }

/-- The call of `set_dirty` at the end of the constructor and of `restart`. -/
def lock (s : Lives) : Lives :=
  match setDirty s.life s.mtx with
  | some m => { s with mtx := m, phase := .running }
  | none => s.die

/-- What an event does, if it can happen. -/
def next (s : Lives) : Event → Option Lives
  | .start =>
    if s.phase ≠ .off then none
    else if s.created then
      some { s with phase := .running, life := s.life + 1, ops := false }
    else
      some { s with
        mtx := .free, created := true, phase := .constructing, life := s.life + 1, ops := false }
  | .step =>
    match s.phase with
    | .constructing => some s.lock
    | .collecting => some { s with needsGC := false, phase := .settingDirty }
    | .settingDirty => some s.lock
    | _ => none
  | .recover =>
    if s.phase ≠ .running then none
    else
      let (dirty, m) := isDirty s.life s.mtx
      some { s with mtx := m, ret := dirty, phase := if dirty then .collecting else .settingDirty }
  | .op => if s.phase = .running then some { s with ops := true } else none
  | .exit =>
    if s.phase = .running then some { s with mtx := setClean s.life s.mtx, phase := .off } else none
  | .crash => if s.phase = .off then none else some s.die

/-- A run. -/
def run (s : Lives) : List Event → Option Lives
  | [] => some s
  | e :: es => (s.next e).bind (·.run es)

end Lives

/-- No heap. -/
def noHeap : Lives := ⟨.free, false, .off, 0, false, false, false, false⟩

/-- `RP_recover` collects garbage and returns 1 if that is needed, and returns 0 without touching
the lists if no process has ever crashed. -/
def Lives.Detects (s : Lives) : Prop :=
  ∀ s', s.next .recover = some s' →
    (s.needsGC = true → s'.ret = true ∧ s'.phase = .collecting) ∧
      (s.crashed = false → s'.ret = false ∧ s'.phase = .settingDirty)

/-- `RP_recover` is right here, and would be right in the next process if this one crashed here. -/
def Lives.DetectsCrash (s : Lives) : Prop :=
  s.Detects ∧ ∀ s', s.run [.crash, .start] = some s' → s'.Detects

/-- Crashes are detected at every point of a run. -/
def Lives.CrashesDetected (s : Lives) : List Event → Prop
  | [] => s.DetectsCrash
  | e :: es => s.DetectsCrash ∧ ∀ s', s.next e = some s' → s'.CrashesDetected es

/-- Every operation of a run is done while the mutex is not free. -/
def Lives.OpsGuarded (s : Lives) : List Event → Prop
  | [] => True
  | e :: es => (e = .op → s.mtx ≠ .free) ∧ ∀ s', s.next e = some s' → s'.OpsGuarded es

/-- What holds in a run whose operations are guarded. -/
structure Lives.Inv (s : Lives) : Prop where
  ops : s.phase ≠ .off → s.ops = true → s.mtx ≠ .free
  needsGC : s.needsGC = true → s.mtx = .orphaned ∨ s.mtx = .held s.life ∧ s.phase = .collecting
  crashed : s.crashed = false → s.mtx ≠ .orphaned
  owner : ∀ p, s.mtx = .held p → p = s.life ∧ s.phase ≠ .off
  fresh : s.created = false → s.needsGC = false ∧ s.phase = .off

/-- When `RP_recover` can be called, and what its call of `is_dirty` does. -/
lemma Lives.next_recover {s s' : Lives} : s.next .recover = some s' ↔ s.phase = .running ∧
    s' = { s with
      mtx := (isDirty s.life s.mtx).2, ret := (isDirty s.life s.mtx).1
      phase := if (isDirty s.life s.mtx).1 then .collecting else .settingDirty } := by
  by_cases running : s.phase = .running
  · rw [Lives.next, if_neg (not_not.2 running)]
    exact ⟨fun e => ⟨running, (Option.some.inj e).symm⟩, fun h => congrArg some h.2.symm⟩
  · rw [Lives.next, if_pos running]
    exact ⟨fun e => absurd e (by simp), fun h => absurd h.1 running⟩

namespace Lives.Inv

variable {s s' : Lives}

/-- Where no heap exists there is nothing to be wrong. -/
lemma noHeap : Ralloc.noHeap.Inv := by
  constructor <;> simp [Ralloc.noHeap]

/-- A process has created the heap. -/
lemma created (inv : s.Inv) (on : s.phase ≠ .off) : s.created = true :=
  Bool.not_eq_false _ ▸ fun h => on (inv.fresh h).2

/-- A heap that needs a garbage collection is left behind locked until it is collected. -/
lemma orphaned (inv : s.Inv) (ph : s.phase ≠ .collecting) (needs : s.needsGC = true) :
    s.mtx = .orphaned :=
  (inv.needsGC needs).resolve_right fun e => ph e.2

/-- A crash. -/
lemma die (inv : s.Inv) (on : s.phase ≠ .off) : s.die.Inv := by
  have created := inv.created on
  cases h : s.mtx with
  | free =>
    have hops : s.ops = false := Bool.eq_false_iff.2 fun ops => inv.ops on ops h
    have hneeds : s.needsGC = false := Bool.eq_false_iff.2 fun needs => by
      rcases inv.needsGC needs with e | ⟨e, -⟩ <;> simp [h] at e
    constructor <;> simp [Lives.die, h, hops, hneeds, created]
  | held p =>
    obtain ⟨rfl, -⟩ := inv.owner p h
    constructor <;> simp [Lives.die, h, created]
  | orphaned => constructor <;> simp [Lives.die, h, created]

/-- `set_dirty`. -/
lemma lock (inv : s.Inv) (on : s.phase ≠ .off) (done : s.phase ≠ .collecting) : s.lock.Inv := by
  have created := inv.created on
  have needs := inv.orphaned done
  cases h : s.mtx with
  | free =>
    have e : s.lock = { s with mtx := .held s.life, phase := .running } := by
      simp [Lives.lock, setDirty, Mutex.trylock, h]
    rw [e]
    refine ⟨by simp, fun n => ?_, by simp, fun p hp => by cases hp; simp, by simp [created]⟩
    simp [h] at needs
    simp [needs] at n
  | held p =>
    have e : s.lock = { s with phase := .running } := by
      simp [Lives.lock, setDirty, Mutex.trylock, h]
    rw [e]
    refine ⟨by simp [h], fun n => ?_, by simp [h], fun q hq => ⟨(inv.owner q hq).1, by simp⟩,
      by simp [created]⟩
    simp [h] at needs
    simp [needs] at n
  | orphaned =>
    have e : s.lock = s.die := by simp [Lives.lock, setDirty, Mutex.trylock, h]
    rw [e]
    exact inv.die on

/-- `is_dirty` called by `restart`. -/
lemma recover (inv : s.Inv) (e : s.next .recover = some s') : s'.Inv := by
  obtain ⟨running, rfl⟩ := next_recover.1 e
  have created := inv.created (by simp [running])
  have needs := inv.orphaned (by simp [running])
  cases h : s.mtx with
  | free =>
    have ops : s.ops = false := Bool.eq_false_iff.2 fun ops => inv.ops (by simp [running]) ops h
    simp [h] at needs
    constructor <;> simp [isDirty, Mutex.trylock, needs, ops, created]
  | held p =>
    obtain ⟨rfl, -⟩ := inv.owner p h
    simp [h] at needs
    constructor <;> simp [isDirty, Mutex.trylock, needs, created]
  | orphaned => constructor <;> simp [isDirty, Mutex.trylock, created]

/-- One event of a guarded run. -/
lemma next {e : Event} (inv : s.Inv) (guarded : e = .op → s.mtx ≠ .free)
    (st : s.next e = some s') : s'.Inv := by
  cases e with
  | start =>
    simp only [Lives.next] at st
    split_ifs at st with on cr
    · have off : s.phase = .off := Decidable.not_not.1 on
      cases st
      refine ⟨by simp, fun needs => ?_, inv.crashed, fun p hp => ?_, by simp [cr]⟩
      · exact .inl (inv.orphaned (by simp [off]) needs)
      · exact absurd off (inv.owner p hp).2
    · have needs := (inv.fresh (by simpa using cr)).1
      cases st
      constructor <;> simp [needs]
  | step =>
    simp only [Lives.next] at st
    split at st
    case h_1 ph =>
      cases st
      exact inv.lock (by simp [ph]) (by simp [ph])
    case h_2 ph =>
      cases st
      exact ⟨fun _ => inv.ops (by simp [ph]), by simp, inv.crashed,
        fun p hp => ⟨(inv.owner p hp).1, by simp⟩, by simp [inv.created (by simp [ph])]⟩
    case h_3 ph =>
      cases st
      exact inv.lock (by simp [ph]) (by simp [ph])
    case h_4 => cases st
  | recover => exact inv.recover st
  | op =>
    simp only [Lives.next] at st
    split_ifs at st
    cases st
    exact ⟨fun _ _ => guarded rfl, inv.needsGC, inv.crashed, inv.owner, inv.fresh⟩
  | exit =>
    simp only [Lives.next] at st
    split_ifs at st with running
    cases st
    have created := inv.created (by simp [running])
    have needs := inv.orphaned (by simp [running])
    cases h : s.mtx with
    | free =>
      simp [h] at needs
      constructor <;> simp [setClean, Mutex.unlock, needs, created]
    | held p =>
      obtain ⟨rfl, -⟩ := inv.owner p h
      simp [h] at needs
      constructor <;> simp [setClean, needs, created]
    | orphaned =>
      have := inv.crashed
      constructor <;> simp_all [setClean]
  | crash =>
    simp only [Lives.next] at st
    split_ifs at st with on
    cases st
    exact inv.die on

/-- `RP_recover` is right. -/
lemma detects (inv : s.Inv) : s.Detects := by
  intro s' st
  obtain ⟨running, rfl⟩ := next_recover.1 st
  refine ⟨fun needs => ?_, fun crashed => ?_⟩
  · simp [isDirty, Mutex.trylock, inv.orphaned (by simp [running]) needs]
  · cases h : s.mtx with
    | free => simp [isDirty, Mutex.trylock]
    | held p => simp [isDirty, Mutex.trylock]
    | orphaned => exact absurd h (inv.crashed crashed)

end Lives.Inv

/-- A process that has called `RP_recover` holds the mutex. -/
lemma Lives.Inv.lock_held {s s' : Lives} (inv : s.Inv) (st : s.next .recover = some s') :
    s'.lock.mtx = .held s.life := by
  obtain ⟨-, rfl⟩ := next_recover.1 st
  cases h : s.mtx with
  | free => simp [Lives.lock, setDirty, isDirty, Mutex.trylock]
  | held p =>
    obtain ⟨rfl, -⟩ := inv.owner p h
    simp [Lives.lock, setDirty, isDirty, Mutex.trylock]
  | orphaned => simp [Lives.lock, setDirty, isDirty, Mutex.trylock]

/-- After an operation while the mutex is free a crash is not detected. -/
lemma Lives.Inv.unguarded {s s' : Lives} (inv : s.Inv) (free : s.mtx = .free)
    (st : s.next .op = some s') : ¬s'.DetectsCrash := by
  simp only [Lives.next] at st
  split_ifs at st with running
  cases st
  have created := inv.created (by simp [running])
  intro detects
  have missed := detects.2
    { s with ops := false, needsGC := true, crashed := true, life := s.life + 1 }
    (by simp [Lives.run, Lives.next, Lives.die, running, created, free])
  have := (missed _ (Lives.next_recover.2 ⟨running, rfl⟩)).1 rfl
  simp [isDirty, Mutex.trylock, free] at this

/-- What is detected where the invariant holds. -/
lemma Lives.Inv.detectsCrash {s : Lives} (inv : s.Inv) : s.DetectsCrash := by
  refine ⟨inv.detects, fun s' e => ?_⟩
  obtain ⟨s₁, crash, e⟩ := Option.bind_eq_some_iff.1 e
  obtain ⟨s₂, start, e⟩ := Option.bind_eq_some_iff.1 e
  cases e
  exact ((inv.next (by simp) crash).next (by simp) start).detects

/-- In particular before the first event. -/
lemma Lives.CrashesDetected.now {s : Lives} {es : List Event} (h : s.CrashesDetected es) :
    s.DetectsCrash := by
  cases es with
  | nil => exact h
  | cons e es => exact h.1

/-- A run from any state where the invariant holds. -/
lemma Lives.Inv.detects_iff {s s' : Lives} {es : List Event} (inv : s.Inv)
    (valid : s.run es = some s') : s.CrashesDetected es ↔ s.OpsGuarded es := by
  induction es generalizing s with
  | nil => exact ⟨fun _ => trivial, fun _ => inv.detectsCrash⟩
  | cons e es ih =>
    obtain ⟨s₁, st, rest⟩ := Option.bind_eq_some_iff.1 valid
    constructor
    · rintro ⟨-, later⟩
      have guarded : e = .op → s.mtx ≠ .free := by
        rintro rfl free
        exact inv.unguarded free st (later s₁ st).now
      refine ⟨guarded, fun s₂ st' => ?_⟩
      cases st.symm.trans st'
      exact (ih (inv.next guarded st) rest).1 (later s₁ st)
    · rintro ⟨guarded, later⟩
      refine ⟨inv.detectsCrash, fun s₂ st' => ?_⟩
      cases st.symm.trans st'
      exact (ih (inv.next guarded st) rest).2 (later s₁ st)

/-- Crashes are detected at every point of the history of a heap exactly when its operations are
done while the mutex is locked, or left behind locked by a process that died. -/
theorem crashesDetected_iff {s : Lives} {es : List Event} (valid : noHeap.run es = some s) :
    noHeap.CrashesDetected es ↔ noHeap.OpsGuarded es :=
  Lives.Inv.noHeap.detects_iff valid

/-- The first process crashes, and the second one calls `RP_recover` before it allocates. -/
theorem crashesDetected_sample : noHeap.CrashesDetected
    [.start, .step, .op, .crash, .start, .recover, .step, .step, .op, .exit] := by
  refine (crashesDetected_iff (s := ⟨.free, true, .off, 2, true, true, false, true⟩) rfl).2 ?_
  simp [Lives.OpsGuarded, Lives.next, noHeap, Lives.lock, Lives.die, setDirty, isDirty,
    Mutex.trylock]

/-- The second process does not call `RP_recover` and crashes. The third one does, and is told that
the heap is clean. -/
theorem crash_missed : ∃ s s', noHeap.run [.start, .step, .op, .exit, .start, .op, .crash, .start] =
    some s ∧ s.needsGC = true ∧ s.next .recover = some s' ∧ s'.ret = false :=
  ⟨_, _, rfl, rfl, rfl, rfl⟩

end Ralloc
