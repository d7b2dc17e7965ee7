import Mathlib.Logic.Function.Basic
import Mathlib.Order.Lattice
import Mathlib.Order.Nat

/-!
# Persistent memory behind a cache

What a crash can leave of a memory that is written back one cache line at a time. A `Log` has the
states that the memory went through. A flush of a line by a thread remembers the time, a fence of
the thread makes the lines that it has flushed durable up to then. After a crash each location has
the value of some time at or after the time up to which its line is durable (`Log.Image`).

`ℓ.Settled ln Q`: the memory has had the property `Q` ever since the line `ln` was durable, so that
what is left of the line has it too (`Image.sat`). A property of the line gets settled by a flush
and a fence (`since_flush`, `Since.fence`) and stays settled as long as the writes keep it
(`Since.write`). `ℓ.Stale ln Q`: no flush of the line has come after a time at which the memory had
the property `Q`.
-/

namespace Lib

/-- The states that a memory went through, and how far its lines are written back. -/
structure Log (σ Line : Type*) where
  /-- the state at each time up to `now` -/
  hist : ℕ → σ
  now : ℕ
  /-- the time up to which a line is durable -/
  durable : Line → ℕ
  /-- when a thread has flushed a line last -/
  flushed : ℕ → Line → ℕ
  durable_le : ∀ ln, durable ln ≤ now
  flushed_le : ∀ t ln, flushed t ln ≤ now

namespace Log

variable {σ Line : Type*}

/-- The memory as the threads see it. -/
def cur (ℓ : Log σ Line) : σ := ℓ.hist ℓ.now

/-- A memory that is all durable. -/
def start (v : σ) : Log σ Line :=
    ⟨fun _ => v, 0, fun _ => 0, fun _ _ => 0, fun _ => le_rfl, fun _ _ => le_rfl⟩

/-- The memory changes. -/
def write (ℓ : Log σ Line) (v : σ) : Log σ Line where
  hist := Function.update ℓ.hist (ℓ.now + 1) v
  now := ℓ.now + 1
  durable := ℓ.durable
  flushed := ℓ.flushed
  durable_le ln := (ℓ.durable_le ln).trans (Nat.le_succ _)
  flushed_le t ln := (ℓ.flushed_le t ln).trans (Nat.le_succ _)

/-- Thread `t` flushes a line. -/
def flush [DecidableEq Line] (ℓ : Log σ Line) (t : ℕ) (ln : Line) : Log σ Line where
  hist := ℓ.hist
  now := ℓ.now
  durable := ℓ.durable
  flushed u l := if u = t ∧ l = ln then ℓ.now else ℓ.flushed u l
  durable_le := ℓ.durable_le
  flushed_le u l := by
    split
    · exact le_rfl
    · exact ℓ.flushed_le u l

/-- Thread `t` waits until what it has flushed is durable. -/
def fence (ℓ : Log σ Line) (t : ℕ) : Log σ Line where
  hist := ℓ.hist
  now := ℓ.now
  durable ln := max (ℓ.durable ln) (ℓ.flushed t ln)
  flushed := ℓ.flushed
  durable_le ln := max_le (ℓ.durable_le ln) (ℓ.flushed_le t ln)
  flushed_le := ℓ.flushed_le

/-- The memory has had the property `Q` since time `n`. -/
def Since (ℓ : Log σ Line) (n : ℕ) (Q : σ → Prop) : Prop := ∀ k, n ≤ k → k ≤ ℓ.now → Q (ℓ.hist k)

/-- The memory has had the property `Q` since the time up to which the line is durable. -/
def Settled (ℓ : Log σ Line) (ln : Line) (Q : σ → Prop) : Prop := ℓ.Since (ℓ.durable ln) Q

/-- The memory had the property `Q` at a time after which nobody has flushed the line. -/
def Stale (ℓ : Log σ Line) (ln : Line) (Q : σ → Prop) : Prop :=
  ∃ n, n ≤ ℓ.now ∧ ℓ.durable ln ≤ n ∧ (∀ t, ℓ.flushed t ln ≤ n) ∧ Q (ℓ.hist n)

variable {ℓ : Log σ Line} {n : ℕ} {t : ℕ} {ln ln' : Line} {Q Q' : σ → Prop} {v : σ}

/-- The threads see the new state. -/
@[simp] lemma cur_write : (ℓ.write v).cur = v := Function.update_self ..

/-- The past stays as it is. -/
lemma hist_write (le : n ≤ ℓ.now) : (ℓ.write v).hist n = ℓ.hist n :=
  Function.update_of_ne (by omega) ..

section since

/-- A property of the memory that the threads see. -/
lemma since_now (h : Q ℓ.cur) : ℓ.Since ℓ.now Q := by
  intro k h1 h2
  obtain rfl := le_antisymm h2 h1
  exact h

/-- What has held since a time holds now. -/
lemma Since.cur (h : ℓ.Since n Q) (le : n ≤ ℓ.now) : Q ℓ.cur := h _ le le_rfl

/-- A weaker property. -/
lemma Since.imp (h : ℓ.Since n Q) (imp : ∀ v, Q v → Q' v) : ℓ.Since n Q' :=
  fun k h1 h2 => imp _ (h k h1 h2)

/-- A later time. -/
lemma Since.mono (h : ℓ.Since n Q) {n' : ℕ} (le : n ≤ n') : ℓ.Since n' Q :=
  fun k h1 h2 => h k (le.trans h1) h2

/-- A write that keeps the property. -/
lemma Since.write (h : ℓ.Since n Q) (hv : Q v) : (ℓ.write v).Since n Q := by
  intro k h1 h2
  by_cases e : k = ℓ.now + 1
  · subst e
    show Q (ℓ.write v).cur
    rwa [cur_write]
  · have : k ≤ ℓ.now + 1 := h2
    rw [hist_write (by omega)]
    exact h k h1 (by omega)

end since

section settled

/-- What is settled holds now. -/
lemma Settled.cur (h : ℓ.Settled ln Q) : Q ℓ.cur := Since.cur h (ℓ.durable_le ln)

/-- A weaker property is settled too. -/
lemma Settled.imp (h : ℓ.Settled ln Q) (imp : ∀ v, Q v → Q' v) : ℓ.Settled ln Q' :=
  Since.imp h imp

/-- A write that keeps the property keeps it settled. -/
lemma Settled.write (h : ℓ.Settled ln Q) (hv : Q v) : (ℓ.write v).Settled ln Q := Since.write h hv

/-- A fence makes more durable, not less. -/
lemma Settled.fence (h : ℓ.Settled ln Q) (t : ℕ) : (ℓ.fence t).Settled ln Q :=
  Since.mono h (le_max_left ..)

/-- A fence settles what has held since the thread has flushed the line. -/
lemma Since.fence (h : ℓ.Since (ℓ.flushed t ln) Q) : (ℓ.fence t).Settled ln Q :=
  Since.mono h (le_max_right ..)

variable [DecidableEq Line]

/-- A flush remembers the time. -/
lemma flushed_flush_self : (ℓ.flush t ln).flushed t ln = ℓ.now := if_pos ⟨rfl, rfl⟩

/-- What holds when a line is flushed has held since. -/
lemma since_flush (h : Q ℓ.cur) : (ℓ.flush t ln).Since ((ℓ.flush t ln).flushed t ln) Q := by
  rw [flushed_flush_self]
  exact since_now h

/-- The line is durable after a write, a flush of the line and a fence. -/
lemma settled_persist_self : (((ℓ.write v).flush t ln).fence t).Settled ln Q ↔ Q v := by
  refine ⟨fun h => ?_, fun h => Since.fence (since_flush (by rwa [cur_write]))⟩
  have : Q (ℓ.write v).cur := h.cur
  rwa [cur_write] at this

/-- Every other line is as durable as without the flush. -/
lemma settled_persist_ne (ne : ln' ≠ ln) :
    (((ℓ.write v).flush t ln).fence t).Settled ln' Q ↔ (ℓ.fence t).Settled ln' Q ∧ Q v := by
  have flushed : ((ℓ.write v).flush t ln).flushed t ln' = ℓ.flushed t ln' := if_neg fun e => ne e.2
  have durable : (((ℓ.write v).flush t ln).fence t).durable ln' = (ℓ.fence t).durable ln' := by
    show max _ (((ℓ.write v).flush t ln).flushed t ln') = _
    rw [flushed]
    rfl
  have before : (ℓ.fence t).durable ln' ≤ ℓ.now := (ℓ.fence t).durable_le ln'
  rw [Settled, durable]
  constructor
  · intro h
    refine ⟨fun k h1 h2 => ?_, ?_⟩
    · have h2 : k ≤ ℓ.now := h2
      have : Q ((ℓ.write v).hist k) := h k h1 (h2.trans (Nat.le_succ _))
      rwa [hist_write h2] at this
    · have : Q (ℓ.write v).cur := h (ℓ.now + 1) (before.trans (Nat.le_succ _)) le_rfl
      rwa [cur_write] at this
  · rintro ⟨h, hv⟩
    exact Since.write (ℓ := ℓ) h hv

end settled

section persistAll

variable [DecidableEq Line]

/-- Thread `t` flushes some lines and fences. -/
def persistAll (t : ℕ) (lns : List Line) (ℓ : Log σ Line) : Log σ Line :=
  (lns.foldl (·.flush t ·) ℓ).fence t

/-- Flushes change nothing but the times of these lines. -/
lemma flushAll_spec (t : ℕ) (lns : List Line) (ℓ : Log σ Line) :
    (lns.foldl (·.flush t ·) ℓ).hist = ℓ.hist ∧ (lns.foldl (·.flush t ·) ℓ).now = ℓ.now ∧
      (lns.foldl (·.flush t ·) ℓ).durable = ℓ.durable ∧
      ∀ ln, (lns.foldl (·.flush t ·) ℓ).flushed t ln =
        if ln ∈ lns then ℓ.now else ℓ.flushed t ln := by
  induction lns generalizing ℓ with
  | nil => exact ⟨rfl, rfl, rfl, fun ln => by simp⟩
  | cons ln' lns ih =>
    obtain ⟨h1, h2, h3, h4⟩ := ih (ℓ.flush t ln')
    refine ⟨h1, h2, h3, fun ln => (h4 ln).trans ?_⟩
    show (if ln ∈ lns then ℓ.now else if t = t ∧ ln = ln' then ℓ.now else ℓ.flushed t ln) = _
    by_cases e : ln = ln' <;> simp [e]

/-- Flushes and the fence change nothing that can be read. -/
lemma cur_persistAll (t : ℕ) (lns : List Line) (ℓ : Log σ Line) :
    (persistAll t lns ℓ).cur = ℓ.cur := by
  obtain ⟨h1, h2, -⟩ := flushAll_spec t lns ℓ
  show (lns.foldl (·.flush t ·) ℓ).hist (lns.foldl (·.flush t ·) ℓ).now = ℓ.hist ℓ.now
  rw [h1, h2]

/-- The lines are durable, the others as durable as without the flushes. -/
lemma settled_persistAll (t : ℕ) (lns : List Line) (ℓ : Log σ Line) :
    (persistAll t lns ℓ).Settled ln Q ↔ if ln ∈ lns then Q ℓ.cur else (ℓ.fence t).Settled ln Q := by
  obtain ⟨h1, h2, h3, h4⟩ := flushAll_spec t lns ℓ
  have durable : (persistAll t lns ℓ).durable ln =
      max (ℓ.durable ln) (if ln ∈ lns then ℓ.now else ℓ.flushed t ln) := by
    show max ((lns.foldl (·.flush t ·) ℓ).durable ln) _ = _
    rw [h3, h4]
  have since : ∀ n, (persistAll t lns ℓ).Since n Q ↔ ℓ.Since n Q := by
    intro n
    show (∀ k, n ≤ k → k ≤ (lns.foldl (·.flush t ·) ℓ).now →
      Q ((lns.foldl (·.flush t ·) ℓ).hist k)) ↔ _
    rw [h1, h2]
    rfl
  rw [Settled, since, durable]
  split
  · rw [max_eq_right (ℓ.durable_le ln)]
    exact ⟨fun h => h.cur le_rfl, since_now⟩
  · rfl

/-- Another fence has nothing to do. -/
lemma settled_fence_persistAll (t : ℕ) (lns : List Line) (ℓ : Log σ Line) :
    ((persistAll t lns ℓ).fence t).Settled ln Q ↔ (persistAll t lns ℓ).Settled ln Q := by
  have durable : ((persistAll t lns ℓ).fence t).durable ln = (persistAll t lns ℓ).durable ln :=
    max_eq_left (le_max_right ..)
  rw [Settled, durable]
  rfl

end persistAll

section stale

/-- Every property of the present is stale, until the line is flushed. -/
lemma stale_now (h : Q ℓ.cur) : ℓ.Stale ln Q :=
  ⟨ℓ.now, le_rfl, ℓ.durable_le ln, fun t => ℓ.flushed_le t ln, h⟩

/-- A write flushes nothing. -/
lemma Stale.write (h : ℓ.Stale ln Q) (v : σ) : (ℓ.write v).Stale ln Q := by
  obtain ⟨n, le, durable, flushed, hn⟩ := h
  exact ⟨n, le.trans (Nat.le_succ _), durable, flushed, by rwa [hist_write le]⟩

/-- A fence makes durable only what was flushed. -/
lemma Stale.fence (h : ℓ.Stale ln Q) (t : ℕ) : (ℓ.fence t).Stale ln Q := by
  obtain ⟨n, le, durable, flushed, hn⟩ := h
  exact ⟨n, le, max_le durable (flushed t), flushed, hn⟩

/-- A flush of another line. -/
lemma Stale.flush [DecidableEq Line] (h : ℓ.Stale ln Q) (t : ℕ) (ne : ln ≠ ln') :
    (ℓ.flush t ln').Stale ln Q := by
  obtain ⟨n, le, durable, flushed, hn⟩ := h
  refine ⟨n, le, durable, fun u => ?_, hn⟩
  show (if u = t ∧ ln = ln' then _ else _) ≤ n
  rw [if_neg (fun e => ne e.2)]
  exact flushed u

end stale

section image

variable {Loc : Type*} {Val : Loc → Type*}

/-- What a crash can leave: each location has the value of some time since its line was durable. -/
def Image (line : Loc → Line) (read : σ → (l : Loc) → Val l) (ℓ : Log σ Line) (m : σ) : Prop :=
  ∀ l, ∃ n, ℓ.durable (line l) ≤ n ∧ n ≤ ℓ.now ∧ read (ℓ.hist n) l = read m l

variable {line : Loc → Line} {read : σ → (l : Loc) → Val l} {m m' : σ} {l : Loc}

/-- Perhaps everything is durable. -/
lemma image_cur : Image line read ℓ ℓ.cur := fun _ => ⟨ℓ.now, ℓ.durable_le _, le_rfl, rfl⟩

/-- What is settled for a location holds of what is left of it. -/
lemma Image.sat (im : Image line read ℓ m) {P : Val l → Prop}
    (h : ℓ.Settled (line l) fun v => P (read v l)) : P (read m l) := by
  obtain ⟨n, h1, h2, e⟩ := im l
  exact e ▸ h n h1 h2

/-- The value that is left can be any one since the line was durable. -/
lemma Image.update (im : Image line read ℓ m) (others : ∀ l', l' ≠ l → read m' l' = read m l')
    (h : ∃ n, ℓ.durable (line l) ≤ n ∧ n ≤ ℓ.now ∧ read (ℓ.hist n) l = read m' l) :
    Image line read ℓ m' := by
  intro l'
  by_cases e : l' = l
  · exact e ▸ h
  · rw [others l' e]
    exact im l'

/-- A value is sure to be left exactly if the location has had it since the line was durable,
provided that every value can be put into an image. -/
lemma settled_iff {x : Val l} (any : ∀ n, ∃ m', read m' l = read (ℓ.hist n) l ∧
      ∀ l', l' ≠ l → read m' l' = read ℓ.cur l') :
    (∀ m, Image line read ℓ m → read m l = x) ↔ ℓ.Settled (line l) fun v => read v l = x := by
  refine ⟨fun all n h1 h2 => ?_, fun h m im => im.sat (P := (· = x)) h⟩
  obtain ⟨m', e, others⟩ := any n
  rw [← all m' (image_cur.update others ⟨n, h1, h2, e.symm⟩), e]

end image

end Log

end Lib
