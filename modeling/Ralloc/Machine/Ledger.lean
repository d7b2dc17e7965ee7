import Ralloc.Lib.Placement
import Ralloc.Machine.Geometry

/-!
# The ledger

What the allocator is for, without its data structures: every superblock has one role and every
block one place. A superblock is not yet part of the region, free, in the exclusive hands of one
thread, assigned to a size class, or part of a large block; a block is held by a client, in one
thread's cache, in the hands of one thread, or free in its superblock. The ledger also keeps the
free superblocks, the partial superblocks of a class, and the blocks of every place but the clients'
as ordered lists.

All transitions move a run of superblocks or blocks from the front of one list to the front of
another, so that the conservation part of `Ledger.Ok` is `Placement.Ok.move`. What remains is that a
block in use belongs to an assigned superblock (`home`) and that no block of an assigned superblock
is lost (`placed`).
-/

namespace Ralloc

open Lib

/-- Who is responsible for an assigned superblock: nobody (it is full), its partial list, a thread
that has taken it from there or is about to put it there, or the thread that is setting it up. -/
inductive Owner where
  | full
  | listed
  | thr (t : ℕ)
  | fresh (t : ℕ)
  deriving DecidableEq

/-- The role of a superblock. -/
inductive Role where
  | unborn
  | avail
  | raw (t : ℕ)
  | small (sc : ℕ) (o : Owner)
  | large (p : ℕ)
  deriving DecidableEq

/-- The place of a block. -/
inductive Place where
  | none
  | held
  | freeing (t sc : ℕ)
  | cached (t sc : ℕ)
  | hands (t sc : ℕ)
  | free (d : ℕ)
  deriving DecidableEq

/-- The roles whose superblocks are listed. -/
def Role.Tracked : Role → Prop
  | .unborn => False
  | .small _ .full => False
  | _ => True

/-- The places whose blocks are listed. -/
def Place.Tracked : Place → Prop
  | .none => False
  | .held => False
  | _ => True

/-- The roles and places, and the number `n` of superblocks of the region. -/
structure Ledger where
  n : ℕ
  sbs : Placement ℕ Role
  blks : Placement ℕ Place

namespace Ledger

/-- The role of superblock `d`. -/
def role (L : Ledger) (d : ℕ) : Role := L.sbs.loc d

/-- The place of block `b`. -/
def place (L : Ledger) (b : ℕ) : Place := L.blks.loc b

/-- Block `b` belongs to a superblock of class `sc`. -/
def InClass (cfg : Cfg) (L : Ledger) (b sc : ℕ) : Prop :=
  ∃ d o, L.role d = .small sc o ∧ b ∈ cfg.blocks sc d

/-- Block `b` belongs to the assigned superblock `d`. -/
def InSb (cfg : Cfg) (L : Ledger) (b d : ℕ) : Prop :=
  ∃ sc o, L.role d = .small sc o ∧ b ∈ cfg.blocks sc d

/-- What being at a place says about a block. -/
def HomeAt (cfg : Cfg) (L : Ledger) (b : ℕ) : Place → Prop
  | .none => True
  | .held => (∃ sc, L.InClass cfg b sc) ∨ ∃ d, L.role d = .large b
  | .freeing _ sc => L.InClass cfg b sc
  | .cached _ sc => L.InClass cfg b sc
  | .hands _ sc => L.InClass cfg b sc
  | .free d => L.InSb cfg b d

/-- A ledger in which nothing is lost and nothing is in two hands. -/
structure Ok (cfg : Cfg) (L : Ledger) : Prop where
  sbs : L.sbs.Ok Role.Tracked
  blks : L.blks.Ok Place.Tracked
  inside : cfg.sb L.n ≤ cfg.base + cfg.filesize
  born : ∀ d, L.role d = .unborn ↔ d = 0 ∨ L.n ≤ d
  cls : ∀ {d sc o}, L.role d = .small sc o → SmallClass sc
  placed : ∀ {d sc o}, L.role d = .small sc o → ∀ b ∈ cfg.blocks sc d, L.place b ≠ .none
  home : ∀ b, L.HomeAt cfg b (L.place b)
  largeHeld : ∀ {d p}, L.role d = .large p → L.place p = .held
  largeStart : ∀ {d p}, L.role d = .large p → ∃ e, p = cfg.sb e ∧ L.role e = .large p

variable {cfg : Cfg} {L : Ledger}

/-- A superblock with a role lies inside the mapping. -/
lemma Ok.insideOf (ok : L.Ok cfg) {d r} (h : L.role d = r) (hr : r ≠ .unborn) : cfg.Inside d := by
  have hd : ¬(d = 0 ∨ L.n ≤ d) := fun hc => hr (h.symm.trans ((ok.born d).2 hc))
  have hle : d + 1 ≤ L.n := by omega
  exact le_trans (Cfg.sb_le_sb.2 hle) ok.inside

/-- The superblock of a block is the one `desc_lookup` finds. -/
lemma Ok.sbIndex_of_mem (ok : L.Ok cfg) {d sc o b} (h : L.role d = .small sc o)
    (hb : b ∈ cfg.blocks sc d) : sbIndex cfg.heapStart b = d :=
  Cfg.sbIndex_of_mem (ok.cls h) (ok.insideOf h (by simp)) hb

/-- Two assigned superblocks with a common block are the same. -/
lemma Ok.eq_of_mem (ok : L.Ok cfg) {d e sc sc' o o' b} (h : L.role d = .small sc o)
    (h' : L.role e = .small sc' o') (hb : b ∈ cfg.blocks sc d) (hb' : b ∈ cfg.blocks sc' e) :
    d = e := by
  rw [← ok.sbIndex_of_mem h hb, ← ok.sbIndex_of_mem h' hb']

/-- The blocks at a listed place. -/
lemma Ok.mem_items (ok : L.Ok cfg) {c} (hc : c.Tracked) {b} :
    b ∈ L.blks.items c ↔ L.place b = c := (ok.blks c hc).mem

/-- The superblocks with a listed role. -/
lemma Ok.mem_sbs (ok : L.Ok cfg) {r} (hr : r.Tracked) {d} :
    d ∈ L.sbs.items r ↔ L.role d = r := (ok.sbs r hr).mem

/-- The block at a place that names its class. -/
lemma Ok.inClass (ok : L.Ok cfg) {b c} (h : L.place b = c) :
    L.HomeAt cfg b c := h ▸ ok.home b

/-- A block of a superblock that is neither assigned nor large is nowhere. -/
lemma Ok.place_none (ok : L.Ok cfg) {d sc b} (hsc : SmallClass sc) (hd : cfg.Inside d)
    (hb : b ∈ cfg.blocks sc d) (h1 : ∀ sc o, L.role d ≠ .small sc o)
    (h2 : ∀ p, L.role d ≠ .large p) : L.place b = .none := by
  have hidx := Cfg.sbIndex_of_mem hsc hd hb
  have key : ∀ sc, ¬L.InClass cfg b sc := by
    rintro sc' ⟨e, o, hr, hb'⟩
    rw [ok.sbIndex_of_mem hr hb'] at hidx
    subst hidx
    exact h1 _ _ hr
  have hh := ok.home b
  cases hp : L.place b with
  | none => rfl
  | held =>
    rw [hp] at hh
    rcases hh with ⟨sc', h⟩ | ⟨e, h⟩
    · exact absurd h (key sc')
    · obtain ⟨e', rfl, h'⟩ := ok.largeStart h
      rw [(ok.insideOf h' (by simp)).sbIndex_sb] at hidx
      subst hidx
      exact absurd h' (h2 _)
  | freeing t sc' => rw [hp] at hh; exact absurd hh (key sc')
  | cached t sc' => rw [hp] at hh; exact absurd hh (key sc')
  | hands t sc' => rw [hp] at hh; exact absurd hh (key sc')
  | free e =>
    rw [hp] at hh
    obtain ⟨sc', o, hr, hb'⟩ := hh
    exact absurd ⟨e, o, hr, hb'⟩ (key sc')

/-- Home only depends on which superblocks are assigned and which are large. -/
lemma HomeAt.mono {L' : Ledger} {b c} (h : L.HomeAt cfg b c)
    (hs : ∀ d sc o, L.role d = .small sc o → b ∈ cfg.blocks sc d → ∃ o', L'.role d = .small sc o')
    (hl : ∀ d, L.role d = .large b → ∃ e, L'.role e = .large b) : L'.HomeAt cfg b c := by
  have key : ∀ sc, L.InClass cfg b sc → L'.InClass cfg b sc := by
    rintro sc ⟨d, o, hr, hb⟩
    obtain ⟨o', hr'⟩ := hs d sc o hr hb
    exact ⟨d, o', hr', hb⟩
  cases c with
  | none => trivial
  | held =>
    rcases h with ⟨sc, h⟩ | ⟨d, h⟩
    · exact .inl ⟨sc, key sc h⟩
    · exact .inr (hl d h)
  | freeing t sc => exact key sc h
  | cached t sc => exact key sc h
  | hands t sc => exact key sc h
  | free d =>
    obtain ⟨sc, o, hr, hb⟩ := h
    obtain ⟨o', hr'⟩ := hs d sc o hr hb
    exact ⟨sc, o', hr', hb⟩

/-- Move superblocks. -/
def moveSb (L : Ledger) (run : List ℕ) (r r' : Role) : Ledger :=
  { L with sbs := L.sbs.move run r r' }

/-- Move blocks. -/
def moveBlk (L : Ledger) (run : List ℕ) (c c' : Place) : Ledger :=
  { L with blks := L.blks.move run c c' }

/-- A move of superblocks leaves the end of the region alone. -/
@[simp] lemma moveSb_n (L : Ledger) (run r r') : (L.moveSb run r r').n = L.n := rfl

/-- And the blocks. -/
@[simp] lemma moveSb_blks (L : Ledger) (run r r') : (L.moveSb run r r').blks = L.blks := rfl

/-- A move of blocks leaves the superblocks alone. -/
@[simp] lemma moveBlk_sbs (L : Ledger) (run c c') : (L.moveBlk run c c').sbs = L.sbs := rfl

/-- The superblocks that are moved. -/
lemma moveSb_role_mem {run r r' d} (h : d ∈ run) : (L.moveSb run r r').role d = r' :=
  setAll_mem h

/-- The others. -/
lemma moveSb_role_not_mem {run r r' d} (h : d ∉ run) : (L.moveSb run r r').role d = L.role d :=
  setAll_not_mem h

/-- The blocks that are moved. -/
lemma moveBlk_place_mem {run c c' b} (h : b ∈ run) : (L.moveBlk run c c').place b = c' :=
  setAll_mem h

/-- The others. -/
lemma moveBlk_place_not_mem {run c c' b} (h : b ∉ run) :
    (L.moveBlk run c c').place b = L.place b := setAll_not_mem h

/-- The roles that need no account of blocks. -/
def Plain (r : Role) : Prop := r = .avail ∨ ∃ t, r = .raw t

/-- No class. -/
lemma Plain.not_small {r} (h : Plain r) (sc o) : r ≠ .small sc o := by
  rcases h with rfl | ⟨t, rfl⟩ <;> simp

/-- No large block. -/
lemma Plain.not_large {r} (h : Plain r) (p) : r ≠ .large p := by
  rcases h with rfl | ⟨t, rfl⟩ <;> simp

/-- Below the end of the region. -/
lemma Plain.not_unborn {r} (h : Plain r) : r ≠ .unborn := by
  rcases h with rfl | ⟨t, rfl⟩ <;> simp

/-- Their superblocks are listed. -/
lemma Plain.tracked {r} (h : Plain r) : r.Tracked := by
  rcases h with rfl | ⟨t, rfl⟩ <;> trivial

/-- Superblocks change hands, but the same ones are assigned to the same classes and the same ones
are large. -/
lemma Ok.of_same (ok : L.Ok cfg) {L' : Ledger} (sbs : L'.sbs.Ok Role.Tracked)
    (blks : L'.blks = L.blks) (inside : cfg.sb L'.n ≤ cfg.base + cfg.filesize)
    (born : ∀ d, L'.role d = .unborn ↔ d = 0 ∨ L'.n ≤ d)
    (small : ∀ d sc, (∃ o, L'.role d = .small sc o) ↔ ∃ o, L.role d = .small sc o)
    (large : ∀ d p, L'.role d = .large p ↔ L.role d = .large p) : L'.Ok cfg := by
  have place : L'.place = L.place := congrArg Placement.loc blks
  constructor
  case sbs => exact sbs
  case blks => exact blks ▸ ok.blks
  case inside => exact inside
  case born => exact born
  case cls =>
    intro d sc o h
    obtain ⟨o', h'⟩ := (small d sc).1 ⟨o, h⟩
    exact ok.cls h'
  case placed =>
    intro d sc o h
    obtain ⟨o', h'⟩ := (small d sc).1 ⟨o, h⟩
    rw [place]
    exact ok.placed h'
  case home =>
    intro b
    rw [place]
    refine (ok.home b).mono (fun d sc o h _ => (small d sc).2 ⟨o, h⟩) fun d h => ?_
    exact ⟨d, (large d b).2 h⟩
  case largeHeld =>
    intro d p h
    rw [place]
    exact ok.largeHeld ((large d p).1 h)
  case largeStart =>
    intro d p h
    obtain ⟨e, he, hr⟩ := ok.largeStart ((large d p).1 h)
    exact ⟨e, he, (large e p).2 hr⟩

/-- Superblocks that change hands without being assigned: pops from and pushes to `avail_sb`. -/
lemma Ok.moveSb_plain (ok : L.Ok cfg) {run r r'} (hr : Plain r) (hr' : Plain r') (ne : r ≠ r')
    (nd : run.Nodup) (front : run <+: L.sbs.items r) : (L.moveSb run r r').Ok cfg := by
  have at_r : ∀ d ∈ run, L.role d = r := fun d hd => (ok.mem_sbs hr.tracked).1 (front.subset hd)
  refine ok.of_same (ok.sbs.move ne nd at_r fun _ => front) rfl ok.inside ?_ ?_ ?_
  · intro d
    have h := ok.born d
    by_cases hd : d ∈ run
    · rw [at_r d hd] at h
      rw [moveSb_role_mem hd, moveSb_n, ← h]
      exact ⟨fun e => absurd e hr'.not_unborn, fun e => absurd e hr.not_unborn⟩
    · rw [moveSb_role_not_mem hd]
      exact h
  · intro d sc
    by_cases hd : d ∈ run
    · rw [moveSb_role_mem hd, at_r d hd]
      exact ⟨fun ⟨_, e⟩ => absurd e (hr'.not_small _ _), fun ⟨_, e⟩ => absurd e (hr.not_small _ _)⟩
    · rw [moveSb_role_not_mem hd]
  · intro d p
    by_cases hd : d ∈ run
    · rw [moveSb_role_mem hd, at_r d hd]
      exact ⟨fun e => absurd e (hr'.not_large _), fun e => absurd e (hr.not_large _)⟩
    · rw [moveSb_role_not_mem hd]

/-- An assigned superblock gets another owner. -/
lemma Ok.moveSb_owner (ok : L.Ok cfg) {d sc o o'} (ne : o ≠ o') (h : L.role d = .small sc o)
    (front : o ≠ .full → [d] <+: L.sbs.items (.small sc o)) :
    (L.moveSb [d] (.small sc o) (.small sc o')).Ok cfg := by
  have sbs : (L.sbs.move [d] (.small sc o) (.small sc o')).Ok Role.Tracked := by
    refine ok.sbs.move (by simpa using ne) (by simp) (fun e he => ?_) fun tr => ?_
    · rw [List.mem_singleton.1 he]
      exact h
    · exact front (by rintro rfl; exact tr)
  have role_d : (L.moveSb [d] (.small sc o) (.small sc o')).role d = .small sc o' :=
    moveSb_role_mem (by simp)
  have role : ∀ e, e ≠ d → (L.moveSb [d] (.small sc o) (.small sc o')).role e = L.role e :=
    fun e he => moveSb_role_not_mem (by simpa using he)
  refine ok.of_same sbs rfl ok.inside ?_ ?_ ?_
  · intro e
    have hb := ok.born e
    by_cases hd : e = d
    · subst hd
      rw [h] at hb
      rw [role_d, moveSb_n, ← hb]
      simp
    · rw [role e hd]
      exact hb
  · intro e sc'
    by_cases hd : e = d
    · subst hd
      simp [role_d, h]
    · rw [role e hd]
  · intro e p
    by_cases hd : e = d
    · subst hd
      simp [role_d, h]
    · rw [role e hd]

/-- The region grows by `k` superblocks, which the growing thread owns. -/
lemma Ok.grow (ok : L.Ok cfg) {t k run} (pos : 0 < L.n) (nd : run.Nodup)
    (hrun : ∀ d, d ∈ run ↔ L.n ≤ d ∧ d < L.n + k)
    (room : cfg.sb (L.n + k) ≤ cfg.base + cfg.filesize) :
    Ok cfg ({ L with n := L.n + k }.moveSb run .unborn (.raw t)) := by
  have at_u : ∀ d ∈ run, L.role d = .unborn := fun d hd => (ok.born d).2 (.inr ((hrun d).1 hd).1)
  set L' := ({ L with n := L.n + k }.moveSb run .unborn (.raw t)) with hL'
  have role : ∀ d, d ∉ run → L'.role d = L.role d := fun d hd => moveSb_role_not_mem hd
  have role_run : ∀ d, d ∈ run → L'.role d = .raw t := fun d hd => moveSb_role_mem hd
  refine ok.of_same (ok.sbs.move (by simp) nd at_u fun tr => tr.elim) rfl room ?_ ?_ ?_
  · intro d
    have hb := ok.born d
    by_cases hd : d ∈ run
    · have := (hrun d).1 hd
      simp only [role_run d hd, reduceCtorEq, false_iff, not_or, not_le]
      exact ⟨by omega, this.2⟩
    · rw [role d hd, hb]
      have := mt (hrun d).2 hd
      show d = 0 ∨ L.n ≤ d ↔ d = 0 ∨ L.n + k ≤ d
      omega
  · intro d sc
    by_cases hd : d ∈ run
    · simp [role_run d hd, at_u d hd]
    · rw [role d hd]
  · intro d p
    by_cases hd : d ∈ run
    · simp [role_run d hd, at_u d hd]
    · rw [role d hd]

/-- Blocks of assigned superblocks change their place. -/
lemma Ok.moveBlk (ok : L.Ok cfg) {run c c'} (ne : c ≠ c') (hc' : c' ≠ .none)
    (nd : run.Nodup) (at_c : ∀ b ∈ run, L.place b = c) (front : c.Tracked → run <+: L.blks.items c)
    (home : ∀ b ∈ run, L.HomeAt cfg b c')
    (notLarge : c = .held → ∀ b ∈ run, ∀ d, L.role d ≠ .large b) :
    (L.moveBlk run c c').Ok cfg := by
  constructor
  case sbs => exact ok.sbs
  case blks => exact ok.blks.move ne nd at_c front
  case inside => exact ok.inside
  case born => exact ok.born
  case cls => exact ok.cls
  case placed =>
    intro d sc o h b hb
    by_cases hr : b ∈ run
    · rw [moveBlk_place_mem hr]
      exact hc'
    · rw [moveBlk_place_not_mem hr]
      exact ok.placed h b hb
  case home =>
    intro b
    by_cases hr : b ∈ run
    · rw [moveBlk_place_mem hr]
      exact home b hr
    · rw [moveBlk_place_not_mem hr]
      exact ok.home b
  case largeHeld =>
    intro d p h
    have hp : p ∉ run := by
      intro hp
      have := (at_c p hp).symm.trans (ok.largeHeld h)
      exact notLarge this p hp d h
    rw [moveBlk_place_not_mem hp]
    exact ok.largeHeld h
  case largeStart => exact ok.largeStart

/-- A superblock is assigned to a class; its blocks come into being in the hands of the thread. -/
lemma Ok.assign (ok : L.Ok cfg) {t d sc} (hsc : SmallClass sc) (h : L.sbs.items (.raw t) = [d]) :
    ((L.moveSb [d] (.raw t) (.small sc (.fresh t))).moveBlk
      (cfg.blocks sc d) .none (.hands t sc)).Ok cfg := by
  have hd : L.role d = .raw t := (ok.mem_sbs (r := .raw t) trivial).1 (by simp [h])
  have inside := ok.insideOf hd (by simp)
  have none : ∀ b ∈ cfg.blocks sc d, L.place b = .none := fun b hb =>
    ok.place_none hsc inside hb (by simp [hd]) (by simp [hd])
  set L' := (L.moveSb [d] (.raw t) (.small sc (.fresh t))).moveBlk
    (cfg.blocks sc d) .none (.hands t sc) with hL'
  have role_d : L'.role d = .small sc (.fresh t) := moveSb_role_mem (by simp)
  have role : ∀ e, e ≠ d → L'.role e = L.role e := fun e he =>
    moveSb_role_not_mem (by simpa using he)
  have small : ∀ e sc₁ o, L.role e = .small sc₁ o → L'.role e = .small sc₁ o := by
    intro e sc₁ o he
    rw [role e (by rintro rfl; simp [hd] at he), he]
  have large : ∀ e p, L'.role e = .large p ↔ L.role e = .large p := by
    intro e p
    by_cases hed : e = d
    · subst hed
      simp [role_d, hd]
    · rw [role e hed]
  constructor
  case sbs =>
    refine ok.sbs.move (by simp) (by simp) (fun e he => ?_) fun _ => by simp [h]
    rw [List.mem_singleton.1 he]
    exact hd
  case blks => exact ok.blks.move (by simp) (Cfg.blocks_nodup hsc) none fun tr => tr.elim
  case inside => exact ok.inside
  case born =>
    intro e
    have hb := ok.born e
    by_cases hed : e = d
    · subst hed
      rw [hd] at hb
      rw [role_d, ← show (e = 0 ∨ L.n ≤ e) ↔ (e = 0 ∨ L'.n ≤ e) from Iff.rfl, ← hb]
      simp
    · rw [role e hed]
      exact hb
  case cls =>
    intro e sc₁ o he
    by_cases hed : e = d
    · subst hed
      rw [role_d] at he
      cases he
      exact hsc
    · rw [role e hed] at he
      exact ok.cls he
  case placed =>
    intro e sc₁ o he b hb
    by_cases hr : b ∈ cfg.blocks sc d
    · rw [moveBlk_place_mem hr]
      simp
    · rw [moveBlk_place_not_mem hr]
      have hed : e ≠ d := by
        rintro rfl
        rw [role_d] at he
        cases he
        exact hr hb
      rw [role e hed] at he
      exact ok.placed he b hb
  case home =>
    intro b
    by_cases hr : b ∈ cfg.blocks sc d
    · rw [moveBlk_place_mem hr]
      exact ⟨d, _, role_d, hr⟩
    · rw [moveBlk_place_not_mem hr]
      refine (ok.home b).mono (fun e sc₁ o he _ => ⟨o, small e sc₁ o he⟩) fun e he => ?_
      exact ⟨e, (large e b).2 he⟩
  case largeHeld =>
    intro e p he
    have hh := ok.largeHeld ((large e p).1 he)
    have hp : p ∉ cfg.blocks sc d := fun hp => by simp [none p hp] at hh
    rw [moveBlk_place_not_mem hp]
    exact hh
  case largeStart =>
    intro e p he
    obtain ⟨e', he', hr⟩ := ok.largeStart ((large e p).1 he)
    exact ⟨e', he', (large e' p).2 hr⟩

/-- A duplicate-free list of blocks of one superblock that is as long as the superblock has them
all. -/
lemma mem_of_full {d sc} {l : List ℕ} (nd : l.Nodup) (sub : ∀ b ∈ l, b ∈ cfg.blocks sc d)
    (len : l.length = maxcount sc) {b} (hb : b ∈ cfg.blocks sc d) : b ∈ l :=
  mem_of_nodup_of_length_le nd sub (by rw [Cfg.length_blocks, len]) hb

/-- The free blocks of a superblock are blocks of it. -/
lemma Ok.free_sub (ok : L.Ok cfg) {d sc o} (h : L.role d = .small sc o) {b}
    (hb : b ∈ L.blks.items (.free d)) : b ∈ cfg.blocks sc d := by
  have hp := (ok.mem_items (c := .free d) trivial).1 hb
  obtain ⟨sc', o', hr, hm⟩ := ok.inClass hp
  rw [h] at hr
  cases hr
  exact hm

/-- An assigned superblock all of whose blocks are free is taken apart. -/
lemma Ok.dissolve (ok : L.Ok cfg) {t d sc l} (h : L.sbs.items (.small sc (.thr t)) = d :: l)
    (all : (L.blks.items (.free d)).length = maxcount sc) :
    ((L.moveSb [d] (.small sc (.thr t)) (.raw t)).moveBlk
      (L.blks.items (.free d)) (.free d) .none).Ok cfg := by
  have hd : L.role d = .small sc (.thr t) :=
    (ok.mem_sbs (r := .small sc (.thr t)) trivial).1 (by simp [h])
  have enum := ok.blks (.free d) trivial
  have mem : ∀ b, b ∈ cfg.blocks sc d ↔ b ∈ L.blks.items (.free d) := fun b =>
    ⟨mem_of_full enum.nodup (fun _ => ok.free_sub hd) all, ok.free_sub hd⟩
  set L' := (L.moveSb [d] (.small sc (.thr t)) (.raw t)).moveBlk
    (L.blks.items (.free d)) (.free d) .none with hL'
  have role_d : L'.role d = .raw t := moveSb_role_mem (by simp)
  have role : ∀ e, e ≠ d → L'.role e = L.role e := fun e he =>
    moveSb_role_not_mem (by simpa using he)
  have back : ∀ e sc₁ o, L'.role e = .small sc₁ o → e ≠ d ∧ L.role e = .small sc₁ o := by
    intro e sc₁ o he
    have hed : e ≠ d := by
      rintro rfl
      simp [role_d] at he
    exact ⟨hed, by rw [← role e hed, he]⟩
  have large : ∀ e p, L'.role e = .large p ↔ L.role e = .large p := by
    intro e p
    by_cases hed : e = d
    · subst hed
      simp [role_d, hd]
    · rw [role e hed]
  constructor
  case sbs =>
    refine ok.sbs.move (by simp) (by simp) (fun e he => ?_) fun _ => by simp [h]
    rw [List.mem_singleton.1 he]
    exact hd
  case blks =>
    refine ok.blks.move (by simp) enum.nodup (fun b hb => enum.loc_of_mem hb) fun _ => ?_
    exact List.prefix_refl _
  case inside => exact ok.inside
  case born =>
    intro e
    have hb := ok.born e
    by_cases hed : e = d
    · subst hed
      rw [hd] at hb
      rw [role_d, ← show (e = 0 ∨ L.n ≤ e) ↔ (e = 0 ∨ L'.n ≤ e) from Iff.rfl, ← hb]
      simp
    · rw [role e hed]
      exact hb
  case cls =>
    intro e sc₁ o he
    exact ok.cls (back e sc₁ o he).2
  case placed =>
    intro e sc₁ o he b hb
    obtain ⟨hed, he⟩ := back e sc₁ o he
    have hr : b ∉ L.blks.items (.free d) := by
      rw [← mem b]
      exact fun hb' => hed (ok.eq_of_mem he hd hb hb')
    rw [moveBlk_place_not_mem hr]
    exact ok.placed he b hb
  case home =>
    intro b
    by_cases hr : b ∈ L.blks.items (.free d)
    · rw [moveBlk_place_mem hr]
      trivial
    · rw [moveBlk_place_not_mem hr]
      refine (ok.home b).mono (fun e sc₁ o he hb => ⟨o, ?_⟩) fun e he => ⟨e, (large e b).2 he⟩
      -- a block that is not among the free ones is no block of `d`
      rw [role e, he]
      rintro rfl
      rw [hd] at he
      cases he
      exact hr ((mem b).1 hb)
  case largeHeld =>
    intro e p he
    have hh := ok.largeHeld ((large e p).1 he)
    have hp : p ∉ L.blks.items (.free d) := fun hp => by
      have := enum.loc_of_mem hp
      rw [show L.blks.loc p = L.place p from rfl, hh] at this
      cases this
    rw [moveBlk_place_not_mem hp]
    exact hh
  case largeStart =>
    intro e p he
    obtain ⟨e', he', hr⟩ := ok.largeStart ((large e p).1 he)
    exact ⟨e', he', (large e' p).2 hr⟩

/-- The start of a superblock that is neither assigned nor large is no block in use. -/
lemma Ok.place_sb_none (ok : L.Ok cfg) {d} (hd : cfg.Inside d) (h1 : ∀ sc o, L.role d ≠ .small sc o)
    (h2 : ∀ p, L.role d ≠ .large p) : L.place (cfg.sb d) = .none := by
  have hsc : SmallClass 1 := by decide
  refine ok.place_none hsc hd ?_ h1 h2
  rw [← Cfg.blk_zero cfg 1 d]
  exact Cfg.blk_mem (lt_of_lt_of_le (by decide) hsc.four_le)

/-- Superblocks of a thread become a large block that a client holds. -/
lemma Ok.largeAlloc (ok : L.Ok cfg) {t run e} (h : L.sbs.items (.raw t) = run) (he : e ∈ run) :
    ((L.moveSb run (.raw t) (.large (cfg.sb e))).moveBlk [cfg.sb e] .none .held).Ok cfg := by
  have enum := ok.sbs (.raw t) trivial
  rw [h] at enum
  have at_r : ∀ d ∈ run, L.role d = .raw t := fun d hd => enum.loc_of_mem hd
  have hnone : L.place (cfg.sb e) = .none :=
    ok.place_sb_none (ok.insideOf (at_r e he) (by simp)) (by simp [at_r e he]) (by simp [at_r e he])
  have fresh : ∀ d, L.role d ≠ .large (cfg.sb e) := fun d hd => by
    simp [ok.largeHeld hd] at hnone
  set L' := (L.moveSb run (.raw t) (.large (cfg.sb e))).moveBlk [cfg.sb e] .none .held with hL'
  have role_run : ∀ d ∈ run, L'.role d = .large (cfg.sb e) := fun d hd => moveSb_role_mem hd
  have role : ∀ d, d ∉ run → L'.role d = L.role d := fun d hd => moveSb_role_not_mem hd
  have small : ∀ d sc o, L'.role d = .small sc o ↔ L.role d = .small sc o := by
    intro d sc o
    by_cases hd : d ∈ run
    · simp [role_run d hd, at_r d hd]
    · rw [role d hd]
  constructor
  case sbs =>
    exact ok.sbs.move (by simp) enum.nodup at_r fun _ => h ▸ List.prefix_refl _
  case blks =>
    refine ok.blks.move (by simp) (by simp) (fun b hb => ?_) fun tr => tr.elim
    rw [List.mem_singleton.1 hb]
    exact hnone
  case inside => exact ok.inside
  case born =>
    intro d
    have hb := ok.born d
    by_cases hd : d ∈ run
    · rw [at_r d hd] at hb
      rw [role_run d hd, ← show (d = 0 ∨ L.n ≤ d) ↔ (d = 0 ∨ L'.n ≤ d) from Iff.rfl, ← hb]
      simp
    · rw [role d hd]
      exact hb
  case cls =>
    intro d sc o hd
    exact ok.cls ((small d sc o).1 hd)
  case placed =>
    intro d sc o hd b hb
    by_cases hp : b = cfg.sb e
    · rw [moveBlk_place_mem (by simpa using hp)]
      simp
    · rw [moveBlk_place_not_mem (by simpa using hp)]
      exact ok.placed ((small d sc o).1 hd) b hb
  case home =>
    intro b
    by_cases hp : b = cfg.sb e
    · rw [moveBlk_place_mem (by simpa using hp)]
      subst hp
      exact .inr ⟨e, role_run e he⟩
    · rw [moveBlk_place_not_mem (by simpa using hp)]
      refine (ok.home b).mono (fun d sc o hd _ => ⟨o, (small d sc o).2 hd⟩) fun d hd => ⟨d, ?_⟩
      rw [role d (fun hr => by simp [at_r d hr] at hd), hd]
  case largeHeld =>
    intro d p hd
    by_cases hr : d ∈ run
    · rw [role_run d hr] at hd
      cases hd
      exact moveBlk_place_mem (by simp)
    · rw [role d hr] at hd
      have hp : p ≠ cfg.sb e := by
        rintro rfl
        exact fresh d hd
      rw [moveBlk_place_not_mem (by simpa using hp)]
      exact ok.largeHeld hd
  case largeStart =>
    intro d p hd
    by_cases hr : d ∈ run
    · rw [role_run d hr] at hd
      cases hd
      exact ⟨e, rfl, role_run e he⟩
    · rw [role d hr] at hd
      obtain ⟨e', he', hr'⟩ := ok.largeStart hd
      refine ⟨e', he', ?_⟩
      rw [role e' (fun hm => by simp [at_r e' hm] at hr'), hr']

/-- The superblocks of a large block go back to a thread. -/
lemma Ok.largeFree (ok : L.Ok cfg) {t p d} (h : L.role d = .large p) :
    ((L.moveSb (L.sbs.items (.large p)) (.large p) (.raw t)).moveBlk [p] .held .none).Ok cfg := by
  have enum := ok.sbs (.large p) trivial
  have at_r : ∀ d, d ∈ L.sbs.items (.large p) ↔ L.role d = .large p := fun d => enum.mem
  set L' := (L.moveSb (L.sbs.items (.large p)) (.large p) (.raw t)).moveBlk [p] .held .none with hL'
  have role_run : ∀ d, L.role d = .large p → L'.role d = .raw t := fun d hd =>
    moveSb_role_mem ((at_r d).2 hd)
  have role : ∀ d, L.role d ≠ .large p → L'.role d = L.role d := fun d hd =>
    moveSb_role_not_mem (mt (at_r d).1 hd)
  have small : ∀ d sc o, L'.role d = .small sc o ↔ L.role d = .small sc o := by
    intro d sc o
    by_cases hd : L.role d = .large p
    · simp [role_run d hd, hd]
    · rw [role d hd]
  obtain ⟨e, rfl, he⟩ := ok.largeStart h
  -- the block's own address is no block of an assigned superblock
  have out : ∀ d sc o, L.role d = .small sc o → cfg.sb e ∉ cfg.blocks sc d := by
    intro d sc o hd hb
    have := ok.sbIndex_of_mem hd hb
    rw [(ok.insideOf he (by simp)).sbIndex_sb] at this
    subst this
    rw [he] at hd
    cases hd
  constructor
  case sbs =>
    exact ok.sbs.move (by simp) enum.nodup (fun d hd => (at_r d).1 hd) fun _ => List.prefix_refl _
  case blks =>
    refine ok.blks.move (by simp) (by simp) (fun b hb => ?_) fun tr => tr.elim
    rw [List.mem_singleton.1 hb]
    exact ok.largeHeld h
  case inside => exact ok.inside
  case born =>
    intro d
    have hb := ok.born d
    by_cases hd : L.role d = .large (cfg.sb e)
    · rw [hd] at hb
      rw [role_run d hd, ← show (d = 0 ∨ L.n ≤ d) ↔ (d = 0 ∨ L'.n ≤ d) from Iff.rfl, ← hb]
      simp
    · rw [role d hd]
      exact hb
  case cls =>
    intro d sc o hd
    exact ok.cls ((small d sc o).1 hd)
  case placed =>
    intro d sc o hd b hb
    have hd' := (small d sc o).1 hd
    have hp : b ≠ cfg.sb e := by
      rintro rfl
      exact out d sc o hd' hb
    rw [moveBlk_place_not_mem (by simpa using hp)]
    exact ok.placed hd' b hb
  case home =>
    intro b
    by_cases hp : b = cfg.sb e
    · rw [moveBlk_place_mem (by simpa using hp)]
      trivial
    · rw [moveBlk_place_not_mem (by simpa using hp)]
      refine (ok.home b).mono (fun d sc o hd _ => ⟨o, (small d sc o).2 hd⟩) fun d hd => ⟨d, ?_⟩
      rw [role d (fun hr => hp (by rw [hd] at hr; cases hr; rfl)), hd]
  case largeHeld =>
    intro d q hd
    have hd' : L.role d ≠ .large (cfg.sb e) := fun hr => by simp [role_run d hr] at hd
    rw [role d hd'] at hd
    have hq : q ≠ cfg.sb e := by
      rintro rfl
      exact hd' hd
    rw [moveBlk_place_not_mem (by simpa using hq)]
    exact ok.largeHeld hd
  case largeStart =>
    intro d q hd
    have hd' : L.role d ≠ .large (cfg.sb e) := fun hr => by simp [role_run d hr] at hd
    rw [role d hd'] at hd
    obtain ⟨e', he', hr'⟩ := ok.largeStart hd
    refine ⟨e', he', ?_⟩
    rw [role e', hr']
    rw [hr', ← hd]
    exact hd'

end Ledger

end Ralloc
