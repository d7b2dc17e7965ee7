import Ralloc.Machine.Inv
import Ralloc.Recovery.Rebuilt

/-!
# The machine after a recovery

The heap that a sweep with precise marks leaves is one that the allocator can go on with: the state
`restarted`, in which the clients hold the marked blocks and all threads are idle, has a ledger
(`Rebuilt.inv`). The role of a superblock in this ledger is its `Fate` in the sweep, and a block is
held by the clients or free in its superblock.
-/

namespace Ralloc

open Lib SuperblockState

variable {cfg : Cfg} {h h' : Heap} {N d e k sc b : ℕ} {M : Finset ℕ} {r r' : Role}

/-- The process that opens the recovered heap `h`: the caches are empty, and the clients have the
marked addresses that lie in a superblock in use. -/
def restarted (cfg : Cfg) (M : Finset ℕ) (h : Heap) : State where
  heap := { h with
    cache := fun _ _ => ⟨0, 0⟩
    client := fun b => if b ∈ M ∧ (h.desc (sbIndex cfg.heapStart b)).heap ≠
      none then .held else .none
    req := fun _ => 0
    ret := fun _ => 0 }
  pc _ := .idle

/-- What becomes of superblock `d`. -/
inductive Fate (cfg : Cfg) (h : Heap) (N : ℕ) (M : Finset ℕ) (d : ℕ) : Role → Prop
  | outside (out : d = 0 ∨ N ≤ d) : Fate cfg h N M d .unborn
  | full {sc : ℕ} (hd : 0 < d ∧ d < N) (hu : Used cfg h M d sc)
    (nil : freedBlocks cfg M d sc = []) :
    Fate cfg h N M d (.small sc .full)
  | listed {sc : ℕ} (hd : 0 < d ∧ d < N) (hu : Used cfg h M d sc)
    (ne : freedBlocks cfg M d sc ≠ []) :
    Fate cfg h N M d (.small sc .listed)
  | kept {e k : ℕ} (he : 0 < e ∧ e + k ≤ N) (hk : Kept cfg h M e k) (le : e ≤ d) (lt : d < e + k) :
    Fate cfg h N M d (.large (cfg.sb e))
  | reclaimed (hd : 0 < d ∧ d < N) (hr : Reclaimed cfg h M d) : Fate cfg h N M d .avail

section fate

/-- No superblock of a large block that is kept is reclaimed. -/
lemma Kept.not_reclaimed (hk : Kept cfg h M e k) (pos : 0 < e) (le : e ≤ d) (lt : d < e + k) :
    ¬Reclaimed cfg h M d := by
  intro hr
  rcases Nat.eq_or_lt_of_le le with rfl | lt'
  · exact hr.kept k hk
  · exact hr.covered ⟨e, k, pos, hk, lt', lt⟩

variable (rc : Sweepable cfg h N M)
include rc

/-- Every superblock has a role after the sweep. -/
lemma Sweepable.exists_fate (d : ℕ) : ∃ r, Fate cfg h N M d r := by
  by_cases out : d = 0 ∨ N ≤ d
  · exact ⟨_, .outside out⟩
  have hd : 0 < d ∧ d < N := by omega
  by_cases used : ∃ sc, Used cfg h M d sc
  · obtain ⟨sc, hu⟩ := used
    by_cases nil : freedBlocks cfg M d sc = []
    · exact ⟨_, .full hd hu nil⟩
    · exact ⟨_, .listed hd hu nil⟩
  by_cases kept : ∃ e k, 0 < e ∧ Kept cfg h M e k ∧ e ≤ d ∧ d < e + k
  · obtain ⟨e, k, pos, hk, le, lt⟩ := kept
    exact ⟨_, .kept ⟨pos, rc.fits pos (by omega) hk⟩ hk le lt⟩
  refine ⟨_, .reclaimed hd ⟨fun sc hu => used ⟨sc, hu⟩, fun k hk => ?_, ?_⟩⟩
  · exact kept ⟨d, k, hd.1, hk, le_rfl, by have := hk.large.pos; omega⟩
  · rintro ⟨e, k, pos, hk, lt, lt'⟩
    exact kept ⟨e, k, pos, hk, lt.le, lt'⟩

/-- A superblock of a large block that is kept is its first one or not in use. -/
lemma Sweepable.first_or_none (pos : 0 < e) (hk : Kept cfg h M e k) (le : e ≤ d) (lt : d < e + k)
    (hend : e + k ≤ N) : d = e ∨ (h.desc d).heap = none := by
  rcases Nat.eq_or_lt_of_le le with rfl | lt'
  · exact .inl rfl
  · exact .inr (rc.interior pos (by omega) hk lt' lt)

/-- No superblock of a large block that is kept is a small one. -/
lemma Sweepable.not_used_kept (pos : 0 < e) (hk : Kept cfg h M e k) (le : e ≤ d) (lt : d < e + k)
    (hend : e + k ≤ N) : ¬Used cfg h M d sc := by
  intro hu
  rcases rc.first_or_none pos hk le lt hend with rfl | none
  · exact hu.small.not_large hk.large
  · rw [hu.small.heap] at none
    cases none

/-- The large block of a superblock. -/
lemma Sweepable.kept_unique {e' k' : ℕ} (pos : 0 < e) (hk : Kept cfg h M e k) (hend : e + k ≤ N)
    (le : e ≤ d) (lt : d < e + k) (pos' : 0 < e') (hk' : Kept cfg h M e' k')
    (le' : e' ≤ d) (lt' : d < e' + k') : e = e' := by
  rcases lt_trichotomy e e' with h1 | h1 | h1
  · have none := rc.interior pos (by omega) hk h1 (by omega)
    rw [hk'.large.heap] at none
    cases none
  · exact h1
  · have none := rc.interior pos' (by omega) hk' h1 (by omega)
    rw [hk.large.heap] at none
    cases none

/-- Every superblock has one fate. -/
lemma Fate.unique (f : Fate cfg h N M d r) (f' : Fate cfg h N M d r') : r = r' := by
  cases f with
  | outside out =>
    cases f' with
    | outside => rfl
    | _ => omega
  | @full sc hd hu nil =>
    cases f' with
    | outside => omega
    | full hd' hu' => rw [hu.small.unique hu'.small]
    | listed hd' hu' ne =>
      rw [← hu.small.unique hu'.small] at ne
      exact absurd nil ne
    | kept he hk le lt => exact absurd hu (rc.not_used_kept he.1 hk le lt he.2)
    | reclaimed hd' hr => exact absurd hu (hr.used sc)
  | @listed sc hd hu ne =>
    cases f' with
    | outside => omega
    | full hd' hu' nil =>
      rw [← hu.small.unique hu'.small] at nil
      exact absurd nil ne
    | listed hd' hu' => rw [hu.small.unique hu'.small]
    | kept he hk le lt => exact absurd hu (rc.not_used_kept he.1 hk le lt he.2)
    | reclaimed hd' hr => exact absurd hu (hr.used sc)
  | kept he hk le lt =>
    cases f' with
    | outside => omega
    | full hd' hu' => exact absurd hu' (rc.not_used_kept he.1 hk le lt he.2)
    | listed hd' hu' => exact absurd hu' (rc.not_used_kept he.1 hk le lt he.2)
    | kept he' hk' le' lt' => rw [rc.kept_unique he.1 hk he.2 le lt he'.1 hk' le' lt']
    | reclaimed hd' hr => exact absurd hr (hk.not_reclaimed he.1 le lt)
  | reclaimed hd hr =>
    cases f' with
    | outside => omega
    | full hd' hu' => exact absurd hu' (hr.used _)
    | listed hd' hu' => exact absurd hu' (hr.used _)
    | kept he hk le lt => exact absurd hr (hk.not_reclaimed he.1 le lt)
    | reclaimed => rfl

end fate

/-- Where recovery leaves a block. -/
def placeAfter (cfg : Cfg) (h : Heap) (M : Finset ℕ) (h' : Heap) (b : ℕ) : Place :=
  if b ∈ M ∧ (h'.desc (sbIndex cfg.heapStart b)).heap ≠ none then .held
  else if b ∈ freedIn cfg h M (sbIndex cfg.heapStart b) then .free (sbIndex cfg.heapStart b)
  else .none

/-- The ledger of the recovered heap `h'`, given the roles of the superblocks and the lists. -/
def ledgerAfter (cfg : Cfg) (h : Heap) (N : ℕ) (M : Finset ℕ) (h' : Heap) (role : ℕ → Role)
    (D : List ℕ) (P : ℕ → List ℕ) : Ledger where
  n := N
  sbs :=
    { loc := role
      items := fun
        | .avail => D
        | .small sc .listed => P sc
        | .large p =>
          if role (sbIndex cfg.heapStart p) = .large p then
            List.range' (sbIndex cfg.heapStart p)
              ((h'.desc (sbIndex cfg.heapStart p)).blockSize / SBSIZE)
          else []
        | _ => [] }
  blks :=
    { loc := placeAfter cfg h M h'
      items := fun
        | .free d => (freedIn cfg h M d).reverse
        | _ => [] }

/-- What the ledger of a recovered heap is made from. -/
structure Booked (cfg : Cfg) (h : Heap) (N : ℕ) (M : Finset ℕ) (h' : Heap) (role : ℕ → Role)
    (D : List ℕ) (P : ℕ → List ℕ) : Prop extends Rebuilt cfg h N M h' where
  unborn : ∀ d, d = 0 ∨ N ≤ d → h.desc d = .reset
  interior : ∀ d, Covered cfg h M d → h.desc d = .reset
  role_iff : ∀ {d r}, role d = r ↔ Fate cfg h N M d r
  avail : h'.Lists .avail D ∧ D.Nodup ∧ ∀ e, e ∈ D ↔ (0 < e ∧ e < N) ∧ Reclaimed cfg h M e
  part : ∀ sc, h'.Lists (.part sc) (P sc) ∧ (P sc).Nodup ∧
    ∀ e, e ∈ P sc ↔ (0 < e ∧ e < N) ∧ Used cfg h M e sc ∧ freedBlocks cfg M e sc ≠ []

/-- Every recovered heap has such a ledger. -/
lemma Rebuilt.booked (rb : Rebuilt cfg h N M h') (unborn : ∀ d, d = 0 ∨ N ≤ d → h.desc d = .reset)
    (interior : ∀ d, Covered cfg h M d → h.desc d = .reset) :
    ∃ role D P, Booked cfg h N M h' role D P := by
  choose role fate using rb.sweepable.exists_fate
  obtain ⟨D, avail⟩ := rb.swept.avail
  choose P part using rb.swept.part
  refine ⟨role, D, P, rb, unborn, interior, fun {d r} => ⟨fun e => e ▸ fate d, fun f => ?_⟩,
    avail, part⟩
  exact (fate d).unique rb.sweepable f

namespace Booked

variable {role : ℕ → Role} {D : List ℕ} {P : ℕ → List ℕ} (bk : Booked cfg h N M h' role D P)
include bk

/-- The superblock that is computed for an address. -/
lemma sbIndex (hd : d < N) (hin : InSb cfg d b) : Ralloc.sbIndex cfg.heapStart b = d :=
  (bk.sweepable.insideOf hd).sbIndex hin.1 (by rw [← Cfg.sb_succ]; exact hin.2)

/-- The roles of small superblocks. -/
lemma small_iff : (∃ o, role d = .small sc o) ↔ (0 < d ∧ d < N) ∧ Used cfg h M d sc := by
  constructor
  · rintro ⟨o, e⟩
    cases bk.role_iff.1 e with
    | full hd hu => exact ⟨hd, hu⟩
    | listed hd hu => exact ⟨hd, hu⟩
  · rintro ⟨hd, hu⟩
    by_cases nil : freedBlocks cfg M d sc = []
    · exact ⟨_, bk.role_iff.2 (.full hd hu nil)⟩
    · exact ⟨_, bk.role_iff.2 (.listed hd hu nil)⟩

/-- The blocks that are free in superblock `d`. -/
lemma mem_freedIn : b ∈ freedIn cfg h M d ↔
    ∃ sc, (0 < d ∧ d < N) ∧ Used cfg h M d sc ∧ b ∈ cfg.blocks sc d ∧ b ∉ M := by
  constructor
  · intro hb
    have hd : 0 < d ∧ d < N := by
      by_contra out
      rw [freedIn, bk.unborn d (by omega)] at hb
      cases hb
    by_cases used : ∃ sc, Used cfg h M d sc
    · obtain ⟨sc, hu⟩ := used
      rw [hu.freedIn_eq, bk.precise.mem_freedBlocks hu] at hb
      exact ⟨sc, hd, hu, hb⟩
    · rw [bk.sweepable.freedIn_nil hd.1 hd.2 fun sc hu => used ⟨sc, hu⟩] at hb
      cases hb
  · rintro ⟨sc, hd, hu, hb⟩
    rw [hu.freedIn_eq, bk.precise.mem_freedBlocks hu]
    exact hb

/-- A mark is in a superblock in use exactly if it is the start of a block. -/
lemma heap_ne_none (hb : b ∈ M) :
    (h'.desc (Ralloc.sbIndex cfg.heapStart b)).heap ≠ none ↔ StartsBlock cfg h N b := by
  constructor
  · intro ne
    refine (bk.precise b hb).resolve_right ?_
    rintro ⟨d, hd, hin, none, out⟩
    rw [bk.sbIndex hd.2 hin] at ne
    have hr : Reclaimed cfg h M d := by
      refine ⟨fun sc hu => ?_, fun k hk => ?_, ?_⟩
      · rw [hu.small.heap] at none
        cases none
      · rw [hk.large.heap] at none
        cases none
      · rintro ⟨e, k, pos, hk, lt, lt'⟩
        exact out e k pos hk.large ⟨lt.le, lt'⟩
    rw [(bk.swept.settled d hd.1 hd.2).reclaimed hr] at ne
    exact ne rfl
  · rintro (⟨d, sc, hd, hs, hm⟩ | ⟨d, k, hd, hl, rfl⟩)
    · have hin := inSb_of_mem_blocks hs.cls hm
      have plain := ((bk.swept.settled d hd.1 hd.2).used sc ⟨hs, b, hb, hin⟩).plain
      have heap : (h'.desc d).heap = (h.desc d).heap := congrArg (fun x => x.2.1) plain
      rw [bk.sbIndex hd.2 hin, heap, hs.heap]
      exact Option.some_ne_none _
    · have hin := inSb_sb cfg d
      rw [bk.sbIndex hd.2 hin, (bk.swept.settled d hd.1 hd.2).kept k ⟨hl, _, hb, hin⟩]
      show (h.desc d).heap ≠ none
      rw [hl.heap]
      exact Option.some_ne_none _

/-- The blocks that are held are the marked ones. -/
lemma place_held : placeAfter cfg h M h' b = .held ↔ b ∈ M ∧ StartsBlock cfg h N b := by
  rw [placeAfter]
  split
  case isTrue hb => exact iff_of_true rfl ⟨hb.1, (bk.heap_ne_none hb.1).1 hb.2⟩
  case isFalse hb =>
    refine iff_of_false ?_ fun hs => hb ⟨hs.1, (bk.heap_ne_none hs.1).2 hs.2⟩
    split <;> simp

/-- The free blocks of a superblock are those that the sweep has freed. -/
lemma place_free : placeAfter cfg h M h' b = .free d ↔ b ∈ freedIn cfg h M d := by
  rw [placeAfter]
  split
  case isTrue hb =>
    refine iff_of_false (by simp) fun hf => ?_
    obtain ⟨sc, -, -, -, hn⟩ := bk.mem_freedIn.1 hf
    exact hn hb.1
  case isFalse =>
    split
    case isTrue hf =>
      rw [Place.free.injEq]
      refine ⟨fun e => e ▸ hf, fun hf' => ?_⟩
      obtain ⟨sc, hd, hu, hm, -⟩ := bk.mem_freedIn.1 hf'
      exact bk.sbIndex hd.2 (inSb_of_mem_blocks hu.small.cls hm)
    case isFalse hf =>
      refine iff_of_false (by simp) fun hf' => hf ?_
      obtain ⟨sc, hd, hu, hm, -⟩ := bk.mem_freedIn.1 hf'
      rwa [bk.sbIndex hd.2 (inSb_of_mem_blocks hu.small.cls hm)]

omit bk in
/-- No thread has a block. -/
lemma place_cases (b : ℕ) : placeAfter cfg h M h' b = .held ∨
    (∃ d, placeAfter cfg h M h' b = .free d) ∨ placeAfter cfg h M h' b = .none := by
  rw [placeAfter]
  split
  · exact .inl rfl
  · split
    · exact .inr (.inl ⟨_, rfl⟩)
    · exact .inr (.inr rfl)

/-- The superblocks of a large block that is kept. -/
lemma large_items (hk : Kept cfg h M e k) (he : 0 < e ∧ e + k ≤ N) :
    (ledgerAfter cfg h N M h' role D P).sbs.items (.large (cfg.sb e)) = List.range' e k := by
  have kpos := hk.large.pos
  have idx := bk.sbIndex (show e < N by omega) (inSb_sb cfg e)
  have large : role e = .large (cfg.sb e) := bk.role_iff.2 (.kept he hk le_rfl (by omega))
  have size : (h'.desc e).blockSize = k * SBSIZE := by
    rw [(bk.swept.settled e he.1 (by omega)).kept k hk]
    exact hk.large.size
  show (if role (Ralloc.sbIndex cfg.heapStart (cfg.sb e)) = _ then _ else _) = _
  rw [idx, if_pos large, size, Nat.mul_div_cancel _ (by simp [SBSIZE_eq])]

/-- The lists of superblocks are in order. -/
lemma sbs_ok : (ledgerAfter cfg h N M h' role D P).sbs.Ok Role.Tracked := by
  -- the roles that recovery does not give
  have none : ∀ {r : Role}, (∀ d, ¬Fate cfg h N M d r) →
      (ledgerAfter cfg h N M h' role D P).sbs.items r = [] →
      Enum role r ((ledgerAfter cfg h N M h' role D P).sbs.items r) := by
    intro r no nil
    rw [nil]
    exact ⟨List.nodup_nil, fun d => iff_of_false List.not_mem_nil fun e => no d (bk.role_iff.1 e)⟩
  intro r tracked
  cases r with
  | unborn => exact tracked.elim
  | avail =>
    refine ⟨bk.avail.2.1, fun d => (bk.avail.2.2 d).trans ?_⟩
    refine Iff.trans ⟨fun hr => .reclaimed hr.1 hr.2, fun f => ?_⟩ bk.role_iff.symm
    cases f with
    | reclaimed hd hr => exact ⟨hd, hr⟩
  | raw t => exact none (fun d f => by cases f) rfl
  | small sc o =>
    cases o with
    | full => exact tracked.elim
    | listed =>
      refine ⟨(bk.part sc).2.1, fun d => ((bk.part sc).2.2 d).trans ?_⟩
      refine Iff.trans ⟨fun hu => .listed hu.1 hu.2.1 hu.2.2, fun f => ?_⟩ bk.role_iff.symm
      cases f with
      | listed hd hu ne => exact ⟨hd, hu, ne⟩
    | thr t => exact none (fun d f => by cases f) rfl
    | fresh t => exact none (fun d f => by cases f) rfl
  | large p =>
    by_cases large : role (Ralloc.sbIndex cfg.heapStart p) = .large p
    · cases bk.role_iff.1 large with
      | @kept e k he hk le lt =>
        rw [bk.large_items hk he]
        refine ⟨List.nodup_range', fun d => List.mem_range'_1.trans ?_⟩
        refine Iff.trans ⟨fun hd => .kept he hk hd.1 hd.2, fun f => ?_⟩ bk.role_iff.symm
        generalize ep : cfg.sb e = p at f
        cases f with
        | @kept e' k' he' hk' le' lt' =>
          obtain rfl := Cfg.sb_inj.1 ep
          rw [hk.large.unique hk'.large]
          exact ⟨le', lt'⟩
    · refine none (fun d f => large ?_) (if_neg large)
      cases f with
      | @kept e k he hk le lt =>
        rw [bk.sbIndex (show e < N by omega) (inSb_sb cfg e)]
        exact bk.role_iff.2 (.kept he hk le_rfl (by have := hk.large.pos; omega))

/-- The lists of blocks are in order. -/
lemma blks_ok : (ledgerAfter cfg h N M h' role D P).blks.Ok Place.Tracked := by
  have none : ∀ {c : Place}, c ≠ .held → (∀ d, c ≠ .free d) → c ≠ .none →
      (ledgerAfter cfg h N M h' role D P).blks.items c = [] →
      Enum (placeAfter cfg h M h') c ((ledgerAfter cfg h N M h' role D P).blks.items c) := by
    intro c h1 h2 h3 nil
    rw [nil]
    refine ⟨List.nodup_nil, fun b => iff_of_false List.not_mem_nil fun e => ?_⟩
    rcases (place_cases b : placeAfter cfg h M h' b = .held ∨ _) with e' | ⟨d, e'⟩ | e' <;>
      rw [e'] at e
    · exact h1 e.symm
    · exact h2 d e.symm
    · exact h3 e.symm
  intro c tracked
  cases c with
  | none => exact tracked.elim
  | held => exact tracked.elim
  | free d =>
    refine ⟨List.nodup_reverse.2 ?_, fun b => List.mem_reverse.trans bk.place_free.symm⟩
    by_cases nil : freedIn cfg h M d = []
    · rw [nil]
      exact List.nodup_nil
    · obtain ⟨b, hb⟩ := List.exists_mem_of_ne_nil _ nil
      obtain ⟨sc, -, hu, -⟩ := bk.mem_freedIn.1 hb
      rw [hu.freedIn_eq]
      refine (freedBlocks_spaced cfg M d hu.small.cls).imp fun {a b} hab => ?_
      have := hu.small.cls.eight_le
      omega
  | freeing t sc => exact none (by simp) (by simp) (by simp) rfl
  | cached t sc => exact none (by simp) (by simp) (by simp) rfl
  | hands t sc => exact none (by simp) (by simp) (by simp) rfl

/-- Nothing is lost and nothing is in two hands. -/
lemma ok : (ledgerAfter cfg h N M h' role D P).Ok cfg := by
  have small : ∀ {d sc o}, role d = .small sc o → (0 < d ∧ d < N) ∧ Used cfg h M d sc :=
    fun e => bk.small_iff.1 ⟨_, e⟩
  constructor
  case sbs => exact bk.sbs_ok
  case blks => exact bk.blks_ok
  case inside => exact bk.sweepable.inside
  case born =>
    intro d
    refine bk.role_iff.trans ⟨fun f => ?_, .outside⟩
    cases f with
    | outside out => exact out
  case cls => exact fun e => (small e).2.small.cls
  case placed =>
    intro d sc o e b hb none
    have none : placeAfter cfg h M h' b = .none := none
    obtain ⟨hd, hu⟩ := small e
    by_cases hm : b ∈ M
    · rw [bk.place_held.2 ⟨hm, .inl ⟨d, sc, hd, hu.small, hb⟩⟩] at none
      cases none
    · rw [bk.place_free.2 (bk.mem_freedIn.2 ⟨sc, hd, hu, hb, hm⟩)] at none
      cases none
  case home =>
    intro b
    show Ledger.HomeAt cfg (ledgerAfter cfg h N M h' role D P) b (placeAfter cfg h M h' b)
    rcases (place_cases b : placeAfter cfg h M h' b = .held ∨ _) with e | ⟨d, e⟩ | e <;> rw [e]
    · obtain ⟨hm, ⟨d, sc, hd, hs, hb⟩ | ⟨d, k, hd, hl, rfl⟩⟩ := bk.place_held.1 e
      · obtain ⟨o, e⟩ := bk.small_iff.2 ⟨hd, hs, b, hm, inSb_of_mem_blocks hs.cls hb⟩
        exact .inl ⟨sc, d, o, e, hb⟩
      · have hk : Kept cfg h M d k := ⟨hl, _, hm, inSb_sb cfg d⟩
        have kpos := hl.pos
        exact .inr ⟨d, bk.role_iff.2
          (.kept ⟨hd.1, bk.sweepable.fits hd.1 hd.2 hk⟩ hk le_rfl (by omega))⟩
    · obtain ⟨sc, hd, hu, hb, -⟩ := bk.mem_freedIn.1 (bk.place_free.1 e)
      obtain ⟨o, e⟩ := bk.small_iff.2 ⟨hd, hu⟩
      exact ⟨sc, o, e, hb⟩
    · trivial
  case largeHeld =>
    intro d p large
    cases bk.role_iff.1 large with
    | @kept e k he hk le lt =>
      exact bk.place_held.2 ⟨(bk.precise.marked_large hk.large).1 hk.marked,
        .inr ⟨e, k, ⟨he.1, by omega⟩, hk.large, rfl⟩⟩
  case largeStart =>
    intro d p large
    cases bk.role_iff.1 large with
    | @kept e k he hk le lt =>
      have kpos := hk.large.pos
      exact ⟨e, rfl, bk.role_iff.2 (.kept he hk le_rfl (by omega))⟩

/-- Every descriptor is as its role asks. -/
lemma desc (d : ℕ) : DescRep cfg d (h'.desc d) (role d) := by
  have used : ∀ {sc o}, (0 < d ∧ d < N) → Used cfg h M d sc →
      DescRep cfg d (h'.desc d) (.small sc o) := by
    intro sc o hd hu
    have plain := ((bk.swept.settled d hd.1 hd.2).used sc hu).plain
    simp only [Descriptor.plain, Prod.mk.injEq] at plain
    obtain ⟨h1, h2, h3, h4⟩ := plain
    exact ⟨h2.trans hu.small.heap, h3.trans hu.small.size, h4.trans hu.small.maxcount,
      h1.trans hu.small.superblock⟩
  have fate := bk.role_iff.1 (rfl : role d = role d)
  generalize role d = r at fate
  cases fate with
  | outside out => exact (bk.outside d out).trans (bk.unborn d out)
  | full hd hu => exact used hd hu
  | listed hd hu => exact used hd hu
  | reclaimed hd hr => exact (bk.swept.settled d hd.1 hd.2).reclaimed hr
  | @kept e k he hk le lt =>
    have st := bk.swept.settled d (by omega) (by omega)
    show if cfg.sb e = cfg.sb d then _ else _
    by_cases first : e = d
    · subst first
      rw [if_pos rfl, st.kept k hk]
      exact ⟨hk.large.heap, hk.large.maxcount, hk.large.superblock⟩
    · have cov : Covered cfg h M d := ⟨e, k, he.1, hk, by omega, lt⟩
      rw [if_neg fun e => first (Cfg.sb_inj.1 e), st.covered cov]
      exact bk.interior d cov

/-- Not all blocks of a superblock with a mark are free. -/
lemma length_lt (hu : Used cfg h M d sc) : (freedBlocks cfg M d sc).length < maxcount sc := by
  obtain ⟨m, hm, hin⟩ := hu.marked
  have spaced := freedBlocks_spaced cfg M d hu.small.cls
  have nd : (m :: freedBlocks cfg M d sc).Nodup := by
    refine List.nodup_cons.2 ⟨fun hf => ((bk.precise.mem_freedBlocks hu).1 hf).2 hm, ?_⟩
    refine spaced.imp fun {a b} hab => ?_
    have := hu.small.cls.eight_le
    omega
  have sub : m :: freedBlocks cfg M d sc ⊆ cfg.blocks sc d :=
    List.cons_subset.2 ⟨bk.precise.mem_blocks hu.small (mem_marksIn.2 ⟨hm, hin⟩),
      fun b hb => ((bk.precise.mem_freedBlocks hu).1 hb).1⟩
  have le := (List.subperm_of_subset nd sub).length_le
  rwa [Cfg.length_blocks] at le

/-- The anchors count the blocks that were freed. -/
lemma anchor {o : Owner} (e : role d = .small sc o) :
    AnchorRep cfg sc d (h'.desc d).anchor (freedIn cfg h M d).reverse o := by
  cases bk.role_iff.1 e with
  | full hd hu nil =>
    rw [hu.freedIn_eq, nil]
    exact ⟨((bk.swept.settled d hd.1 hd.2).used sc hu).full nil, rfl⟩
  | listed hd hu ne =>
    obtain ⟨i, last, anchor⟩ := ((bk.swept.settled d hd.1 hd.2).used sc hu).part ne
    rw [hu.freedIn_eq, anchor]
    refine ⟨by rw [List.head?_reverse, last], ?_, .inl ⟨rfl, ?_, ?_⟩⟩
    · obtain ⟨hb, -⟩ := (bk.precise.mem_freedBlocks hu).1 (List.mem_of_getLast? last)
      obtain ⟨j, hj, ej⟩ := Cfg.mem_blocks.1 hb
      rwa [(Cfg.blk_inj hu.small.cls).1 ej] at hj
    · rw [List.length_reverse]
    · rw [List.length_reverse]
      exact bk.length_lt hu

/-- These blocks are linked, the last one first. -/
lemma linked (d : ℕ) : Linked h'.link (freedIn cfg h M d).reverse := by
  by_cases nil : freedIn cfg h M d = []
  · rw [nil]
    exact linked_nil
  · obtain ⟨b, hb⟩ := List.exists_mem_of_ne_nil _ nil
    obtain ⟨sc, hd, hu, -⟩ := bk.mem_freedIn.1 hb
    rw [hu.freedIn_eq]
    exact ((bk.swept.settled d hd.1 hd.2).used sc hu).linked

/-- The recovered heap represents the ledger. -/
lemma rep : Rep cfg (restarted cfg M h').heap (ledgerAfter cfg h N M h' role D P) := by
  constructor
  case curr => exact bk.currAddr.trans bk.sweepable.curr
  case pos => exact bk.sweepable.pos
  case desc => exact bk.desc
  case anchor => exact bk.anchor
  case free => exact bk.linked
  case fresh =>
    intro d sc u fresh
    cases bk.role_iff.1 fresh
  case list =>
    intro l
    cases l with
    | avail => exact bk.avail.1
    | part sc => exact (bk.part sc).1
  case cnt => exact bk.counted
  case cache => exact fun t sc => ⟨rfl, fun ne => absurd rfl ne, linked_nil, Nat.zero_le _⟩
  case client =>
    intro b
    show (if _ then Client.held else Client.none) = (placeAfter cfg h M h' b).client
    rw [placeAfter]
    split
    · rfl
    · split <;> rfl
  case large =>
    intro d large
    generalize ep : cfg.sb d = p at large
    cases bk.role_iff.1 large with
    | @kept e k he hk le lt =>
      obtain rfl := Cfg.sb_inj.1 ep
      refine ⟨k, hk.large.pos, bk.large_items hk he, ?_⟩
      show (h'.desc d).blockSize = _
      rw [(bk.swept.settled d he.1 (by omega)).kept k hk]
      exact hk.large.size

end Booked

/-- After a recovery with precise marks the machine has a ledger again. -/
theorem Rebuilt.inv (rb : Rebuilt cfg h N M h') (unborn : ∀ d, d = 0 ∨ N ≤ d → h.desc d = .reset)
    (interior : ∀ d, Covered cfg h M d → h.desc d = .reset) :
    ∃ L, Inv cfg (restarted cfg M h') L := by
  obtain ⟨role, D, P, bk⟩ := rb.booked unborn interior
  exact ⟨_, bk.ok, bk.rep, fun t =>
    ⟨⟨rfl, fun _ => rfl, fun _ => rfl, fun _ => rfl, fun _ _ => rfl⟩, trivial⟩⟩

end Ralloc
