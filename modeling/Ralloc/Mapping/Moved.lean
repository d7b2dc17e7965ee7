import Ralloc.Mapping.Position
import Ralloc.Recovery.Interrupted

/-!
# The same heap somewhere else

A process may find the superblock file at another address than the process before. `Heap.moved` is
the heap that it finds: `curr_addr` and the `CrossPtr`s to superblocks are read relative to the new
heap start, and the bytes of the file are where the new mapping puts them. `Holds.moved` says so for
the files themselves.

The allocator can go on there: the moved heap has a ledger (`Inv.moved`), and what a crash leaves
can be rebuilt there (`Rebuildable.moved`). The links inside blocks are where this could fail,
because nothing rewrites them; they are `pptr`s, which keep their meaning when both ends move
together.
-/

namespace Ralloc

open Lib SuperblockState

/-- The same file in two mappings, both with their superblocks aligned. -/
structure SameFile (cfg cfg' : Cfg) : Prop where
  filesize : cfg'.filesize = cfg.filesize
  start : cfg'.heapStart - cfg'.base = cfg.heapStart - cfg.base

/-- Where the byte at `a` is when the file is mapped as in `cfg'`. -/
def Cfg.move (cfg cfg' : Cfg) (a : ℕ) : ℕ := cfg'.heapStart + (a - cfg.heapStart)

/-- A `CrossPtr` is an offset from the heap start. -/
def Descriptor.moved (cfg cfg' : Cfg) (D : Descriptor) : Descriptor :=
  { D with superblock := D.superblock.map (cfg.move cfg') }

/-- The heap `h` of `cfg` when the file is mapped as in `cfg'`. Below the heap start there is
nothing of it. -/
def Heap.moved (cfg cfg' : Cfg) (h : Heap) : Heap :=
  { h with
    currAddr := cfg.move cfg' h.currAddr
    desc := fun d => (h.desc d).moved cfg cfg'
    mem := fun a => h.mem (cfg'.move cfg a)
    client := fun b => h.client (cfg'.move cfg b) }

/-- The same for the role of a superblock. -/
def Role.moved (cfg cfg' : Cfg) : Role → Role
  | .large p => .large (cfg.move cfg' p)
  | r => r

/-- The same for the ledger. -/
def Ledger.moved (cfg cfg' : Cfg) (L : Ledger) : Ledger where
  n := L.n
  sbs := ⟨fun d => (L.role d).moved cfg cfg', fun r => L.sbs.items (r.moved cfg' cfg)⟩
  blks := ⟨fun b => L.place (cfg'.move cfg b), fun c => (L.blks.items c).map (cfg.move cfg')⟩

variable {cfg cfg' : Cfg} {h : Heap} {L : Ledger} {s : State} {a b c d k sc N : ℕ} {M : Finset ℕ}

section address

/-- A file stays where it is. -/
lemma SameFile.refl (cfg : Cfg) : SameFile cfg cfg := ⟨rfl, rfl⟩

/-- Moved twice. -/
lemma SameFile.trans {cfg'' : Cfg} (same : SameFile cfg cfg') (same' : SameFile cfg' cfg'') :
    SameFile cfg cfg'' :=
  ⟨same'.filesize.trans same.filesize, same'.start.trans same.start⟩

/-- The same superblocks fit. -/
lemma SameFile.inside (same : SameFile cfg cfg') {n : ℕ} (le : cfg.sb n ≤ cfg.base + cfg.filesize) :
    cfg'.sb n ≤ cfg'.base + cfg'.filesize := by
  have h1 := same.start
  have h2 := same.filesize
  have h3 := cfg.header
  have h4 := cfg'.header
  rw [Cfg.sb] at le ⊢
  omega

/-- Superblocks move to superblocks. -/
lemma Cfg.move_sb (cfg cfg' : Cfg) (d : ℕ) : cfg.move cfg' (cfg.sb d) = cfg'.sb d := by
  rw [move, sb, sb, Nat.add_sub_cancel_left]

/-- Blocks move to blocks of the same class and index. -/
lemma Cfg.move_blk (cfg cfg' : Cfg) (sc d i : ℕ) :
    cfg.move cfg' (cfg.blk sc d i) = cfg'.blk sc d i := by
  rw [move, blk, blk, sb, sb]
  omega

/-- What has moved lies in the new heap. -/
lemma Cfg.le_move (cfg cfg' : Cfg) (a : ℕ) : cfg'.heapStart ≤ cfg.move cfg' a := Nat.le_add_right ..

/-- There and back. -/
lemma Cfg.move_move (le : cfg.heapStart ≤ a) : cfg'.move cfg (cfg.move cfg' a) = a := by
  rw [move, move, Nat.add_sub_cancel_left]
  omega

/-- Distances are kept. -/
lemma Cfg.move_add (le : cfg.heapStart ≤ a) (i : ℕ) :
    cfg.move cfg' (a + i) = cfg.move cfg' a + i := by
  rw [move, move]
  omega

/-- Addresses of the heap stay apart. -/
lemma Cfg.move_inj (ha : cfg.heapStart ≤ a) (hb : cfg.heapStart ≤ b) :
    cfg.move cfg' a = cfg.move cfg' b ↔ a = b := by
  rw [move, move]
  omega

/-- All blocks of a superblock move with it. -/
lemma Cfg.blocks_move (cfg cfg' : Cfg) (sc d : ℕ) :
    cfg'.blocks sc d = (cfg.blocks sc d).map (cfg.move cfg') := by
  rw [blocks, blocks, List.map_map]
  exact List.map_congr_left fun i _ => (cfg.move_blk cfg' sc d i).symm

/-- A block of the moved superblock was one before. -/
lemma Cfg.mem_blocks_back (hb : b ∈ cfg'.blocks sc d) : cfg'.move cfg b ∈ cfg.blocks sc d := by
  rw [cfg'.blocks_move cfg]
  exact List.mem_map_of_mem hb

end address

/-- A link that lies in the region with what it points to. -/
lemma link_moved (lo : cfg.heapStart ≤ b) (hb : b < ADDR) (e : h.link b = c)
    (hc : cfg.heapStart ≤ c) (hc' : c < ADDR) (lt : cfg.move cfg' c < ADDR) :
    (h.moved cfg cfg').link (cfg.move cfg' b) = cfg.move cfg' c := by
  have hh := cfg.header
  have pos : 0 < PAGESIZE := by decide
  have bytes : load (h.moved cfg cfg').mem (cfg.move cfg' b) 8 = load h.mem b 8 := by
    refine load_shift fun i _ => ?_
    show h.mem (cfg'.move cfg (cfg.move cfg' b + i)) = _
    rw [← Cfg.move_add lo, Cfg.move_move (by omega)]
  rw [Heap.link, bytes]
  refine fromPptrOff_move e (by omega) (lt_of_lt_of_eq (load_lt ..) (by decide)) hb hc' ?_ ?_
  · rw [Cfg.move, Cfg.move]
    omega
  · unfold ADDR at lt
    unfold WORD
    omega

section ledger

variable (ok : L.Ok cfg)
include ok

/-- What is somewhere lies in a superblock but the skipped one. -/
lemma Ledger.Ok.sb_of_place (hb : L.place b ≠ .none) : ∃ d, 0 < d ∧ d < L.n ∧ cfg.sb d ≤ b ∧
    b < cfg.sb (d + 1) := by
  have born : ∀ {d r}, L.role d = r → r ≠ .unborn → 0 < d ∧ d < L.n := by
    intro d r hr ne
    have := mt (ok.born d).2 (by rwa [hr])
    omega
  have small : ∀ {d sc o}, L.role d = .small sc o → b ∈ cfg.blocks sc d →
      ∃ d, 0 < d ∧ d < L.n ∧ cfg.sb d ≤ b ∧ b < cfg.sb (d + 1) := by
    intro d sc o hr hm
    obtain ⟨i, hi, rfl⟩ := Cfg.mem_blocks.1 hm
    have h1 := Cfg.blk_bounds cfg d (ok.cls hr) hi
    have h2 := (ok.cls hr).eight_le
    obtain ⟨h3, h4⟩ := born hr (by simp)
    exact ⟨d, h3, h4, h1.1, by rw [Cfg.sb_succ]; omega⟩
  have home := ok.home b
  cases hp : L.place b with
  | none => exact absurd hp hb
  | held =>
    rw [hp] at home
    rcases home with ⟨sc, d, o, hr, hm⟩ | ⟨d, hr⟩
    · exact small hr hm
    · obtain ⟨e, rfl, he⟩ := ok.largeStart hr
      obtain ⟨h3, h4⟩ := born he (by simp)
      exact ⟨e, h3, h4, le_rfl, by rw [Cfg.sb_succ, SBSIZE_eq]; omega⟩
  | freeing t sc =>
    rw [hp] at home
    obtain ⟨d, o, hr, hm⟩ := home
    exact small hr hm
  | cached t sc =>
    rw [hp] at home
    obtain ⟨d, o, hr, hm⟩ := home
    exact small hr hm
  | hands t sc =>
    rw [hp] at home
    obtain ⟨d, o, hr, hm⟩ := home
    exact small hr hm
  | free d =>
    rw [hp] at home
    obtain ⟨sc, o, hr, hm⟩ := home
    exact small hr hm

/-- What the ledger knows lies in the heap. -/
lemma Ledger.Ok.start_le (hb : L.place b ≠ .none) : cfg.heapStart ≤ b := by
  obtain ⟨d, -, -, le, -⟩ := ok.sb_of_place hb
  rw [Cfg.sb] at le
  omega

/-- Nothing is below the heap start or in the skipped superblock. -/
lemma Ledger.Ok.place_back (hb : L.place (cfg'.move cfg b) ≠ .none) : cfg'.heapStart ≤ b := by
  obtain ⟨d, pos, -, le, -⟩ := ok.sb_of_place hb
  rw [Cfg.sb, Cfg.move, SBSIZE_eq] at le
  omega

/-- A large block starts behind the skipped superblock. -/
lemma Ledger.Ok.large_start {p : ℕ} (hr : L.role d = .large p) : cfg.heapStart + SBSIZE ≤ p := by
  obtain ⟨e, rfl, he⟩ := ok.largeStart hr
  have := mt (ok.born e).2 (by simp [he])
  rw [Cfg.sb, SBSIZE_eq]
  omega

/-- The role of a superblock, read in both mappings. -/
lemma Ledger.Ok.role_moved_iff {r : Role} :
    (L.role d).moved cfg cfg' = r ↔ L.role d = r.moved cfg' cfg := by
  cases hd : L.role d with
  | large p =>
    have lo := ok.large_start hd
    constructor
    · rintro rfl
      exact congrArg Role.large (Cfg.move_move (by omega)).symm
    · intro e
      cases r with
      | large q =>
        have e : p = cfg'.move cfg q := Role.large.inj e
        have le : cfg'.heapStart ≤ q := by
          rw [e, Cfg.move, SBSIZE_eq] at lo
          omega
        rw [e]
        exact congrArg Role.large (Cfg.move_move le)
      | _ => cases e
  | _ => cases r <;> simp [Role.moved]

/-- A superblock that is assigned. -/
lemma Ledger.Ok.role_moved_small {o : Owner} :
    (L.moved cfg cfg').role d = .small sc o ↔ L.role d = .small sc o := ok.role_moved_iff

/-- The first superblock of a large block. -/
lemma Ledger.Ok.role_moved_large {e : ℕ} :
    (L.moved cfg cfg').role d = .large (cfg'.sb e) ↔ L.role d = .large (cfg.sb e) := by
  rw [← cfg'.move_sb cfg e]
  exact ok.role_moved_iff

/-- A block of an assigned superblock has its place. -/
lemma Ledger.Ok.placed_moved {o : Owner} (hr : L.role d = .small sc o)
    (hb : b ∈ cfg'.blocks sc d) : L.place (cfg'.move cfg b) ≠ .none :=
  ok.placed hr _ (Cfg.mem_blocks_back hb)

/-- Where a block belongs. -/
lemma Ledger.Ok.homeAt_moved (le : cfg.heapStart ≤ b) {c : Place} (home : L.HomeAt cfg b c) :
    (L.moved cfg cfg').HomeAt cfg' (cfg.move cfg' b) c := by
  have mem : ∀ {sc d}, b ∈ cfg.blocks sc d → cfg.move cfg' b ∈ cfg'.blocks sc d := by
    intro sc d hb
    rw [cfg.blocks_move cfg']
    exact List.mem_map_of_mem hb
  have inClass : ∀ {sc}, L.InClass cfg b sc →
      (L.moved cfg cfg').InClass cfg' (cfg.move cfg' b) sc :=
    fun ⟨d, o, hr, hb⟩ => ⟨d, o, ok.role_moved_small.2 hr, mem hb⟩
  cases c with
  | none => trivial
  | held =>
    rcases home with ⟨sc, hc⟩ | ⟨d, hr⟩
    · exact .inl ⟨sc, inClass hc⟩
    · refine .inr ⟨d, ok.role_moved_iff.2 ?_⟩
      rw [Role.moved, Cfg.move_move le, hr]
  | freeing t sc => exact inClass home
  | cached t sc => exact inClass home
  | hands t sc => exact inClass home
  | free d =>
    obtain ⟨sc, o, hr, hb⟩ := home
    exact ⟨sc, o, ok.role_moved_small.2 hr, mem hb⟩

/-- The moved ledger. -/
lemma Ledger.Ok.moved (same : SameFile cfg cfg') : (L.moved cfg cfg').Ok cfg' := by
  constructor
  case sbs =>
    intro r hr
    have hr' : (r.moved cfg' cfg).Tracked := by cases r <;> exact hr
    have enum := ok.sbs _ hr'
    exact ⟨enum.nodup, fun d => enum.mem.trans ok.role_moved_iff.symm⟩
  case blks =>
    intro c hc
    have enum := ok.blks c hc
    have some : c ≠ .none := by
      rintro rfl
      exact hc
    have lo : ∀ b ∈ L.blks.items c, cfg.heapStart ≤ b := by
      intro b hb
      refine ok.start_le ?_
      rw [Ledger.place, enum.loc_of_mem hb]
      exact some
    refine ⟨enum.nodup.map_on fun b hb b' hb' e => (Cfg.move_inj (lo b hb) (lo b' hb')).1 e,
      fun b => List.mem_map.trans ?_⟩
    constructor
    · rintro ⟨b, hb, rfl⟩
      show L.place (cfg'.move cfg (cfg.move cfg' b)) = c
      rw [Cfg.move_move (lo b hb)]
      exact enum.loc_of_mem hb
    · intro e
      have e : L.place (cfg'.move cfg b) = c := e
      have le := ok.place_back (e ▸ some)
      exact ⟨_, enum.mem.2 e, Cfg.move_move le⟩
  case inside => exact same.inside ok.inside
  case born => exact fun d => ok.role_moved_iff.trans (ok.born d)
  case cls => exact fun hr => ok.cls (ok.role_moved_small.1 hr)
  case placed => exact fun hr b hb => ok.placed_moved (ok.role_moved_small.1 hr) hb
  case home =>
    intro b
    show (L.moved cfg cfg').HomeAt cfg' b (L.place (cfg'.move cfg b))
    by_cases none : L.place (cfg'.move cfg b) = .none
    · rw [none]
      trivial
    · have home : (L.moved cfg cfg').HomeAt cfg' (cfg.move cfg' (cfg'.move cfg b)) _ :=
        ok.homeAt_moved (cfg'.le_move cfg b) (ok.home (cfg'.move cfg b))
      rwa [Cfg.move_move (ok.place_back none)] at home
  case largeHeld =>
    intro d p hr
    exact ok.largeHeld (ok.role_moved_iff.1 hr)
  case largeStart =>
    intro d p hr
    have hr' : L.role d = .large (cfg'.move cfg p) := ok.role_moved_iff.1 hr
    obtain ⟨e, hp, he⟩ := ok.largeStart hr'
    have lo := ok.large_start hr'
    have le : cfg'.heapStart ≤ p := by
      rw [Cfg.move, SBSIZE_eq] at lo
      omega
    refine ⟨e, ?_, ok.role_moved_iff.2 he⟩
    have back : cfg.move cfg' (cfg'.move cfg p) = p := Cfg.move_move le
    rw [← back, hp, Cfg.move_sb]

end ledger

section inv

variable (same : SameFile cfg cfg') (ok : L.Ok cfg) (rep : Rep cfg h L)
include same ok

/-- A block that is somewhere has a machine address, here and there. -/
lemma Ledger.Ok.lt_addr (hb : L.place b ≠ .none) : b < ADDR ∧ cfg.move cfg' b < ADDR := by
  obtain ⟨d, -, lt, le, lt'⟩ := ok.sb_of_place hb
  have h1 := cfg.bound
  have h2 := cfg'.bound
  have h3 := ok.inside
  have h4 := same.inside ok.inside
  have h5 : cfg.sb (d + 1) ≤ cfg.sb L.n := Cfg.sb_le_sb.2 lt
  have h6 : cfg.move cfg' b < cfg'.sb (d + 1) := by
    rw [Cfg.sb] at le lt' ⊢
    rw [Cfg.move]
    omega
  have h7 : cfg'.sb (d + 1) ≤ cfg'.sb L.n := Cfg.sb_le_sb.2 lt
  exact ⟨by omega, by omega⟩

/-- A chain of links stays one. -/
lemma Ledger.Ok.linked_moved {l : List ℕ} (placed : ∀ b ∈ l, L.place b ≠ .none)
    (linked : Linked h.link l) : Linked (h.moved cfg cfg').link (l.map (cfg.move cfg')) := by
  induction l with
  | nil => exact linked_nil
  | cons b l ih =>
    cases l with
    | nil => exact linked_singleton
    | cons c l =>
      obtain ⟨e, rest⟩ := linked_cons_cons.1 linked
      have hb := placed b (by simp)
      have hc := placed c (by simp)
      obtain ⟨lt, lt'⟩ := ok.lt_addr same hc
      refine linked_cons_cons.2 ⟨?_, ih (fun b hb => placed b (by simp [hb])) rest⟩
      exact link_moved (ok.start_le hb) (ok.lt_addr same hb).1 e (ok.start_le hc) lt lt'

include rep

/-- The heap at the new place is what the moved ledger says, if the caches were empty. -/
lemma Rep.moved (empty : ∀ t sc, (h.cache t sc).num = 0) :
    Rep cfg' (h.moved cfg cfg') (L.moved cfg cfg') := by
  constructor
  case curr =>
    show cfg.move cfg' h.currAddr = cfg'.sb L.n
    rw [rep.curr, Cfg.move_sb]
  case pos => exact rep.pos
  case desc =>
    intro d
    have hd := rep.desc d
    show DescRep cfg' d ((h.desc d).moved cfg cfg') ((L.role d).moved cfg cfg')
    cases hr : L.role d with
    | unborn =>
      rw [hr, DescRep] at hd
      rw [hd]
      rfl
    | avail =>
      rw [hr, DescRep] at hd
      show (h.desc d).moved cfg cfg' =
        { Descriptor.reset with nextFree := ((h.desc d).moved cfg cfg').nextFree }
      rw [hd]
      rfl
    | raw t =>
      rw [hr] at hd
      exact hd
    | small sc o =>
      rw [hr] at hd
      obtain ⟨h1, h2, h3, h4⟩ := hd
      refine ⟨h1, h2, h3, ?_⟩
      rw [Descriptor.moved, h4, Option.map_some, Cfg.move_sb]
    | large p =>
      rw [hr, DescRep] at hd
      have lo := ok.large_start hr
      have iff : cfg.move cfg' p = cfg'.sb d ↔ p = cfg.sb d := by
        rw [← cfg.move_sb cfg']
        exact Cfg.move_inj (by omega) (by rw [Cfg.sb]; omega)
      rw [Role.moved, DescRep]
      simp only [iff]
      split at hd
      case isTrue e =>
        obtain ⟨h1, h2, h3⟩ := hd
        rw [if_pos e]
        exact ⟨h1, h2, by rw [Descriptor.moved, h3]; rfl⟩
      case isFalse e =>
        rw [if_neg e, hd]
        rfl
  case anchor =>
    intro d sc o hr
    have ha := rep.anchor (ok.role_moved_small.1 hr)
    show AnchorRep cfg' sc d (h.desc d).anchor ((L.blks.items (.free d)).map (cfg.move cfg')) o
    have listed : ∀ {F : List ℕ} {a : Anchor}, F.head? = some (cfg.blk sc d a.avail) →
        (F.map (cfg.move cfg')).head? = some (cfg'.blk sc d a.avail) := by
      intro F a e
      rw [List.head?_map, e, Option.map_some, Cfg.move_blk]
    cases o with
    | fresh t => exact ⟨ha.1, by rw [ha.2]; rfl⟩
    | full => exact ⟨ha.1, by rw [ha.2]; rfl⟩
    | listed =>
      simp only [AnchorRep, List.length_map] at ha ⊢
      exact ⟨listed ha.1, ha.2⟩
    | thr t =>
      simp only [AnchorRep, List.length_map] at ha ⊢
      exact ⟨listed ha.1, ha.2⟩
  case free =>
    intro d
    refine ok.linked_moved same (fun b hb => ?_) (rep.free d)
    rw [(ok.mem_items (c := .free d) trivial).1 hb]
    simp
  case fresh =>
    intro d sc u hr b hb
    exact rep.fresh (ok.role_moved_small.1 hr) _ (Cfg.mem_blocks_back hb)
  case list =>
    intro l
    have hl := rep.list l
    have role : (l.role).moved cfg' cfg = l.role := by cases l <;> rfl
    show IsList (fun d => ((h.desc d).moved cfg cfg').next l) (h.head l).ptr
      (L.sbs.items (l.role.moved cfg' cfg))
    rw [role]
    exact hl.congr fun d _ => by cases l <;> rfl
  case cnt => exact rep.cnt
  case cache =>
    intro t sc
    have hc := rep.cache t sc
    have nil : L.blks.items (.cached t sc) = [] := by
      rw [← List.length_eq_zero_iff, ← hc.num, empty]
    show CacheRep _ (h.cache t sc) sc ((L.blks.items (.cached t sc)).map (cfg.move cfg'))
    rw [nil]
    exact ⟨empty t sc, fun ne => absurd rfl ne, linked_nil, Nat.zero_le _⟩
  case client => exact fun b => rep.client _
  case large =>
    intro d hr
    obtain ⟨k, pos, items, size⟩ := rep.large (ok.role_moved_large.1 hr)
    refine ⟨k, pos, ?_, size⟩
    show L.sbs.items (.large (cfg'.move cfg (cfg'.sb d))) = _
    rw [Cfg.move_sb, items]

end inv

/-- A state in which nobody is in a call, with the file mapped somewhere else. -/
def State.moved (cfg cfg' : Cfg) (s : State) : State := ⟨s.heap.moved cfg cfg', fun _ => .idle⟩

/-- The allocator can go on in another mapping. -/
theorem Inv.moved (inv : Inv cfg s L) (same : SameFile cfg cfg') (idle : ∀ t, s.pc t = .idle)
    (empty : ∀ t sc, (s.heap.cache t sc).num = 0) :
    Inv cfg' (s.moved cfg cfg') (L.moved cfg cfg') := by
  refine ⟨inv.ok.moved same, inv.rep.moved same inv.ok empty, fun t => ⟨?_, trivial⟩⟩
  have ow := (inv.thread t).owned
  rw [idle t] at ow
  have nil : ∀ {c : Place}, L.blks.items c = [] → (L.moved cfg cfg').blks.items c = [] := by
    intro c e
    show (L.blks.items c).map (cfg.move cfg') = []
    rw [e, List.map_nil]
  exact ⟨ow.raw, ow.own, ow.fresh, fun sc => nil (ow.freeing sc), fun sc ne => nil (ow.hands sc ne)⟩

section marks

/-- Superblock `d` is read off the `CrossPtr` in both mappings. -/
lemma superblock_moved_iff (pos : 0 < d) :
    ((h.moved cfg cfg').desc d).superblock = some (cfg'.sb d) ↔
      (h.desc d).superblock = some (cfg.sb d) := by
  show (h.desc d).superblock.map (cfg.move cfg') = _ ↔ _
  cases (h.desc d).superblock with
  | none => simp
  | some a =>
    rw [Option.map_some, Option.some.injEq, Option.some.injEq, Cfg.move, Cfg.sb, Cfg.sb, SBSIZE_eq]
    omega

/-- Small superblocks are the same ones. -/
lemma isSmall_moved_iff (pos : 0 < d) :
    IsSmall cfg' (h.moved cfg cfg') d sc ↔ IsSmall cfg h d sc :=
  ⟨fun hs => ⟨hs.cls, hs.heap, (superblock_moved_iff pos).1 hs.superblock, hs.size, hs.maxcount⟩,
    fun hs => ⟨hs.cls, hs.heap, (superblock_moved_iff pos).2 hs.superblock, hs.size, hs.maxcount⟩⟩

/-- So are large blocks. -/
lemma isLarge_moved_iff (pos : 0 < d) :
    IsLarge cfg' (h.moved cfg cfg') d k ↔ IsLarge cfg h d k :=
  ⟨fun hl => ⟨hl.pos, hl.heap, (superblock_moved_iff pos).1 hl.superblock, hl.size, hl.maxcount⟩,
    fun hl => ⟨hl.pos, hl.heap, (superblock_moved_iff pos).2 hl.superblock, hl.size, hl.maxcount⟩⟩

/-- An address stays in its superblock. -/
lemma inSb_move_iff (pos : 0 < d) : InSb cfg' d (cfg.move cfg' a) ↔ InSb cfg d a := by
  rw [InSb, InSb, Cfg.move, Cfg.sb, Cfg.sb, Cfg.sb, Cfg.sb, SBSIZE_eq]
  omega

/-- The same superblocks have marks. -/
lemma marked_moved_iff (pos : 0 < d) :
    Marked cfg' (M.image (cfg.move cfg')) d ↔ Marked cfg M d := by
  simp only [Marked, Finset.exists_mem_image, inSb_move_iff pos]

/-- The same large blocks are kept. -/
lemma kept_moved_iff (pos : 0 < d) :
    Kept cfg' (h.moved cfg cfg') (M.image (cfg.move cfg')) d k ↔ Kept cfg h M d k :=
  ⟨fun ⟨h1, h2⟩ => ⟨(isLarge_moved_iff pos).1 h1, (marked_moved_iff pos).1 h2⟩,
    fun ⟨h1, h2⟩ => ⟨(isLarge_moved_iff pos).2 h1, (marked_moved_iff pos).2 h2⟩⟩

/-- The marks of the moved heap are the moved marks. -/
lemma Precise.moved (pr : Precise cfg h N M) :
    Precise cfg' (h.moved cfg cfg') N (M.image (cfg.move cfg')) := by
  intro q hq
  obtain ⟨p, hp, rfl⟩ := Finset.mem_image.1 hq
  rcases pr p hp with (⟨d, sc, hd, hs, hm⟩ | ⟨d, k, hd, hl, rfl⟩) | ⟨d, hd, hin, none, out⟩
  · refine .inl (.inl ⟨d, sc, hd, (isSmall_moved_iff hd.1).2 hs, ?_⟩)
    rw [cfg.blocks_move cfg']
    exact List.mem_map_of_mem hm
  · exact .inl (.inr ⟨d, k, hd, (isLarge_moved_iff hd.1).2 hl, cfg.move_sb cfg' d⟩)
  · exact .inr ⟨d, hd, (inSb_move_iff hd.1).2 hin, none,
      fun e k pos hl => out e k pos ((isLarge_moved_iff pos).1 hl)⟩

/-- What a crash has left can be rebuilt in another mapping. -/
theorem Rebuildable.moved (rd : Rebuildable cfg h N M) (same : SameFile cfg cfg') :
    Rebuildable cfg' (h.moved cfg cfg') N (M.image (cfg.move cfg')) := by
  have reset : ∀ {d}, h.desc d = .reset → (h.moved cfg cfg').desc d = .reset := by
    intro d e
    show (h.desc d).moved cfg cfg' = .reset
    rw [e]
    rfl
  constructor
  case sweepable =>
    have rc := rd.sweepable
    constructor
    case pos => exact rc.pos
    case curr =>
      show cfg.move cfg' h.currAddr = _
      rw [rc.curr, Cfg.move_sb]
    case inside => exact same.inside rc.inside
    case kind =>
      intro d pos lt hm
      rcases rc.kind d pos lt ((marked_moved_iff pos).1 hm) with none | ⟨sc, hs⟩ | ⟨k, hl⟩
      · exact .inl none
      · exact .inr (.inl ⟨sc, (isSmall_moved_iff pos).2 hs⟩)
      · exact .inr (.inr ⟨k, (isLarge_moved_iff pos).2 hl⟩)
    case fits => exact fun pos lt hk => rc.fits pos lt ((kept_moved_iff pos).1 hk)
    case interior => exact fun pos lt hk => rc.interior pos lt ((kept_moved_iff pos).1 hk)
  case precise => exact rd.precise.moved
  case unborn => exact fun d out => reset (rd.unborn d out)
  case interior =>
    rintro j ⟨d, k, pos, hk, lo, hi⟩
    exact reset (rd.interior j ⟨d, k, pos, (kept_moved_iff pos).1 hk, lo, hi⟩)

end marks

section files

/-- A `pptr` and what it points to move together. -/
lemma toPptrOff_shift (b b' : ℕ) {x y : ℕ} (pos : 0 < x) :
    toPptrOff (b' + x) (b' + y) = toPptrOff (b + x) (b + y) := by
  have h1 : ¬b' + x = 0 := by omega
  have h2 : ¬b + x = 0 := by omega
  simp only [toPptrOff, h1, h2, if_false, gt_iff_lt, Nat.add_lt_add_iff_left, Nat.add_sub_add_left]

/-- A pointer between two descriptors keeps its word when both move. -/
lemma HoldsPptr.shift {w o : ℕ} {v : Option ℕ} (b b' : ℕ)
    (hw : HoldsPptr w (descPtr b v) (b + PAGESIZE + d * DESCSIZE + o)) :
    HoldsPptr w (descPtr b' v) (b' + PAGESIZE + d * DESCSIZE + o) := by
  cases v with
  | none => exact hw.imp_left fun e => e.trans (by simp only [toPptrOff, descPtr, if_true])
  | some e =>
    have pos : 0 < PAGESIZE + e * DESCSIZE := Nat.add_pos_left (by decide) _
    rcases hw with hw | ⟨h0, -⟩
    · refine .inl (hw.trans ?_)
      have := toPptrOff_shift b b' (y := PAGESIZE + d * DESCSIZE + o) pos
      simp only [descPtr, ← Nat.add_assoc] at this ⊢
      exact this.symm
    · simp only [descPtr] at h0
      omega

/-- The word of a `CrossPtr` is the same wherever the region is. -/
lemma superblockWord_moved {v : Option ℕ} (lo : ∀ a, v = some a → cfg.heapStart ≤ a) :
    superblockWord cfg'.heapStart (v.map (cfg.move cfg')) = superblockWord cfg.heapStart v := by
  cases v with
  | none => rfl
  | some a =>
    have := lo a rfl
    show (cfg.move cfg' a + WORD - cfg'.heapStart) % WORD = (a + WORD - cfg.heapStart) % WORD
    rw [Cfg.move, show cfg'.heapStart + (a - cfg.heapStart) + WORD - cfg'.heapStart =
      a + WORD - cfg.heapStart by omega]

open RegionIndex in
/-- Files that hold a heap hold the moved one when they are mapped somewhere else. -/
theorem Holds.moved {numSb : ℕ} {F : Files} {B B' : Bases} (H : Holds cfg numSb F B h)
    (rep : Rep cfg h L) (same : SameFile cfg cfg') (base : (B' SB_IDX).addr = cfg'.base)
    (lo : ∀ d a, (h.desc d).superblock = some a → cfg.heapStart ≤ a) :
    Holds cfg' numSb F B' (h.moved cfg cfg') := by
  have header := cfg.header
  have header' := cfg'.header
  have start := same.start
  have first : cfg.heapStart ≤ h.currAddr := by
    rw [rep.curr, Cfg.sb]
    omega
  have page : 0 < PAGESIZE := by decide
  constructor
  case base => exact base
  case size => exact same.filesize ▸ H.size
  case few => exact H.few
  case start =>
    intro i
    rw [H.start i]
    cases i with
    | SB_IDX => exact start.symm
    | _ => rfl
  case curr =>
    intro i
    have off : currOff cfg' numSb (h.moved cfg cfg') i = currOff cfg numSb h i := by
      cases i with
      | SB_IDX =>
        show cfg'.heapStart + (h.currAddr - cfg.heapStart) - cfg'.base = h.currAddr - cfg.base
        omega
      | _ => rfl
    have pos : 0 < currOff cfg numSb h i := by
      cases i with
      | SB_IDX => show 0 < h.currAddr - cfg.base; omega
      | _ => exact Nat.add_pos_left page _
    rw [H.curr i, off]
    exact (toPptrOff_shift (B i).addr (B' i).addr (y := 0) pos).symm
  case head => exact H.head
  case desc =>
    intro d hd
    have hD := H.desc d hd
    exact ⟨fun l => by
        have := (hD.link l).shift _ (B' DESC_IDX).addr
        cases l <;> exact this,
      hD.anchor, hD.superblock.trans (superblockWord_moved (lo d)).symm, hD.heap, hD.blockSize,
      hD.maxcount⟩
  case mem =>
    intro a le lt
    have lt : a < cfg'.heapStart + (h.currAddr - cfg.heapStart) := lt
    show F SB_IDX (a - cfg'.base) = h.mem (cfg.heapStart + (a - cfg'.heapStart))
    rw [← H.mem _ (Nat.le_add_right ..) (by omega),
      show cfg.heapStart + (a - cfg'.heapStart) - cfg.base = a - cfg'.base by omega]

end files

end Ralloc
