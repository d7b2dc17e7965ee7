import Ralloc.Durable.Lifetimes
import Ralloc.Mapping.Moved

/-!
# Many lifetimes at many addresses

Every process may find the heap at another address than the one before, after a clean close as well
as after a crash. `mapped` is the system of `Lifetimes` with this in it, and its clients see blocks
as offsets from the heap start, which is what position independent pointers amount to.

`mapped_refine`: seen this way the heap is an `Arena`, and that it is mapped somewhere else cannot
be noticed at all. `moved_keeps_bytes`: neither can it be in what the blocks contain.
-/

namespace Ralloc

open Lib SuperblockState

variable {cfg cfg' : Cfg} {s s' : State} {ℓ ℓ' : HeapLog} {N p a numSb : ℕ} {m : Heap}
  {M : Finset ℕ}
  {A : Arena ℕ UInt8}

/-- A process with its mapping and the log of its memory. -/
structure Mapped where
  cfg : Cfg
  state : State
  log : HeapLog

/-- One step. A lifetime that does not end goes on as before; one that ends may be followed by one
at another address. -/
inductive MapStep : Mapped → Option (Arena.Event ℕ UInt8) → Mapped → Prop
  | life {cfg : Cfg} {s s' : State} {ℓ ℓ' : HeapLog} {o : Option (Arena.Event ℕ UInt8)}
    (st : LifeStep cfg (s, ℓ) o (s', ℓ')) :
    MapStep ⟨cfg, s, ℓ⟩ (o.map (Arena.Event.above cfg.heapStart)) ⟨cfg, s', ℓ'⟩
  | crash {cfg cfg' : Cfg} {s s' : State} {ℓ ℓ' : HeapLog} {m : Heap} {M : Finset ℕ}
    (same : SameFile cfg cfg') (im : CrashImage ℓ m) (marks : MarksHeld cfg s m M)
    (rec : Recovers cfg' (M.image (cfg.move cfg')) (m.moved cfg cfg') s' ℓ') :
    MapStep ⟨cfg, s, ℓ⟩ (some (.crash (M.image (· - cfg.heapStart)))) ⟨cfg', s', ℓ'⟩
  | reopen {cfg cfg' : Cfg} {s : State} {ℓ : HeapLog} {t numSb : ℕ} {m : Heap}
    (same : SameFile cfg cfg') (idle : ∀ u, s.pc u = .idle)
    (empty : ∀ u sc, (s.heap.cache u sc).num = 0) (im : CrashImage (close cfg t numSb ℓ) m)
    (whole : ∀ l, m.read l = s.heap.read l) :
    MapStep ⟨cfg, s, ℓ⟩ none
      ⟨cfg', (reopened s m).moved cfg cfg', .start ((reopened s m).moved cfg cfg').heap⟩

/-- All lifetimes of the file that is first mapped as in some `SameFile` of `cfg`. -/
def mapped (cfg : Cfg) : System Mapped (Arena.Event ℕ UInt8) where
  init r := SameFile cfg r.cfg ∧ r.state = init r.cfg ∧ Fresh r.cfg r.log
  step := MapStep

/-- The relation between a mapped process and what its clients know. -/
structure MapFollows (cfg : Cfg) (r : Mapped) (B : Arena ℕ UInt8) : Prop where
  same : SameFile cfg r.cfg
  shows : ∃ A, Follows r.cfg (r.state, r.log) A ∧ B = A.above r.cfg.heapStart

section blocks

/-- The descriptor of an offset. -/
lemma Cfg.sbIndex_add (cfg : Cfg) (p : ℕ) :
    sbIndex cfg.heapStart (cfg.heapStart + p) = p / SBSIZE % WORD := by
  have al := cfg.aligned
  unfold sbIndex SB_SHIFT
  rw [Nat.shiftRight_eq_div_pow, Nat.shiftRight_eq_div_pow]
  rw [SBSIZE_eq] at al ⊢
  unfold WORD
  omega

/-- The same descriptor is found in every mapping. -/
lemma Cfg.sbIndex_move (le : cfg.heapStart ≤ p) :
    sbIndex cfg'.heapStart (cfg.move cfg' p) = sbIndex cfg.heapStart p := by
  rw [Cfg.move, Cfg.sbIndex_add, ← Nat.add_sub_of_le le, Cfg.sbIndex_add, Nat.add_sub_cancel_left]

/-- The length of a block does not depend on where the file is mapped. -/
lemma mallocSize_moved (le : cfg.heapStart ≤ p) :
    mallocSize cfg' (m.moved cfg cfg') (cfg.move cfg' p) = mallocSize cfg m p := by
  show (m.desc (sbIndex cfg'.heapStart (cfg.move cfg' p))).blockSize = _
  rw [Cfg.sbIndex_move le]
  rfl

/-- The blocks of clients, by their offsets. -/
lemma blockLen_moved (m : Heap) (p : ℕ) :
    blockLen cfg' (m.moved cfg cfg') (cfg'.heapStart + p) = blockLen cfg m (cfg.heapStart + p) := by
  have there : cfg'.heapStart + p = cfg.move cfg' (cfg.heapStart + p) := by
    rw [Cfg.move, Nat.add_sub_cancel_left]
  have client : (m.moved cfg cfg').client (cfg'.heapStart + p) = m.client (cfg.heapStart + p) := by
    show m.client (cfg'.move cfg (cfg'.heapStart + p)) = _
    rw [Cfg.move, Nat.add_sub_cancel_left]
  rw [blockLen, blockLen, client, there, mallocSize_moved (Nat.le_add_right ..)]

/-- Held blocks lie behind the heap start. -/
lemma Shows.from_start (sh : Shows cfg s A) : A.From cfg.heapStart := by
  intro p n hp
  rw [sh.len] at hp
  obtain ⟨L, inv⟩ := sh.inv
  refine inv.ok.start_le (b := p) ?_
  rw [inv.rep.held_iff.1 (blockLen_eq_some.1 hp).1]
  simp

/-- Marked blocks too. -/
lemma MarksHeld.start_le (marks : MarksHeld cfg s m M) (inv : ∃ L, Inv cfg s L) (hp : p ∈ M) :
    cfg.heapStart ≤ p := by
  obtain ⟨L, inv⟩ := inv
  refine inv.ok.start_le ?_
  rw [inv.rep.held_iff.1 (marks p hp).1]
  simp

/-- Blocks move with the file. -/
lemma IsBlock.moved {n : ℕ} (blk : IsBlock cfg m N p n) :
    IsBlock cfg' (m.moved cfg cfg') N (cfg.move cfg' p) n := by
  rcases blk with ⟨d, sc, hd, hs, hm, e⟩ | ⟨d, k, hd, hl, rfl, e⟩
  · refine .inl ⟨d, sc, hd, (isSmall_moved_iff hd.1).2 hs, ?_, e⟩
    rw [cfg.blocks_move cfg']
    exact List.mem_map_of_mem hm
  · exact .inr ⟨d, k, hd, (isLarge_moved_iff hd.1).2 hl, cfg.move_sb cfg' d, e⟩

/-- A mark and its offset. -/
lemma mem_offsets (lo : ∀ p ∈ M, cfg.heapStart ≤ p) :
    p ∈ M.image (· - cfg.heapStart) ↔ cfg.heapStart + p ∈ M := by
  rw [Finset.mem_image]
  constructor
  · rintro ⟨q, hq, rfl⟩
    rwa [Nat.add_sub_of_le (lo q hq)]
  · exact fun hp => ⟨_, hp, Nat.add_sub_cancel_left ..⟩

/-- Seen as offsets, the marks are the same. -/
lemma mem_moved_marks (lo : ∀ p ∈ M, cfg.heapStart ≤ p) :
    cfg'.heapStart + p ∈ M.image (cfg.move cfg') ↔ cfg.heapStart + p ∈ M := by
  rw [Finset.mem_image]
  constructor
  · rintro ⟨q, hq, e⟩
    have := lo q hq
    rw [Cfg.move] at e
    rwa [show cfg.heapStart + p = q by omega]
  · exact fun hp => ⟨_, hp, by rw [Cfg.move, Nat.add_sub_cancel_left]⟩

end blocks

section step

/-- The region that is left ends behind the same superblock in both mappings. -/
lemma Logged.curr_of_moved (lg : Logged cfg s ℓ) (im : CrashImage ℓ m)
    (curr : (m.moved cfg cfg').currAddr = cfg'.sb N) : m.currAddr = cfg.sb N := by
  obtain ⟨L, inv⟩ := lg.inv
  obtain ⟨N', -, curr', -⟩ := lg.curr.exists_end inv im
  have curr : cfg.move cfg' m.currAddr = cfg'.sb N := curr
  rw [curr', Cfg.move_sb, Cfg.sb_inj] at curr
  rw [curr', curr]

/-- What is left of a crash, rebuilt at another address. -/
lemma Logged.blockLen_moved (lg : Logged cfg s ℓ) (im : CrashImage ℓ m)
    (marks : MarksHeld cfg s m M) (same : SameFile cfg cfg') {fuel : ℕ} {m' : Heap}
    (curr : m.currAddr = cfg.sb N) (enough : N + SBSIZE < fuel)
    (it : Interrupted cfg' fuel (M.image (cfg.move cfg')) (m.moved cfg cfg') m') {w : Sweep}
    (e : sweep cfg' fuel m' (M.image (cfg.move cfg')).sort = .done w) (p : ℕ) :
    blockLen cfg' (restarted cfg' (M.image (cfg.move cfg')) w.heap).heap (cfg'.heapStart + p) =
      if cfg.heapStart + p ∈ M then blockLen cfg s.heap (cfg.heapStart + p) else none := by
  have rd := (lg.rebuildable im curr marks).moved same
  have starts : ∀ q ∈ M.image (cfg.move cfg'), StartsBlock cfg' (m.moved cfg cfg') N q := by
    intro q hq
    obtain ⟨p, hp, rfl⟩ := Finset.mem_image.1 hq
    exact (lg.isBlock im marks curr hp).moved.starts
  have mem : cfg'.heapStart + p ∈ M.image (cfg.move cfg') ↔ cfg.heapStart + p ∈ M :=
    mem_moved_marks fun q hq => marks.start_le lg.inv hq
  rw [rd.blockLen_restarted starts enough it e]
  by_cases hp : cfg.heapStart + p ∈ M
  · have there : cfg'.heapStart + p = cfg.move cfg' (cfg.heapStart + p) := by
      rw [Cfg.move, Nat.add_sub_cancel_left]
    rw [if_pos (mem.2 hp), if_pos hp, there, mallocSize_moved (Nat.le_add_right ..),
      lg.mallocSize_eq im marks hp, blockLen, if_pos (marks _ hp).1]
  · rw [if_neg (mt mem.1 hp), if_neg hp]

/-- The bounds of the arena do not depend on the mapping. -/
lemma SameFile.room_eq (same : SameFile cfg cfg') :
    cfg'.base + cfg'.filesize - cfg'.heapStart = cfg.base + cfg.filesize - cfg.heapStart := by
  have h1 := same.start
  have h2 := same.filesize
  have h3 := cfg.header
  have h4 := cfg'.header
  omega

/-- An arena of offsets can follow every step, also to another address. -/
lemma MapFollows.step {cfg : Cfg} {r r' : Mapped} {o : Option (Arena.Event ℕ UInt8)}
    {B : Arena ℕ UInt8} (fl : MapFollows cfg r B) (st : MapStep r o r') :
    ∃ B', Arena.Step SBSIZE (cfg.base + cfg.filesize - cfg.heapStart) B B' o ∧
      MapFollows cfg r' B' := by
  obtain ⟨file, A, fl, rfl⟩ := fl
  cases st with
  | @life c s s' ℓ ℓ' o st =>
    obtain ⟨A', step, fl'⟩ := fl.step st
    refine ⟨_, ?_, file, A', fl', rfl⟩
    have above := step.above (Nat.le_add_right ..) fl.shows.from_start fl'.shows.from_start
    rwa [Nat.add_sub_cancel_left, file.room_eq] at above
  | @crash c c' s s' ℓ ℓ' m M same im marks rec =>
    obtain ⟨lg, sh⟩ := fl
    generalize eM : M.image (c.move c') = M' at rec
    generalize em : m.moved c c' = m₁ at rec
    cases rec with | @intro N fuel t numSb m' w ℓ₁ curr enough room it hist e =>
    subst eM em
    have lo : ∀ p ∈ M, c.heapStart ≤ p := fun p hp => marks.start_le lg.inv hp
    have curr := lg.curr_of_moved im curr
    have rd := (lg.rebuildable im curr marks).moved same
    have lg' := rd.logged (t := t) room enough it hist e
    refine ⟨(arenaOf lg'.inv fun _ => none).above c'.heapStart,
      .crash _ (fun p hp => ?_) (fun p => ?_) fun _ => rfl, file.trans same, _,
      ⟨lg', shows_arenaOf lg'.inv fun _ => rfl⟩, rfl⟩
    · have held := (marks _ ((mem_offsets lo).1 hp)).1
      show ∃ n, A.len (c.heapStart + p) = some n
      rw [sh.len]
      exact ⟨_, if_pos held⟩
    · show blockLen c' _ (c'.heapStart + p) = if _ then A.len (c.heapStart + p) else none
      rw [sh.len, lg.blockLen_moved im marks same curr enough it e]
      simp only [mem_offsets lo]
  | @reopen c c' s ℓ t numSb m same idle empty im whole =>
    obtain ⟨lg, sh⟩ := fl
    obtain ⟨L, inv⟩ := lg.inv
    have inv' := (inv.reopened idle empty whole).moved same (fun _ => rfl) fun _ _ => rfl
    have heap := reopened_heap whole
    refine ⟨(arenaOf ⟨_, inv'⟩ fun _ => none).above c'.heapStart, .quiet ?_ ?_ ?_,
      file.trans same, _,
      ⟨inv'.logged_of_desc (fun _ => rfl) rfl (fun _ _ _ => rfl) fun _ _ _ _ => rfl,
        shows_arenaOf ⟨_, inv'⟩ fun _ => rfl⟩, rfl⟩
    · funext p
      show blockLen c' ((reopened s m).heap.moved c c') (c'.heapStart + p) = A.len (c.heapStart + p)
      rw [Ralloc.blockLen_moved, heap, sh.len]
      rfl
    · funext u
      exact (sh.idle u (by rw [idle u]; rfl) (by simp [idle u])).symm
    · intro a _ _
      show (reopened s m).heap.mem (c'.move c (c'.heapStart + a)) = A.byte (c.heapStart + a)
      rw [Cfg.move, Nat.add_sub_cancel_left, heap, sh.byte]

/-- Over all its lifetimes and at all its addresses the heap is an allocator of offsets. -/
theorem mapped_simulation (cfg : Cfg) : (mapped cfg).Simulation
    (Arena.system ℕ UInt8 SBSIZE (cfg.base + cfg.filesize - cfg.heapStart)) (MapFollows cfg) := by
  constructor
  case init =>
    rintro ⟨c, s, ℓ⟩ ⟨file, start, fresh⟩
    have start : s = init c := start
    subst start
    obtain ⟨A, ⟨len, asked⟩, fl⟩ := (lifetimes_simulation c).init (s := (init c, ℓ)) ⟨rfl, fresh⟩
    exact ⟨A.above c.heapStart, ⟨fun p => len _, asked⟩, file, A, fl, rfl⟩
  case step =>
    intro r B o r' fl st
    obtain ⟨B', step, fl'⟩ := fl.step st
    exact ⟨B', .single step, fl'⟩

/-- A lifetime at one address. -/
lemma run_mapped {c : Cfg} {r r' : State × HeapLog} {es : List (Arena.Event ℕ UInt8)}
    (run : (lifetimes c).Run r es r') :
    (mapped cfg).Run ⟨c, r.1, r.2⟩ (es.map (Arena.Event.above c.heapStart)) ⟨c, r'.1, r'.2⟩ := by
  induction run with
  | refl => exact .refl
  | @tail es r₁ o r₂ _ st ih =>
    have toList : o.toList.map (Arena.Event.above c.heapStart) =
        (o.map (Arena.Event.above c.heapStart)).toList := by cases o <;> rfl
    rw [List.map_append, toList]
    exact .tail ih (.life st)

/-- A recovery at another address that is not interrupted comes to its end. -/
lemma Logged.recovers_moved (lg : Logged cfg s ℓ) (im : CrashImage ℓ m)
    (marks : MarksHeld cfg s m M) (same : SameFile cfg cfg') :
    ∃ s' ℓ', Recovers cfg' (M.image (cfg.move cfg')) (m.moved cfg cfg') s' ℓ' := by
  obtain ⟨L, inv⟩ := lg.inv
  obtain ⟨N, -, curr, -⟩ := lg.curr.exists_end inv im
  have rd := (lg.rebuildable im curr marks).moved same
  obtain ⟨w, e, -⟩ := rd.sweeps (Nat.lt_succ_self _)
  exact ⟨_, _, .intro (t := 0) (ℓ := .start _) rd.sweepable.curr (Nat.lt_succ_self _) le_rfl .never
    (fun _ _ => .start) e⟩

/-- The file of `sample`, 3 GiB further up. -/
def further : Cfg where
  base := 2 ^ 40 + 3 * 2 ^ 30
  filesize := 2 ^ 31
  heapStart := 2 ^ 40 + 3 * 2 ^ 30 + 2 ^ 16
  header := by decide
  aligned := by decide
  warm := by decide
  bound := by decide

/-- The two places of the sample are of one file. -/
lemma sample_further : SameFile sample further := ⟨rfl, by decide⟩

/-- A recovery at another address leaves a marked block as it is. -/
lemma Logged.moved_keeps (lg : Logged cfg s ℓ) (same : SameFile cfg cfg') (im : CrashImage ℓ m)
    (marks : MarksHeld cfg s m M)
    (rec : Recovers cfg' (M.image (cfg.move cfg')) (m.moved cfg cfg') s' ℓ') (hp : p ∈ M) :
    s'.heap.client (cfg.move cfg' p) = .held ∧
      mallocSize cfg' s'.heap (cfg.move cfg' p) = mallocSize cfg s.heap p ∧
      ∀ a, p ≤ a → a < p + mallocSize cfg s.heap p → s'.heap.mem (cfg.move cfg' a) = m.mem a := by
  have le := marks.start_le lg.inv hp
  generalize eM : M.image (cfg.move cfg') = M' at rec
  generalize em : m.moved cfg cfg' = m₁ at rec
  cases rec with | @intro N fuel t numSb m' w ℓ₁ curr enough room it hist e =>
  subst eM em
  have curr := lg.curr_of_moved im curr
  have rd := (lg.rebuildable im curr marks).moved same
  have blk : IsBlock cfg' (m.moved cfg cfg') N (cfg.move cfg' p) _ :=
    (lg.isBlock im marks curr hp).moved
  have hp' : cfg.move cfg' p ∈ M.image (cfg.move cfg') := Finset.mem_image_of_mem _ hp
  have len := lg.blockLen_moved im marks same curr enough it e (p - cfg.heapStart)
  have held : blockLen cfg s.heap p = _ := if_pos (marks p hp).1
  rw [Nat.add_sub_of_le le, if_pos hp, held] at len
  obtain ⟨client, size⟩ := blockLen_eq_some.1 len
  refine ⟨client, size, fun a lo hi => (rd.mem_of_mark enough it e hp' blk ?_ ?_).trans ?_⟩
  · exact Nat.add_le_add_left (Nat.sub_le_sub_right lo _) _
  · unfold Cfg.move
    omega
  · show m.mem (cfg'.move cfg (cfg.move cfg' a)) = m.mem a
    rw [Cfg.move_move (le.trans lo)]

/-- A `pptr` whose bytes have moved together with what it points to. -/
lemma SameFile.link_eq {h h' : Heap} (same : SameFile cfg cfg') (lo : cfg.heapStart ≤ a)
    (hi : a < cfg.base + cfg.filesize)
    (bytes : ∀ i < 8, h'.mem (cfg.move cfg' (a + i)) = h.mem (a + i))
    (from_start : cfg.heapStart ≤ h.link a) (below : h.link a < cfg.base + cfg.filesize) :
    h'.link (cfg.move cfg' a) = cfg.move cfg' (h.link a) := by
  have bound := cfg.bound
  have there : cfg.move cfg' (h.link a) < ADDR := by
    have h1 := same.start
    have h2 := same.filesize
    have h3 := cfg.header
    have h4 := cfg'.header
    have h5 := cfg'.bound
    rw [Cfg.move]
    omega
  rw [← link_moved lo (by omega) rfl from_start (by omega) there, Heap.link, Heap.link]
  refine congrArg (fromPptrOff · _) (load_shift fun i hi => ?_)
  show h'.mem (cfg.move cfg' a + i) = h.mem (cfg'.move cfg (cfg.move cfg' a + i))
  rw [← Cfg.move_add lo, bytes i hi, Cfg.move_move (by omega)]

/-- Clients that see blocks as offsets cannot tell at which addresses the heap is mapped, over all
its lifetimes: whatever they see they could see of one arena. -/
theorem mapped_refine {es : List (Arena.Event ℕ UInt8)} (tr : (mapped cfg).Trace es) :
    (Arena.system ℕ UInt8 SBSIZE (cfg.base + cfg.filesize - cfg.heapStart)).Trace es :=
  (mapped_simulation cfg).trace tr

/-- A client gets a block at one address and writes into it. After a recovery at another address it
reads what it has written. -/
theorem mapped_refine_sample :
    (Arena.system ℕ UInt8 SBSIZE (sample.base + sample.filesize - sample.heapStart)).Trace
      (sampleEvents SBSIZE ++ [.crash {SBSIZE}, .read (SBSIZE + 8) 7]) := by
  obtain ⟨r, s, ℓ, ⟨start, fresh⟩, run, lg, marks, size, seven, -, dur⟩ := exists_marked
  obtain ⟨s', ℓ', rec⟩ := lg.recovers_moved lg.image marks sample_further
  have crash : MapStep ⟨sample, s, ℓ⟩ (some (.crash {SBSIZE})) ⟨further, s', ℓ'⟩ :=
    .crash sample_further lg.image marks rec
  obtain ⟨held, same, bytes⟩ := lg.moved_keeps sample_further lg.image marks rec
    (Finset.mem_singleton_self _)
  have there : sample.move further (sample.blk 39 1 0 + 8) = further.heapStart + (SBSIZE + 8) := by
    decide +kernel
  have seven' : s'.heap.mem (further.heapStart + (SBSIZE + 8)) = 7 := by
    rw [← there, bytes _ (Nat.le_add_right ..) (by rw [size]; omega), seven]
  have read : LifeStep further (s', ℓ') (some (.read (further.heapStart + (SBSIZE + 8)) 7))
      (s', ℓ') := by
    rw [← seven']
    refine .read held ?_ ?_
    · rw [Cfg.move_blk]
      decide +kernel
    · rw [same, size, Cfg.move_blk]
      decide +kernel
  have run : (mapped sample).Run _ (sampleEvents SBSIZE) ⟨sample, s, ℓ⟩ := run_mapped run
  have run := (run.tail crash).tail (.life read)
  rw [List.append_assoc] at run
  exact mapped_refine ⟨⟨sample, r.1, r.2⟩, _, ⟨.refl sample, start, fresh⟩, run⟩

end step

end Ralloc
