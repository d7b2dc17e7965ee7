import Ralloc.Mapping.Reopen
import Ralloc.Model.Init
import Ralloc.Recovery.Mark

/-!
# The steps of the initialisation

What the steps of `RP_init` do, in groups. For each region: a file that is there is opened again
(`run_region_old`), unless the size in its header is wrong (`run_region_bad`); a new file is made
(`run_region_sb`, `run_region_new`), and `partlyMade` says how far it has come if only some of the
steps were done. For the constructor of `BaseMeta`: `run_metaSteps`, `run_organizeSteps`, and
`run_skip` if `_basemd` was there.
-/

namespace Ralloc

namespace Init

open Lib RegionIndex

variable {numSb : ℕ} {p q : Proc numSb} {s s' : State} {i : RegionIndex}

/-- One list of steps after another. -/
lemma run_append (p : Proc numSb) (as bs : List Step) (s : State) :
    run p (as ++ bs) s = (run p as s).bind (run p bs) := by
  induction as generalizing s with
  | nil => rfl
  | cons a as ih =>
    rw [List.cons_append, run, run, Option.bind_assoc]
    exact congrArg _ (funext fun s => ih s)

/-- The header of a file: `curr_addr` and the heap start as offsets, and the size. -/
structure Header (f : Mem) (curr start size : ℕ) : Prop where
  curr : load f 0 8 = toPptrOff curr 0
  start : load f 8 8 = start
  size : load f 16 8 = size

section header

variable {f : Mem} {base c st sz : ℕ}

/-- A word for a pointer behind its own place depends on the distance only. -/
lemma toPptrOff_add (base : ℕ) (hc : 0 < c) : toPptrOff (base + c) base = toPptrOff c 0 := by
  rw [toPptrOff, toPptrOff, if_neg (show base + c ≠ 0 by omega), if_neg (show c ≠ 0 by omega),
    if_pos (show base + c > base by omega), if_pos hc, Nat.add_sub_cancel_left, Nat.sub_zero]

/-- `curr_addr` as the process sees it. -/
lemma Header.currAddr_eq (h : Header f c st sz) (hc : 0 < c) (hlt : c < ADDR)
    (hb : base + c < WORD) : currAddr base f = base + c := by
  rw [currAddr, h.curr]
  exact fromPptrOff_moved (by omega) (by omega) (by omega) (by omega) hb

/-- The heap start as the process sees it. -/
lemma Header.fetchStart_eq (h : Header f c st sz) (hb : base + st < WORD) :
    fetchStart base f = base + st := by
  rw [fetchStart, h.start, fetchHeapStart, Nat.add_comm, Nat.mod_eq_of_lt hb]

/-- Mapping a file again only touches its last byte. -/
lemma Header.remap {filesize : ℕ} (h : Header f c st sz) (big : 24 < filesize) :
    Header (remapPersistentRegion filesize f) c st sz :=
  ⟨by rw [load_remap (by omega), h.curr], by rw [load_remap (by omega), h.start],
    by rw [load_remap (by omega), h.size]⟩

/-- An expansion writes `curr_addr`. -/
lemma Header.setCurr (h : Header f c st sz) {c' : ℕ} (hc : 0 < c') (hlt : c' < ADDR) :
    Header (setCurrAddr base f (base + c')) c' st sz := by
  refine ⟨?_, by rw [load_setCurrAddr_start, h.start], ?_⟩
  · rw [setCurrAddr, toPptrOff_add base hc, load_store (toPptrOff_lt hlt (by decide))]
  · rw [setCurrAddr, load_store_out (by omega), h.size]

/-- A store to the heap start. -/
lemma Header.setStart (h : Header f c st sz) {st' : ℕ} (hb : base + st' < WORD) :
    Header (storeStart base f (base + st')) c st' sz := by
  have off : storeHeapStart base (base + st') = st' := by
    rw [storeHeapStart]
    unfold WORD at hb ⊢
    omega
  refine ⟨by rw [load_storeStart_curr, h.curr], ?_, ?_⟩
  · rw [storeStart, off, load_store (by unfold WORD at hb; omega)]
  · rw [storeStart, load_store_out (by omega), h.size]

end header

/-- A file is longer than its header, and smaller than the address space. -/
lemma filesize_bounds (p : Proc numSb) (i : RegionIndex) :
    8192 ≤ i.filesize numSb ∧ p.addr i + i.filesize numSb ≤ 2 ^ 48 := by
  have h1 := two_pages_le numSb i
  have h2 := p.bound i
  unfold PAGESIZE at h1
  unfold ADDR at h2
  exact ⟨by omega, h2⟩

/-- What `RegionManager` and `Regions` do for one region leaves the others alone. -/
structure Touched (i : RegionIndex) (s s' : State) : Prop where
  file : ∀ j, j ≠ i → s'.disk.file j = s.disk.file j
  existed : ∀ j, j ≠ i → s'.existed j = s.existed j
  address : ∀ j, j ≠ i → s'.address j = s.address j
  mtx : i ≠ META_IDX → s'.disk.mtx = s.disk.mtx
  scIdx : i ≠ META_IDX → s'.disk.scIdx = s.disk.scIdx
  roots : i ≠ META_IDX → s'.disk.roots = s.disk.roots

section region

variable {f : Mem} {c st sz : ℕ}

/-- The state after a region was opened again. -/
def reopened (p : Proc numSb) (i : RegionIndex) (f : Mem) (s : State) : State where
  disk := { s.disk with
    file := Function.update s.disk.file i (some (remapPersistentRegion (i.filesize numSb) f)) }
  existed := Function.update s.existed i true
  space := s.space
  address := Function.update s.address i (fetchStart (p.addr i) f)

/-- A file that is there is opened if its size is right. -/
lemma run_region_old (hf : s.disk.file i = some f) (size : load f 16 8 = i.filesize numSb)
    (imm : Bool) : run p (regionSteps i imm) s = some (reopened p i f s) := by
  have big := (filesize_bounds p i).1
  have size' : load (remapPersistentRegion (i.filesize numSb) f) 16 8 = i.filesize numSb := by
    rw [load_remap (by omega), size]
  have start : fetchStart (p.addr i) (remapPersistentRegion (i.filesize numSb) f) =
      fetchStart (p.addr i) f := by
    rw [fetchStart, load_remap (by omega), ← fetchStart]
  cases imm <;>
    simp [regionSteps, run, exec, hf, State.ifNew, State.modFile, size', start, reopened]

/-- Otherwise an assertion fails. -/
lemma run_region_bad (hf : s.disk.file i = some f) (ne : load f 16 8 ≠ i.filesize numSb)
    (imm : Bool) : run p (regionSteps i imm) s = none := by
  have big := (filesize_bounds p i).1
  have ne' : load (remapPersistentRegion (i.filesize numSb) f) 16 8 ≠ i.filesize numSb := by
    rwa [load_remap (by omega)]
  simp [regionSteps, run, exec, hf, State.ifNew, State.modFile, ne']

/-- A new file without an expansion. -/
def created (p : Proc numSb) (i : RegionIndex) (s : State) : State where
  disk :=
    { s.disk.create i with
      file := Function.update s.disk.file i
        (some (mapPersistentRegion (i.filesize numSb) (p.addr i))) }
  existed := Function.update s.existed i false
  space := s.space
  address := Function.update s.address i
    (if i ≠ SB_IDX then fetchStart (p.addr i) (mapPersistentRegion (i.filesize numSb) (p.addr i))
      else 0)

/-- The region of the superblocks is created without an expansion. -/
lemma run_region_sb (hf : s.disk.file SB_IDX = none) :
    run p (regionSteps SB_IDX false) s = some (created p SB_IDX s) := by
  have zero : remapPersistentRegion (SB_IDX.filesize numSb) (fun _ => 0) = fun _ => 0 :=
    Function.update_eq_self ..
  simp [regionSteps, run, exec, hf, State.ifNew, State.modFile, Disk.create, zero, created,
    mapPersistentRegion]

/-- How far a new file has come after `n` steps. -/
structure PartlyMade (numSb : ℕ) (i : RegionIndex) (n : ℕ) (s s' : State) : Prop where
  touched : Touched i s s'
  none : n < 2 → s'.disk = s.disk
  some : 2 ≤ n → ∃ f, s'.disk.file i = some f ∧
    (n < 5 → load f 16 8 = 0) ∧ (5 ≤ n → load f 16 8 = i.filesize numSb)

/-- Nothing has changed. -/
lemma Touched.refl (i : RegionIndex) (s : State) : Touched i s s :=
  ⟨fun _ _ => rfl, fun _ _ => rfl, fun _ _ => rfl, fun _ => rfl, fun _ => rfl, fun _ => rfl⟩

/-- One step after another. -/
lemma Touched.trans {s₁ s₂ s₃ : State} (h : Touched i s₁ s₂) (h' : Touched i s₂ s₃) :
    Touched i s₁ s₃ :=
  ⟨fun j ne => (h'.file j ne).trans (h.file j ne),
    fun j ne => (h'.existed j ne).trans (h.existed j ne),
    fun j ne => (h'.address j ne).trans (h.address j ne),
    fun ne => (h'.mtx ne).trans (h.mtx ne), fun ne => (h'.scIdx ne).trans (h.scIdx ne),
    fun ne => (h'.roots ne).trans (h.roots ne)⟩

/-- Writing to a file. -/
lemma Touched.modFile (i : RegionIndex) (s : State) (g : Mem → Mem) : Touched i s (s.modFile i g) :=
  ⟨fun _ ne => Function.update_of_ne ne .., fun _ _ => rfl, fun _ _ => rfl, fun _ => rfl,
    fun _ => rfl, fun _ => rfl⟩

/-- Creating a file. -/
lemma Touched.create (i : RegionIndex) (s : State) :
    Touched i s { s with disk := s.disk.create i } := by
  refine ⟨fun j ne => ?_, fun _ _ => rfl, fun _ _ => rfl, fun ne => ?_, fun ne => ?_, fun ne => ?_⟩
  · cases i <;> exact Function.update_of_ne ne ..
  all_goals cases i <;> first | rfl | exact absurd rfl ne

/-- The steps of a region. -/
lemma exec_touched {a : Step} {imm : Bool} (ha : a ∈ regionSteps i imm)
    (e : exec p s a = some s') : Touched i s s' := by
  have new : ∀ {r : Option State}, (∀ s'', r = some s'' → Touched i s s'') →
      s.ifNew i r = some s' → Touched i s s' := by
    intro r hr h
    rw [State.ifNew] at h
    split at h
    · cases h
      exact .refl ..
    · exact hr _ h
  have mem : a = .existsTest i ∨ a = .openFile i ∨ a = .writeEnd i ∨ a = .storeCurr i ∨
      a = .storeSize i ∨ a = .expand i ∨ a = .storeStart i ∨ a = .fetchStart i := by
    cases imm <;> simp [regionSteps] at ha <;> tauto
  rcases mem with rfl | rfl | rfl | rfl | rfl | rfl | rfl | rfl
  · cases e
    exact ⟨fun _ _ => rfl, fun _ ne => Function.update_of_ne ne .., fun _ _ => rfl, fun _ => rfl,
      fun _ => rfl, fun _ => rfl⟩
  · refine new (fun s'' h => ?_) e
    cases h
    exact .create ..
  · cases e
    exact .modFile ..
  · refine new (fun s'' h => ?_) e
    cases h
    exact .modFile ..
  · rw [exec] at e
    split at e
    · obtain ⟨f, -, h⟩ := Option.bind_eq_some_iff.1 e
      split at h
      · cases h
        exact .refl ..
      · cases h
    · cases e
      exact .modFile ..
  · refine new (fun s'' h => ?_) e
    obtain ⟨f, -, h⟩ := Option.bind_eq_some_iff.1 h
    obtain ⟨r, -, rfl⟩ := Option.map_eq_some_iff.1 h
    exact ⟨fun _ ne => Function.update_of_ne ne .., fun _ _ => rfl, fun _ _ => rfl, fun _ => rfl,
      fun _ => rfl, fun _ => rfl⟩
  · refine new (fun s'' h => ?_) e
    cases h
    exact .modFile ..
  · obtain ⟨f, -, h⟩ := Option.bind_eq_some_iff.1 e
    cases h
    exact ⟨fun _ _ => rfl, fun _ _ => rfl, fun _ ne => Function.update_of_ne ne .., fun _ => rfl,
      fun _ => rfl, fun _ => rfl⟩

/-- Any number of them. -/
lemma run_touched {as : List Step} {imm : Bool} (sub : as ⊆ regionSteps i imm)
    (e : run p as s = some s') : Touched i s s' := by
  induction as generalizing s with
  | nil =>
    cases e
    exact .refl ..
  | cons a as ih =>
    obtain ⟨s₁, h1, h2⟩ := Option.bind_eq_some_iff.1 e
    exact (exec_touched (sub List.mem_cons_self) h1).trans
      (ih (fun _ h => sub (List.mem_cons_of_mem _ h)) h2)

/-- What follows when the size is written leaves it alone. -/
lemma exec_size {a : Step} (ha : a = .expand i ∨ a = .storeStart i ∨ a = .fetchStart i)
    (hf : s.disk.file i = some f) (e : exec p s a = some s') :
    ∃ f', s'.disk.file i = some f' ∧ load f' 16 8 = load f 16 8 := by
  have new : ∀ {r : Option State}, (∀ s'', r = some s'' →
      ∃ f', s''.disk.file i = some f' ∧ load f' 16 8 = load f 16 8) →
      s.ifNew i r = some s' → ∃ f', s'.disk.file i = some f' ∧ load f' 16 8 = load f 16 8 := by
    intro r hr h
    rw [State.ifNew] at h
    split at h
    · cases h
      exact ⟨f, hf, rfl⟩
    · exact hr _ h
  rcases ha with rfl | rfl | rfl
  · refine new (fun s'' h => ?_) e
    obtain ⟨f₁, hf₁, h⟩ := Option.bind_eq_some_iff.1 h
    obtain ⟨⟨t, f'⟩, alloc, rfl⟩ := Option.map_eq_some_iff.1 h
    rw [hf] at hf₁
    cases hf₁
    refine ⟨f', Function.update_self .., ?_⟩
    obtain ⟨-, -, -, rfl⟩ := regionAllocator_some alloc
    exact load_store_out (by omega)
  · refine new (fun s'' h => ?_) e
    cases h
    refine ⟨storeStart (p.addr i) f s.space, ?_, load_store_out (by omega)⟩
    simp [State.modFile, hf]
  · obtain ⟨f₁, -, h⟩ := Option.bind_eq_some_iff.1 e
    cases h
    exact ⟨f, hf, rfl⟩

/-- None of these steps writes the size. -/
lemma run_size {as : List Step} (sub : as ⊆ [.expand i, .storeStart i, .fetchStart i])
    (hf : s.disk.file i = some f) (e : run p as s = some s') :
    ∃ f', s'.disk.file i = some f' ∧ load f' 16 8 = load f 16 8 := by
  induction as generalizing s f with
  | nil =>
    cases e
    exact ⟨f, hf, rfl⟩
  | cons a as ih =>
    obtain ⟨s₁, h1, h2⟩ := Option.bind_eq_some_iff.1 e
    obtain ⟨f₁, hf₁, e₁⟩ := exec_size (by simpa using sub List.mem_cons_self) hf h1
    obtain ⟨f₂, hf₂, e₂⟩ := ih (fun _ h => sub (List.mem_cons_of_mem _ h)) hf₁ h2
    exact ⟨f₂, hf₂, e₂.trans e₁⟩

/-- The first steps for a new file. -/
lemma run_opening {n : ℕ} (hn : n ≤ 5) (hf : s.disk.file i = none) (imm : Bool)
    (e : run p ((regionSteps i imm).take n) s = some s') :
    (n < 2 → s'.disk = s.disk) ∧ (2 ≤ n → ∃ f, s'.disk.file i = some f ∧
      (n < 5 → load f 16 8 = 0) ∧
      (5 ≤ n → f = mapPersistentRegion (i.filesize numSb) (p.addr i))) := by
  have zero : remapPersistentRegion (i.filesize numSb) (fun _ => 0) = fun _ => 0 :=
    Function.update_eq_self ..
  have file : (s.disk.create i).file i = some fun _ => 0 := by
    cases i <;> simp [Disk.create]
  have curr : load (setCurrAddr (p.addr i) (fun _ => 0) (mapCurrAddr (p.addr i))) 16 8 = 0 := by
    rw [setCurrAddr, load_store_out (by omega)]
    rfl
  interval_cases n <;>
    simp [regionSteps, run, exec, hf, State.ifNew, State.modFile, file, zero] at e <;>
    subst e <;> simp [mapPersistentRegion, curr, file]
  all_goals rfl

/-- The size in the header of a new file. -/
lemma load_map_size (p : Proc numSb) (i : RegionIndex) :
    load (mapPersistentRegion (i.filesize numSb) (p.addr i)) 16 8 = i.filesize numSb := by
  have := (filesize_bounds p i).2
  rw [mapPersistentRegion, load_store (by omega)]

/-- Any number of steps for a new file. -/
lemma partlyMade {imm : Bool} {n : ℕ} (hf : s.disk.file i = none)
    (e : run p ((regionSteps i imm).take n) s = some s') : PartlyMade numSb i n s s' := by
  refine ⟨run_touched (List.take_subset ..) e, fun hn => ?_, fun hn => ?_⟩
  · exact (run_opening (by omega) hf imm e).1 hn
  by_cases h5 : n ≤ 5
  · obtain ⟨f, h1, h2, h3⟩ := (run_opening h5 hf imm e).2 hn
    exact ⟨f, h1, h2, fun h => by rw [h3 h, load_map_size]⟩
  · -- five steps that make the header, and the rest
    obtain ⟨k, rfl⟩ : ∃ k, n = 5 + k := ⟨n - 5, by omega⟩
    rw [List.take_add, run_append] at e
    obtain ⟨s₁, e₁, e₂⟩ := Option.bind_eq_some_iff.1 e
    obtain ⟨f, h1, -, h3⟩ := (run_opening le_rfl hf imm e₁).2 (by decide)
    have sub : ((regionSteps i imm).drop 5).take k ⊆ [.expand i, .storeStart i, .fetchStart i] := by
      refine fun a ha => ?_
      have := List.mem_of_mem_take ha
      cases imm <;> simp [regionSteps] at this <;> simp [this]
    obtain ⟨f', hf', size⟩ := run_size sub h1 e₂
    exact ⟨f', hf', fun h => absurd h (by omega), fun _ => by rw [size, h3 le_rfl, load_map_size]⟩

/-- A new file of the superblock region has a header only. -/
lemma header_map (p : Proc numSb) (i : RegionIndex) :
    Header (mapPersistentRegion (i.filesize numSb) (p.addr i)) PAGESIZE 0 (i.filesize numSb) := by
  obtain ⟨h1, h2⟩ := filesize_bounds p i
  have lt : p.addr i + PAGESIZE < ADDR := by
    unfold PAGESIZE ADDR
    omega
  have curr : mapCurrAddr (p.addr i) = p.addr i + PAGESIZE :=
    Nat.mod_eq_of_lt (lt_trans lt (by decide))
  refine ⟨?_, ?_, load_map_size p i⟩
  · rw [mapPersistentRegion, load_store_out (by omega), setCurrAddr, curr,
      load_store (toPptrOff_lt lt (by omega)), toPptrOff_add _ (by decide)]
  · rw [mapPersistentRegion, load_store_out (by omega), load_setCurrAddr_start]
    rfl

/-- From its fifth step on the file of the superblocks has a whole header. -/
lemma sb_header {n : ℕ} (hn : 5 ≤ n) (hf : s.disk.file SB_IDX = none)
    (e : run p ((regionSteps SB_IDX false).take n) s = some s') :
    ∃ f, s'.disk.file SB_IDX = some f ∧ Header f PAGESIZE 0 (SB_IDX.filesize numSb) := by
  obtain ⟨k, rfl⟩ : ∃ k, n = 5 + k := ⟨n - 5, by omega⟩
  rw [List.take_add, run_append] at e
  obtain ⟨s₁, e₁, e₂⟩ := Option.bind_eq_some_iff.1 e
  obtain ⟨f, h1, -, h3⟩ := (run_opening le_rfl hf false e₁).2 (by decide)
  refine ⟨f, ?_, by rw [h3 le_rfl]; exact header_map p SB_IDX⟩
  have rest : (regionSteps SB_IDX false).drop 5 = [.fetchStart SB_IDX] := rfl
  rw [rest] at e₂
  cases k with
  | zero =>
    cases e₂
    exact h1
  | succ k =>
    simp [run, exec, h1] at e₂
    subst e₂
    exact h1

/-- A page is aligned for cache lines. -/
lemma alignUp_page (p : Proc numSb) (i : RegionIndex) :
    alignUp (p.addr i + PAGESIZE) CACHELINE_SIZE = p.addr i + PAGESIZE := by
  have page := p.page i
  rw [alignUp_eq (by decide), if_pos]
  unfold PAGESIZE at page ⊢
  unfold CACHELINE_SIZE
  omega

/-- There is room for the whole of the descriptors and of `BaseMeta`. -/
lemma exists_firstExpand (p : Proc numSb) (pos : 0 < numSb) (ne : i ≠ SB_IDX) :
    ∃ r, regionAllocator ⟨p.addr i, i.filesize numSb⟩
      (mapPersistentRegion (i.filesize numSb) (p.addr i)) i.alignment (i.firstSize numSb) =
        some r := by
  have size : 0 < i.bytes numSb ∧ i.alignment = CACHELINE_SIZE ∧
      i.firstSize numSb = i.bytes numSb := by
    cases i with
    | DESC_IDX => exact ⟨Nat.mul_pos pos (by decide), rfl, rfl⟩
    | SB_IDX => exact absurd rfl ne
    | META_IDX => exact ⟨show 0 < BASEMETA_SIZE by decide, rfl, rfl⟩
  refine firstExpand_some (p.map i) (currAddr_map (p.map i) (two_pages_le numSb i)) ?_ ?_
  · rw [size.2.2]
    exact size.1
  · rw [size.2.1, size.2.2]
    show alignUp (p.addr i + PAGESIZE) _ + _ ≤ p.addr i + _
    rw [alignUp_page, RegionIndex.filesize, fileSize]
    unfold PAGESIZE
    omega

/-- A new file that is expanded at once. -/
lemma run_region_new (pos : 0 < numSb) (ne : i ≠ SB_IDX) (hf : s.disk.file i = none) :
    ∃ r, regionAllocator ⟨p.addr i, i.filesize numSb⟩
        (mapPersistentRegion (i.filesize numSb) (p.addr i)) i.alignment (i.firstSize numSb) =
          some r ∧
      ∃ s', run p (regionSteps i true) s = some s' ∧ s'.existed i = false ∧
        s'.disk.avail = (s.disk.create i).avail ∧
        s'.disk.file i = some (storeStart (p.addr i) r.2 r.1) ∧
        s'.address i = fetchStart (p.addr i) (storeStart (p.addr i) r.2 r.1) := by
  obtain ⟨⟨t, f'⟩, alloc⟩ := exists_firstExpand p pos ne
  have zero : remapPersistentRegion (i.filesize numSb) (fun _ => 0) = fun _ => 0 :=
    Function.update_eq_self ..
  have file : (s.disk.create i).file i = some fun _ => 0 := by
    cases i <;> simp [Disk.create]
  refine ⟨(t, f'), alloc, ?_⟩
  rw [mapPersistentRegion] at alloc
  simp [regionSteps, run, exec, hf, State.ifNew, State.modFile, State.expand, file, zero, alloc, ne]

end region

section constructor

variable {f : Mem}

/-- The loop over the heaps. -/
lemma run_heaps (new : s.existed META_IDX = false) (n : ℕ) :
    run p ((List.range n).flatMap fun sc => [.partialList sc, .scIdx sc]) s = some { s with
      disk.part := fun sc => if sc < n then ⟨none, 0⟩ else s.disk.part sc
      disk.scIdx := fun sc => if sc < n then sc else s.disk.scIdx sc } := by
  induction n with
  | zero => rfl
  | succ n ih =>
    rw [List.range_succ, List.flatMap_append, run_append, ih]
    simp only [Option.bind_some, List.flatMap_cons, List.flatMap_nil, List.append_nil, run, exec,
      State.ifNew, new, Bool.false_eq_true, if_false]
    congr 4
    · funext sc
      by_cases e : sc = n
      · simp [e]
      · simp [Function.update_of_ne e, show sc < n + 1 ↔ sc < n by omega]
    · funext sc
      by_cases e : sc = n
      · simp [e]
      · simp [Function.update_of_ne e, show sc < n + 1 ↔ sc < n by omega]

/-- The loop over the roots. -/
lemma run_roots (new : s.existed META_IDX = false) (n : ℕ) :
    run p ((List.range n).map .root) s = some { s with
      disk.roots := fun i => if i < n then 0 else s.disk.roots i } := by
  induction n with
  | zero => rfl
  | succ n ih =>
    rw [List.range_succ, List.map_append, run_append, ih]
    simp only [Option.bind_some, List.map_cons, List.map_nil, run, exec, State.ifNew, new,
      Bool.false_eq_true, if_false]
    congr 3
    funext i
    by_cases e : i = n
    · simp [e, assignNullCross]
    · simp [Function.update_of_ne e, show i < n + 1 ↔ i < n by omega]

/-- The state after the constructor has expanded the superblock region; `r` is what the expansion
has returned. -/
def constructed (p : Proc numSb) (s : State) (r : ℕ × Mem) : State where
  disk := { s.disk with
    file := Function.update s.disk.file SB_IDX (some r.2)
    mtx := .held p.pid
    part := fun sc => if sc < MAX_SZ_IDX then ⟨none, 0⟩ else s.disk.part sc
    scIdx := fun sc => if sc < MAX_SZ_IDX then sc else s.disk.scIdx sc
    roots := fun i => if i < MAX_ROOTS then 0 else s.disk.roots i }
  existed := s.existed
  space := r.1
  address := s.address

/-- An expansion as a call of `region_allocator`. -/
lemma State.expand_eq (hf : s.disk.file i = some f) : s.expand p i =
    (regionAllocator ⟨p.addr i, i.filesize numSb⟩ f i.alignment (i.firstSize numSb)).map
      fun r => { s with disk.file := Function.update s.disk.file i (some r.2), space := r.1 } := by
  rw [State.expand, hf, Option.bind_some]

/-- The constructor of `BaseMeta` up to the expansion. -/
lemma run_metaSteps (new : s.existed META_IDX = false) (hf : s.disk.file SB_IDX = some f) :
    run p metaSteps s = (regionAllocator ⟨p.addr SB_IDX, SB_IDX.filesize numSb⟩ f SB_IDX.alignment
      (SB_IDX.firstSize numSb)).map (constructed p s) := by
  have first : run p [.mutexInit, .setDirty] s = some { s with disk.mtx := .held p.pid } := by
    simp [run, exec, State.ifNew, new, Ralloc.setDirty, Mutex.trylock]
  unfold metaSteps constructed
  generalize MAX_SZ_IDX = n, MAX_ROOTS = m
  rw [run_append, run_append, run_append, first, Option.bind_some, run_heaps (by exact new),
    Option.bind_some, run_roots (by exact new), Option.bind_some]
  simp only [run, exec, State.ifNew, new, Bool.false_eq_true, if_false]
  rw [State.expand_eq (by exact hf), Option.bind_fun_some]

/-- Consecutive descriptors, each linked to the next one and the last to `last`. -/
def chained (first m : ℕ) (last : Option ℕ) (desc : ℕ → Descriptor) : ℕ → Descriptor := fun d =>
  if first ≤ d ∧ d ≤ first + m then
    { Descriptor.reset with nextFree := if d < first + m then some (d + 1) else last }
  else desc d

/-- A single descriptor. -/
lemma chained_zero (a : ℕ) (desc : ℕ → Descriptor) :
    Function.update desc a .reset = chained a 0 none desc := by
  funext d
  rw [chained]
  by_cases e : d = a
  · rw [e, Function.update_self, if_pos ⟨le_rfl, le_rfl⟩, if_neg (by omega)]
    rfl
  · rw [Function.update_of_ne e, if_neg (by omega)]

/-- The last descriptor is linked. -/
lemma chained_last (a m : ℕ) (last : Option ℕ) (desc : ℕ → Descriptor) :
    Function.update (chained a m none desc) (a + m)
      { chained a m none desc (a + m) with nextFree := last } = chained a m last desc := by
  funext d
  by_cases e : d = a + m
  · have le : a ≤ a + m ∧ a + m ≤ a + m := ⟨by omega, le_rfl⟩
    rw [e, Function.update_self, chained, chained, if_pos le, if_pos le, if_neg (lt_irrefl _),
      if_neg (lt_irrefl _)]
  · rw [Function.update_of_ne e, chained, chained]
    by_cases le : a ≤ d ∧ d ≤ a + m
    · rw [if_pos le, if_pos le, if_pos (by omega), if_pos (by omega)]
    · rw [if_neg le, if_neg le]

/-- The next descriptor is constructed. -/
lemma chained_succ (a m : ℕ) (desc : ℕ → Descriptor) :
    Function.update (chained a m (some (a + m + 1)) desc) (a + (m + 1)) .reset =
      chained a (m + 1) none desc := by
  funext d
  rw [chained]
  by_cases e : d = a + (m + 1)
  · rw [e, Function.update_self, if_pos ⟨by omega, le_rfl⟩, if_neg (lt_irrefl _)]
    rfl
  · rw [Function.update_of_ne e, chained]
    by_cases le : a ≤ d ∧ d ≤ a + m
    · rw [if_pos le, if_pos (show a ≤ d ∧ d ≤ a + (m + 1) by omega),
        if_pos (show d < a + (m + 1) by omega)]
      split
      · rfl
      · rw [show d = a + m by omega]
    · rw [if_neg le, if_neg (by omega)]

/-- The descriptors after some steps. -/
def State.setDesc (s : State) (desc : ℕ → Descriptor) : State := { s with disk.desc := desc }

/-- Changing a descriptor as an update of the table. -/
lemma State.modDesc_eq (s : State) (d : ℕ) (g : Descriptor → Descriptor) :
    s.modDesc d g = s.setDesc (Function.update s.disk.desc d (g (s.disk.desc d))) := rfl

/-- The new table. -/
lemma State.setDesc_desc (s : State) (desc : ℕ → Descriptor) :
    (s.setDesc desc).disk.desc = desc := rfl

/-- The last table counts. -/
lemma State.setDesc_setDesc (s : State) (desc desc' : ℕ → Descriptor) :
    (s.setDesc desc).setDesc desc' = s.setDesc desc' := rfl

/-- The table has nothing to do with the files that existed. -/
lemma State.setDesc_existed (s : State) (desc : ℕ → Descriptor) :
    (s.setDesc desc).existed = s.existed := rfl

/-- Nor with `avail_sb`. -/
lemma State.setDesc_avail (s : State) (desc : ℕ → Descriptor) :
    (s.setDesc desc).disk.avail = s.disk.avail := rfl

/-- The first descriptor does not depend on the disk. -/
lemma State.setDesc_firstDesc (s : State) (desc : ℕ → Descriptor) :
    (s.setDesc desc).firstDesc = s.firstDesc := rfl

/-- The constructor of a descriptor. -/
lemma run_descSteps (new : s.existed META_IDX = false) (i : ℕ) :
    run p (descSteps i) s =
      some (s.setDesc (Function.update s.disk.desc (s.firstDesc + i) .reset)) := by
  simp only [descSteps, run, exec, State.ifNew, new, State.modDesc_eq, ctorWrite,
    Bool.false_eq_true, if_false, Option.bind_some, State.setDesc_desc, State.setDesc_setDesc,
    State.setDesc_existed, State.setDesc_firstDesc, Function.update_self, Function.update_idem]
  rfl

/-- The loop of `organize_sb_list`. -/
lemma run_organize_loop (new : s.existed META_IDX = false) (m : ℕ) :
    run p (descSteps 0 ++ (List.range m).flatMap fun i => .descLink i :: descSteps (i + 1)) s =
      some (s.setDesc (chained s.firstDesc m none s.disk.desc)) := by
  induction m with
  | zero =>
    rw [List.range_zero, List.flatMap_nil, List.append_nil, run_descSteps new, Nat.add_zero,
      chained_zero]
  | succ m ih =>
    rw [List.range_succ, List.flatMap_append, ← List.append_assoc, run_append, ih, Option.bind_some,
      List.flatMap_cons, List.flatMap_nil, List.append_nil, run, exec, State.ifNew,
      State.setDesc_existed, new, if_neg (by decide), Option.bind_some, State.modDesc_eq,
      State.setDesc_desc, State.setDesc_firstDesc, State.setDesc_setDesc, chained_last,
      run_descSteps (by exact new), State.setDesc_desc, State.setDesc_firstDesc, chained_succ,
      State.setDesc_setDesc]

/-- The push of `organize_sb_list`, which nobody disturbs. -/
lemma exec_pushCas (new : s.existed META_IDX = false) : exec p s .pushCas =
    some { s with disk.avail := ⟨some s.firstDesc, (s.disk.avail.cnt + 1) % CNT⟩ } := by
  rw [exec, State.ifNew, new, if_neg (by decide)]

/-- `organize_sb_list`. -/
lemma run_organizeSteps (new : s.existed META_IDX = false) :
    run p organizeSteps s = some { s.setDesc
        (chained s.firstDesc (WARM_SBS - 1) s.disk.avail.ptr s.disk.desc) with
      disk.avail := ⟨some s.firstDesc, (s.disk.avail.cnt + 1) % CNT⟩ } := by
  have push : ∀ m, (s.setDesc (chained s.firstDesc m none s.disk.desc)).modDesc (s.firstDesc + m)
      ({ · with nextFree := s.disk.avail.ptr }) =
        s.setDesc (chained s.firstDesc m s.disk.avail.ptr s.disk.desc) := by
    intro m
    rw [State.modDesc_eq, State.setDesc_desc, State.setDesc_setDesc, chained_last]
  unfold organizeSteps
  rw [run_append, run_organize_loop new, Option.bind_some, run, exec, State.ifNew,
    State.setDesc_existed, new, if_neg (by decide), Option.bind_some, State.setDesc_firstDesc,
    State.setDesc_avail, push, run, exec_pushCas (State.setDesc_existed s _ ▸ new),
    Option.bind_some, run, State.setDesc_firstDesc, State.setDesc_avail]

/-- The steps of the first part of the constructor. -/
lemma mem_metaSteps {a : Step} (ha : a ∈ metaSteps) :
    a = .mutexInit ∨ a = .setDirty ∨ (∃ sc, a = .partialList sc) ∨ (∃ sc, a = .scIdx sc) ∨
      (∃ i, a = .root i) ∨ a = .warmUp := by
  simp only [metaSteps, List.mem_append, List.mem_cons, List.not_mem_nil, or_false,
    List.mem_flatMap, List.mem_map] at ha
  rcases ha with ((h | ⟨sc, -, h⟩) | ⟨i, -, h⟩) | h
  · tauto
  · rcases h with h | h
    · exact .inr (.inr (.inl ⟨sc, h⟩))
    · exact .inr (.inr (.inr (.inl ⟨sc, h⟩)))
  · exact .inr (.inr (.inr (.inr (.inl ⟨i, h.symm⟩))))
  · exact .inr (.inr (.inr (.inr (.inr h))))

/-- The steps of `organize_sb_list`. -/
lemma mem_organizeSteps {a : Step} (ha : a ∈ organizeSteps) :
    (∃ i ph, a = .descCtor i ph) ∨ (∃ i, a = .descLink i) ∨ a = .pushStore ∨ a = .pushCas := by
  have desc : ∀ {i}, a ∈ descSteps i → ∃ i ph, a = .descCtor i ph := by
    intro i h
    simp only [descSteps, List.mem_cons, List.not_mem_nil, or_false] at h
    rcases h with h | h | h <;> exact ⟨_, _, h⟩
  simp only [organizeSteps, List.mem_append, List.mem_cons, List.not_mem_nil, or_false,
    List.mem_flatMap] at ha
  rcases ha with (h | ⟨i, -, h⟩) | h
  · exact .inl (desc h)
  · rcases h with h | h
    · exact .inr (.inl ⟨i, h⟩)
    · exact .inl (desc h)
  · exact .inr (.inr h)

/-- The steps of the constructor of `BaseMeta`. -/
def constructorSteps : List Step := metaSteps ++ .storeSbStart :: organizeSteps

/-- Each of them is left out if `_basemd` was there. -/
lemma exec_skip {a : Step} (ha : a ∈ constructorSteps) (old : s.existed META_IDX = true) :
    exec p s a = some s := by
  rw [constructorSteps, List.mem_append, List.mem_cons] at ha
  rcases ha with h | rfl | h
  · rcases mem_metaSteps h with rfl | rfl | ⟨sc, rfl⟩ | ⟨sc, rfl⟩ | ⟨i, rfl⟩ | rfl <;>
      exact if_pos old
  · exact if_pos old
  · rcases mem_organizeSteps h with ⟨i, ph, rfl⟩ | ⟨i, rfl⟩ | rfl | rfl <;> exact if_pos old

/-- All of them. -/
lemma run_skip {as : List Step} (sub : as ⊆ constructorSteps) (old : s.existed META_IDX = true) :
    run p as s = some s := by
  induction as with
  | nil => rfl
  | cons a as ih =>
    rw [run, exec_skip (sub List.mem_cons_self) old, Option.bind_some]
    exact ih fun _ h => sub (List.mem_cons_of_mem _ h)

/-- The heap start of the superblocks and the other files are kept. -/
structure StartKept (s s' : State) : Prop where
  file : ∀ j, j ≠ SB_IDX → s'.disk.file j = s.disk.file j
  sb : ∀ f, s.disk.file SB_IDX = some f →
    ∃ f', s'.disk.file SB_IDX = some f' ∧ load f' 8 8 = load f 8 8

/-- No file has changed. -/
lemma StartKept.of_eq (h : s'.disk.file = s.disk.file) : StartKept s s' :=
  ⟨fun j _ => congrFun h j, fun f hf => ⟨f, by rwa [h], rfl⟩⟩

/-- The first part of the constructor. -/
lemma exec_startKept {a : Step} (ha : a ∈ metaSteps) (e : exec p s a = some s') :
    StartKept s s' := by
  by_cases old : s.existed META_IDX = true
  · rw [exec_skip (List.mem_append_left _ ha) old] at e
    cases e
    exact .of_eq rfl
  rcases mem_metaSteps ha with rfl | rfl | ⟨sc, rfl⟩ | ⟨sc, rfl⟩ | ⟨i, rfl⟩ | rfl <;>
    rw [exec, State.ifNew, if_neg old] at e
  case inr.inl =>
    obtain ⟨m, -, rfl⟩ := Option.map_eq_some_iff.1 e
    exact .of_eq rfl
  case inr.inr.inr.inr.inr =>
    obtain ⟨f₀, hf₀, h⟩ := Option.bind_eq_some_iff.1 e
    obtain ⟨⟨t, f'⟩, alloc, rfl⟩ := Option.map_eq_some_iff.1 h
    refine ⟨fun j ne => Function.update_of_ne ne .., fun f hf => ⟨f', ?_, ?_⟩⟩
    · exact Function.update_self SB_IDX (some f') s.disk.file
    cases hf₀.symm.trans hf
    obtain ⟨-, -, -, rfl⟩ := regionAllocator_some alloc
    exact load_setCurrAddr_start
  all_goals
    cases e
    exact .of_eq rfl

/-- Any of these steps. -/
lemma run_startKept {as : List Step} (sub : as ⊆ metaSteps) (e : run p as s = some s') :
    StartKept s s' := by
  induction as generalizing s with
  | nil =>
    cases e
    exact .of_eq rfl
  | cons a as ih =>
    obtain ⟨s₁, h1, h2⟩ := Option.bind_eq_some_iff.1 e
    have k1 := exec_startKept (sub List.mem_cons_self) h1
    have k2 := ih (fun _ h => sub (List.mem_cons_of_mem _ h)) h2
    refine ⟨fun j ne => (k2.file j ne).trans (k1.file j ne), fun f hf => ?_⟩
    obtain ⟨f₁, hf₁, e₁⟩ := k1.sb f hf
    obtain ⟨f₂, hf₂, e₂⟩ := k2.sb f₁ hf₁
    exact ⟨f₂, hf₂, e₂.trans e₁⟩

/-- `organize_sb_list` only writes to descriptors and to `avail_sb`. -/
structure BaseKept (s s' : State) : Prop where
  file : s'.disk.file = s.disk.file
  mtx : s'.disk.mtx = s.disk.mtx
  scIdx : s'.disk.scIdx = s.disk.scIdx
  roots : s'.disk.roots = s.disk.roots

/-- One step of `organize_sb_list`. -/
lemma exec_baseKept {a : Step} (ha : a ∈ organizeSteps) (e : exec p s a = some s') :
    BaseKept s s' := by
  by_cases old : s.existed META_IDX = true
  · rw [exec_skip (List.mem_append_right _ (List.mem_cons_of_mem _ ha)) old] at e
    cases e
    exact ⟨rfl, rfl, rfl, rfl⟩
  rcases mem_organizeSteps ha with ⟨i, ph, rfl⟩ | ⟨i, rfl⟩ | rfl | rfl
  all_goals
    rw [exec, State.ifNew, if_neg old] at e
    cases e
    exact ⟨rfl, rfl, rfl, rfl⟩

/-- Any of them. -/
lemma run_baseKept {as : List Step} (sub : as ⊆ organizeSteps) (e : run p as s = some s') :
    BaseKept s s' := by
  induction as generalizing s with
  | nil =>
    cases e
    exact ⟨rfl, rfl, rfl, rfl⟩
  | cons a as ih =>
    obtain ⟨s₁, h1, h2⟩ := Option.bind_eq_some_iff.1 e
    have k1 := exec_baseKept (sub List.mem_cons_self) h1
    have k2 := ih (fun _ h => sub (List.mem_cons_of_mem _ h)) h2
    exact ⟨k2.file.trans k1.file, k2.mtx.trans k1.mtx, k2.scIdx.trans k1.scIdx,
      k2.roots.trans k1.roots⟩

end constructor

end Init

end Ralloc
