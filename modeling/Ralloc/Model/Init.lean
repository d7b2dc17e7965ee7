import Ralloc.Machine.Exec
import Ralloc.Model.Mark
import Ralloc.Model.RegionFile
import Ralloc.Recovery.Dirty

/-!
# Initialisation

Model of `_RP_init`, of the constructor of `BaseMeta`, and of `BaseMeta::restart`, on what is on
disk. `_RP_init` is a list of steps, each with at most one persistent effect, so that a process can
crash between any two of them. The same list is run when the files are there already: each file is
looked for first, and the steps that create it are skipped if it exists; the constructor of
`BaseMeta` is skipped if `_basemd` exists.

Of a file only the header is modelled as bytes; the descriptors and `BaseMeta` are kept apart from
it and are all zero in a new file. If the offset of the heap start of `_basemd` is still 0, a later
process takes the header for `BaseMeta`; here it sees a `BaseMeta` of zeros.
-/

namespace Ralloc

namespace Init

open Lib RegionIndex

/-- What is on disk. -/
structure Disk where
  /-- each file, if it exists -/
  file : RegionIndex → Option Mem
  mtx : Mutex ℕ
  avail : PtrCnt
  part : ℕ → PtrCnt
  scIdx : ℕ → ℕ
  roots : ℕ → ℕ
  desc : ℕ → Descriptor

/-- No files. -/
def Disk.none : Disk :=
  ⟨fun _ => .none, .free, ⟨.none, 0⟩, fun _ => ⟨.none, 0⟩, fun _ => 0, fun _ => 0, fun _ => .reset⟩

/-- A new file, all zero. -/
def Disk.create (d : Disk) (i : RegionIndex) : Disk :=
  let d := { d with file := Function.update d.file i (some fun _ => 0) }
  match i with
  | DESC_IDX => { d with desc := fun _ => .reset }
  | SB_IDX => d
  | META_IDX =>
    { d with
      mtx := .free, avail := ⟨.none, 0⟩, part := fun _ => ⟨.none, 0⟩, scIdx := fun _ => 0
      roots := fun _ => 0 }

/-- A process that uses a heap of `numSb` superblocks, and where `mmap` places the files. -/
structure Proc (numSb : ℕ) where
  pid : ℕ
  addr : RegionIndex → ℕ
  page : ∀ i, addr i % PAGESIZE = 0
  bound : ∀ i, addr i + i.filesize numSb ≤ ADDR

/-- Where a file is mapped. -/
def Proc.map {numSb : ℕ} (p : Proc numSb) (i : RegionIndex) : MapAddr (i.filesize numSb) :=
  ⟨p.addr i, p.page i, p.bound i⟩

/-- The disk, and the locals of `_RP_init`: which files were there, the space that the last
expansion has returned, and `regions_address`. -/
structure State where
  disk : Disk
  existed : RegionIndex → Bool
  space : ℕ
  address : RegionIndex → ℕ

/-- Before `_RP_init`. -/
def State.new (disk : Disk) : State := ⟨disk, fun _ => false, 0, fun _ => 0⟩

/-- The steps. -/
inductive Step where
  -- `RegionManager::RegionManager`
  | existsTest (i : RegionIndex)
  | openFile (i : RegionIndex)
  | writeEnd (i : RegionIndex)
  | storeCurr (i : RegionIndex)
  | storeSize (i : RegionIndex)
  | expand (i : RegionIndex)
  | storeStart (i : RegionIndex)
  -- the rest of `Regions::create` and `Regions::create_for`
  | fetchStart (i : RegionIndex)
  -- `BaseMeta::BaseMeta`
  | mutexInit
  | setDirty
  | partialList (sc : ℕ)
  | scIdx (sc : ℕ)
  | root (i : ℕ)
  | warmUp
  | storeSbStart
  -- `organize_sb_list`
  | descCtor (i : ℕ) (ph : CtorPhase)
  | descLink (i : ℕ)
  | pushStore
  | pushCas
  deriving DecidableEq

/-- The number of superblocks that the constructor puts on `avail_sb`; the first one is skipped. -/
def WARM_SBS : ℕ := EXPAND_SBS - 1

namespace State

variable {numSb : ℕ} (p : Proc numSb) (s : State)

/-- Write to a file. -/
def modFile (i : RegionIndex) (f : Mem → Mem) : State :=
  { s with disk.file := Function.update s.disk.file i ((s.disk.file i).map f) }

/-- Write to a descriptor. -/
def modDesc (d : ℕ) (f : Descriptor → Descriptor) : State :=
  { s with disk.desc := Function.update s.disk.desc d (f (s.disk.desc d)) }

/-- `__nvm_region_allocator` for the first expansion of a region. -/
def expand (i : RegionIndex) : Option State :=
  (s.disk.file i).bind fun f =>
    (regionAllocator ⟨p.addr i, i.filesize numSb⟩ f i.alignment (i.firstSize numSb)).map
      fun (t, f') => { s with disk.file := Function.update s.disk.file i (some f'), space := t }

/-- The descriptor of the first superblock that is not skipped. -/
def firstDesc : ℕ := sbIndex (s.address SB_IDX) (s.space + SBSIZE)

/-- A step that is left out if the file was there. -/
def ifNew (i : RegionIndex) (r : Option State) : Option State := if s.existed i then some s else r

end State

/-- One step; `none` if an assertion fails. -/
def exec {numSb : ℕ} (p : Proc numSb) (s : State) : Step → Option State
  | .existsTest i =>
    some { s with existed := Function.update s.existed i (s.disk.file i).isSome }
  | .openFile i => s.ifNew i (some { s with disk := s.disk.create i })
  | .writeEnd i => some (s.modFile i (remapPersistentRegion (i.filesize numSb)))
  | .storeCurr i =>
    s.ifNew i (some (s.modFile i fun f => setCurrAddr (p.addr i) f (mapCurrAddr (p.addr i))))
  | .storeSize i =>
    if s.existed i then
      (s.disk.file i).bind fun f => if load f 16 8 = i.filesize numSb then some s else none
    else some (s.modFile i fun f => store f 16 8 (i.filesize numSb))
  | .expand i => s.ifNew i (s.expand p i)
  | .storeStart i =>
    s.ifNew i (some (s.modFile i fun f => Ralloc.storeStart (p.addr i) f s.space))
  | .fetchStart i =>
    (s.disk.file i).bind fun f =>
      some { s with
        address := Function.update s.address i
          (if i ≠ SB_IDX ∨ s.existed i then Ralloc.fetchStart (p.addr i) f else 0) }
  | .mutexInit => s.ifNew META_IDX (some { s with disk.mtx := .free })
  | .setDirty =>
    s.ifNew META_IDX ((Ralloc.setDirty p.pid s.disk.mtx).map fun m => { s with disk.mtx := m })
  | .partialList sc =>
    s.ifNew META_IDX (some { s with disk.part := Function.update s.disk.part sc ⟨none, 0⟩ })
  | .scIdx sc => s.ifNew META_IDX (some { s with disk.scIdx := Function.update s.disk.scIdx sc sc })
  | .root i =>
    s.ifNew META_IDX (some { s with disk.roots := Function.update s.disk.roots i assignNullCross })
  | .warmUp => s.ifNew META_IDX (s.expand p SB_IDX)
  | .storeSbStart =>
    s.ifNew META_IDX (some
      { s.modFile SB_IDX fun f => Ralloc.storeStart (p.addr SB_IDX) f s.space with
        address := Function.update s.address SB_IDX s.space })
  | .descCtor i ph => s.ifNew META_IDX (some (s.modDesc (s.firstDesc + i) (ctorWrite · ph)))
  | .descLink i =>
    s.ifNew META_IDX (some (s.modDesc (s.firstDesc + i)
      ({ · with nextFree := some (s.firstDesc + i + 1) })))
  | .pushStore =>
    s.ifNew META_IDX (some (s.modDesc (s.firstDesc + (WARM_SBS - 1))
      ({ · with nextFree := s.disk.avail.ptr })))
  | .pushCas =>
    s.ifNew META_IDX (some
      { s with disk.avail := ⟨some s.firstDesc, (s.disk.avail.cnt + 1) % CNT⟩ })

/-- Steps in order. -/
def run {numSb : ℕ} (p : Proc numSb) : List Step → State → Option State
  | [], s => some s
  | a :: as, s => (exec p s a).bind (run p as)

/-- `RegionManager::RegionManager` and what `Regions` does then; `imm` is `imm_expand`. -/
def regionSteps (i : RegionIndex) (imm : Bool) : List Step :=
  [.existsTest i, .openFile i, .writeEnd i, .storeCurr i, .storeSize i] ++
    (if imm then [.expand i, .storeStart i] else []) ++ [.fetchStart i]

/-- The constructor of `BaseMeta` up to the expansion of the superblock region. -/
def metaSteps : List Step :=
  [.mutexInit, .setDirty] ++ (List.range MAX_SZ_IDX).flatMap
    (fun sc => [.partialList sc, .scIdx sc]) ++
    (List.range MAX_ROOTS).map .root ++ [.warmUp]

/-- `Descriptor::Descriptor`. -/
def descSteps (i : ℕ) : List Step :=
  [.descCtor i .nextFree, .descCtor i .nextPartial, .descCtor i .fields]

/-- `organize_sb_list`. -/
def organizeSteps : List Step :=
  descSteps 0 ++ (List.range (WARM_SBS - 1)).flatMap (fun i => .descLink i :: descSteps (i + 1)) ++
    [.pushStore, .pushCas]

/-- `_RP_init`. -/
def initSteps : List Step :=
  regionSteps DESC_IDX true ++ (regionSteps SB_IDX false ++ (regionSteps META_IDX true ++
    (metaSteps ++ .storeSbStart :: organizeSteps)))

/-- `RP_init`. -/
def rpInit {numSb : ℕ} (p : Proc numSb) (disk : Disk) : Option State :=
  run p initSteps (.new disk)

/-- The heap that the garbage collection works on; nothing is in the superblocks. -/
def heapOf {numSb : ℕ} (p : Proc numSb) (s : State) (f : Mem) : Heap where
  currAddr := currAddr (p.addr SB_IDX) f
  head
    | .avail => s.disk.avail
    | .part sc => s.disk.part sc
  pushes _ := 0
  desc := s.disk.desc
  mem _ := 0
  roots := s.disk.roots
  cache _ _ := ⟨0, 0⟩
  client _ := .none
  req _ := 0
  ret _ := 0

/-- The garbage collection, if it ends with a result. -/
def gc {numSb : ℕ} (fuel : ℕ) (p : Proc numSb) (s : State) : Option State :=
  (s.disk.file SB_IDX).bind fun f =>
    match collectFrom (s.address SB_IDX) fuel (heapOf p s f) with
    | .done (_, w) =>
      some { s with
        disk.avail := w.heap.head .avail
        disk.part := fun sc => w.heap.head (.part sc)
        disk.desc := w.heap.desc }
    | _ => none

/-- `RP_recover`, which is `BaseMeta::restart`. -/
def rpRecover {numSb : ℕ} (fuel : ℕ) (p : Proc numSb) (s : State) : Option State :=
  let (dirty, m) := isDirty p.pid s.disk.mtx
  let s := { s with disk.mtx := m }
  (if dirty then gc fuel p s else some s).bind fun s =>
    (setDirty p.pid s.disk.mtx).map fun m => { s with disk.mtx := m }

/-- The process `pid` dies. -/
def Disk.die (d : Disk) (pid : ℕ) : Disk := { d with mtx := d.mtx.die pid }

end Init

end Ralloc
