import Ralloc.Lib.CountedStack
import Ralloc.Model.CrossPtr

/-!
# The lists of descriptors as stacks

`avail_sb` and the partial lists, with the words that are really in memory: `heap_push_partial`,
`heap_pop_partial`, `organize_sb_list`, `small_sb_retire` and the pop of `small_sb_alloc`, at every
load, store and compare-and-swap. The calls are those of `CountedStack`, at the packed words of
`AtomicCrossPtrCnt`; between the calls a thread may change the links of the descriptors it owns.

`counted_stacks`: the chains from the heads are what a stack holds on which a successful push puts
its descriptors on top and a successful pop takes the top one.
-/

namespace Ralloc

namespace Stacks

open Lib CountedStack

/-- The descriptors a counted word can point to, by index; index 0 is the null offset. -/
abbrev DescId := {d : ℕ // 1 ≤ d ∧ d < 2 ^ MAX_DESC_AMOUNT_BITS}

/-- The link fields of a descriptor. -/
inductive LinkField where
  | nextFree
  | nextPartial
  deriving DecidableEq, Repr

/-- The field that links a list. -/
def linkField : ListId → LinkField
  | .avail => .nextFree
  | .part _ => .nextPartial

/-- The descriptor at an offset. -/
def ofOff (off : ℕ) : Option DescId :=
  if h : 1 ≤ off / DESCSIZE ∧ off / DESCSIZE < 2 ^ MAX_DESC_AMOUNT_BITS then some ⟨_, h⟩ else none

/-- `AtomicCrossPtrCnt::load`. -/
def loadWord (w : ℕ) : Option DescId × ℕ :=
  (if isNullCross (wordOff w) then none else ofOff (wordOff w), wordCnt w)

/-- What is stored is loaded again, but for the bits of the counter that have no room. -/
lemma loadWord_countedWord (p : Option DescId) (c : ℕ) :
    loadWord (countedWord ⟨p.map Subtype.val, c⟩) = (p, c % CNT) := by
  have small : ∀ d ∈ p.map Subtype.val, d < 2 ^ MAX_DESC_AMOUNT_BITS := by
    intro d hd
    obtain ⟨e, -, rfl⟩ := Option.map_eq_some_iff.1 hd
    exact e.2.2
  rw [loadWord, countedWord, wordOff_counted (descOff_lt small), wordCnt_counted (descOff_lt small)]
  cases p with
  | none => rfl
  | some d =>
    have div : descOff (some d.1) / DESCSIZE = d.1 := Nat.mul_div_cancel _ (by decide)
    rw [Option.map_some, isNullCross_descOff d.2.1, if_neg (by decide), ofOff,
      dif_pos (by rw [div]; exact d.2)]
    simp only [div]

/-- The packed word. -/
def codec : Codec DescId ℕ where
  size := CNT
  enc p c := countedWord ⟨p.map Subtype.val, c⟩
  dec := loadWord
  dec_enc := loadWord_countedWord

/-- The links, as `Descriptor::Descriptor` leaves them. -/
def ctorStores (d : DescId) : List (Store DescId LinkField) :=
  [⟨.nextFree, d, none⟩, ⟨.nextPartial, d, none⟩]

/-- What `organize_sb_list` does to descriptors before it pushes them: each is constructed and then
linked to the next one. -/
def organizeStores : List DescId → List (Store DescId LinkField)
  | [] => []
  | [d] => ctorStores d
  | d :: e :: ds => ctorStores d ++ ⟨.nextFree, d, some e⟩ :: organizeStores (e :: ds)

/-- The calls. -/
inductive Call where
  | heapPushPartial (sc : ℕ) (d : DescId)
  | heapPopPartial (sc : ℕ)
  /-- with the descriptors from that of `start` on -/
  | organizeSbList (ds : List DescId)
  /-- up to the return or the expansion of the region -/
  | smallSbAlloc
  | smallSbRetire (d : DescId)

namespace Call

/-- The descriptors that a call pushes. -/
def pushes : Call → List DescId
  | heapPushPartial _ d => [d]
  | heapPopPartial _ => []
  | organizeSbList ds => ds
  | smallSbAlloc => []
  | smallSbRetire d => [d]

/-- What a call does. -/
def act (t : ℕ) : Call → CountedStack.Act DescId ListId LinkField
  | heapPushPartial sc d => .push t [] (.part sc) [d]
  | heapPopPartial sc => .pop t (.part sc)
  | organizeSbList ds => .push t (organizeStores ds) .avail ds
  | smallSbAlloc => .pop t .avail
  | smallSbRetire d => .push t (ctorStores d) .avail [d]

/-- The descriptors of `organize_sb_list` follow each other. -/
def Consecutive : Call → Prop
  | organizeSbList ds => ∃ start count, 0 < count ∧ ds.map Subtype.val = List.range' start count
  | _ => True

end Call

/-- The words and links of the lists, the owners of descriptors and where the threads are. -/
abbrev State := Sys DescId ListId LinkField ℕ

/-- What can happen: a call, with descriptors that the caller owns; a step of a thread, with or
without a spurious failure; what owners do with their descriptors in between. -/
inductive Step where
  | call (t : ℕ) (c : Call)
  | run (t : ℕ) (spur : Bool)
  | store (t : ℕ) (w : Store DescId LinkField)
  | acquire (t : ℕ) (d : DescId)
  | release (t : ℕ) (d : DescId)

/-- The action of the stacks. -/
def Step.act : Step → CountedStack.Act DescId ListId LinkField
  | call t c => c.act t
  | run t spur => .run t spur
  | store t w => .store t w
  | acquire t d => .acquire t d
  | release t d => .release t d

/-- Threads push and write only descriptors that they own, a descriptor gets an owner only if it has
none and is on no list, and fewer than `CNT` pushes happen on a list between the load of the head
and the compare-and-swap of a pop. -/
def Step.Allowed (s : State) : Step → Prop
  | call t c => s.pc t = .idle ∧ c.Consecutive ∧ ∀ d ∈ c.pushes, s.owner d = some t
  | run t spur => CountedStack.Allowed codec linkField s (.run t spur)
  | store t w => CountedStack.Allowed codec linkField s (.store t w)
  | acquire t d => CountedStack.Allowed codec linkField s (.acquire t d)
  | release t d => CountedStack.Allowed codec linkField s (.release t d)

/-- A run from `s₀` to `s`, with the successful compare-and-swaps in it. -/
inductive StackRun (s₀ : State) : State → List (Event DescId ListId) → Prop
  | refl : StackRun s₀ s₀ []
  | step {s es} (run : StackRun s₀ s es) (a : Step) (allowed : a.Allowed s) :
    StackRun s₀ (CountedStack.step codec linkField s a.act).1
      (es ++ (CountedStack.step codec linkField s a.act).2.toList)

variable {s₀ s : State} {es : List (Event DescId ListId)}

/-- Only the descriptors of `organize_sb_list` are written to. -/
lemma organizeStores_cell {ds : List DescId} {w : Store DescId LinkField}
    (hw : w ∈ organizeStores ds) : w.cell ∈ ds := by
  fun_induction organizeStores ds with
  | case1 => simp at hw
  | case2 d =>
    simp only [ctorStores, List.mem_cons, List.not_mem_nil, or_false] at hw
    rcases hw with rfl | rfl <;> simp
  | case3 d e ds ih =>
    simp only [ctorStores, List.mem_append, List.mem_cons, List.not_mem_nil, or_false] at hw
    rcases hw with (rfl | rfl) | rfl | hw
    · simp
    · simp
    · simp
    · exact List.mem_cons_of_mem _ (ih hw)

/-- `organize_sb_list` links its descriptors into a chain. -/
lemma organizeStores_chained {ds : List DescId} (nodup : ds.Nodup)
    (next : LinkField → DescId → Option DescId) :
    Chained (applyAll (organizeStores ds) next .nextFree) ds := by
  fun_induction organizeStores ds generalizing next with
  | case1 => exact .nil
  | case2 d => exact .singleton d
  | case3 d e ds ih =>
    obtain ⟨hd, hds⟩ := List.nodup_cons.1 nodup
    rw [applyAll, List.foldl_append, List.foldl_cons]
    refine List.isChain_cons_cons.2 ⟨?_, ih hds _⟩
    have ne : ∀ w ∈ organizeStores (e :: ds), d ≠ w.cell := fun w hw h =>
      hd (h ▸ organizeStores_cell hw)
    exact (applyAll_of_ne _ ne).trans (Store.apply_self (w := ⟨LinkField.nextFree, d, some e⟩))

/-- What the caller of an operation owns is what the stacks ask for. -/
lemma Call.allowed {t : ℕ} {c : Call} (idle : s.pc t = .idle) (cons : c.Consecutive)
    (owner : ∀ d ∈ c.pushes, s.owner d = some t) :
    CountedStack.Allowed codec linkField s (c.act t) := by
  have single : ∀ {d}, s.owner d = some t → Owns s t [d] := fun h =>
    ⟨by simp, by simp, by simpa using h⟩
  cases c with
  | heapPushPartial sc d =>
    exact ⟨idle, single (owner d (by simp [pushes])), by simp, .singleton d⟩
  | heapPopPartial sc => exact idle
  | organizeSbList ds =>
    obtain ⟨start, count, pos, e⟩ := cons
    have nodup : ds.Nodup := .of_map _ (e ▸ List.nodup_range')
    have ne : ds ≠ [] := by
      rintro rfl
      have := congrArg List.length e
      rw [List.map_nil, List.length_nil, List.length_range'] at this
      omega
    exact ⟨idle, ⟨ne, nodup, owner⟩, fun w hw => owner _ (organizeStores_cell hw),
      organizeStores_chained nodup _⟩
  | smallSbAlloc => exact idle
  | smallSbRetire d =>
    have hd : s.owner d = some t := owner d (by simp [pushes])
    refine ⟨idle, single hd, fun w hw => ?_, .singleton d⟩
    have : w.cell ∈ [d] := organizeStores_cell hw
    rwa [List.mem_singleton.1 this]

/-- Runs of the calls are runs of the stacks. -/
lemma StackRun.toRun (run : StackRun s₀ s es) : CountedStack.Run codec linkField s₀ s es := by
  induction run with
  | refl => exact .refl
  | step run a allowed ih =>
    refine .step ih a.act ?_
    cases a with
    | call t c => exact Call.allowed allowed.1 allowed.2.1 allowed.2.2
    | run t spur => exact allowed
    | store t w => exact allowed
    | acquire t d => exact allowed
    | release t d => exact allowed

/-- In every interleaving the chains from the heads of `avail_sb` and the partial lists are finite
and without duplicates, no descriptor is on two of them, and they are what stacks hold on which each
successful push puts its descriptors on top and each successful pop takes the top one. No descriptor
is popped twice without a push of it in between. -/
theorem counted_stacks {A₀ : Abs DescId ListId} (start : Matches codec linkField s₀ A₀)
    (idle : ∀ t, s₀.pc t = .idle) (run : StackRun s₀ s es) :
    ∃ A, A₀.run es = some A ∧ Matches codec linkField s A ∧ PushedBetween es :=
  run_spec start idle run.toRun

/-- A sequence of steps. -/
def play (s : State) : List Step → State × List (Event DescId ListId)
  | [] => (s, [])
  | a :: as =>
    let r := CountedStack.step codec linkField s a.act
    ((play r.1 as).1, r.2.toList ++ (play r.1 as).2)

/-- Every step of a sequence is allowed when its turn comes. -/
def AllAllowed (s : State) : List Step → Prop
  | [] => True
  | a :: as => a.Allowed s ∧ AllAllowed (CountedStack.step codec linkField s a.act).1 as

/-- A sequence of allowed steps is a run. -/
lemma StackRun.play (run : StackRun s₀ s es) {as : List Step} (allowed : AllAllowed s as) :
    StackRun s₀ (play s as).1 (es ++ (play s as).2) := by
  induction as generalizing s es with
  | nil => simpa [Stacks.play] using run
  | cons a as ih =>
    obtain ⟨ha, has⟩ := allowed
    simpa [Stacks.play, List.append_assoc] using ih (run.step a ha) has

/-- Descriptor 1. -/
def descOne : DescId := ⟨1, by decide⟩

/-- Empty lists; thread 0 owns descriptor 1. -/
def ownsOne : State where
  word _ := 0
  next _ _ := none
  owner d := if d = descOne then some 0 else none
  pc _ := .idle
  pushes _ := 0

/-- Thread 0 retires a superblock and thread 1 takes it, with a spurious failure on the way. -/
def retireAndTake : List Step :=
  [.call 0 (.smallSbRetire descOne), .call 1 .smallSbAlloc, .run 0 false, .run 0 false,
    .run 0 false, .run 0 false, .run 0 true, .run 0 false, .run 0 false, .run 1 false, .run 1 false,
    .run 1 false]

/-- The two calls are a push and a pop of the same descriptor, in spite of the failure. -/
theorem counted_stacks_retire_take :
    (play ownsOne retireAndTake).2 = [.pushed 0 .avail [descOne], .popped 1 .avail descOne] ∧
      ∃ A, Abs.run (fun _ => []) (play ownsOne retireAndTake).2 = some A ∧
        Matches codec linkField (play ownsOne retireAndTake).1 A ∧
        PushedBetween (play ownsOne retireAndTake).2 := by
  have empty : loadWord 0 = (none, 0) := by decide
  have start : Matches codec linkField ownsOne fun _ => [] := by
    refine ⟨fun _ => ?_, fun _ => .nil, fun hd => absurd hd (by simp),
      fun hd => absurd hd (by simp), fun _ => ?_⟩
    · show IsList _ (loadWord 0).1 []
      rw [empty]
      rfl
    · show (loadWord 0).2 = 0 % CNT
      rw [empty, Nat.zero_mod]
  refine ⟨by rfl, counted_stacks start (fun _ => rfl) ?_⟩
  refine StackRun.play .refl ⟨⟨rfl, trivial, ?_⟩, ⟨rfl, trivial, ?_⟩, trivial, trivial, trivial,
    trivial, trivial, trivial, trivial, trivial, trivial, ?_, trivial⟩
  · intro d hd
    rw [List.mem_singleton.1 hd]
    rfl
  · intro d hd
    cases hd
  · show 1 - 1 < CNT
    decide

end Stacks

end Ralloc
