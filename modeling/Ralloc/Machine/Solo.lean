import Ralloc.Machine.Exec
import Mathlib.Logic.Relation

/-!
# Runs of one thread

`Solo cfg t r r'`: thread `t` alone can get from `r` to `r'`. `Fixed cfg t r r'`: it has no other
way to go, because no compare-and-swap on the way can fail. The one computation that is done here is
`organize_solo`: `organize_sb_list` constructs and links the descriptors of a stretch of superblocks
and pushes them on `avail_sb` in one piece, and nothing else can come out of it
(`organize_forward`). The constructor of the heap, an expansion of the region and the free of a
large block all end in it.
-/

namespace Ralloc

open Lib SuperblockState

variable {cfg : Cfg} {t : ℕ}

/-- Thread `t` alone gets from `r` to `r'`. -/
def Solo (cfg : Cfg) (t : ℕ) : Heap × PC → Heap × PC → Prop :=
  Relation.ReflTransGen fun r r' => ∃ spur, exec cfg t spur r.1 r.2 = r'

/-- No step. -/
lemma Solo.refl (r : Heap × PC) : Solo cfg t r r := Relation.ReflTransGen.refl

/-- One run after another. -/
lemma Solo.trans {r r' r'' : Heap × PC} (h : Solo cfg t r r') (h' : Solo cfg t r' r'') :
    Solo cfg t r r'' := Relation.ReflTransGen.trans h h'

/-- The first step of a run. -/
lemma Solo.step (spur : Bool) {h : Heap} {pc : PC} {r r' : Heap × PC}
    (e : exec cfg t spur h pc = r) (hr : Solo cfg t r r') : Solo cfg t (h, pc) r' :=
  Relation.ReflTransGen.head ⟨spur, e⟩ hr

/-- Thread `t` alone gets from `r` to `r'` whatever compare-and-swaps fail. -/
def Fixed (cfg : Cfg) (t : ℕ) : Heap × PC → Heap × PC → Prop :=
  Relation.ReflTransGen fun r r' => r.2 ≠ .idle ∧ ∀ spur, exec cfg t spur r.1 r.2 = r'

/-- No step. -/
lemma Fixed.refl (r : Heap × PC) : Fixed cfg t r r := Relation.ReflTransGen.refl

/-- One after another. -/
lemma Fixed.trans {r r' r'' : Heap × PC} (h : Fixed cfg t r r') (h' : Fixed cfg t r' r'') :
    Fixed cfg t r r'' := Relation.ReflTransGen.trans h h'

/-- The first step of such a run. -/
lemma Fixed.step {h : Heap} {pc : PC} {r r' : Heap × PC} (ne : pc ≠ .idle)
    (e : ∀ spur, exec cfg t spur h pc = r) (hr : Fixed cfg t r r') : Fixed cfg t (h, pc) r' :=
  Relation.ReflTransGen.head ⟨ne, e⟩ hr

/-- A fixed run is a run. -/
lemma Fixed.solo {r r' : Heap × PC} (h : Fixed cfg t r r') : Solo cfg t r r' :=
  Relation.ReflTransGen.mono (fun _ _ st => ⟨false, st.2 false⟩) _ _ h

/-- Every run to the end of the call leads through the states of a fixed one. -/
lemma Fixed.forward {r r' : Heap × PC} {h : Heap} (fixed : Fixed cfg t r r')
    (run : Solo cfg t r (h, .idle)) : Solo cfg t r' (h, .idle) := by
  induction fixed using Relation.ReflTransGen.head_induction_on with
  | refl => exact run
  | @head r r₁ st _ ih =>
    obtain ⟨ne, det⟩ := st
    rcases Relation.ReflTransGen.cases_head run with rfl | ⟨r₂, ⟨spur, e⟩, run⟩
    · exact absurd rfl ne
    · rw [det spur] at e
      subst e
      exact ih run

/-- Thread `t` alone gets from `r` to `r'`, and every run of it to the end of the call leads through
`r'`. -/
structure Via (cfg : Cfg) (t : ℕ) (r r' : Heap × PC) : Prop where
  solo : Solo cfg t r r'
  forward : ∀ {g}, Solo cfg t r (g, .idle) → Solo cfg t r' (g, .idle)

/-- No step. -/
lemma Via.refl (r : Heap × PC) : Via cfg t r r := ⟨.refl r, id⟩

/-- One after another. -/
lemma Via.trans {r r' r'' : Heap × PC} (v : Via cfg t r r') (v' : Via cfg t r' r'') :
    Via cfg t r r'' := ⟨v.solo.trans v'.solo, fun run => v'.forward (v.forward run)⟩

/-- Where nothing can fail there is only one way. -/
lemma Fixed.via {r r' : Heap × PC} (fixed : Fixed cfg t r r') : Via cfg t r r' :=
  ⟨fixed.solo, fixed.forward⟩

/-- A loop around a weak compare-and-swap: if it fails, the thread gets back to where it was. -/
lemma Via.retry {a c r : Heap × PC} (go : exec cfg t false c.1 c.2 = r)
    (fail : exec cfg t true c.1 c.2 = a) (back : ∀ spur, exec cfg t spur a.1 a.2 = c)
    (nec : c.2 ≠ .idle) (nea : a.2 ≠ .idle) : Via cfg t c r := by
  refine ⟨.step false go (.refl _), fun {g} run => ?_⟩
  have key : ∀ x, Solo cfg t x (g, .idle) → x = c ∨ x = a → Solo cfg t r (g, .idle) := by
    intro x run
    induction run using Relation.ReflTransGen.head_induction_on with
    | refl => rintro (rfl | rfl) <;> exact absurd rfl ‹_›
    | @head x y st run ih =>
      obtain ⟨spur, rfl⟩ := st
      rintro (rfl | rfl)
      · cases spur with
        | true => exact ih (.inr fail)
        | false => exact go ▸ run
      · exact ih (.inl (back spur))
  exact key c run (.inl rfl)

/-- The last write to a descriptor counts. -/
lemma Heap.setDesc_setDesc (h : Heap) (d : ℕ) (D D' : Descriptor) :
    (h.setDesc d D).setDesc d D' = h.setDesc d D' := by
  simp [Heap.setDesc]

/-- `Descriptor::Descriptor` resets its descriptor. -/
lemma ctor_fixed (cfg : Cfg) (t : ℕ) (h : Heap) (d : ℕ) (k : CtorK) :
    Fixed cfg t (h, .ctor d .nextFree k) (h.setDesc d .reset, ctorDone d k) := by
  have e : ∀ g ph spur, exec cfg t spur g (.ctor d ph k) =
      (g.setDesc d (ctorWrite (g.desc d) ph), ctorNext d k ph) := fun g ph spur => by rw [exec]
  have ne : ∀ ph, PC.ctor d ph k ≠ .idle := fun ph => by simp
  refine .step (ne _) (e _ _) (.step (ne _) (e _ _) (.step (ne _) (e _ _) (.step (ne _) (e _ _)
    (.step (ne _) (e _ _) ?_))))
  simp only [Heap.desc_setDesc_self, Heap.setDesc_setDesc]
  exact .refl _

/-- The first `n` descriptors from `start` on are constructed and linked. -/
def chain (h : Heap) (start n : ℕ) : Heap :=
  { h with desc := fun d => if start ≤ d ∧ d < start + n then .chained d else h.desc d }

/-- No descriptor is linked yet. -/
lemma chain_zero (h : Heap) (start : ℕ) : chain h start 0 = h := by
  have : (fun d => if start ≤ d ∧ d < start + 0 then .chained d else h.desc d) = h.desc := by
    funext d
    rw [if_neg (by omega)]
  rw [chain, this]

/-- One more is. -/
lemma chain_succ (h : Heap) (start n : ℕ) :
    (chain h start n).setDesc (start + n) (.chained (start + n)) = chain h start (n + 1) := by
  have : Function.update (chain h start n).desc (start + n) (.chained (start + n)) =
      (chain h start (n + 1)).desc := by
    funext d
    by_cases e : d = start + n
    · subst e
      rw [Function.update_self, chain]
      exact (if_pos (by omega)).symm
    · rw [Function.update_of_ne e, chain, chain]
      exact if_congr (by omega) rfl rfl
  rw [Heap.setDesc, this]
  rfl

/-- The heap after `organize_sb_list(start, count)`: the descriptors are reset but for their links,
which lead to the next one and from the last one to the old list. -/
def organized (h : Heap) (start count : ℕ) : Heap :=
  { h with
    desc := fun d =>
      if start ≤ d ∧ d < start + count then
        { Descriptor.reset with
          nextFree := if d + 1 < start + count then some (d + 1) else (h.head .avail).ptr }
      else h.desc d
    head := Function.update h.head .avail ⟨some start, ((h.head .avail).cnt + 1) % CNT⟩
    pushes := Function.update h.pushes .avail (h.pushes .avail + 1) }

/-- The loop of `organize_sb_list` from its `i`-th turn on. -/
lemma organize_loop (cfg : Cfg) (t : ℕ) (h : Heap) (start i count : ℕ) (k : PushK) (n : ℕ)
    (hn : i + n + 1 = count) :
    Fixed cfg t (chain h start i, .ctor (start + i) .nextFree (.organize start count i k))
      ((chain h start (count - 1)).setDesc (start + (count - 1)) .reset,
        .pushLoad start (start + (count - 1)) k) := by
  induction n generalizing i with
  | zero =>
    obtain rfl : count = i + 1 := by omega
    have := ctor_fixed cfg t (chain h start i) (start + i) (.organize start (i + 1) i k)
    rwa [ctorDone, if_neg (by omega)] at this
  | succ n ih =>
    have next := ih (i + 1) (by omega)
    rw [← chain_succ] at next
    refine (ctor_fixed cfg t _ _ _).trans ?_
    rw [ctorDone, if_pos (by omega)]
    refine .step (by simp) (fun spur => ?_) next
    rw [exec, Heap.desc_setDesc_self, Heap.setDesc_setDesc]
    rfl

/-- The heap after a push of `first .. last` on a list. -/
def pushedOn (h : Heap) (l : ListId) (first last : ℕ) : Heap :=
  { (h.setDesc last ((h.desc last).setNext l (h.head l).ptr)).setHead l
      ⟨some first, ((h.head l).cnt + 1) % CNT⟩ with
    pushes := Function.update h.pushes l (h.pushes l + 1) }

/-- The heap after a push of `first .. last` on `avail_sb`. -/
def pushedAvail (h : Heap) (first last : ℕ) : Heap :=
  { (h.setDesc last { h.desc last with nextFree := (h.head .avail).ptr }).setHead .avail
      ⟨some first, ((h.head .avail).cnt + 1) % CNT⟩ with
    pushes := Function.update h.pushes .avail (h.pushes .avail + 1) }

/-- The last write to a link counts. -/
lemma Descriptor.setNext_setNext (D : Descriptor) (l : ListId) (v v' : Option ℕ) :
    (D.setNext l v).setNext l v' = D.setNext l v' := by
  cases l <;> rfl

/-- A push of thread `t` alone, from the store of the link on. -/
lemma push_via (cfg : Cfg) (t : ℕ) (h : Heap) {l : ListId} {first : ℕ} (last : ℕ) (k : PushK)
    (ne : l = .avail ∨ (h.head l).ptr ≠ some first) :
    Via cfg t (h, .pushStore l first last (h.see l) k)
    (pushedOn h l first last, pushDone cfg k) := by
  let h₁ := h.setDesc last ((h.desc last).setNext l (h.head l).ptr)
  have again : h₁.setDesc last ((h₁.desc last).setNext l (h.head l).ptr) = h₁ := by
    simp only [h₁, Heap.desc_setDesc_self, Descriptor.setNext_setNext, Heap.setDesc_setDesc]
  have store : ∀ (g : Heap) spur, exec cfg t spur g (.pushStore l first last (h.see l) k) =
      (g.setDesc last ((g.desc last).setNext l (h.head l).ptr), .pushCas l first last
      (h.see l) k) := by
    intro g spur
    rw [exec, check, if_pos (by exact ne)]
    rfl
  have cas : Via cfg t (h₁, .pushCas l first last (h.see l) k)
      (pushedOn h l first last, pushDone cfg k) := by
    refine .retry (a := (h₁, .pushStore l first last (h.see l) k)) ?_ ?_ (fun spur => ?_) (by simp)
      (by simp)
    · rw [exec, if_pos ⟨rfl, by simp⟩]
      rfl
    · rw [exec, if_neg (by simp)]
      rfl
    · rw [store h₁, again]
  exact (Fixed.step (by simp) (store h) (.refl _)).via.trans cas

/-- A push on `avail_sb` of thread `t` alone. -/
lemma push_avail_via (cfg : Cfg) (t : ℕ) (h : Heap) (first last : ℕ) (k : PushK) :
    Via cfg t (h, .pushLoad first last k) (pushedAvail h first last, pushDone cfg k) :=
  (Fixed.step (by simp) (fun _ => by rw [exec]) (.refl _)).via.trans
    (push_via cfg t h last k (.inl rfl))

/-- What the loop and the push of `organize_sb_list` do together. -/
lemma organized_eq (h : Heap) (start n : ℕ) :
    pushedAvail ((chain h start n).setDesc (start + n) .reset) start (start + n) =
      organized h start (n + 1) := by
  have desc : Function.update (Function.update (chain h start n).desc (start + n) .reset)
    (start + n)
      { Descriptor.reset with nextFree := (h.head .avail).ptr } =
      (organized h start (n + 1)).desc := by
    funext d
    by_cases e : d = start + n
    · subst e
      rw [Function.update_self, organized]
      simp only
      rw [if_pos (by omega), if_neg (by omega)]
    · simp only [Function.update_of_ne e, chain, organized]
      by_cases hd : start ≤ d ∧ d < start + n
      · rw [if_pos hd, if_pos (by omega), if_pos (by omega)]
        rfl
      · rw [if_neg hd, if_neg (by omega)]
  rw [pushedAvail, Heap.desc_setDesc_self]
  simp only [Heap.setDesc, Heap.setHead]
  rw [show ((chain h start n).head .avail).ptr = (h.head .avail).ptr from rfl, desc]
  rfl

/-- `organize_sb_list` up to its push. -/
lemma organize_fixed (cfg : Cfg) (t : ℕ) (h : Heap) (start n : ℕ) (k : PushK) :
    Fixed cfg t (h, .ctor start .nextFree (.organize start (n + 1) 0 k))
      ((chain h start n).setDesc (start + n) .reset, .pushLoad start (start + n) k) := by
  have loop := organize_loop cfg t h start 0 (n + 1) k n (by omega)
  rwa [chain_zero] at loop

/-- `organize_sb_list` of thread `t` alone. -/
theorem organize_solo (cfg : Cfg) (t : ℕ) (h : Heap) {start count : ℕ} (pos : 0 < count)
    (k : PushK) :
    Solo cfg t (h, .ctor start .nextFree (.organize start count 0 k))
      (organized h start count, pushDone cfg k) := by
  obtain ⟨n, rfl⟩ := Nat.exists_eq_succ_of_ne_zero pos.ne'
  refine (organize_fixed cfg t h start n k).solo.trans ?_
  rw [Nat.succ_eq_add_one, ← organized_eq]
  exact (push_avail_via ..).solo

/-- Every run of `organize_sb_list` does the same. -/
theorem organize_forward {g : Heap} {start count : ℕ} (pos : 0 < count) {k : PushK}
    {h : Heap} (run : Solo cfg t (h, .ctor start .nextFree (.organize start count 0 k))
      (g, .idle)) :
    Solo cfg t (organized h start count, pushDone cfg k) (g, .idle) := by
  obtain ⟨n, rfl⟩ := Nat.exists_eq_succ_of_ne_zero pos.ne'
  rw [Nat.succ_eq_add_one, ← organized_eq]
  exact (push_avail_via ..).forward ((organize_fixed cfg t h start n k).forward run)

end Ralloc
