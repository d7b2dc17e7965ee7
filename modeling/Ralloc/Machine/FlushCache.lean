import Ralloc.Machine.Calls
import Ralloc.Machine.GiveBack

/-!
# `flush_cache` alone

What `flush_cache` and `public_flush_cache` do when no other thread runs, from any heap whose caches
and superblocks are consistent. The inner loop of a turn finds a run of blocks of one superblock
(`exists_front`), the compare-and-swap puts it on the free list of the superblock (`flush_via`), and
the superblock is pushed on its partial list or retired if it was full (`gaveBack_via`).
`flush_cache_spec` follows by induction over the cache and over the size classes.
-/

namespace Ralloc

open Lib SuperblockState

variable {cfg : Cfg} {t sc d : ℕ} {h h' : Heap}

section turn

variable {R rest : List ℕ} {tail i : ℕ} {k : FlushK}

/-- The run that the next turn takes out of the cache: its blocks, the last one, and the index of
the first one in its superblock. -/
structure Front (cfg : Cfg) (h : Heap) (t sc d : ℕ) (R rest : List ℕ) (tail i : ℕ) : Prop where
  split : cachedBlocks h t sc = R ++ rest
  sub : ∀ b ∈ R, b ∈ cfg.blocks sc d
  head : R.head? = some (cfg.blk sc d i)
  lt : i < maxcount sc
  last : R.getLast? = some tail

/-- The inner loop finds the run. -/
lemma exists_front (small : SmallClass sc) (now : Consistent cfg h sc d)
    (cls : ∀ x ∈ cachedBlocks h t sc, ∃ e, x ∈ cfg.blocks sc e)
    (ne : (h.cache t sc).num ≠ 0) (hd : (h.cache t sc).block ∈ cfg.blocks sc d) :
    ∃ R rest tail i, Front cfg h t sc d R rest tail i ∧
      ∀ spur k, exec cfg t spur h (.flushHead sc k) =
      (h.setCache t sc ⟨h.link tail, (h.cache t sc).num - R.length⟩,
        .flushLoad sc ⟨d, cfg.sb d, (h.cache t sc).block, tail, R.length, i⟩ k) := by
  obtain ⟨n, hn⟩ := Nat.exists_eq_succ_of_ne_zero ne
  have hC : cachedBlocks h t sc = (h.cache t sc).block ::
      walk h.link (h.link (h.cache t sc).block) n := by
    rw [cachedBlocks, hn, walk]
  generalize hl : walk h.link (h.link (h.cache t sc).block) n = l at hC
  generalize hb : (h.cache t sc).block = b at hC hd ⊢
  have linked : Linked h.link (cachedBlocks h t sc) := linked_walk
  rw [hC] at linked
  have hlen : (h.cache t sc).num - 1 = l.length := by
    rw [hn, ← hl, length_walk]
    rfl
  obtain ⟨R, rest, tail, hscan, hsplit, htail, hrange⟩ :=
    scanRun_spec (cfg.sb d) (cfg.sb d + SBSIZE) l b 1 linked
  obtain ⟨i, hi, hbi⟩ := Cfg.mem_blocks.1 hd
  refine ⟨b :: R, rest, tail, i,
    ⟨by rw [hC, hsplit]; rfl, fun x hx => ?_, by rw [hbi]; rfl, hi, htail⟩, fun spur k => ?_⟩
  · rcases List.mem_cons.1 hx with rfl | hx
    · exact hd
    · obtain ⟨e, he⟩ := cls x (by rw [hC, hsplit]; simp [hx])
      by_cases e' : e = d
      · exact e' ▸ he
      · have := hrange x hx
        rcases Cfg.not_mem_range_of_ne small he e' with h1 | h1 <;> omega
  · have idx : computeIdx (cfg.sb d) b sc = some i := hbi ▸ Cfg.computeIdx_blk small hi
    have le : 1 + R.length ≤ (h.cache t sc).num := by
      have := congrArg List.length hsplit
      rw [List.length_append] at this
      omega
    rw [exec, if_neg ne]
    dsimp only
    rw [hb, Cfg.sbIndex_of_mem small now.inside hd, now.superblock, Option.getD_some,
      small.sbSize_eq, hlen, hscan]
    generalize computeIdx (cfg.sb d) b sc = x at idx ⊢
    subst idx
    dsimp only
    rw [check, if_pos le, List.length_cons, Nat.add_comm R.length 1]

/-- The heap after the compare-and-swap of the turn. -/
def spliced (cfg : Cfg) (h : Heap) (t sc d tail n : ℕ) (new : Anchor) : Heap :=
  ((h.setCache t sc ⟨h.link tail, (h.cache t sc).num - n⟩).setLink tail
    (cfg.sb d + (h.desc d).anchor.avail * blockSize sc)).setDesc d { h.desc d with anchor := new }

/-- A turn up to its compare-and-swap. -/
lemma flush_via (small : SmallClass sc) (now : Consistent cfg h sc d)
    (notEmpty : (h.desc d).anchor.state ≠ SB_EMPTY) (front : Front cfg h t sc d R rest tail i)
    (start : ∀ spur k, exec cfg t spur h (.flushHead sc k) =
      (h.setCache t sc ⟨h.link tail, (h.cache t sc).num - R.length⟩,
        .flushLoad sc ⟨d, cfg.sb d, (h.cache t sc).block, tail, R.length, i⟩ k))
    (room : (freeBlocks h d).length + R.length ≤ maxcount sc) (k : FlushK) :
    Via cfg t (h, .flushHead sc k)
      (spliced cfg h t sc d tail R.length (giveAnchor (h.desc d).anchor i R.length (maxcount sc)),
        gaveBack cfg sc ⟨d, cfg.sb d, (h.cache t sc).block, tail, R.length, i⟩ (h.desc d).anchor
          (giveAnchor (h.desc d).anchor i R.length (maxcount sc)) k) := by
  have pos : 0 < R.length := by
    have := front.head
    cases R with
    | nil => simp at this
    | cons b R => simp
  have count := now.count notEmpty
  have four := small.four_le
  have lt : (h.desc d).anchor.count < maxcount sc := by omega
  have avail_ok : (h.desc d).anchor.avail < maxcount sc ∨ (h.desc d).anchor.state = SB_FULL := by
    rcases now.anchor with ⟨full, -⟩ | ⟨-, pos, -⟩ | ⟨empty, -⟩
    · exact .inr full
    · exact .inl (now.avail_lt small (List.ne_nil_of_length_pos (by omega)))
    · exact absurd empty notEmpty
  generalize hold : (h.desc d).anchor = old at notEmpty count lt avail_ok ⊢
  generalize hr : (⟨d, cfg.sb d, (h.cache t sc).block, tail, R.length, i⟩ : Run) = r at start ⊢
  generalize h₁e : h.setCache t sc ⟨h.link tail, (h.cache t sc).num - R.length⟩ = h₁ at start
  have rd : r.d = d := hr ▸ rfl
  have desc₁ : h₁.desc = h.desc := h₁e ▸ rfl
  let h₂ := h₁.setLink tail (cfg.sb d + old.avail * blockSize sc)
  have store : ∀ g : Heap, g.desc = h.desc → ∀ spur, exec cfg t spur g (.flushStore sc r old k) =
      (g.setLink tail (cfg.sb d + old.avail * blockSize sc), .flushCas sc r old k) := by
    intro g hg spur
    rw [exec]
    simp only [rd, hg, now.maxcount]
    rw [check, if_pos lt, ← hr]
  have again : h₂.setLink tail (cfg.sb d + old.avail * blockSize sc) = h₂ := by
    simp only [h₂, Heap.setLink, store_store]
  have first : Fixed cfg t (h, .flushHead sc k) (h₂, .flushCas sc r old k) := by
    refine .step (by simp) (fun spur => start spur k) (.step (by simp) (fun spur => ?_)
      (.step (by simp) (store h₁ desc₁) (.refl _)))
    rw [exec, desc₁, rd, hold]
  have desc₂ : h₂.desc = h.desc := desc₁
  refine first.via.trans
    (.retry (a := (h₂, .flushStore sc r old k)) ?_ ?_ (fun spur => ?_) (by simp)
    (by simp))
  · have count' : (giveAnchor old i R.length (maxcount sc)).count < maxcount sc := by
      unfold giveAnchor
      split <;> dsimp only <;> omega
    have avail : (giveAnchor old i R.length (maxcount sc)).avail = i := by
      unfold giveAnchor
      split <;> rfl
    rw [exec]
    simp only [desc₂, rd, hold, now.maxcount, Bool.false_eq_true, not_false_eq_true,
      and_self, if_true]
    rw [show r.idx = i from hr ▸ rfl, show r.count = R.length from hr ▸ rfl, check,
      if_pos ⟨avail_ok, by rw [avail]; exact front.lt, count'⟩]
    simp only [spliced, hold, h₁e, h₂, now.maxcount]
  · rw [exec]
    simp only [desc₂, rd, hold, not_true_eq_false, and_false, if_false]
  · rw [store h₂ desc₁, again]

/-- The anchor after a turn. -/
lemma giveAnchor_spec (now : Consistent cfg h sc d) (notEmpty : (h.desc d).anchor.state ≠ SB_EMPTY)
    (i : ℕ) {n : ℕ} (room : (freeBlocks h d).length + n ≤ maxcount sc) {new : Anchor}
    (e : giveAnchor (h.desc d).anchor i n (maxcount sc) = new) : new.avail = i ∧
      (new.state = SB_PARTIAL ∧ new.count = (freeBlocks h d).length + n ∧ new.count < maxcount sc ∨
        new.state = SB_EMPTY ∧ new.count = maxcount sc - 1 ∧
          (freeBlocks h d).length + n = maxcount sc) := by
  have count := now.count notEmpty
  rw [giveAnchor, count] at e
  split at e
  case isTrue full =>
    subst e
    exact ⟨rfl, .inr ⟨rfl, rfl, full⟩⟩
  case isFalse more =>
    subst e
    refine ⟨rfl, .inl ⟨?_, rfl, by dsimp only; omega⟩⟩
    rcases now.anchor with ⟨full, -⟩ | ⟨part, -⟩ | ⟨empty, -⟩
    · simp [full]
    · simp [part]
    · exact absurd empty notEmpty

/-- The run fits into its superblock. -/
lemma Front.room (front : Front cfg h t sc d R rest tail i) (now : Consistent cfg h sc d)
    (nd : R.Nodup) (out : ∀ b ∈ R, b ∉ freeBlocks h d) : (R ++ freeBlocks h d).Nodup ∧
      (∀ b ∈ R ++ freeBlocks h d, b ∈ cfg.blocks sc d) ∧
      (freeBlocks h d).length + R.length ≤ maxcount sc := by
  have nd' : (R ++ freeBlocks h d).Nodup := by
    refine List.nodup_append.2 ⟨nd, now.nodup, ?_⟩
    rintro a ha b hb rfl
    exact out a ha hb
  have sub : ∀ b ∈ R ++ freeBlocks h d, b ∈ cfg.blocks sc d := by
    intro b hb
    rcases List.mem_append.1 hb with hb | hb
    · exact front.sub b hb
    · exact now.sub b hb
  have le := (List.subperm_of_subset nd' sub).length_le
  rw [List.length_append, Cfg.length_blocks] at le
  exact ⟨nd', sub, by omega⟩

/-- The last block of a run is one of it. -/
lemma Front.tail_mem (front : Front cfg h t sc d R rest tail i) : tail ∈ R :=
  List.mem_of_getLast? front.last

/-- The turn changes the link of the last block of the run only. -/
lemma link_spliced (small : SmallClass sc) (front : Front cfg h t sc d R rest tail i) {n b e : ℕ}
    {new : Anchor} (hb : b ∈ cfg.blocks sc e) (ne : b ≠ tail) :
    (spliced cfg h t sc d tail n new).link b = h.link b :=
  Heap.link_setLink_ne ne (Cfg.mod_of_mem small (front.sub tail front.tail_mem))
    (Cfg.mod_of_mem small hb)

/-- What is left in the cache. -/
lemma cachedBlocks_spliced (small : SmallClass sc) (front : Front cfg h t sc d R rest tail i)
    (cls : ∀ x ∈ cachedBlocks h t sc, ∃ e, x ∈ cfg.blocks sc e) (nd : (cachedBlocks h t sc).Nodup)
    (new : Anchor) : cachedBlocks (spliced cfg h t sc d tail R.length new) t sc = rest := by
  have bin : (spliced cfg h t sc d tail R.length new).cache t sc =
      ⟨h.link tail, (h.cache t sc).num - R.length⟩ := Heap.cache_setCache_self ..
  have len : (h.cache t sc).num = R.length + rest.length := by
    rw [← List.length_append, ← front.split, length_cachedBlocks]
  have linked : Linked h.link (R ++ rest) := front.split ▸ linked_walk
  rw [front.split] at nd cls
  rw [cachedBlocks, bin]
  refine Linked.walk_eq' (linked.right.congr fun b hb => ?_) (fun ne => ?_) (by dsimp only; omega)
  · have hb := List.dropLast_subset _ hb
    obtain ⟨e, he⟩ := cls b (List.mem_append_right _ hb)
    refine link_spliced small front he ?_
    rintro rfl
    exact (List.nodup_append.1 nd).2.2 b front.tail_mem b hb rfl
  · obtain ⟨b, rest', rfl⟩ := List.exists_cons_of_ne_nil ne
    obtain ⟨R', rfl⟩ := List.getLast?_eq_some_iff.1 front.last
    rw [linked.seam]
    rfl

/-- The free blocks after the turn. -/
lemma freeBlocks_spliced (small : SmallClass sc) (now : Consistent cfg h sc d)
    (notEmpty : (h.desc d).anchor.state ≠ SB_EMPTY) (front : Front cfg h t sc d R rest tail i)
    (nd : (R ++ freeBlocks h d).Nodup) (sub : ∀ b ∈ R ++ freeBlocks h d, b ∈ cfg.blocks sc d)
    (room : (freeBlocks h d).length + R.length ≤ maxcount sc) {new : Anchor}
    (e : giveAnchor (h.desc d).anchor i R.length (maxcount sc) = new) :
    freeBlocks (spliced cfg h t sc d tail R.length new) d = R ++ freeBlocks h d := by
  obtain ⟨avail, state⟩ := giveAnchor_spec now notEmpty i room e
  have desc : (spliced cfg h t sc d tail R.length new).desc d = { h.desc d with anchor := new } :=
    Heap.desc_setDesc_self ..
  have linked : Linked h.link R := by
    have : Linked h.link (R ++ rest) := front.split ▸ linked_walk
    exact this.left
  have ltail := Cfg.lt_of_mem small now.inside (front.sub tail front.tail_mem)
  have apart : ∀ b ∈ freeBlocks h d, b ≠ tail := by
    rintro b hb rfl
    exact (List.nodup_append.1 nd).2.2 b front.tail_mem b hb rfl
  rw [freeBlocks, desc]
  refine Linked.walk_eq' ?_ (fun _ => ?_) ?_
  · obtain ⟨R', rfl⟩ := List.getLast?_eq_some_iff.1 front.last
    have ndR := (List.nodup_append.1 nd).1
    refine Linked.append (linked.congr fun b hb => ?_) (linked_walk.congr fun b hb => ?_)
      fun b hb => ?_
    · rw [List.dropLast_concat] at hb
      refine link_spliced small front (sub b (by simp [hb])) ?_
      rintro rfl
      exact (List.nodup_append.1 ndR).2.2 b hb b (by simp) rfl
    · have hb := List.dropLast_subset _ hb
      exact link_spliced small front (now.sub b hb) (apart b hb)
    · have ne : freeBlocks h d ≠ [] := by
        intro nil
        rw [nil] at hb
        cases hb
      have first := now.head ne
      rw [first] at hb
      cases hb
      exact Heap.link_setLink_self ltail
        (Cfg.lt_of_mem small now.inside (now.sub _ (List.mem_of_head? first)))
  · rw [List.head?_append, front.head, now.superblock, now.blockSize, Option.getD_some,
      avail, Cfg.blk, Option.some_or]
  · rw [List.length_append, freeCount]
    rcases state with ⟨st, cnt, -⟩ | ⟨st, -, all⟩
    · simp only [st, cnt]
      omega
    · simp only [st, now.maxcount]
      omega

/-- The superblock after the turn. -/
lemma consistent_spliced (small : SmallClass sc) (now : Consistent cfg h sc d)
    (notEmpty : (h.desc d).anchor.state ≠ SB_EMPTY) (front : Front cfg h t sc d R rest tail i)
    (nd : (R ++ freeBlocks h d).Nodup) (sub : ∀ b ∈ R ++ freeBlocks h d, b ∈ cfg.blocks sc d)
    (room : (freeBlocks h d).length + R.length ≤ maxcount sc) {new : Anchor}
    (e : giveAnchor (h.desc d).anchor i R.length (maxcount sc) = new) :
    Consistent cfg (spliced cfg h t sc d tail R.length new) sc d := by
  have free := freeBlocks_spliced small now notEmpty front nd sub room e
  have desc : (spliced cfg h t sc d tail R.length new).desc d = { h.desc d with anchor := new } :=
    Heap.desc_setDesc_self ..
  obtain ⟨-, state⟩ := giveAnchor_spec now notEmpty i room e
  have pos : 0 < R.length := List.length_pos_of_mem front.tail_mem
  refine ⟨now.inside, ?_, ?_, ?_, ?_, ?_, ?_, ?_⟩
  · rw [desc]
    exact now.heap
  · rw [desc]
    exact now.blockSize
  · rw [desc]
    exact now.maxcount
  · rw [desc]
    exact now.superblock
  · rw [free]
    exact sub
  · rw [free]
    exact nd
  · rw [desc]
    rcases state with ⟨st, cnt, lt⟩ | ⟨st, cnt, -⟩
    · exact .inr (.inl ⟨st, by dsimp only; omega, lt⟩)
    · exact .inr (.inr ⟨st, cnt⟩)

/-- The rest of the heap. -/
lemma spliced_frame (front : Front cfg h t sc d R rest tail i) (n : ℕ) (new : Anchor) :
    Spliced h (spliced cfg h t sc d tail n new) t sc d R := by
  refine ⟨fun e ne => Heap.desc_setDesc_ne ne, fun a out => store_out ?_, fun u c ne => ?_,
    fun c _ => rfl, rfl, rfl, rfl, rfl, rfl⟩
  · exact out tail front.tail_mem
  · show (h.setCache t sc _).cache u c = h.cache u c
    by_cases hu : u = t
    · subst hu
      exact Heap.cache_setCache_class (ne.resolve_left (not_not.2 rfl))
    · rw [Heap.cache_setCache_thread hu]

/-- A list does not change as long as its own links do not. -/
lemma Heap.Lists.frame {l : ListId} {D : List ℕ} (ls : h.Lists l D) (head : h'.head l = h.head l)
    (next : ∀ e ∈ D, (h'.desc e).next l = (h.desc e).next l) : h'.Lists l D := by
  rw [Heap.Lists, head]
  exact ls.congr next

/-- A push. -/
lemma Heap.Lists.push {l : ListId} {D : List ℕ} (ls : h.Lists l D) (out : d ∉ D) :
    (pushedOn h l d d).Lists l (d :: D) := by
  have head : ((pushedOn h l d d).head l).ptr = some d := by
    simp [pushedOn, Heap.setHead]
  have first : ((pushedOn h l d d).desc d).next l = (h.head l).ptr := by
    cases l <;> simp [pushedOn, Heap.setHead, Heap.setDesc, Descriptor.setNext, Descriptor.next]
  refine ⟨head, ?_⟩
  beta_reduce
  rw [first]
  refine IsList.congr ls fun e he => ?_
  have ne : e ≠ d := fun e' => out (e' ▸ he)
  show ((h.setDesc d _).desc e).next l = _
  rw [Heap.desc_setDesc_ne ne]

/-- A push leaves the other superblocks and the other lists alone. -/
lemma Spliced.push {l : ListId} {R : List ℕ} (sp : Spliced h h' t sc d R)
    (hl : ∀ c, l = .part c → c = sc) : Spliced h (pushedOn h' l d d) t sc d R := by
  refine ⟨fun e ne => ?_, sp.mem, sp.cache, fun c ne => ?_, sp.rest⟩
  · show (h'.setDesc d _).desc e = _
    rw [Heap.desc_setDesc_ne ne, sp.desc e ne]
  · show (Function.update h'.head l _) (.part c) = _
    rw [Function.update_of_ne fun e => ne (hl c e.symm), sp.head c ne]

/-- Another write to the descriptor. -/
lemma Spliced.setDesc (sp : Spliced h h' t sc d R) (D : Descriptor) :
    Spliced h (h'.setDesc d D) t sc d R :=
  ⟨fun e ne => (Heap.desc_setDesc_ne ne).trans (sp.desc e ne), sp.mem, sp.cache, sp.head, sp.rest⟩

/-- What a turn does after its compare-and-swap. -/
lemma gaveBack_via (r : Run) (old new : Anchor) (heap : (h.desc r.d).heap = some sc)
    (sb : r.superblock = cfg.sb r.d) (inside : cfg.Inside r.d)
    (notHead : old.state = SB_FULL → (h.head (.part sc)).ptr ≠ some r.d) (k : FlushK) :
    Via cfg t (h, gaveBack cfg sc r old new k)
      (if old.state = SB_FULL then
        if new.state = SB_EMPTY then pushedOn (h.setDesc r.d .reset) .avail r.d r.d
        else pushedOn h (.part sc) r.d r.d
      else h, .flushHead sc k) := by
  rw [gaveBack]
  split
  case isTrue full =>
    split
    case isTrue =>
      rw [sb, inside.sbIndex_sb]
      exact (ctor_fixed cfg t h r.d _).via.trans (push_avail_via cfg t _ r.d r.d (.flush sc k))
    case isFalse =>
      refine (Fixed.step (by simp) (fun spur => ?_) (.refl _)).via.trans
        (push_via cfg t h r.d (.flush sc k) (.inr (notHead full)))
      rw [exec, heap]
  case isFalse => exact .refl _

end turn

section spec

variable {h₀ : Heap} {K : Set ℕ} {P G Q : ℕ → List ℕ} {A S : List ℕ}

/-- The heap `g` after the compare-and-swap of a turn, which was in `h` before. -/
structure Gave (cfg : Cfg) (h₀ h g : Heap) (t sc d : ℕ) (G R rest : List ℕ) (new : Anchor) :
    Prop where
  split : cachedBlocks h t sc = R ++ rest
  ne : R ≠ []
  sub : ∀ b ∈ R, b ∈ cfg.blocks sc d
  frame : Spliced h g t sc d R
  cached : cachedBlocks g t sc = rest
  desc : g.desc d = { h.desc d with anchor := new }
  head : g.head = h.head
  now : Consistent cfg g sc d
  free : (freeBlocks g d).Perm (within cfg sc d (G ++ R) ++ freeBlocks h₀ d)
  state : new.state = SB_PARTIAL ∨
    new.state = SB_EMPTY ∧ (R ++ freeBlocks h d).Nodup ∧ (R ++ freeBlocks h d).length = maxcount sc

/-- A turn up to its compare-and-swap. -/
lemma Loop.gave (lp : Loop cfg h₀ h t K P A G Q S) (hsc : sc ∈ K) (ne : (h.cache t sc).num ≠ 0)
    (k : FlushK) : ∃ (d : ℕ) (R rest : List ℕ) (new : Anchor) (g : Heap) (r : Run),
      Pending cfg h₀ h t sc d (P sc) A (G sc) (Q sc) S ∧ Gave cfg h₀ h g t sc d (G sc) R rest new ∧
      (r.d = d ∧ r.superblock = cfg.sb d) ∧
      Via cfg t (h, .flushHead sc k) (g, gaveBack cfg sc r (h.desc d).anchor new k) := by
  have small := lp.ready.small sc hsc
  have first : (h.cache t sc).block ∈ cachedBlocks h t sc := by
    obtain ⟨n, hn⟩ := Nat.exists_eq_succ_of_ne_zero ne
    rw [cachedBlocks, hn]
    exact List.mem_cons_self
  obtain ⟨d, hd, pd⟩ := lp.pending hsc first
  have cls : ∀ x ∈ cachedBlocks h t sc, ∃ e, x ∈ cfg.blocks sc e := fun x hx =>
    (lp.pending hsc hx).imp fun _ he => he.1
  obtain ⟨R, rest, tail, i, front, start⟩ := exists_front small pd.now cls ne hd
  have nd : (cachedBlocks h t sc).Nodup := by
    have := lp.ready.distinct sc hsc
    rw [lp.split sc hsc] at this
    exact (List.nodup_append.1 this).2.1
  have ndR : R.Nodup := by
    have := nd
    rw [front.split] at this
    exact (List.nodup_append.1 this).1
  obtain ⟨nd', sub, room⟩ := front.room pd.now ndR fun b hb => pd.out b (by
    rw [front.split]
    exact List.mem_append_left _ hb)
  have free := freeBlocks_spliced small pd.now pd.notEmpty front nd' sub room rfl
  refine ⟨d, R, rest, _, _, _, pd, ⟨front.split, List.ne_nil_of_mem front.tail_mem, front.sub,
    spliced_frame front R.length _, cachedBlocks_spliced small front cls nd _,
    Heap.desc_setDesc_self .., rfl, consistent_spliced small pd.now pd.notEmpty front nd'
    sub room rfl, ?_, ?_⟩, ⟨rfl, rfl⟩, flush_via small pd.now pd.notEmpty front start room k⟩
  · rw [free, within_append_self front.sub, List.append_assoc]
    calc R ++ freeBlocks h d
      _ |>.Perm (R ++ (within cfg sc d (G sc) ++ freeBlocks h₀ d)) := pd.free.append_left R
      _ |>.Perm (within cfg sc d (G sc) ++ (R ++ freeBlocks h₀ d)) := List.perm_append_comm_assoc ..
  · rcases (giveAnchor_spec pd.now pd.notEmpty i room rfl).2 with ⟨st, -⟩ | ⟨st, -, all⟩
    · exact .inl st
    · exact .inr ⟨st, nd', by rw [List.length_append]; omega⟩

section gave

variable {g : Heap} {R rest : List ℕ} {new : Anchor} {l : ListId}

/-- The links of the lists. -/
lemma Gave.next (gv : Gave cfg h₀ h g t sc d (G sc) R rest new) (l : ListId) (e : ℕ) :
    (g.desc e).next l = (h.desc e).next l := by
  by_cases ne : e = d
  · subst ne
    rw [gv.desc]
    cases l <;> rfl
  · rw [gv.frame.desc e ne]

/-- The lists of superblocks are the same before the push. -/
lemma Gave.lists {D : List ℕ} (gv : Gave cfg h₀ h g t sc d (G sc) R rest new) (ls : h.Lists l D) :
    g.Lists l D :=
  ls.frame (by rw [gv.head]) fun e _ => gv.next l e

/-- The turn after its compare-and-swap, whatever else it does to the superblock. -/
lemma Gave.turned {Q' S' : List ℕ} (gv : Gave cfg h₀ h g t sc d (G sc) R rest new)
    (start : Consistent cfg h₀ sc d) (frame : Spliced h h' t sc d R)
    (cached : cachedBlocks h' t sc = cachedBlocks g t sc)
    (status : Refilled cfg h₀ h' sc d (G sc ++ R) Q' S' ∨ Retired cfg h₀ h' sc d (G sc ++ R) Q' S')
    (pushed : Joined h₀ d (Q sc) Q') (retired : Joined h₀ d S S') :
    Turned cfg h₀ h h' t sc d (G sc) R (Q sc) Q' S S' :=
  ⟨frame, by rw [cached, gv.cached]; exact gv.split, gv.ne, gv.sub, start, status, pushed, retired⟩

/-- The superblock was partial. -/
lemma Loop.gave_partial (lp : Loop cfg h₀ h t K P A G Q S) (hsc : sc ∈ K)
    (pd : Pending cfg h₀ h t sc d (P sc) A (G sc) (Q sc) S)
    (gv : Gave cfg h₀ h g t sc d (G sc) R rest new) (notFull : (h.desc d).anchor.state ≠ SB_FULL) :
    Loop cfg h₀ g t K P A (Function.update G sc (G sc ++ R)) (Function.update Q sc (Q sc)) S := by
  have notS : d ∉ S := fun hd => pd.notAvail (List.mem_append_left _ hd)
  have notFull' : (g.desc d).anchor.state ≠ SB_FULL := by
    rw [gv.desc]
    rcases gv.state with st | ⟨st, -⟩ <;> simp [st]
  exact lp.step
    (gv.turned pd.start gv.frame rfl (.inl ⟨gv.now, gv.free, notFull', pd.pushed notFull, notS⟩)
      ⟨(lp.given.pushed sc).1, fun _ _ => Iff.rfl, (pd.pushed notFull).1⟩
      ⟨lp.given.retired.1, fun _ _ => Iff.rfl, fun hd => absurd hd notS⟩)
    hsc (gv.lists (lp.part hsc)) (gv.lists lp.given.avail)

/-- The descriptor that is pushed. -/
lemma pushedOn_desc_self (h : Heap) (l : ListId) (d : ℕ) :
    (pushedOn h l d d).desc d = (h.desc d).setNext l (h.head l).ptr := Heap.desc_setDesc_self ..

/-- A list that the descriptor is not on. -/
lemma Heap.Lists.pushedOn_ne {l l' : ListId} {D : List ℕ} (ls : h.Lists l' D) (ne : l' ≠ l)
    (next : d ∈ D → ((h.desc d).setNext l (h.head l).ptr).next l' = (h.desc d).next l') :
    (pushedOn h l d d).Lists l' D := by
  refine ls.frame (Function.update_of_ne ne ..) fun e he => ?_
  by_cases e' : e = d
  · subst e'
    rw [pushedOn_desc_self, next he]
  · show ((h.setDesc d _).desc e).next l' = _
    rw [Heap.desc_setDesc_ne e']

/-- The superblock had given all its blocks away, and gets some of them back. -/
lemma Loop.gave_push (lp : Loop cfg h₀ h t K P A G Q S) (hsc : sc ∈ K)
    (pd : Pending cfg h₀ h t sc d (P sc) A (G sc) (Q sc) S)
    (gv : Gave cfg h₀ h g t sc d (G sc) R rest new) (full : (h.desc d).anchor.state = SB_FULL) :
    Loop cfg h₀ (pushedOn g (.part sc) d d) t K P A (Function.update G sc (G sc ++ R))
      (Function.update Q sc (d :: Q sc)) S := by
  obtain ⟨full₀, out⟩ := pd.full full
  have notS : d ∉ S := fun hd => pd.notAvail (List.mem_append_left _ hd)
  have notQ : d ∉ Q sc := fun hd => out (List.mem_append_left _ hd)
  have desc := pushedOn_desc_self g (.part sc) d
  have same : SameSb g (pushedOn g (.part sc) d d) d := ⟨by rw [desc]; rfl, by rw [desc]; rfl⟩
  have free := gv.free
  rw [← freeBlocks_congr same fun _ _ => rfl] at free
  have notFull : ((pushedOn g (.part sc) d d).desc d).anchor.state ≠ SB_FULL := by
    rw [same.1, gv.desc]
    rcases gv.state with st | ⟨st, -⟩ <;> simp [st]
  exact lp.step
    (gv.turned pd.start (gv.frame.push fun c e => by cases e; rfl) rfl
      (.inl ⟨gv.now.congr same fun _ _ => rfl, free, notFull,
        ⟨fun _ => full₀, fun _ => List.mem_cons_self⟩, notS⟩)
      ⟨List.nodup_cons.2 ⟨notQ, (lp.given.pushed sc).1⟩, fun e ne => by simp [ne], fun _ => full₀⟩
      ⟨lp.given.retired.1, fun _ _ => Iff.rfl, fun hd => absurd hd notS⟩)
    hsc ((gv.lists (lp.part hsc)).push out)
    ((gv.lists lp.given.avail).pushedOn_ne (by simp) fun _ => rfl)

/-- The superblock had given all its blocks away, and gets all of them back at once. -/
lemma Loop.gave_retire (lp : Loop cfg h₀ h t K P A G Q S) (hsc : sc ∈ K)
    (pd : Pending cfg h₀ h t sc d (P sc) A (G sc) (Q sc) S)
    (gv : Gave cfg h₀ h g t sc d (G sc) R rest new) (full : (h.desc d).anchor.state = SB_FULL)
    (empty : new.state = SB_EMPTY) :
    Loop cfg h₀ (pushedOn (g.setDesc d .reset) .avail d d) t K P A
    (Function.update G sc (G sc ++ R))
      (Function.update Q sc (Q sc)) (d :: S) := by
  obtain ⟨full₀, out⟩ := pd.full full
  have notS : d ∉ S := fun hd => pd.notAvail (List.mem_append_left _ hd)
  have notQ : d ∉ Q sc := fun hd => out (List.mem_append_left _ hd)
  have desc := pushedOn_desc_self (g.setDesc d .reset) .avail d
  rw [Heap.desc_setDesc_self] at desc
  -- the descriptor is reset, but it is on no list
  have reset : ∀ {l D}, g.Lists l D → d ∉ D → (g.setDesc d .reset).Lists l D := fun ls hd =>
    ls.frame rfl fun e he => by rw [Heap.desc_setDesc_ne (show e ≠ d from fun e' => hd (e' ▸ he))]
  have all : ∀ b ∈ cfg.blocks sc d, b ∈ R := by
    obtain ⟨-, nd, len⟩ := gv.state.resolve_left (by simp [empty])
    rw [pd.now.free_nil full, List.append_nil] at nd len
    exact fun b hb => mem_of_nodup_of_length_le nd gv.sub (by rw [len, Cfg.length_blocks]) hb
  exact lp.step
    (gv.turned pd.start ((gv.frame.setDesc .reset).push fun c e => by cases e) rfl
      (.inr ⟨full₀, fun b hb => List.mem_append_right _ (all b hb), by rw [desc]; rfl, notQ,
        List.mem_cons_self⟩)
      ⟨(lp.given.pushed sc).1, fun _ _ => Iff.rfl, fun hd => absurd hd notQ⟩
      ⟨List.nodup_cons.2 ⟨notS, lp.given.retired.1⟩, fun e ne => by simp [ne], fun _ => full₀⟩)
    hsc ((reset (gv.lists (lp.part hsc)) out).pushedOn_ne (by simp) fun hd => absurd hd out)
    ((reset (gv.lists lp.given.avail) pd.notAvail).push pd.notAvail)

end gave

/-- One turn of the loop of `flush_cache`. -/
lemma Loop.turn (lp : Loop cfg h₀ h t K P A G Q S) (hsc : sc ∈ K) (ne : (h.cache t sc).num ≠ 0)
    (k : FlushK) : ∃ h' R Q' S', Via cfg t (h, .flushHead sc k) (h', .flushHead sc k) ∧
      Loop cfg h₀ h' t K P A (Function.update G sc (G sc ++ R)) Q' S' ∧
      (h'.cache t sc).num < (h.cache t sc).num := by
  obtain ⟨d, R, rest, new, g, r, pd, gv, ⟨rfl, rsb⟩, run⟩ := lp.gave hsc ne k
  have notHead : (h.desc r.d).anchor.state = SB_FULL → (g.head (.part sc)).ptr ≠ some r.d := by
    intro full e
    rw [(gv.lists (lp.part hsc)).head_eq] at e
    exact (pd.full full).2 (List.mem_of_head? e)
  have after := gaveBack_via (t := t) r (h.desc r.d).anchor new gv.now.heap rsb
    gv.now.inside notHead k
  generalize hh : (if (h.desc r.d).anchor.state = SB_FULL then _ else g) = h' at after
  have goal : ∃ Q' S', Loop cfg h₀ h' t K P A (Function.update G sc (G sc ++ R)) Q' S' := by
    subst hh
    split
    case isTrue full =>
      split
      case isTrue empty => exact ⟨_, _, lp.gave_retire hsc pd gv full empty⟩
      case isFalse => exact ⟨_, _, lp.gave_push hsc pd gv full⟩
    case isFalse notFull => exact ⟨_, _, lp.gave_partial hsc pd gv notFull⟩
  obtain ⟨Q', S', lp'⟩ := goal
  refine ⟨h', R, Q', S', run.trans after, lp', ?_⟩
  -- the cache has lost the run
  have split := (lp.split sc hsc).symm.trans (lp'.split sc hsc)
  rw [Function.update_self, List.append_assoc] at split
  rw [← length_cachedBlocks, ← length_cachedBlocks, List.append_cancel_left split,
    List.length_append]
  exact Nat.lt_add_of_pos_left (List.length_pos_of_ne_nil gv.ne)

/-- The loop of `flush_cache` to its end. -/
lemma Loop.flush (lp : Loop cfg h₀ h t K P A G Q S) (hsc : sc ∈ K) (k : FlushK) :
    ∃ h' G' Q' S', Via cfg t (h, .flushHead sc k) (h', flushDone sc k) ∧
      Loop cfg h₀ h' t K P A G' Q' S' ∧ (h'.cache t sc).num = 0 ∧ ∀ c, c ≠ sc → G' c = G c := by
  induction hn : (h.cache t sc).num using Nat.strong_induction_on generalizing h G Q S with
  | _ n ih =>
    by_cases zero : (h.cache t sc).num = 0
    · refine ⟨h, G, Q, S, (Fixed.step (by simp) (fun spur => ?_) (.refl _)).via, lp, zero,
        fun _ _ => rfl⟩
      rw [exec, if_pos zero]
    · obtain ⟨g, R, Q₁, S₁, turn, lp₁, lt⟩ := lp.turn hsc zero k
      obtain ⟨h', G', Q', S', run, lp', empty, other⟩ := ih _ (hn ▸ lt) lp₁ rfl
      refine ⟨h', G', Q', S', turn.trans run, lp', empty, fun c ne => ?_⟩
      rw [other c ne, Function.update_of_ne ne]

/-- Before the first turn. -/
lemma CacheReady.start (ready : CacheReady cfg h t K P A) :
    Loop cfg h h t K P A (fun _ => []) (fun _ => []) [] := by
  refine ⟨ready, ⟨fun sc d _ touched => ?_, fun sc => ⟨List.nodup_nil, by simp⟩,
    ⟨List.nodup_nil, by simp⟩, fun sc hG => absurd rfl hG, ready.avail, fun _ _ => rfl,
    fun _ _ => rfl, fun _ _ => rfl, fun _ _ _ => rfl, rfl, rfl, rfl, rfl, rfl⟩, fun _ _ => rfl,
    fun _ _ => rfl⟩
  obtain ⟨b, hb, -⟩ := touched
  cases hb

/-- The classes from `sc` on, one after the other. -/
lemma Loop.flush_all (lp : Loop cfg h₀ h t {c | SmallClass c} P A G Q S) (n : ℕ)
    (hn : sc + n = MAX_SZ_IDX) (pos : 0 < sc) (lt : sc < MAX_SZ_IDX)
    (done : ∀ c, SmallClass c → c < sc → (h.cache t c).num = 0) :
    ∃ h' G' Q' S', Via cfg t (h, .flushHead sc .exit) (h', .idle) ∧
      Loop cfg h₀ h' t {c | SmallClass c} P A G' Q' S' ∧
      ∀ c, SmallClass c → (h'.cache t c).num = 0 := by
  induction n generalizing sc h G Q S with
  | zero => omega
  | succ n ih =>
    obtain ⟨g, G₁, Q₁, S₁, run, lp₁, empty, other⟩ := lp.flush ⟨pos, lt⟩ .exit
    have done₁ : ∀ c, SmallClass c → c < sc + 1 → (g.cache t c).num = 0 := by
      intro c small le
      by_cases e : c = sc
      · exact e ▸ empty
      · have split := (lp.split c small).symm.trans (lp₁.split c small)
        rw [other c e] at split
        rw [← length_cachedBlocks, ← List.append_cancel_left split, length_cachedBlocks]
        exact done c small (by omega)
    by_cases last : sc + 1 < MAX_SZ_IDX
    · rw [flushDone, if_pos last] at run
      obtain ⟨h', G', Q', S', run', lp', all⟩ := ih lp₁ (by omega) (by omega) last done₁
      exact ⟨h', G', Q', S', run.trans run', lp', all⟩
    · rw [flushDone, if_neg last] at run
      exact ⟨g, G₁, Q₁, S₁, run, lp₁, fun c small => done₁ c small (by have := small.2; omega)⟩

end spec

/-- `flush_cache` has ended for the classes in `K`: the caches are empty, their blocks were given
back, and the anchors count them. -/
structure Flushed (cfg : Cfg) (h h' : Heap) (t : ℕ) (K : Set ℕ) (P : ℕ → List ℕ) (A : List ℕ)
    (G Q : ℕ → List ℕ) (S : List ℕ) : Prop where
  empty : ∀ sc ∈ K, (h'.cache t sc).num = 0
  all : ∀ sc ∈ K, G sc = cachedBlocks h t sc
  off : ∀ sc, sc ∉ K → G sc = []
  given : Given cfg h h' t P A G Q S
  count : ∀ sc ∈ K, ∀ d, Touched cfg sc d (G sc) → Refilled cfg h h' sc d (G sc) (Q sc) S →
    (h'.desc d).anchor.state = SB_PARTIAL ∧ (h'.desc d).anchor.count =
        (h.desc d).anchor.count + (within cfg sc d (G sc)).length ∨
      (h'.desc d).anchor.state = SB_EMPTY ∧ d ∈ Q sc ++ P sc ∧
        (freeBlocks h' d).length = maxcount sc

section flushed

variable {h₀ : Heap} {K : Set ℕ} {P G Q : ℕ → List ℕ} {A S : List ℕ}

/-- The superblock of a block in a cache. -/
lemma CacheReady.touched (ready : CacheReady cfg h t K P A) (hsc : sc ∈ K)
    (touched : Touched cfg sc d (cachedBlocks h t sc)) : Consistent cfg h sc d ∧
      (h.desc d).anchor.state ≠ SB_EMPTY ∧ ((h.desc d).anchor.state = SB_PARTIAL ↔ d ∈ P sc) := by
  obtain ⟨b, hb, hd⟩ := touched
  have small := ready.small sc hsc
  obtain ⟨d', hd', cons, out, listed, -⟩ := ready.cached sc hsc b hb
  obtain rfl := Cfg.eq_of_mem small hd small hd'
  exact ⟨cons, cons.not_empty hd out, listed⟩

/-- When all caches are empty. -/
lemma Loop.flushed (lp : Loop cfg h₀ h t K P A G Q S) (empty : ∀ sc ∈ K, (h.cache t sc).num = 0) :
    Flushed cfg h₀ h t K P A G Q S := by
  have all : ∀ sc ∈ K, G sc = cachedBlocks h₀ t sc := fun sc hsc => by
    rw [lp.split sc hsc, cachedBlocks, empty sc hsc, walk_zero, List.append_nil]
  refine ⟨empty, all, lp.off, lp.given, fun sc hsc d touched kept => ?_⟩
  obtain ⟨cons, notEmpty, listed⟩ := lp.ready.touched hsc (all sc hsc ▸ touched)
  have len := kept.free.length_eq
  rw [List.length_append] at len
  rcases kept.consistent.anchor with ⟨st, -⟩ | ⟨st, -⟩ | ⟨st, -⟩
  · exact absurd st kept.notFull
  · refine .inl ⟨st, ?_⟩
    rw [kept.consistent.count (by simp [st]), cons.count notEmpty, len, Nat.add_comm]
  · refine .inr ⟨st, ?_, by rw [kept.consistent.length, if_pos st]⟩
    rw [List.mem_append, kept.pushed, ← listed]
    rcases cons.anchor with ⟨st', -⟩ | ⟨st', -⟩ | ⟨st', -⟩
    · exact .inl st'
    · exact .inr st'
    · exact absurd st' notEmpty

/-- The free blocks of a superblock of class `sc`, which are all if it is retired. -/
def allFree (cfg : Cfg) (h : Heap) (sc d : ℕ) : List ℕ :=
  if (h.desc d).heap = none then cfg.blocks sc d else freeBlocks h d

/-- The free blocks grow by those of the cache. -/
lemma Flushed.allFree (fl : Flushed cfg h h' t K P A G Q S) (ready : CacheReady cfg h t K P A)
    (hsc : sc ∈ K) (touched : Touched cfg sc d (cachedBlocks h t sc)) :
    (Ralloc.allFree cfg h' sc d).Perm
      (within cfg sc d (cachedBlocks h t sc) ++ freeBlocks h d) := by
  obtain ⟨cons, notEmpty, -⟩ := ready.touched hsc touched
  rw [← fl.all sc hsc] at touched ⊢
  rcases fl.given.sbs sc d cons touched with kept | retired
  · rw [Ralloc.allFree, if_neg (by simp [kept.consistent.heap])]
    exact kept.free
  · have reset : (h'.desc d).heap = .none := by rw [retired.desc]; rfl
    rw [Ralloc.allFree, if_pos reset, cons.free_nil retired.full, List.append_nil]
    have nd : (within cfg sc d (G sc)).Nodup := by
      rw [fl.all sc hsc]
      exact (ready.distinct sc hsc).filter _
    refine (List.perm_ext_iff_of_nodup (Cfg.blocks_nodup (ready.small sc hsc)) nd).2 fun b => ?_
    rw [within, List.mem_filter, decide_eq_true_eq]
    exact ⟨fun hb => ⟨retired.all b hb, hb⟩, fun hb => hb.2⟩

end flushed

/-- `flush_cache` of thread `t` alone returns, in `public_flush_cache` for each class, and every run
of it leads to the same heap: the caches are empty, each block is free in its own superblock, each
superblock that was full is on its partial list or retired, and nothing else has changed. The free
blocks do not depend on the order of the cache. -/
theorem flush_cache_spec (cfg : Cfg) (t : ℕ) :
    (∀ h sc P A k, CacheReady cfg h t {sc} P A → ∃ h' G Q S,
      Via cfg t (h, .flushHead sc k) (h', flushDone sc k) ∧ Flushed cfg h h' t {sc} P A G Q S) ∧
    (∀ h P A, CacheReady cfg h t {sc | SmallClass sc} P A → ∃ h' G Q S,
      Via cfg t (h, .flushHead 1 .exit) (h', .idle) ∧
        Flushed cfg h h' t {sc | SmallClass sc} P A G Q S) ∧
    ∀ K h₁ h₁' P₁ A₁ G₁ Q₁ S₁ h₂ h₂' P₂ A₂ G₂ Q₂ S₂, CacheReady cfg h₁ t K P₁ A₁ →
    CacheReady cfg h₂ t K P₂ A₂ →
      Flushed cfg h₁ h₁' t K P₁ A₁ G₁ Q₁ S₁ → Flushed cfg h₂ h₂' t K P₂ A₂ G₂ Q₂ S₂ →
      ∀ sc ∈ K, (cachedBlocks h₁ t sc).Perm (cachedBlocks h₂ t sc) →
      ∀ d, Touched cfg sc d (cachedBlocks h₁ t sc) → (freeBlocks h₁ d).Perm (freeBlocks h₂ d) →
        (allFree cfg h₁' sc d).Perm (allFree cfg h₂' sc d) := by
  refine ⟨fun h sc P A k ready => ?_, fun h P A ready => ?_, ?_⟩
  · obtain ⟨h', G, Q, S, run, lp, empty, -⟩ := ready.start.flush rfl k
    exact ⟨h', G, Q, S, run, lp.flushed fun c hc => by rw [hc]; exact empty⟩
  · obtain ⟨h', G, Q, S, run, lp, empty⟩ := ready.start.flush_all (MAX_SZ_IDX - 1)
      (show 1 + (MAX_SZ_IDX - 1) = MAX_SZ_IDX by decide) (by decide) (by decide)
      fun c small lt => absurd small.1 (by omega)
    exact ⟨h', G, Q, S, run, lp.flushed empty⟩
  · intro K h₁ h₁' P₁ A₁ G₁ Q₁ S₁ h₂ h₂' P₂ A₂ G₂ Q₂ S₂ ready₁ ready₂ fl₁ fl₂ sc hsc perm d
      touched free
    have touched₂ : Touched cfg sc d (cachedBlocks h₂ t sc) := by
      obtain ⟨b, hb, hd⟩ := touched
      exact ⟨b, perm.mem_iff.1 hb, hd⟩
    exact (fl₁.allFree ready₁ hsc touched).trans
      (((perm.filter _).append free).trans (fl₂.allFree ready₂ hsc touched₂).symm)

/-- The superblock of a cached block when no thread is inside a call. -/
lemma Inv.consistent {s : State} {L : Ledger} (inv : Inv cfg s L) (idle : ∀ u, s.pc u = .idle)
    {b : ℕ} (hb : L.place b = .cached t sc) : ∃ d, b ∈ cfg.blocks sc d ∧
      Consistent cfg s.heap sc d ∧ b ∉ freeBlocks s.heap d ∧
      ((s.heap.desc d).anchor.state = SB_PARTIAL ↔
        d ∈ L.sbs.items (ListId.part sc).role) ∧ d ∉ L.sbs.items ListId.avail.role := by
  obtain ⟨d, o, hr, hd⟩ := inv.ok.inClass hb
  obtain ⟨heap, size, maxc, sb⟩ := inv.rep.small hr
  have free := inv.rep.freeBlocks_eq hr
  have out : b ∉ freeBlocks s.heap d := fun hf => by
    rw [free, inv.ok.mem_items (c := .free d) trivial, hb] at hf
    cases hf
  have anchor := inv.rep.anchor hr
  have listed : d ∈ L.sbs.items (ListId.part sc).role ↔ o = .listed := by
    rw [inv.ok.mem_sbs (ListId.role_tracked _), hr]
    simp [ListId.role]
  -- the thread that owns a superblock is inside a call
  have owner : o = .full ∨ o = .listed := by
    cases o with
    | full => exact .inl rfl
    | listed => exact .inr rfl
    | thr u =>
      have := (inv.thread u).owned.own sc
      rw [idle u] at this
      have mem := (inv.ok.mem_sbs (r := .small sc (.thr u)) trivial).2 hr
      rw [this] at mem
      cases mem
    | fresh u =>
      have := inv.rep.fresh hr b hd
      rw [hb] at this
      cases this
  have cons : Consistent cfg s.heap sc d := by
    refine ⟨inv.ok.insideOf hr (by simp), heap, size, maxc, sb, fun x hx => ?_, ?_, ?_⟩
    · exact inv.ok.free_sub hr (free ▸ hx)
    · rw [free]
      exact (inv.ok.blks (.free d) trivial).nodup
    · rcases owner with rfl | rfl
      · rw [anchor.1]
        exact .inl ⟨rfl, rfl⟩
      · obtain ⟨head, -, ⟨st, cnt, lt⟩ | ⟨st, cnt, -⟩⟩ := anchor
        · refine .inr (.inl ⟨st, ?_, cnt ▸ lt⟩)
          rw [cnt]
          exact List.length_pos_of_mem (List.mem_of_head? head)
        · exact .inr (.inr ⟨st, cnt⟩)
  refine ⟨d, hd, cons, out, ?_, ?_⟩
  · rw [listed]
    rcases owner with rfl | rfl
    · rw [anchor.1]
      simp [Anchor.full]
    · simp only [iff_true]
      rcases cons.anchor with ⟨st, cnt⟩ | ⟨st, -⟩ | ⟨st, -⟩
      · obtain ⟨-, -, ⟨st', -⟩ | ⟨st', -⟩⟩ := anchor <;> rw [st] at st' <;> cases st'
      · exact st
      · exact absurd st (cons.not_empty hd out)
  · rw [inv.ok.mem_sbs (ListId.role_tracked _), hr]
    simp [ListId.role]

/-- Every reachable heap is ready when no thread is inside a call. -/
lemma Reach.cacheReady {s : State} (hs : Reach cfg s) (idle : ∀ u, s.pc u = .idle)
    (t : ℕ) {K : Set ℕ} (small : ∀ sc ∈ K, SmallClass sc) :
    ∃ P A, CacheReady cfg s.heap t K P A := by
  obtain ⟨L, inv⟩ := hs.inv
  refine ⟨fun sc => L.sbs.items (ListId.part sc).role, L.sbs.items ListId.avail.role, small,
    fun sc _ => ?_, fun sc _ b hb => ?_, fun sc _ => ⟨inv.rep.list (.part sc), fun d hd => ?_⟩,
    inv.rep.list .avail⟩
  · rw [inv.rep.cachedBlocks_eq]
    exact (inv.ok.blks (.cached t sc) trivial).nodup
  · rw [inv.rep.cachedBlocks_eq, inv.ok.mem_items (c := .cached t sc) trivial] at hb
    exact inv.consistent idle hb
  · rw [inv.ok.mem_sbs (ListId.role_tracked _)] at hd
    exact (inv.rep.small hd).1

/-- A `do_malloc` of 12288 bytes leaves four blocks in the cache, which `flush_cache` gives back. -/
theorem flush_cache_sample : ∃ s, Calls sample s ∧ (cachedBlocks s.heap 0 38).length = 4 ∧
    ∃ h', Solo sample 0 (s.heap, .flushHead 38 .exit) (h', .flushHead 39 .exit) ∧
      (h'.cache 0 38).num = 0 := by
  have test : (runCalls sample (init sample) [(.malloc 0 12288, 13)]).any (fun s =>
      decide ((cachedBlocks s.heap 0 38).length = 4)) = true := by
    decide +kernel
  obtain ⟨s, e, len⟩ := Option.any_eq_true _ _ |>.1 test
  have calls := Calls.init.runCalls e
  obtain ⟨reach, idle⟩ := calls.reach
  obtain ⟨P, A, ready⟩ := reach.cacheReady idle 0 (K := {38}) fun sc hsc => by
    rw [hsc]
    exact ⟨by decide, by decide⟩
  obtain ⟨h', G, Q, S, run, fl⟩ := (flush_cache_spec sample 0).1 s.heap 38 P A .exit ready
  exact ⟨s, calls, of_decide_eq_true len, h', run.solo, fl.empty 38 rfl⟩

end Ralloc
