import Ralloc.Machine.Conservation

/-!
# Blocks that are given back

What the loop of `flush_cache` has done after some of its turns, said without its steps.
`CacheReady` is the heap before it, with any number of blocks in the caches and in any order;
`Given` relates it to a heap in the middle, for the blocks that were given back so far, and `Loop`
says that the others are still in the caches.

`Loop.step`: a turn that takes a run of blocks out of a cache and gives it back to its superblock
(`Turned`) leads from one `Loop` to the next.
-/

namespace Ralloc

open Lib SuperblockState

variable {cfg : Cfg} {t sc d : ℕ} {h h' : Heap}

/-- The descriptor of superblock `d` of class `sc` and its links say the same. -/
structure Consistent (cfg : Cfg) (h : Heap) (sc d : ℕ) : Prop where
  inside : cfg.Inside d
  heap : (h.desc d).heap = some sc
  blockSize : (h.desc d).blockSize = blockSize sc
  maxcount : (h.desc d).maxcount = maxcount sc
  superblock : (h.desc d).superblock = some (cfg.sb d)
  sub : ∀ b ∈ freeBlocks h d, b ∈ cfg.blocks sc d
  nodup : (freeBlocks h d).Nodup
  anchor : (h.desc d).anchor.state = SB_FULL ∧ (h.desc d).anchor.count = 0 ∨
    (h.desc d).anchor.state = SB_PARTIAL ∧ 0 < (h.desc d).anchor.count ∧
      (h.desc d).anchor.count < Ralloc.maxcount sc ∨
    (h.desc d).anchor.state = SB_EMPTY ∧ (h.desc d).anchor.count = Ralloc.maxcount sc - 1

/-- The caches of thread `t` for the classes in `K` hold blocks of superblocks that are consistent;
`P sc` are the superblocks on the partial list of class `sc` and `A` those on `avail_sb`. -/
structure CacheReady (cfg : Cfg) (h : Heap) (t : ℕ) (K : Set ℕ) (P : ℕ → List ℕ) (A : List ℕ) :
    Prop where
  small : ∀ sc ∈ K, SmallClass sc
  distinct : ∀ sc ∈ K, (cachedBlocks h t sc).Nodup
  cached : ∀ sc ∈ K, ∀ b ∈ cachedBlocks h t sc, ∃ d, b ∈ cfg.blocks sc d ∧ Consistent cfg h sc d ∧
    b ∉ freeBlocks h d ∧ ((h.desc d).anchor.state = SB_PARTIAL ↔ d ∈ P sc) ∧ d ∉ A
  part : ∀ sc ∈ K, h.Lists (.part sc) (P sc) ∧ ∀ d ∈ P sc, (h.desc d).heap = some sc
  avail : h.Lists .avail A

/-- The blocks of `G` that lie in superblock `d`. -/
def within (cfg : Cfg) (sc d : ℕ) (G : List ℕ) : List ℕ := G.filter (· ∈ cfg.blocks sc d)

/-- Superblock `d` has blocks among `G`. -/
def Touched (cfg : Cfg) (sc d : ℕ) (G : List ℕ) : Prop := ∃ b ∈ G, b ∈ cfg.blocks sc d

/-- The blocks of superblock `d` among `G` have been given back to it; `Q` are the superblocks that
were pushed on the partial list and `S` those that were retired. -/
structure Refilled (cfg : Cfg) (h h' : Heap) (sc d : ℕ) (G Q S : List ℕ) : Prop where
  consistent : Consistent cfg h' sc d
  free : (freeBlocks h' d).Perm (within cfg sc d G ++ freeBlocks h d)
  notFull : (h'.desc d).anchor.state ≠ SB_FULL
  pushed : d ∈ Q ↔ (h.desc d).anchor.state = SB_FULL
  notRetired : d ∉ S

/-- Superblock `d` had given all its blocks away, and all of them have been given back at once. -/
structure Retired (cfg : Cfg) (h h' : Heap) (sc d : ℕ) (G Q S : List ℕ) : Prop where
  full : (h.desc d).anchor.state = SB_FULL
  all : ∀ b ∈ cfg.blocks sc d, b ∈ G
  desc : h'.desc d = { Descriptor.reset with nextFree := (h'.desc d).nextFree }
  notPushed : d ∉ Q
  retired : d ∈ S

/-- For each class `sc`, the blocks `G sc` have been given back. -/
structure Given (cfg : Cfg) (h h' : Heap) (t : ℕ) (P : ℕ → List ℕ) (A : List ℕ) (G Q : ℕ → List ℕ)
    (S : List ℕ) : Prop where
  sbs : ∀ sc d, Consistent cfg h sc d → Touched cfg sc d (G sc) →
    Refilled cfg h h' sc d (G sc) (Q sc) S ∨ Retired cfg h h' sc d (G sc) (Q sc) S
  pushed : ∀ sc, (Q sc).Nodup ∧ ∀ d ∈ Q sc, Consistent cfg h sc d ∧ Touched cfg sc d (G sc) ∧
    (h.desc d).anchor.state = SB_FULL
  retired : S.Nodup ∧ ∀ d ∈ S, ∃ sc, Consistent cfg h sc d ∧ Touched cfg sc d (G sc) ∧
    (h.desc d).anchor.state = SB_FULL
  part : ∀ sc, G sc ≠ [] → h'.Lists (.part sc) (Q sc ++ P sc)
  avail : h'.Lists .avail (S ++ A)
  -- and nothing else
  head : ∀ sc, G sc = [] → h'.head (.part sc) = h.head (.part sc)
  desc : ∀ d, (∀ sc, ¬Touched cfg sc d (G sc)) → h'.desc d = h.desc d
  mem : ∀ a, (∀ sc, ∀ b ∈ G sc, a < b ∨ b + 8 ≤ a) → h'.mem a = h.mem a
  cache : ∀ u sc, u ≠ t ∨ G sc = [] → h'.cache u sc = h.cache u sc
  rest : h'.currAddr = h.currAddr ∧ h'.roots = h.roots ∧ h'.client = h.client ∧ h'.req = h.req ∧
    h'.ret = h.ret

/-- A block belongs to one superblock. -/
lemma Cfg.eq_of_mem {e b : ℕ} (hsc : SmallClass sc) (hd : b ∈ cfg.blocks sc d) {sc' : ℕ}
    (hsc' : SmallClass sc') (he : b ∈ cfg.blocks sc' e) : d = e := by
  by_contra ne
  obtain ⟨i, hi, rfl⟩ := Cfg.mem_blocks.1 he
  have lo := (Cfg.blk_bounds cfg e hsc' hi).1
  have hi' := Cfg.blk_lt cfg e hsc' hi
  rcases Cfg.not_mem_range_of_ne hsc hd ne with h1 | h1 <;> omega

/-- A link is read from its own word. -/
lemma Heap.link_congr {b : ℕ} (e : ∀ x, b ≤ x → x < b + 8 → h'.mem x = h.mem x) :
    h'.link b = h.link b := by
  rw [Heap.link, Heap.link, load_congr e]

/-- The descriptor of a superblock is the same but for its links. -/
def SameSb (h h' : Heap) (d : ℕ) : Prop :=
  (h'.desc d).anchor = (h.desc d).anchor ∧ (h'.desc d).plain = (h.desc d).plain

/-- A descriptor that was not written. -/
lemma SameSb.of_eq (e : h'.desc d = h.desc d) : SameSb h h' d := ⟨by rw [e], by rw [e]⟩

/-- The free blocks only depend on the descriptor and on their own links. -/
lemma freeBlocks_congr (same : SameSb h h' d)
    (link : ∀ b ∈ freeBlocks h d, h'.link b = h.link b) : freeBlocks h' d = freeBlocks h d := by
  obtain ⟨anchor, plain⟩ := same
  simp only [Descriptor.plain, Prod.mk.injEq] at plain
  obtain ⟨e1, -, e3, e4⟩ := plain
  unfold freeBlocks freeCount at link ⊢
  simp only [anchor, e1, e3, e4]
  exact walk_congr link

/-- A superblock stays consistent as long as its descriptor and its links stay. -/
lemma Consistent.congr (c : Consistent cfg h sc d) (same : SameSb h h' d)
    (link : ∀ b ∈ freeBlocks h d, h'.link b = h.link b) : Consistent cfg h' sc d := by
  have free := freeBlocks_congr same link
  obtain ⟨anchor, plain⟩ := same
  simp only [Descriptor.plain, Prod.mk.injEq] at plain
  obtain ⟨e1, e2, e3, e4⟩ := plain
  refine ⟨c.inside, e2.trans c.heap, e3.trans c.blockSize, e4.trans c.maxcount,
    e1.trans c.superblock, ?_, ?_, ?_⟩
  · rw [free]
    exact c.sub
  · rw [free]
    exact c.nodup
  · rw [anchor]
    exact c.anchor

/-- How many free blocks there are. -/
lemma Consistent.length (c : Consistent cfg h sc d) : (freeBlocks h d).length =
    if (h.desc d).anchor.state = SB_EMPTY then Ralloc.maxcount sc else (h.desc d).anchor.count := by
  rw [freeBlocks, length_walk, freeCount]
  rcases c.anchor with ⟨e, e'⟩ | ⟨e, -⟩ | ⟨e, -⟩
  · simp [e, e']
  · simp [e]
  · simp [e, c.maxcount]

/-- A superblock is not empty while one of its blocks is not free. -/
lemma Consistent.not_empty (c : Consistent cfg h sc d) {b : ℕ} (hb : b ∈ cfg.blocks sc d)
    (out : b ∉ freeBlocks h d) : (h.desc d).anchor.state ≠ SB_EMPTY := by
  intro e
  have len := c.length
  rw [if_pos e] at len
  exact out (mem_of_nodup_of_length_le c.nodup c.sub (by rw [len, Cfg.length_blocks]) hb)

/-- The anchor counts the free blocks. -/
lemma Consistent.count (c : Consistent cfg h sc d) (ne : (h.desc d).anchor.state ≠ SB_EMPTY) :
    (h.desc d).anchor.count = (freeBlocks h d).length := by
  rw [c.length, if_neg ne]

/-- A superblock that has given all its blocks away has no free ones. -/
lemma Consistent.free_nil (c : Consistent cfg h sc d) (full : (h.desc d).anchor.state = SB_FULL) :
    freeBlocks h d = [] := by
  refine List.eq_nil_of_length_eq_zero ?_
  rw [← c.count (by simp [full])]
  rcases c.anchor with ⟨-, e⟩ | ⟨st, -⟩ | ⟨st, -⟩
  · exact e
  · rw [full] at st
    cases st
  · rw [full] at st
    cases st

/-- The first free block of a superblock that has some. -/
lemma Consistent.head (c : Consistent cfg h sc d) (ne : freeBlocks h d ≠ []) :
    (freeBlocks h d).head? = some (cfg.blk sc d (h.desc d).anchor.avail) := by
  rw [freeBlocks] at ne ⊢
  rw [head_walk ne, c.superblock, c.blockSize, Option.getD_some, Cfg.blk]

/-- `anchor.avail` is the index of a block if there is a free one. -/
lemma Consistent.avail_lt (c : Consistent cfg h sc d) (small : SmallClass sc)
    (ne : freeBlocks h d ≠ []) : (h.desc d).anchor.avail < Ralloc.maxcount sc := by
  obtain ⟨i, hi, e⟩ := Cfg.mem_blocks.1 (c.sub _ (List.mem_of_head? (c.head ne)))
  rwa [← (Cfg.blk_inj small).1 e]

/-- The counter of a cache bin counts its blocks. -/
lemma length_cachedBlocks : (cachedBlocks h t sc).length = (h.cache t sc).num := by
  rw [cachedBlocks, length_walk]

/-- `flush_cache` in the middle: `G` was given back, and the rest is still in the caches. -/
structure Loop (cfg : Cfg) (h₀ h : Heap) (t : ℕ) (K : Set ℕ) (P : ℕ → List ℕ) (A : List ℕ)
    (G Q : ℕ → List ℕ) (S : List ℕ) : Prop where
  ready : CacheReady cfg h₀ t K P A
  given : Given cfg h₀ h t P A G Q S
  split : ∀ sc ∈ K, cachedBlocks h₀ t sc = G sc ++ cachedBlocks h t sc
  off : ∀ sc, sc ∉ K → G sc = []

section loop

variable {h₀ : Heap} {K : Set ℕ} {P G Q : ℕ → List ℕ} {A S : List ℕ} {b c e : ℕ}

/-- Only classes in `K` are concerned. -/
lemma Loop.mem_K (lp : Loop cfg h₀ h t K P A G Q S) (hb : b ∈ G sc) : sc ∈ K := by
  by_contra out
  rw [lp.off sc out] at hb
  cases hb

/-- The superblock of a block that was given back. -/
lemma Loop.consistent (lp : Loop cfg h₀ h t K P A G Q S) (touched : Touched cfg sc d (G sc)) :
    SmallClass sc ∧ Consistent cfg h₀ sc d := by
  obtain ⟨b, hb, hd⟩ := touched
  have hsc := lp.mem_K hb
  have small := lp.ready.small sc hsc
  obtain ⟨d', hd', cons, -⟩ := lp.ready.cached sc hsc b (by
    rw [lp.split sc hsc]
    exact List.mem_append_left _ hb)
  obtain rfl := Cfg.eq_of_mem small hd small hd'
  exact ⟨small, cons⟩

/-- A superblock is touched by blocks of its own class only. -/
lemma Loop.class_of_touched (lp : Loop cfg h₀ h t K P A G Q S) (cons : Consistent cfg h₀ sc d)
    (touched : Touched cfg c d (G c)) : c = sc := by
  have := (lp.consistent touched).2.heap
  rw [cons.heap] at this
  exact (Option.some.inj this).symm

/-- A word of a block that was not given back. -/
lemma Loop.link_eq (lp : Loop cfg h₀ h t K P A G Q S) (small : SmallClass sc)
    (hb : b ∈ cfg.blocks sc d) (cons : Consistent cfg h₀ sc d) (out : b ∉ G sc) :
    h.link b = h₀.link b := by
  refine Heap.link_congr fun x lo hi => lp.given.mem x fun c b' hb' => ?_
  have hc := lp.mem_K hb'
  have small' := lp.ready.small c hc
  obtain ⟨d', hd', -⟩ := lp.ready.cached c hc b' (by
    rw [lp.split c hc]
    exact List.mem_append_left _ hb')
  -- both are multiples of 8, and they are different
  have ne : b' ≠ b := by
    rintro rfl
    obtain rfl := Cfg.eq_of_mem small hb small' hd'
    obtain rfl := lp.class_of_touched cons ⟨b', hb', hd'⟩
    exact out hb'
  have h1 := Cfg.mod_of_mem small hb
  have h2 := Cfg.mod_of_mem small' hd'
  omega

/-- A superblock that was not touched. -/
lemma Loop.untouched (lp : Loop cfg h₀ h t K P A G Q S) (small : SmallClass sc)
    (cons : Consistent cfg h₀ sc d) (out : ¬Touched cfg sc d (G sc)) :
    h.desc d = h₀.desc d ∧ (∀ b ∈ freeBlocks h₀ d, h.link b = h₀.link b) := by
  refine ⟨lp.given.desc d fun c touched => ?_, fun b hb => ?_⟩
  · obtain rfl := lp.class_of_touched cons touched
    exact out touched
  · have hd := cons.sub b hb
    exact lp.link_eq small hd cons fun hG => out ⟨b, hG, hd⟩

/-- The superblock of a block that is still in the cache. -/
structure Pending (cfg : Cfg) (h₀ h : Heap) (t sc d : ℕ) (P A G Q S : List ℕ) : Prop where
  start : Consistent cfg h₀ sc d
  now : Consistent cfg h sc d
  free : (freeBlocks h d).Perm (within cfg sc d G ++ freeBlocks h₀ d)
  out : ∀ b ∈ cachedBlocks h t sc, b ∉ freeBlocks h d
  notEmpty : (h.desc d).anchor.state ≠ SB_EMPTY
  notAvail : d ∉ S ++ A
  full : (h.desc d).anchor.state = SB_FULL → (h₀.desc d).anchor.state = SB_FULL ∧ d ∉ Q ++ P
  pushed : (h.desc d).anchor.state ≠ SB_FULL → (d ∈ Q ↔ (h₀.desc d).anchor.state = SB_FULL)

/-- Nothing was given to a superblock that was not touched. -/
lemma within_nil_of_untouched {g : List ℕ} (out : ¬Touched cfg sc d g) : within cfg sc d g = [] :=
  List.filter_eq_nil_iff.2 fun b hb => by
    rw [decide_eq_true_eq]
    exact fun hd => out ⟨b, hb, hd⟩

/-- What is given back and what is still there are apart. -/
lemma Loop.not_mem_given (lp : Loop cfg h₀ h t K P A G Q S) (hsc : sc ∈ K)
    (hb : b ∈ cachedBlocks h t sc) : b ∉ G sc := by
  have nd := lp.ready.distinct sc hsc
  rw [lp.split sc hsc] at nd
  exact fun hG => (List.nodup_append.1 nd).2.2 b hG b hb rfl

/-- The first visit or a later one. -/
lemma Loop.pending (lp : Loop cfg h₀ h t K P A G Q S) (hsc : sc ∈ K)
    (hb : b ∈ cachedBlocks h t sc) :
    ∃ d, b ∈ cfg.blocks sc d ∧ Pending cfg h₀ h t sc d (P sc) A (G sc) (Q sc) S := by
  have small := lp.ready.small sc hsc
  have old : ∀ x ∈ cachedBlocks h t sc, x ∈ cachedBlocks h₀ t sc := fun x hx => by
    rw [lp.split sc hsc]
    exact List.mem_append_right _ hx
  obtain ⟨d, hd, cons, hfree, listed, used⟩ := lp.ready.cached sc hsc b (old b hb)
  -- no block in the cache is free at the start
  have out₀ : ∀ x ∈ cachedBlocks h t sc, x ∉ freeBlocks h₀ d := by
    intro x hx hf
    obtain ⟨d', hd', -, hfree', -⟩ := lp.ready.cached sc hsc x (old x hx)
    obtain rfl := Cfg.eq_of_mem small (cons.sub x hf) small hd'
    exact hfree' hf
  have notEmpty₀ := cons.not_empty hd hfree
  refine ⟨d, hd, ?_⟩
  by_cases touched : Touched cfg sc d (G sc)
  · rcases lp.given.sbs sc d cons touched with kept | retired
    · have out : ∀ x ∈ cachedBlocks h t sc, x ∉ freeBlocks h d := by
        intro x hx hf
        rcases List.mem_append.1 (kept.free.mem_iff.1 hf) with hw | hf
        · exact lp.not_mem_given hsc hx (List.mem_of_mem_filter hw)
        · exact out₀ x hx hf
      refine ⟨cons, kept.consistent, kept.free, out, kept.consistent.not_empty hd (out b hb), ?_,
        fun full => absurd full kept.notFull, fun _ => kept.pushed⟩
      rw [List.mem_append]
      exact not_or.2 ⟨kept.notRetired, used⟩
    · exact absurd (retired.all b hd) (lp.not_mem_given hsc hb)
  · obtain ⟨desc, links⟩ := lp.untouched small cons touched
    have free := freeBlocks_congr (.of_eq desc) links
    have notS : d ∉ S := fun hS => by
      obtain ⟨c, -, touched', -⟩ := lp.given.retired.2 d hS
      obtain rfl := lp.class_of_touched cons touched'
      exact touched touched'
    have notQ : d ∉ Q sc := fun hQ => touched ((lp.given.pushed sc).2 d hQ).2.1
    refine ⟨cons, cons.congr (.of_eq desc) links, ?_, ?_, desc ▸ notEmpty₀, ?_, fun full => ?_,
      fun notFull => ?_⟩
    · rw [free, within_nil_of_untouched touched]
      exact List.Perm.refl _
    · rw [free]
      exact out₀
    · rw [List.mem_append]
      exact not_or.2 ⟨notS, used⟩
    · rw [desc] at full
      refine ⟨full, ?_⟩
      rw [List.mem_append, ← listed, full]
      exact not_or.2 ⟨notQ, by simp⟩
    · rw [desc] at notFull
      exact ⟨fun hQ => absurd hQ notQ, fun full => absurd full notFull⟩

/-- The partial list of a class. -/
lemma Loop.part (lp : Loop cfg h₀ h t K P A G Q S) (hsc : sc ∈ K) :
    h.Lists (.part sc) (Q sc ++ P sc) := by
  by_cases nil : G sc = []
  · obtain ⟨list, cls⟩ := lp.ready.part sc hsc
    have hQ : Q sc = [] := List.eq_nil_iff_forall_not_mem.2 fun d hd => by
      obtain ⟨-, ⟨b, hb, -⟩, -⟩ := (lp.given.pushed sc).2 d hd
      rw [nil] at hb
      cases hb
    rw [hQ, List.nil_append, Heap.Lists, lp.given.head sc nil]
    refine list.congr fun d hd => ?_
    rw [lp.given.desc d]
    intro c touched
    have heap := (lp.consistent touched).2.heap
    rw [cls d hd] at heap
    obtain rfl := Option.some.inj heap
    obtain ⟨b, hb, -⟩ := touched
    rw [nil] at hb
    cases hb
  · exact lp.given.part sc nil

/-- A turn that gives the blocks `R` back to superblock `d` leaves the rest of the heap alone. -/
structure Spliced (h h' : Heap) (t sc d : ℕ) (R : List ℕ) : Prop where
  desc : ∀ e, e ≠ d → h'.desc e = h.desc e
  mem : ∀ a, (∀ b ∈ R, a < b ∨ b + 8 ≤ a) → h'.mem a = h.mem a
  cache : ∀ u c, u ≠ t ∨ c ≠ sc → h'.cache u c = h.cache u c
  head : ∀ c, c ≠ sc → h'.head (.part c) = h.head (.part c)
  rest : h'.currAddr = h.currAddr ∧ h'.roots = h.roots ∧ h'.client = h.client ∧ h'.req = h.req ∧
    h'.ret = h.ret

section splice

variable {R Q' S' : List ℕ}

/-- The links of the other superblocks. -/
lemma Spliced.link (sp : Spliced h h' t sc d R) (small : SmallClass sc)
    (subR : ∀ b ∈ R, b ∈ cfg.blocks sc d) (small' : SmallClass c) (ne : e ≠ d)
    (hb : b ∈ cfg.blocks c e) : h'.link b = h.link b := by
  refine Heap.link_congr fun x lo hi => sp.mem x fun r hr => ?_
  have hne : r ≠ b := by
    rintro rfl
    exact ne (Cfg.eq_of_mem small' hb small (subR r hr))
  have h1 := Cfg.mod_of_mem small' hb
  have h2 := Cfg.mod_of_mem small (subR r hr)
  omega

/-- What is known of another superblock stays. -/
lemma Spliced.status (sp : Spliced h h' t sc d R) (small : SmallClass sc)
    (subR : ∀ b ∈ R, b ∈ cfg.blocks sc d) (small' : SmallClass c) (ne : e ≠ d) {g g' q q' : List ℕ}
    (gw : within cfg c e g' = within cfg c e g) (sub : ∀ b ∈ g, b ∈ g') (hq : e ∈ q' ↔ e ∈ q)
    (hS : e ∈ S' ↔ e ∈ S) (old : Refilled cfg h₀ h c e g q S ∨ Retired cfg h₀ h c e g q S) :
    Refilled cfg h₀ h' c e g' q' S' ∨ Retired cfg h₀ h' c e g' q' S' := by
  have desc := sp.desc e ne
  rcases old with kept | retired
  · have links : ∀ b ∈ freeBlocks h e, h'.link b = h.link b := fun b hb =>
      sp.link small subR small' ne (kept.consistent.sub b hb)
    refine .inl ⟨kept.consistent.congr (.of_eq desc) links, ?_, desc ▸ kept.notFull,
      hq.trans kept.pushed, mt hS.1 kept.notRetired⟩
    rw [freeBlocks_congr (.of_eq desc) links, gw]
    exact kept.free
  · exact .inr ⟨retired.full, fun b hb => sub b (retired.all b hb), desc ▸ retired.desc,
      mt hq.1 retired.notPushed, hS.2 retired.retired⟩

/-- The blocks of another superblock. -/
lemma within_append_of_ne (small : SmallClass sc) (subR : ∀ b ∈ R, b ∈ cfg.blocks sc d) (ne : e ≠ d)
    (g : List ℕ) : within cfg sc e (g ++ R) = within cfg sc e g := by
  rw [within, List.filter_append]
  have nil : R.filter (· ∈ cfg.blocks sc e) = [] := within_nil_of_untouched fun ⟨b, hb, he⟩ =>
    ne (Cfg.eq_of_mem small he small (subR b hb))
  rw [nil, List.append_nil, within]

/-- The blocks of the superblock that the run is given back to. -/
lemma within_append_self (subR : ∀ b ∈ R, b ∈ cfg.blocks sc d) (g : List ℕ) :
    within cfg sc d (g ++ R) = within cfg sc d g ++ R := by
  rw [within, List.filter_append]
  congr 1
  exact List.filter_eq_self.2 fun b hb => decide_eq_true (subR b hb)

/-- The caches of the other classes. -/
lemma Loop.cachedBlocks_splice (lp : Loop cfg h₀ h t K P A G Q S) (small : SmallClass sc)
    (cons : Consistent cfg h₀ sc d) (subR : ∀ b ∈ R, b ∈ cfg.blocks sc d)
    (sp : Spliced h h' t sc d R) (hc : c ∈ K) (ne : c ≠ sc) :
    cachedBlocks h' t c = cachedBlocks h t c := by
  rw [cachedBlocks, sp.cache t c (.inr ne)]
  refine walk_congr fun b hb => ?_
  obtain ⟨e, he, pd⟩ := lp.pending hc hb
  refine sp.link small subR (lp.ready.small c hc) ?_ he
  rintro rfl
  exact ne (Option.some.inj (pd.start.heap.symm.trans cons.heap))

/-- The superblocks `Q'` are those of `Q` and perhaps `d`, which had given all its blocks away. -/
structure Joined (h₀ : Heap) (d : ℕ) (Q Q' : List ℕ) : Prop where
  nodup : Q'.Nodup
  other : ∀ e, e ≠ d → (e ∈ Q' ↔ e ∈ Q)
  full : d ∈ Q' → (h₀.desc d).anchor.state = SB_FULL

/-- One turn: the run `R` at the front of the cache was given back to superblock `d`. -/
structure Turned (cfg : Cfg) (h₀ h h' : Heap) (t sc d : ℕ) (G R Q Q' S S' : List ℕ) : Prop
    extends Spliced h h' t sc d R where
  split : cachedBlocks h t sc = R ++ cachedBlocks h' t sc
  nonempty : R ≠ []
  sub : ∀ b ∈ R, b ∈ cfg.blocks sc d
  start : Consistent cfg h₀ sc d
  status : Refilled cfg h₀ h' sc d (G ++ R) Q' S' ∨ Retired cfg h₀ h' sc d (G ++ R) Q' S'
  pushed : Joined h₀ d Q Q'
  retired : Joined h₀ d S S'

/-- What was given back before still is. -/
lemma mem_update_append (hb : b ∈ G c) : b ∈ Function.update G sc (G sc ++ R) c := by
  by_cases e : c = sc
  · subst e
    rw [Function.update_self]
    exact List.mem_append_left _ hb
  · rwa [Function.update_of_ne e]

/-- A superblock that was touched stays so. -/
lemma Touched.update (touched : Touched cfg c e (G c)) :
    Touched cfg c e (Function.update G sc (G sc ++ R) c) := by
  obtain ⟨b, hb, he⟩ := touched
  exact ⟨b, mem_update_append hb, he⟩

section step

variable (td : Turned cfg h₀ h h' t sc d (G sc) R (Q sc) Q' S S')
include td

/-- The superblock of the run. -/
lemma Turned.touches : Touched cfg sc d (Function.update G sc (G sc ++ R) sc) := by
  obtain ⟨b, hb⟩ := List.exists_mem_of_ne_nil _ td.nonempty
  rw [Function.update_self]
  exact ⟨b, List.mem_append_right _ hb, td.sub b hb⟩

/-- Superblocks of other classes are other superblocks. -/
lemma Turned.ne_of_class (heap : (h₀.desc e).heap = some c) (ne : c ≠ sc) : e ≠ d := by
  rintro rfl
  exact ne (Option.some.inj (heap.symm.trans td.start.heap))

/-- Other superblocks of the class were touched before. -/
lemma Turned.touched_before (small : SmallClass sc) (ne : e ≠ d)
    (touched : Touched cfg sc e (G sc ++ R)) : Touched cfg sc e (G sc) := by
  obtain ⟨b, hb, he⟩ := touched
  rcases List.mem_append.1 hb with hb | hb
  · exact ⟨b, hb, he⟩
  · exact absurd (Cfg.eq_of_mem small he small (td.sub b hb)) ne

variable (lp : Loop cfg h₀ h t K P A G Q S)
include lp

/-- The superblocks after the turn. -/
lemma Loop.step_sbs (hsc : sc ∈ K) (cons : Consistent cfg h₀ c e)
    (touched : Touched cfg c e (Function.update G sc (G sc ++ R) c)) :
    Refilled cfg h₀ h' c e (Function.update G sc (G sc ++ R) c) (Function.update Q sc Q' c) S' ∨
      Retired cfg h₀ h' c e (Function.update G sc (G sc ++ R) c)
      (Function.update Q sc Q' c) S' := by
  have small := lp.ready.small sc hsc
  by_cases e1 : c = sc
  · subst e1
    rw [Function.update_self] at touched ⊢
    rw [Function.update_self]
    by_cases e2 : e = d
    · subst e2
      exact td.status
    · exact td.toSpliced.status small td.sub small e2 (within_append_of_ne small td.sub e2 _)
        (fun b hb => List.mem_append_left _ hb) (td.pushed.other e e2) (td.retired.other e e2)
        (lp.given.sbs c e cons (td.touched_before small e2 touched))
  · rw [Function.update_of_ne e1] at touched ⊢
    rw [Function.update_of_ne e1]
    have ne := td.ne_of_class cons.heap e1
    exact td.toSpliced.status small td.sub (lp.consistent touched).1 ne rfl (fun _ hb => hb) Iff.rfl
      (td.retired.other e ne) (lp.given.sbs c e cons touched)

/-- The superblocks that were pushed on a partial list. -/
lemma Loop.step_pushed (c : ℕ) : (Function.update Q sc Q' c).Nodup ∧
    ∀ e ∈ Function.update Q sc Q' c, Consistent cfg h₀ c e ∧
      Touched cfg c e (Function.update G sc (G sc ++ R) c) ∧
      (h₀.desc e).anchor.state = SB_FULL := by
  by_cases e1 : c = sc
  · subst e1
    rw [Function.update_self]
    refine ⟨td.pushed.nodup, fun e he => ?_⟩
    by_cases e2 : e = d
    · subst e2
      exact ⟨td.start, td.touches, td.pushed.full he⟩
    · obtain ⟨cons, touched, full⟩ := (lp.given.pushed c).2 e ((td.pushed.other e e2).1 he)
      exact ⟨cons, touched.update, full⟩
  · rw [Function.update_of_ne e1, Function.update_of_ne e1]
    exact lp.given.pushed c

/-- The superblocks that were retired. -/
lemma Loop.step_retired (he : e ∈ S') : ∃ c, Consistent cfg h₀ c e ∧
    Touched cfg c e (Function.update G sc (G sc ++ R) c) ∧ (h₀.desc e).anchor.state = SB_FULL := by
  by_cases e2 : e = d
  · subst e2
    exact ⟨sc, td.start, td.touches, td.retired.full he⟩
  · obtain ⟨c, cons, touched, full⟩ := lp.given.retired.2 e ((td.retired.other e e2).1 he)
    exact ⟨c, cons, touched.update, full⟩

/-- The partial list of another class. -/
lemma Loop.step_part (ne : c ≠ sc) (hc : G c ≠ []) : h'.Lists (.part c) (Q c ++ P c) := by
  obtain ⟨b, hb⟩ := List.exists_mem_of_ne_nil _ hc
  rw [Heap.Lists, td.head c ne]
  refine (lp.given.part c hc).congr fun e he => ?_
  have heap : (h₀.desc e).heap = some c := by
    rcases List.mem_append.1 he with he | he
    · exact ((lp.given.pushed c).2 e he).1.heap
    · exact (lp.ready.part c (lp.mem_K hb)).2 e he
  rw [td.desc e (td.ne_of_class heap ne)]

/-- What was given back after the turn. -/
lemma Loop.step_given (hsc : sc ∈ K) (part : h'.Lists (.part sc) (Q' ++ P sc))
    (avail : h'.Lists .avail (S' ++ A)) :
    Given cfg h₀ h' t P A (Function.update G sc (G sc ++ R)) (Function.update Q sc Q') S' := by
  have given := lp.given
  have filled : Function.update G sc (G sc ++ R) sc ≠ [] := by
    rw [Function.update_self]
    exact fun e => td.nonempty (List.append_eq_nil_iff.1 e).2
  constructor
  case sbs => exact fun c e => lp.step_sbs td hsc
  case pushed => exact lp.step_pushed td
  case retired => exact ⟨td.retired.nodup, fun e => lp.step_retired td⟩
  case part =>
    intro c hc
    by_cases e1 : c = sc
    · subst e1
      rwa [Function.update_self]
    · rw [Function.update_of_ne e1] at hc ⊢
      exact lp.step_part td e1 hc
  case avail => exact avail
  case head =>
    intro c hc
    have e1 : c ≠ sc := fun e => filled (e ▸ hc)
    rw [Function.update_of_ne e1] at hc
    rw [td.head c e1, given.head c hc]
  case desc =>
    intro e out
    have e2 : e ≠ d := by
      rintro rfl
      exact out sc td.touches
    rw [td.desc e e2]
    exact given.desc e fun c touched => out c touched.update
  case mem =>
    intro a out
    rw [td.mem a, given.mem a]
    · exact fun c b hb => out c b (mem_update_append hb)
    · intro b hb
      refine out sc b ?_
      rw [Function.update_self]
      exact List.mem_append_right _ hb
  case cache =>
    intro u c out
    by_cases e1 : c = sc
    · subst e1
      have hu : u ≠ t := out.resolve_right filled
      rw [td.cache u c (.inl hu), given.cache u c (.inl hu)]
    · rw [Function.update_of_ne e1] at out
      rw [td.cache u c (.inr e1), given.cache u c out]
  case rest =>
    obtain ⟨a1, a2, a3, a4, a5⟩ := td.rest
    obtain ⟨b1, b2, b3, b4, b5⟩ := given.rest
    exact ⟨a1.trans b1, a2.trans b2, a3.trans b3, a4.trans b4, a5.trans b5⟩

/-- One turn of the loop. -/
lemma Loop.step (hsc : sc ∈ K) (part : h'.Lists (.part sc) (Q' ++ P sc))
    (avail : h'.Lists .avail (S' ++ A)) :
    Loop cfg h₀ h' t K P A (Function.update G sc (G sc ++ R)) (Function.update Q sc Q') S' := by
  refine ⟨lp.ready, lp.step_given td hsc part avail, fun c hc => ?_, fun c hc => ?_⟩
  · by_cases e1 : c = sc
    · subst e1
      rw [lp.split c hc, td.split, Function.update_self, List.append_assoc]
    · rw [Function.update_of_ne e1,
        lp.cachedBlocks_splice (lp.ready.small sc hsc) td.start td.sub td.toSpliced hc e1]
      exact lp.split c hc
  · have e1 : c ≠ sc := fun e => hc (e ▸ hsc)
    rw [Function.update_of_ne e1]
    exact lp.off c hc

end step

end splice

end loop

end Ralloc
