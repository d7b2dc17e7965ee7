import Ralloc.Machine.Lists

/-!
# Transitions on blocks

The transitions that move blocks of assigned superblocks: out of a superblock into a cache
(`Trans.takeAll`), between a cache and the hands of a thread (`Trans.cut`), back into a superblock
(`Trans.giveBack`), to and from the clients (`Trans.popBlock`, `Trans.startFree`,
`Trans.pushBlock`), and the writes of link words in between (`Trans.setLink`). The last two bring
the blocks of a superblock into being and take them apart again (`Trans.assign`, `Trans.dissolve`).
-/

namespace Ralloc

open Lib SuperblockState

variable {cfg : Cfg} {t : ℕ} {h h' : Heap} {L L' : Ledger}

/-- Blocks that belong to a class are word aligned 48-bit addresses. -/
lemma Ledger.Ok.word_of_class (ok : L.Ok cfg) {b sc} (hb : L.InClass cfg b sc) :
    b % 8 = 0 ∧ b < ADDR := by
  obtain ⟨d, o, hr, hm⟩ := hb
  exact ⟨Cfg.mod_of_mem (ok.cls hr) hm, Cfg.lt_of_mem (ok.cls hr) (ok.insideOf hr (by simp)) hm⟩

/-- The same for blocks at a listed place. -/
lemma Ledger.Ok.word (ok : L.Ok cfg) {b c} (hb : L.place b = c) (hc : c.Tracked) :
    b % 8 = 0 ∧ b < ADDR := by
  have hh := ok.inClass hb
  cases c with
  | none => exact hc.elim
  | held => exact hc.elim
  | freeing u sc => exact ok.word_of_class hh
  | cached u sc => exact ok.word_of_class hh
  | hands u sc => exact ok.word_of_class hh
  | free d =>
    obtain ⟨sc, o, hr, hm⟩ := hh
    exact ok.word_of_class ⟨d, o, hr, hm⟩

/-- Writing the link of one block keeps the links of the others. -/
lemma Ledger.Ok.link_ne (ok : L.Ok cfg) {b v c x y} (hb : L.place b = x) (hx : x.Tracked)
    (hc : L.place c = y) (hy : y.Tracked) (ne : c ≠ b) : (h.setLink b v).link c = h.link c :=
  Heap.link_setLink_ne ne (ok.word hb hx).1 (ok.word hc hy).1

/-- A block at one place is not listed at another one. -/
lemma Ledger.Ok.ne_of_mem (ok : L.Ok cfg) {b c x y} (hb : L.place b = x)
    (hc : c ∈ L.blks.items y) (hy : y.Tracked) (ne : x ≠ y) : c ≠ b := by
  rintro rfl
  exact ne (hb.symm.trans ((ok.mem_items hy).1 hc))

/-- The blocks on one list keep their links when the link of a block elsewhere is written. -/
lemma Ledger.Ok.linked_setLink (ok : L.Ok cfg) {b v x y} (hb : L.place b = x) (hx : x.Tracked)
    (hy : y.Tracked) (ne : x ≠ y) (hl : Linked h.link (L.blks.items y)) :
    Linked (h.setLink b v).link (L.blks.items y) := by
  refine hl.congr fun c hc => ?_
  have hc' := List.dropLast_subset _ hc
  exact ok.link_ne hb hx ((ok.mem_items hy).1 hc') hy (ok.ne_of_mem hb hc' hy ne)

/-- A write to the link word of a block that thread `t` has in its hands. -/
theorem Trans.setLink (ok : L.Ok cfg) (rep : Rep cfg h L) {b v sc}
    (hb : L.place b = .hands t sc) : Trans cfg t h L (h.setLink b v) L := by
  refine ⟨ok, ?_, fun u ne => ?_⟩
  · refine { rep with
      free := fun d => ?_
      cache := fun u sc' => ?_ }
    · exact ok.linked_setLink hb trivial trivial (by simp) (rep.free d)
    · have c := rep.cache u sc'
      exact ⟨c.num, c.head, ok.linked_setLink hb trivial trivial (by simp) c.linked, c.le⟩
  · refine { Frame.refl u h L with link := fun hc => ?_ }
    refine ok.link_ne hb trivial hc trivial ?_
    rintro rfl
    rw [hb] at hc
    cases hc
    exact ne rfl

/-- Moving blocks between places that look the same to the clients. -/
lemma Rep.client_move (rep : Rep cfg h L) {run c c'} (at_c : ∀ b ∈ run, L.place b = c)
    (e : c.client = c'.client) (b : ℕ) :
    h.client b = ((L.moveBlk run c c').place b).client := by
  by_cases hb : b ∈ run
  · rw [Ledger.moveBlk_place_mem hb, rep.client, at_c b hb, e]
  · rw [Ledger.moveBlk_place_not_mem hb, rep.client]

/-- Blocks of a superblock that is being set up do not move. -/
lemma Rep.fresh_move (rep : Rep cfg h L) {run c c'} (at_c : ∀ b ∈ run, L.place b = c) {d sc u}
    (hd : L.role d = .small sc (.fresh u)) (hc : c ≠ .hands u sc) (b : ℕ)
    (hb : b ∈ cfg.blocks sc d) : (L.moveBlk run c c').place b = .hands u sc := by
  have hp := rep.fresh hd b hb
  rw [Ledger.moveBlk_place_not_mem fun hm => hc ((at_c b hm).symm.trans hp)]
  exact hp

/-- Only one cache bin changes. -/
lemma Rep.cache_set (rep : Rep cfg h L) {sc bin C} (new : CacheRep h.link bin sc C)
    (cache : h'.cache = (h.setCache t sc bin).cache) (link : h'.link = h.link)
    (here : L'.blks.items (.cached t sc) = C)
    (other : ∀ u sc', (u ≠ t ∨ sc' ≠ sc) →
      L'.blks.items (.cached u sc') = L.blks.items (.cached u sc')) (u sc' : ℕ) :
    CacheRep h'.link (h'.cache u sc') sc' (L'.blks.items (.cached u sc')) := by
  rw [cache, link]
  by_cases e : u = t
  · subst e
    by_cases e' : sc' = sc
    · subst e'
      rw [Heap.cache_setCache_self, here]
      exact new
    · rw [Heap.cache_setCache_class e', other u sc' (.inr e')]
      exact rep.cache u sc'
  · rw [Heap.cache_setCache_thread e, other u sc' (.inl e)]
    exact rep.cache u sc'

/-- A superblock that is not assigned has no free blocks. -/
lemma Ledger.Ok.free_nil (ok : L.Ok cfg) {d} (hd : ∀ sc o, L.role d ≠ .small sc o) :
    L.blks.items (.free d) = [] := by
  refine List.eq_nil_iff_forall_not_mem.2 fun b hb => ?_
  obtain ⟨sc, o, hr, _⟩ := ok.inClass ((ok.mem_items (c := .free d) trivial).1 hb)
  exact hd sc o hr

/-- All superblocks but `d` are the same in both ledgers, and so are the lists and the large
blocks. -/
structure Ledger.Others (L L' : Ledger) (d : ℕ) : Prop where
  n : L'.n = L.n
  role : ∀ {e}, e ≠ d → L'.role e = L.role e
  free : ∀ {e}, e ≠ d → L'.blks.items (.free e) = L.blks.items (.free e)
  lists : ∀ l : ListId, L'.sbs.items l.role = L.sbs.items l.role
  large : ∀ p, L'.sbs.items (.large p) = L.sbs.items (.large p)

section others

variable {d : ℕ} {D : Descriptor} {C : ℕ → ℕ → TCacheBin} (oth : L.Others L' d)
include oth

/-- The descriptor of one superblock and some cache bins change. What has to be known about that
superblock are its descriptor, its anchor and its free list. -/
lemma Rep.others (rep : Rep cfg h L) (small : ∀ p, L'.role d ≠ .large p)
    (desc : DescRep cfg d D (L'.role d))
    (anchor : ∀ sc o, L'.role d = .small sc o →
      AnchorRep cfg sc d D.anchor (L'.blks.items (.free d)) o)
    (free : Linked h.link (L'.blks.items (.free d)))
    (fresh : ∀ {e sc u}, L'.role e = .small sc (.fresh u) → ∀ b ∈ cfg.blocks sc e,
      L'.place b = .hands u sc)
    (next : ∀ l : ListId, d ∈ L.sbs.items l.role → D.next l = (h.desc d).next l)
    (cache : ∀ t sc, CacheRep h.link (C t sc) sc (L'.blks.items (.cached t sc)))
    (client : ∀ b, h.client b = (L'.place b).client) :
    Rep cfg { h with desc := Function.update h.desc d D, cache := C } L' := by
  constructor
  case curr => exact oth.n ▸ rep.curr
  case pos => exact oth.n ▸ rep.pos
  case desc =>
    intro e
    show DescRep cfg e (Function.update h.desc d D e) (L'.role e)
    by_cases e' : e = d
    · subst e'
      rw [Function.update_self]
      exact desc
    · rw [Function.update_of_ne e', oth.role e']
      exact rep.desc e
  case anchor =>
    intro e sc o he
    show AnchorRep cfg sc e (Function.update h.desc d D e).anchor (L'.blks.items (.free e)) o
    by_cases e' : e = d
    · subst e'
      rw [Function.update_self]
      exact anchor sc o he
    · rw [oth.role e'] at he
      rw [Function.update_of_ne e', oth.free e']
      exact rep.anchor he
  case free =>
    intro e
    by_cases e' : e = d
    · exact e' ▸ free
    · rw [oth.free e']
      exact rep.free e
  case fresh => exact fresh
  case list =>
    intro l
    rw [oth.lists l]
    refine (rep.list l).congr fun p hp => ?_
    show (Function.update h.desc d D p).next l = (h.desc p).next l
    by_cases e : p = d
    · subst e
      rw [Function.update_self, next l hp]
    · rw [Function.update_of_ne e]
  case cnt => exact rep.cnt
  case cache => exact cache
  case client => exact client
  case large =>
    intro e he
    have e' : e ≠ d := by
      rintro rfl
      exact small _ he
    rw [oth.role e'] at he
    simp only [oth.large, Function.update_of_ne e']
    exact rep.large he

/-- Another thread does not notice that the anchor of a superblock and other threads' caches change,
if it has nothing to do with the blocks that move and does not own the superblock. -/
lemma Frame.others {u : ℕ} {a : Anchor} (cache : C u = h.cache u) (not_raw : L.role d ≠ .raw u)
    (free : ∀ sc, L.role d = .small sc (.thr u) →
      (L.blks.items (.free d)).length ≤ (L'.blks.items (.free d)).length)
    (sbs : ∀ sc x, x = .raw u ∨ x = .small sc (.thr u) ∨ x = .small sc (.fresh u) →
      L'.sbs.items x = L.sbs.items x)
    (blks : ∀ sc x, x = .freeing u sc ∨ x = .hands u sc ∨ x = .cached u sc →
      L'.blks.items x = L.blks.items x) :
    Frame u h L
      { h with desc := Function.update h.desc d { h.desc d with anchor := a }, cache := C } L' := by
  have next : ∀ (l : ListId) e,
      (Function.update h.desc d { h.desc d with anchor := a } e).next l = (h.desc e).next l := by
    intro l e
    by_cases e' : e = d
    · subst e'
      rw [Function.update_self]
      cases l <;> rfl
    · rw [Function.update_of_ne e']
  refine { Frame.refl u h L with
    cache := cache
    raw := sbs 0 _ (.inl rfl)
    own := fun sc => sbs sc _ (.inr (.inl rfl))
    fresh := fun sc => sbs sc _ (.inr (.inr rfl))
    freeing := fun sc => blks sc _ (.inl rfl)
    hands := fun sc => blks sc _ (.inr (.inl rfl))
    cached := fun sc => blks sc _ (.inr (.inr rfl))
    free := fun {e sc} he => ?_
    rawDesc := fun he => ?_
    ownDesc := fun _ => ⟨next .avail _, next (.part 0) _⟩
    next := fun _ hp => ⟨oth.lists _ ▸ hp, next _ _⟩ }
  · by_cases e' : e = d
    · subst e'
      exact free sc he
    · rw [oth.free e']
  · refine Function.update_of_ne ?_ ..
    rintro rfl
    exact not_raw he

end others

/-- Thread `t` has superblock `d`, the only one it has this way, and its blocks at the place `c`: in
its hands, while it sets the superblock up, or still in the superblock, which it has popped. -/
structure Takes (L : Ledger) (t d sc : ℕ) (o : Owner) (c : Place) : Prop where
  how : o = .fresh t ∧ c = .hands t sc ∨ o = .thr t ∧ c = .free d
  only : L.sbs.items (.small sc o) = [d]

/-- The ledger when these blocks have gone into the cache. -/
def Ledger.takeAll (L : Ledger) (t d sc : ℕ) (o : Owner) (c : Place) : Ledger :=
  (L.moveSb [d] (.small sc o) (.small sc .full)).moveBlk (L.blks.items c) c (.cached t sc)

section takeAll

variable {d sc : ℕ} {o : Owner} {c : Place} (tk : Takes L t d sc o c)
include tk

/-- The place of the blocks is listed, and it is not the cache. -/
lemma Takes.place : c.Tracked ∧ c ≠ .cached t sc := by
  rcases tk.how with ⟨-, rfl⟩ | ⟨-, rfl⟩ <;> exact ⟨trivial, by simp⟩

/-- The superblock is neither full nor listed. -/
lemma Takes.owner : o ≠ .full ∧ o ≠ .listed := by
  rcases tk.how with ⟨rfl, -⟩ | ⟨rfl, -⟩ <;> simp

/-- The role of the superblock before. -/
lemma Takes.role (ok : L.Ok cfg) : L.role d = .small sc o := by
  refine (ok.mem_sbs ?_).1 (by simp [tk.only])
  rcases tk.how with ⟨rfl, -⟩ | ⟨rfl, -⟩ <;> trivial

/-- The blocks are where the thread says. -/
lemma Takes.at_place (ok : L.Ok cfg) : ∀ b ∈ L.blks.items c, L.place b = c :=
  fun _ hb => (ok.mem_items tk.place.1).1 hb

omit tk in
/-- The role of the superblock afterwards. -/
lemma Ledger.takeAll_role : (L.takeAll t d sc o c).role d = .small sc .full :=
  Ledger.moveSb_role_mem (by simp)

omit tk in
/-- Roles with the same superblocks. -/
lemma Ledger.takeAll_sbs {r : Role} (h1 : r ≠ .small sc o) (h2 : r ≠ .small sc .full) :
    (L.takeAll t d sc o c).sbs.items r = L.sbs.items r :=
  Placement.move_items_other h1 h2

omit tk in
/-- Places with the same blocks. -/
lemma Ledger.takeAll_blks {x : Place} (h1 : x ≠ c) (h2 : x ≠ .cached t sc) :
    (L.takeAll t d sc o c).blks.items x = L.blks.items x :=
  Placement.move_items_other h1 h2

/-- The ledger is still in order. -/
lemma Takes.ok (ok : L.Ok cfg) : (L.takeAll t d sc o c).Ok cfg := by
  have ok₁ : (L.moveSb [d] (.small sc o) (.small sc .full)).Ok cfg :=
    ok.moveSb_owner tk.owner.1 (tk.role ok) fun _ => by simp [tk.only]
  have at_c := tk.at_place ok
  refine ok₁.moveBlk tk.place.2 (by simp) (ok.blks c tk.place.1).nodup at_c
    (fun _ => List.prefix_refl _) (fun b hb => ?_) ?_
  · have home := ok₁.inClass (b := b) (at_c b hb)
    rcases tk.how with ⟨-, rfl⟩ | ⟨-, rfl⟩
    · exact home
    · obtain ⟨sc', o', role, mem⟩ := home
      have full : (L.moveSb [d] (.small sc o) (.small sc .full)).role d = .small sc .full :=
        Ledger.moveSb_role_mem (by simp)
      cases full.symm.trans role
      exact ⟨d, _, full, mem⟩
  · rintro rfl
    exact tk.place.1.elim

/-- The other superblocks are as they were. -/
lemma Takes.others : L.Others (L.takeAll t d sc o c) d where
  n := rfl
  role ne := Ledger.moveSb_role_not_mem (by simpa using ne)
  free ne := by
    refine Ledger.takeAll_blks ?_ (by simp)
    rcases tk.how with ⟨-, rfl⟩ | ⟨-, rfl⟩ <;> simp [ne]
  lists l := by
    refine Ledger.takeAll_sbs ?_ ?_ <;> cases l <;> simp [ListId.role]
    exact fun _ => tk.owner.2.symm
  large _ := Ledger.takeAll_sbs (by simp) (by simp)

/-- Afterwards the superblock has no free block. -/
lemma Takes.free_nil (ok : L.Ok cfg) (rep : Rep cfg h L) :
    (L.takeAll t d sc o c).blks.items (.free d) = [] := by
  have role := tk.role ok
  rcases tk.how with ⟨rfl, rfl⟩ | ⟨-, rfl⟩
  · rw [Ledger.takeAll_blks (by simp) (by simp)]
    exact (rep.anchor role).2
  · exact Placement.move_items_from tk.place.2 (by simp)

/-- Superblocks that are being set up keep their blocks: this thread sets up one at a time. -/
lemma Takes.fresh (ok : L.Ok cfg) (rep : Rep cfg h L) {e sc' u : ℕ}
    (he : (L.takeAll t d sc o c).role e = .small sc' (.fresh u)) (b : ℕ)
    (hb : b ∈ cfg.blocks sc' e) : (L.takeAll t d sc o c).place b = .hands u sc' := by
  have e' : e ≠ d := by
    rintro rfl
    simp [Ledger.takeAll_role] at he
  rw [tk.others.role e'] at he
  refine rep.fresh_move (tk.at_place ok) he ?_ b hb
  rcases tk.how with ⟨rfl, rfl⟩ | ⟨-, rfl⟩
  · rintro ⟨⟩
    have mem := (ok.mem_sbs (r := .small sc (.fresh t)) trivial).2 he
    rw [tk.only] at mem
    exact e' (by simpa using mem)
  · simp

/-- Another thread. -/
lemma Takes.frame (ok : L.Ok cfg) {bin : TCacheBin} {a : Anchor} {u : ℕ} (ne : u ≠ t) :
    Frame u h L ((h.setCache t sc bin).setDesc d { h.desc d with anchor := a })
      (L.takeAll t d sc o c) := by
  have role := tk.role ok
  refine Frame.others tk.others (Heap.cache_setCache_thread ne) (by simp [role]) (fun sc' he => ?_)
    (fun sc' x hx => ?_) fun sc' x hx => ?_
  · rw [role] at he
    cases he
    rcases tk.how with ⟨h1, -⟩ | ⟨h1, -⟩ <;> cases h1
    exact absurd rfl ne
  · refine Ledger.takeAll_sbs ?_ ?_
    · rcases tk.how with ⟨rfl, -⟩ | ⟨rfl, -⟩ <;> rcases hx with rfl | rfl | rfl <;> simp [ne]
    · rcases hx with rfl | rfl | rfl <;> simp
  · refine Ledger.takeAll_blks ?_ ?_
    · rcases tk.how with ⟨-, rfl⟩ | ⟨-, rfl⟩ <;> rcases hx with rfl | rfl | rfl <;> simp [ne]
    · rcases hx with rfl | rfl | rfl <;> simp [ne]

/-- All blocks of a place go into the empty cache of thread `t` and their superblock becomes full:
the end of `malloc_from_newsb` and of `malloc_from_partial`. -/
theorem Trans.takeAll (ok : L.Ok cfg) (rep : Rep cfg h L) {block : ℕ}
    (linked : Linked h.link (L.blks.items c)) (head : (L.blks.items c).head? = some block)
    (le : (L.blks.items c).length ≤ cacheBlockNum sc) (empty : L.blks.items (.cached t sc) = []) :
    Trans cfg t h L
      ((h.setCache t sc ⟨block, (L.blks.items c).length⟩).setDesc d
        { h.desc d with anchor := .full (maxcount sc) })
      (L.takeAll t d sc o c) := by
  have role := tk.role ok
  have role' : (L.takeAll t d sc o c).role d = .small sc .full := Ledger.takeAll_role
  have none := tk.free_nil ok rep
  refine ⟨tk.ok ok, ?_, fun u ne => tk.frame ok ne⟩
  show Rep cfg { h with
    desc := Function.update h.desc d { h.desc d with anchor := .full (maxcount sc) }
    cache := (h.setCache t sc ⟨block, (L.blks.items c).length⟩).cache } _
  refine rep.others tk.others (by simp [role']) ?_ (fun sc' o' he => ?_) (none ▸ linked_nil)
    (tk.fresh ok rep) (fun l hl => ?_) ?_ (rep.client_move (tk.at_place ok) ?_)
  · have old := rep.desc d
    rw [role] at old
    rw [role']
    exact old
  · cases role'.symm.trans he
    exact ⟨rfl, none⟩
  · have listed := role.symm.trans ((ok.mem_sbs l.role_tracked).1 hl)
    cases l with
    | avail => cases listed
    | part sc' =>
      cases listed
      exact absurd rfl tk.owner.2
  · have cached : (h.setCache t sc ⟨block, (L.blks.items c).length⟩).cache = _ := rfl
    refine rep.cache_set ⟨rfl, fun _ => head, linked, le⟩ cached rfl ?_
      fun u sc' hu => Ledger.takeAll_blks ?_ ?_
    · refine (Placement.move_items_to _ _ _ _).trans ?_
      exact (congrArg (L.blks.items c ++ ·) empty).trans (List.append_nil _)
    · rcases tk.how with ⟨-, rfl⟩ | ⟨-, rfl⟩ <;> simp
    · simp only [ne_eq, Place.cached.injEq, not_and_or]
      exact hu
  · rcases tk.how with ⟨-, rfl⟩ | ⟨-, rfl⟩ <;> rfl

end takeAll

/-- Moves that only concern thread `t` and its clients, seen by another thread. -/
lemma Frame.moveBlk {u : ℕ} {run c c'}
    (mine : ∀ sc, (c ≠ .freeing u sc ∧ c ≠ .hands u sc ∧ c ≠ .cached u sc) ∧
      (c' ≠ .freeing u sc ∧ c' ≠ .hands u sc ∧ c' ≠ .cached u sc))
    (free : ∀ d, c ≠ .free d) (cache : h'.cache u = h.cache u) (req : h'.req = h.req)
    (link : ∀ {sc b}, L.place b = .hands u sc → h'.link b = h.link b) (desc : h'.desc = h.desc)
    (pushes : h'.pushes = h.pushes) : Frame u h L h' (L.moveBlk run c c') := by
  constructor
  case cache => exact cache
  case req => rw [req]
  case raw => rfl
  case own => exact fun _ => rfl
  case fresh => exact fun _ => rfl
  case freeing => exact fun sc => Placement.move_items_other (mine sc).1.1.symm (mine sc).2.1.symm
  case hands =>
    exact fun sc => Placement.move_items_other (mine sc).1.2.1.symm (mine sc).2.2.1.symm
  case cached =>
    exact fun sc => Placement.move_items_other (mine sc).1.2.2.symm (mine sc).2.2.2.symm
  case free =>
    intro d sc _
    rw [Ledger.moveBlk_items, if_neg (free d).symm]
    split
    case isTrue e => rw [← e]; simp
    case isFalse => exact le_rfl
  case link => exact link
  case rawDesc => exact fun _ => by rw [desc]
  case ownDesc => exact fun _ => by rw [desc]; exact ⟨rfl, rfl⟩
  case pushes => exact fun l => by rw [pushes]
  case next => exact fun _ hp => ⟨hp, by rw [desc]⟩

/-- The cache gives its first block to the client. -/
theorem Trans.popBlock (ok : L.Ok cfg) (rep : Rep cfg h L) {sc b rest}
    (hC : L.blks.items (.cached t sc) = b :: rest) :
    Trans cfg t h L
      (((h.setCache t sc ⟨h.link b, (h.cache t sc).num - 1⟩).setClient b .held).setRet t b)
      (L.moveBlk [b] (.cached t sc) .held) := by
  have hb : L.place b = .cached t sc := (ok.mem_items (c := .cached t sc) trivial).1 (by simp [hC])
  have at_c : ∀ x ∈ [b], L.place x = .cached t sc := fun x hx => List.mem_singleton.1 hx ▸ hb
  have old := rep.cache t sc
  rw [hC] at old
  set L' := L.moveBlk [b] (.cached t sc) .held with hL'
  have free : ∀ d, L'.blks.items (.free d) = L.blks.items (.free d) := fun d =>
    Placement.move_items_other (by simp) (by simp)
  refine ⟨?_, ?_, fun u ne => ?_⟩
  · refine ok.moveBlk (by simp) (by simp) (by simp) at_c (fun _ => by simp [hC]) ?_ (by simp)
    intro x hx
    exact .inl ⟨sc, ok.inClass (at_c x hx)⟩
  · refine { rep with
      anchor := fun hr => ?_
      free := fun d => ?_
      fresh := fun hr => rep.fresh_move at_c hr (by simp)
      cache := ?_
      client := fun x => ?_ }
    · rw [free]
      exact rep.anchor hr
    · rw [free]
      exact rep.free d
    · refine rep.cache_set (C := rest) ⟨?_, fun hne => ?_, old.linked.tail, ?_⟩ rfl rfl
        (Placement.move_items_from (by simp) (by simp [hC])) fun u sc' hu => ?_
      · simp [old.num]
      · obtain ⟨c, rest, rfl⟩ := List.exists_cons_of_ne_nil hne
        simp [(linked_cons_cons.1 old.linked).1]
      · have := old.le
        simp only [List.length_cons] at this
        omega
      · refine Placement.move_items_other ?_ (by simp)
        simp only [ne_eq, Place.cached.injEq, not_and_or]
        exact hu
    · by_cases e : x = b
      · subst e
        rw [hL', Ledger.moveBlk_place_mem (by simp)]
        exact Heap.client_setClient_self ..
      · rw [hL', Ledger.moveBlk_place_not_mem (by simpa using e)]
        exact (Heap.client_setClient_ne e).trans (rep.client x)
  · refine Frame.moveBlk (fun sc' => ?_) (by simp) (Heap.cache_setCache_thread ne) rfl
      (fun _ => rfl) rfl rfl
    simp [ne.symm]

/-- `flush_cache` cuts a run off the front of the cache. -/
theorem Trans.cut (ok : L.Ok cfg) (rep : Rep cfg h L) {sc R rest tail}
    (hC : L.blks.items (.cached t sc) = R ++ rest) (htail : R.getLast? = some tail) :
    Trans cfg t h L (h.setCache t sc ⟨h.link tail, (h.cache t sc).num - R.length⟩)
      (L.moveBlk R (.cached t sc) (.hands t sc)) := by
  have enum := ok.blks (.cached t sc) trivial
  rw [hC] at enum
  have at_c : ∀ x ∈ R, L.place x = .cached t sc := fun x hx => enum.loc_of_mem (by simp [hx])
  have old := rep.cache t sc
  rw [hC] at old
  obtain ⟨R', rfl⟩ : ∃ R', R = R' ++ [tail] := List.getLast?_eq_some_iff.1 htail
  set L' := L.moveBlk (R' ++ [tail]) (.cached t sc) (.hands t sc) with hL'
  have free : ∀ d, L'.blks.items (.free d) = L.blks.items (.free d) := fun d =>
    Placement.move_items_other (by simp) (by simp)
  refine ⟨?_, ?_, fun u ne => ?_⟩
  · refine ok.moveBlk (by simp) (by simp) (List.nodup_append.1 enum.nodup).1 at_c
      (fun _ => by simp [hC]) (fun x hx => ?_) (by simp)
    have home := ok.inClass (at_c x hx)
    exact home
  · refine { rep with
      anchor := fun hr => ?_
      free := fun d => ?_
      fresh := fun hr => rep.fresh_move at_c hr (by simp)
      cache := ?_
      client := rep.client_move at_c rfl }
    · rw [free]
      exact rep.anchor hr
    · rw [free]
      exact rep.free d
    · refine rep.cache_set (C := rest) ⟨?_, fun hne => ?_, old.linked.right, ?_⟩ rfl rfl
        (Placement.move_items_from (by simp) hC) fun u sc' hu => ?_
      · simp only [old.num, List.length_append]
        omega
      · obtain ⟨c, rest, rfl⟩ := List.exists_cons_of_ne_nil hne
        simp [old.linked.seam]
      · have := old.le
        simp only [List.length_append] at this
        omega
      · refine Placement.move_items_other ?_ (by simp)
        simp only [ne_eq, Place.cached.injEq, not_and_or]
        exact hu
  · refine Frame.moveBlk (fun sc' => ?_) (by simp) (Heap.cache_setCache_thread ne) rfl
      (fun _ => rfl) rfl rfl
    simp [ne.symm]

/-- A block of a class is not the address of a large block. -/
lemma Ledger.Ok.not_large (ok : L.Ok cfg) {b sc} (hb : L.InClass cfg b sc) (d : ℕ) :
    L.role d ≠ .large b := by
  intro hd
  obtain ⟨e, rfl, he⟩ := ok.largeStart hd
  obtain ⟨d', o, hr, hm⟩ := hb
  have hi := ok.sbIndex_of_mem hr hm
  rw [(ok.insideOf he (by simp)).sbIndex_sb] at hi
  subst hi
  rw [he] at hr
  cases hr

/-- The client hands a block to a `do_free` of thread `t`. -/
theorem Trans.startFree (ok : L.Ok cfg) (rep : Rep cfg h L) {sc p} (hp : L.place p = .held)
    (hc : L.InClass cfg p sc) :
    Trans cfg t h L (h.setClient p (.freeing t)) (L.moveBlk [p] .held (.freeing t sc)) := by
  have at_c : ∀ x ∈ [p], L.place x = .held := fun x hx => List.mem_singleton.1 hx ▸ hp
  set L' := L.moveBlk [p] .held (.freeing t sc) with hL'
  have items : ∀ {x}, x ≠ .held → x ≠ .freeing t sc → L'.blks.items x = L.blks.items x :=
    fun h1 h2 => Placement.move_items_other h1 h2
  refine ⟨?_, ?_, fun u ne => ?_⟩
  · refine ok.moveBlk (by simp) (by simp) (by simp) at_c (fun tr => tr.elim) (fun x hx => ?_)
      fun _ x hx => ?_
    · rw [List.mem_singleton.1 hx]
      exact hc
    · rw [List.mem_singleton.1 hx]
      exact ok.not_large hc
  · refine { rep with
      anchor := fun hr => ?_
      free := fun d => ?_
      fresh := fun hr => rep.fresh_move at_c hr (by simp)
      cache := fun u sc' => ?_
      client := fun x => ?_ }
    · rw [items (by simp) (by simp)]
      exact rep.anchor hr
    · rw [items (by simp) (by simp)]
      exact rep.free d
    · rw [items (by simp) (by simp)]
      exact rep.cache u sc'
    · by_cases e : x = p
      · subst e
        rw [hL', Ledger.moveBlk_place_mem (by simp)]
        exact Heap.client_setClient_self ..
      · rw [hL', Ledger.moveBlk_place_not_mem (by simpa using e)]
        exact (Heap.client_setClient_ne e).trans (rep.client x)
  · refine Frame.moveBlk (fun sc' => ?_) (by simp) rfl rfl (fun _ => rfl) rfl rfl
    simp [ne.symm]

/-- `do_free` puts the block into the cache. -/
theorem Trans.pushBlock (ok : L.Ok cfg) (rep : Rep cfg h L) {sc p}
    (hp : L.blks.items (.freeing t sc) = [p]) (lt : (h.cache t sc).num < cacheBlockNum sc) :
    Trans cfg t h L
      (((h.setLink p (h.cache t sc).block).setCache t sc ⟨p, (h.cache t sc).num + 1⟩).setClient p
        .none)
      (L.moveBlk [p] (.freeing t sc) (.cached t sc)) := by
  have hpl : L.place p = .freeing t sc :=
    (ok.mem_items (c := .freeing t sc) trivial).1 (by simp [hp])
  have at_c : ∀ x ∈ [p], L.place x = .freeing t sc := fun x hx => List.mem_singleton.1 hx ▸ hpl
  set L' := L.moveBlk [p] (.freeing t sc) (.cached t sc) with hL'
  set h₁ := h.setLink p (h.cache t sc).block with hh₁
  have items : ∀ {x}, x ≠ .freeing t sc → x ≠ .cached t sc → L'.blks.items x = L.blks.items x :=
    fun h1 h2 => Placement.move_items_other h1 h2
  have keep : ∀ {y : Place}, y.Tracked → Place.freeing t sc ≠ y → Linked h.link (L.blks.items y) →
      Linked h₁.link (L.blks.items y) := fun hy ne => ok.linked_setLink hpl trivial hy ne
  have old := rep.cache t sc
  have linked : Linked h₁.link (p :: L.blks.items (.cached t sc)) := by
    have hk := keep (y := .cached t sc) trivial (by simp) old.linked
    cases hC : L.blks.items (.cached t sc) with
    | nil => exact linked_singleton
    | cons c rest =>
      rw [hC] at hk old
      have e : c = (h.cache t sc).block := by simpa using old.head (by simp)
      have hc : L.place c = .cached t sc := (ok.mem_items (c := .cached t sc) trivial).1
        (by simp [hC])
      refine linked_cons_cons.2 ⟨?_, hk⟩
      rw [hh₁, ← e]
      exact Heap.link_setLink_self (ok.word hpl trivial).2 (ok.word hc trivial).2
  refine ⟨?_, ?_, fun u ne => ?_⟩
  · refine ok.moveBlk (by simp) (by simp) (by simp) at_c (fun _ => by simp [hp]) (fun x hx => ?_)
      (by simp)
    have home := ok.inClass (at_c x hx)
    exact home
  · refine { rep with
      anchor := fun hr => ?_
      free := fun d => ?_
      fresh := fun hr => rep.fresh_move at_c hr (by simp)
      cache := fun u sc' => ?_
      client := fun x => ?_ }
    · rw [items (by simp) (by simp)]
      exact rep.anchor hr
    · rw [items (by simp) (by simp)]
      exact keep (y := .free d) trivial (by simp) (rep.free d)
    · show CacheRep h₁.link ((h₁.setCache t sc _).cache u sc') sc' _
      by_cases e : u = t ∧ sc' = sc
      · obtain ⟨rfl, rfl⟩ := e
        rw [Heap.cache_setCache_self, hL', Ledger.moveBlk_items, if_pos rfl]
        refine ⟨?_, fun _ => rfl, linked, ?_⟩
        · simp [old.num, Nat.add_comm]
        · have := old.num
          simp only [List.length_append, List.length_singleton]
          omega
      · have hne : Place.cached u sc' ≠ .cached t sc := by simpa using e
        have hbin : (h₁.setCache t sc ⟨p, (h.cache t sc).num + 1⟩).cache u sc' = h.cache u sc' := by
          by_cases e' : u = t
          · subst e'
            exact Heap.cache_setCache_class fun e'' => e ⟨rfl, e''⟩
          · rw [Heap.cache_setCache_thread e']
            rfl
        have c := rep.cache u sc'
        rw [items (by simp) hne, hbin]
        exact ⟨c.num, c.head, keep (y := .cached u sc') trivial (by simp) c.linked, c.le⟩
    · by_cases e : x = p
      · subst e
        rw [hL', Ledger.moveBlk_place_mem (by simp)]
        exact Heap.client_setClient_self ..
      · rw [hL', Ledger.moveBlk_place_not_mem (by simpa using e)]
        exact (Heap.client_setClient_ne e).trans (rep.client x)
  · refine Frame.moveBlk (fun sc' => ?_) (by simp) (Heap.cache_setCache_thread ne) rfl
      (fun hc => ?_) rfl rfl
    · simp [ne.symm]
    · refine ok.link_ne hpl trivial hc trivial ?_
      rintro rfl
      rw [hpl] at hc
      cases hc

/-- The owner of a superblock after thread `t` has given blocks back to it. -/
def Owner.claimed (t : ℕ) : Owner → Owner
  | .full => .thr t
  | o => o

/-- A full superblock that gets blocks back belongs to the thread that gives them back. -/
def Ledger.claim (L : Ledger) (t d sc : ℕ) (o : Owner) : Ledger :=
  if o = .full then L.moveSb [d] (.small sc .full) (.small sc (.thr t)) else L

/-- Blocks stay where they are. -/
lemma Ledger.claim_blks (L : Ledger) (t d sc o) : (L.claim t d sc o).blks = L.blks := by
  unfold claim
  split <;> rfl

/-- So does the end of the region. -/
lemma Ledger.claim_n (L : Ledger) (t d sc o) : (L.claim t d sc o).n = L.n := by
  unfold claim
  split <;> rfl

/-- The superblock has its new owner. -/
lemma Ledger.claim_role_self {d sc o} (hr : L.role d = .small sc o) :
    (L.claim t d sc o).role d = .small sc (o.claimed t) := by
  unfold claim
  cases o with
  | full => exact moveSb_role_mem (by simp)
  | listed => exact hr
  | thr u => exact hr
  | fresh u => exact hr

/-- The others keep theirs. -/
lemma Ledger.claim_role_ne {d sc o e} (ne : e ≠ d) : (L.claim t d sc o).role e = L.role e := by
  unfold claim
  split
  · exact moveSb_role_not_mem (by simpa using ne)
  · rfl

/-- Only the full superblocks of the class and those of the thread are affected. -/
lemma Ledger.claim_items {d sc o r} (h1 : r ≠ .small sc .full) (h2 : r ≠ .small sc (.thr t)) :
    (L.claim t d sc o).sbs.items r = L.sbs.items r := by
  unfold claim
  split
  · exact Placement.move_items_other h1 h2
  · rfl

/-- A superblock that was full is now one of the thread's. -/
lemma Ledger.claim_items_thr {d sc o} : (L.claim t d sc o).sbs.items (.small sc (.thr t)) =
      if o = .full then d :: L.sbs.items (.small sc (.thr t))
      else L.sbs.items (.small sc (.thr t)) := by
  unfold claim
  split
  · exact Placement.move_items_to _ _ _ _
  · rfl

/-- The ledger stays consistent. -/
lemma Ledger.Ok.claim (ok : L.Ok cfg) {d sc o} (hr : L.role d = .small sc o) :
    (L.claim t d sc o).Ok cfg := by
  unfold Ledger.claim
  split
  case isTrue e =>
    subst e
    exact ok.moveSb_owner (by simp) hr (by simp)
  case isFalse => exact ok

/-- The anchor that `flush_cache` publishes describes the longer free list. -/
lemma AnchorRep.give {d sc o a F R idx} (ha : AnchorRep cfg sc d a F o) (hold : OldOk sc a)
    (head : R.head? = some (cfg.blk sc d idx)) (hidx : idx < maxcount sc)
    (room : R.length + F.length ≤ maxcount sc) :
    AnchorRep cfg sc d (giveAnchor a idx R.length (maxcount sc)) (R ++ F) (o.claimed t) := by
  have pos : 0 < R.length := by
    cases R with
    | nil => simp at head
    | cons b R => simp
  -- in every state the old count is the length of the old free list
  have key : a.count = F.length ∧ (a.state = SB_FULL ∨ a.state = SB_PARTIAL) ∧
      (o.claimed t = .listed ∨ ∃ u, o.claimed t = .thr u) := by
    cases o with
    | full =>
      obtain ⟨rfl, rfl⟩ := ha
      exact ⟨rfl, .inl rfl, .inr ⟨t, rfl⟩⟩
    | fresh u =>
      obtain ⟨rfl, rfl⟩ := ha
      rcases hold.cases with h | ⟨h, -⟩ <;> cases h
    | listed =>
      obtain ⟨-, -, ⟨hs, hc, -⟩ | ⟨hs, hc, -⟩⟩ := ha
      · exact ⟨hc, .inr hs, .inl rfl⟩
      · rcases hold.cases with h | ⟨h, -⟩ <;> rw [hs] at h <;> cases h
    | thr u =>
      obtain ⟨-, -, ⟨hs, hc, -⟩ | ⟨hs, hc, -⟩⟩ := ha
      · exact ⟨hc, .inr hs, .inr ⟨u, rfl⟩⟩
      · rcases hold.cases with h | ⟨h, -⟩ <;> rw [hs] at h <;> cases h
  obtain ⟨hcount, hstate, howner⟩ := key
  have head' : (R ++ F).head? = some (cfg.blk sc d idx) := by
    cases R with
    | nil => simp at head
    | cons b R => simpa using head
  have main : (R ++ F).head? = some (cfg.blk sc d (giveAnchor a idx R.length (maxcount sc)).avail) ∧
      (giveAnchor a idx R.length (maxcount sc)).avail < maxcount sc ∧
      ((giveAnchor a idx R.length (maxcount sc)).state = SB_PARTIAL ∧
        (giveAnchor a idx R.length (maxcount sc)).count = (R ++ F).length ∧
        (R ++ F).length < maxcount sc ∨
      (giveAnchor a idx R.length (maxcount sc)).state = SB_EMPTY ∧
        (giveAnchor a idx R.length (maxcount sc)).count = maxcount sc - 1 ∧
        (R ++ F).length = maxcount sc) := by
    unfold giveAnchor
    rw [List.length_append, hcount]
    by_cases e : F.length + R.length = maxcount sc
    · rw [if_pos e]
      exact ⟨head', hidx, .inr ⟨rfl, rfl, by omega⟩⟩
    · rw [if_neg e]
      refine ⟨head', hidx, .inl ⟨?_, Nat.add_comm _ _, by omega⟩⟩
      rcases hstate with hs | hs <;> simp [hs]
  rcases howner with e | ⟨u, e⟩ <;> rw [e] <;> exact main

/-- The run is joined to the free list. -/
lemma RunOk.linked_append {R sc r F a o} (run : RunOk cfg h R sc r)
    (ha : AnchorRep cfg sc r.d a F o) (free : Linked h.link F)
    (join : a.avail < maxcount sc → h.link r.tail = cfg.blk sc r.d a.avail) :
    Linked h.link (R ++ F) := by
  obtain ⟨R', rfl⟩ : ∃ R', R = R' ++ [r.tail] := List.getLast?_eq_some_iff.1 run.tail
  refine run.linked.append free fun b hb => ?_
  cases o with
  | full =>
    obtain ⟨-, rfl⟩ := ha
    simp at hb
  | fresh u =>
    obtain ⟨-, rfl⟩ := ha
    simp at hb
  | listed =>
    obtain ⟨hh, hlt, -⟩ := ha
    rw [hh] at hb
    cases hb
    exact join hlt
  | thr u =>
    obtain ⟨hh, hlt, -⟩ := ha
    rw [hh] at hb
    cases hb
    exact join hlt

/-- The run and the free list of its superblock have room in the superblock. -/
lemma Ledger.Ok.room (ok : L.Ok cfg) {d sc o R} (hr : L.role d = .small sc o)
    (hR : L.blks.items (.hands t sc) = R) (sub : ∀ b ∈ R, b ∈ cfg.blocks sc d) :
    R.length + (L.blks.items (.free d)).length ≤ maxcount sc := by
  have e1 := ok.blks (.hands t sc) trivial
  have e2 := ok.blks (.free d) trivial
  rw [hR] at e1
  have nd : (R ++ L.blks.items (.free d)).Nodup := by
    refine List.nodup_append.2 ⟨e1.nodup, e2.nodup, ?_⟩
    rintro a ha b hb rfl
    exact e1.disjoint e2 (by simp) ha hb
  have sub' : R ++ L.blks.items (.free d) ⊆ cfg.blocks sc d := by
    intro b hb
    rcases List.mem_append.1 hb with hb | hb
    · exact sub b hb
    · exact ok.free_sub hr hb
  have le := (List.subperm_of_subset nd sub').length_le
  rwa [List.length_append, Cfg.length_blocks] at le

/-- The ledger when the blocks in the hands of thread `t` have gone back to superblock `d`. -/
def Ledger.giveBack (L : Ledger) (t d sc : ℕ) (o : Owner) : Ledger :=
  (L.claim t d sc o).moveBlk (L.blks.items (.hands t sc)) (.hands t sc) (.free d)

section giveBack

variable {d sc : ℕ} {o : Owner}

/-- The role of the superblock afterwards. -/
lemma Ledger.giveBack_role (hr : L.role d = .small sc o) :
    (L.giveBack t d sc o).role d = .small sc (o.claimed t) :=
  Ledger.claim_role_self hr

/-- Roles with the same superblocks. -/
lemma Ledger.giveBack_sbs {r : Role} (h1 : r ≠ .small sc .full) (h2 : r ≠ .small sc (.thr t)) :
    (L.giveBack t d sc o).sbs.items r = L.sbs.items r :=
  Ledger.claim_items h1 h2

/-- Places with the same blocks. -/
lemma Ledger.giveBack_blks {x : Place} (h1 : x ≠ .hands t sc) (h2 : x ≠ .free d) :
    (L.giveBack t d sc o).blks.items x = L.blks.items x := by
  rw [← L.claim_blks t d sc o]
  exact Placement.move_items_other h1 h2

/-- The longer free list. -/
lemma Ledger.giveBack_free : (L.giveBack t d sc o).blks.items (.free d) =
    L.blks.items (.hands t sc) ++ L.blks.items (.free d) := by
  rw [Ledger.giveBack, Ledger.moveBlk_items, if_pos rfl, Ledger.claim_blks]

/-- The place of a block does not depend on the owner of its superblock. -/
lemma Ledger.giveBack_place : (L.giveBack t d sc o).place =
    (L.moveBlk (L.blks.items (.hands t sc)) (.hands t sc) (.free d)).place := by
  show ((L.claim t d sc o).blks.move _ _ _).loc = (L.blks.move _ _ _).loc
  rw [Ledger.claim_blks]

/-- The other superblocks are as they were. -/
lemma Ledger.giveBack_others : L.Others (L.giveBack t d sc o) d where
  n := L.claim_n ..
  role ne := Ledger.claim_role_ne ne
  free ne := Ledger.giveBack_blks (by simp) (by simpa using ne)
  lists l := by refine Ledger.giveBack_sbs ?_ ?_ <;> cases l <;> simp [ListId.role]
  large _ := Ledger.giveBack_sbs (by simp) (by simp)

variable (ok : L.Ok cfg) (hr : L.role d = .small sc o)
include ok hr

/-- The ledger is still in order. -/
lemma Ledger.Ok.giveBack (sub : ∀ b ∈ L.blks.items (.hands t sc), b ∈ cfg.blocks sc d) :
    (L.giveBack t d sc o).Ok cfg := by
  have at_c : ∀ b ∈ L.blks.items (.hands t sc), L.place b = .hands t sc := fun b hb =>
    (ok.mem_items (c := .hands t sc) trivial).1 hb
  refine (ok.claim hr).moveBlk (by simp) (by simp) (ok.blks (.hands t sc) trivial).nodup ?_
    (fun _ => ?_)
    (fun b hb => ⟨sc, _, Ledger.claim_role_self hr, sub b hb⟩) (by simp)
  · intro b hb
    show (L.claim t d sc o).blks.loc b = _
    rw [Ledger.claim_blks]
    exact at_c b hb
  · have same : (L.claim t d sc o).blks = L.blks := Ledger.claim_blks ..
    exact same ▸ List.prefix_refl _

/-- Superblocks that are being set up keep their blocks: this one has a free list and is not. -/
lemma Rep.fresh_giveBack (rep : Rep cfg h L) (hold : OldOk sc (h.desc d).anchor)
    (sub : ∀ b ∈ L.blks.items (.hands t sc), b ∈ cfg.blocks sc d) {e sc' u : ℕ}
    (he : (L.giveBack t d sc o).role e = .small sc' (.fresh u)) (b : ℕ)
    (hb : b ∈ cfg.blocks sc' e) : (L.giveBack t d sc o).place b = .hands u sc' := by
  have e' : e ≠ d := by
    rintro rfl
    rw [Ledger.giveBack_role hr] at he
    have hf : o = .fresh u := by
      cases o <;> simp_all [Owner.claimed]
    subst hf
    rcases hold.cases with h1 | ⟨h1, -⟩ <;> rw [(rep.anchor hr).1] at h1 <;> cases h1
  rw [Ledger.giveBack_others.role e'] at he
  have out : b ∉ L.blks.items (.hands t sc) := fun hm => e' (ok.eq_of_mem he hr hb (sub b hm))
  rw [Ledger.giveBack_place, Ledger.moveBlk_place_not_mem out]
  exact rep.fresh he b hb

omit ok in
/-- Another thread. -/
lemma Frame.giveBack {a : Anchor} {u : ℕ} (ne : u ≠ t) :
    Frame u h L (h.setDesc d { h.desc d with anchor := a }) (L.giveBack t d sc o) := by
  refine Frame.others Ledger.giveBack_others rfl (by simp [hr]) (fun sc' _ => ?_)
    (fun sc' x hx => ?_)
    fun sc' x hx => ?_
  · rw [Ledger.giveBack_free, List.length_append]
    omega
  · refine Ledger.giveBack_sbs ?_ ?_ <;> rcases hx with rfl | rfl | rfl <;> simp [ne]
  · refine Ledger.giveBack_blks ?_ ?_ <;> rcases hx with rfl | rfl | rfl <;> simp [ne]

/-- `flush_cache` gives a run back to its superblock. -/
theorem Trans.giveBack (rep : Rep cfg h L) {r : Run} (hd : r.d = d)
    (run : RunOk cfg h (L.blks.items (.hands t sc)) sc r) (hold : OldOk sc (h.desc d).anchor)
    (join : (h.desc d).anchor.avail < maxcount sc →
      h.link r.tail = cfg.blk sc d (h.desc d).anchor.avail) :
    Trans cfg t h L
      (h.setDesc d { h.desc d with
        anchor :=
          giveAnchor (h.desc d).anchor r.idx (L.blks.items (.hands t sc)).length (maxcount sc) })
      (L.giveBack t d sc o) := by
  subst hd
  have role' := Ledger.giveBack_role (t := t) hr
  refine ⟨ok.giveBack hr run.sub, ?_, fun u ne => Frame.giveBack hr ne⟩
  refine rep.others (C := h.cache) Ledger.giveBack_others (by simp [role']) ?_
    (fun sc' o' he => ?_) ?_
    (rep.fresh_giveBack ok hr hold run.sub) (fun l _ => by cases l <;> rfl)
      (fun u sc' => ?_) fun b => ?_
  · have old := rep.desc r.d
    rw [hr] at old
    rw [role']
    exact old
  · cases role'.symm.trans he
    rw [Ledger.giveBack_free]
    exact (rep.anchor hr).give hold (run.head.trans (by rw [run.idx])) run.idx_lt
      (ok.room hr rfl run.sub)
  · rw [Ledger.giveBack_free]
    exact run.linked_append (rep.anchor hr) (rep.free _) join
  · rw [Ledger.giveBack_blks (by simp) (by simp)]
    exact rep.cache u sc'
  · have at_c : ∀ b ∈ L.blks.items (.hands t sc), L.place b = .hands t sc := fun b hb =>
      (ok.mem_items (c := .hands t sc) trivial).1 hb
    have same : (Place.hands t sc).client = (Place.free r.d).client := rfl
    rw [Ledger.giveBack_place]
    exact rep.client_move at_c same b

end giveBack

/-- Superblock `d` is assigned or taken apart: all its other data and all other superblocks are the
same. -/
lemma Rep.reassign (ok : L.Ok cfg) (rep : Rep cfg h L) {d D r r' run c c'}
    (at_r : L.role d = r) (listed : ∀ l : ListId, r ≠ l.role ∧ r' ≠ l.role)
    (large : ∀ p, r ≠ .large p ∧ r' ≠ .large p) (at_c : ∀ b ∈ run, L.place b = c)
    (client : c.client = c'.client)
    (cached : ∀ u sc, c ≠ .cached u sc ∧ c' ≠ .cached u sc)
    (free : ∀ e, e ≠ d → c ≠ .free e ∧ c' ≠ .free e)
    (empty : ((L.moveSb [d] r r').moveBlk run c c').blks.items (.free d) = [])
    (desc : DescRep cfg d D r') (anchor : ∀ sc o, r' = .small sc o →
      AnchorRep cfg sc d D.anchor [] o)
    (fresh : ∀ sc u, r' = .small sc (.fresh u) → c' = .hands u sc ∧ cfg.blocks sc d = run)
    (hands : ∀ u sc, c ≠ .hands u sc) :
    Rep cfg (h.setDesc d D) ((L.moveSb [d] r r').moveBlk run c c') := by
  have role_d : ((L.moveSb [d] r r').moveBlk run c c').role d = r' :=
    Ledger.moveSb_role_mem (by simp)
  have role : ∀ {e}, e ≠ d → ((L.moveSb [d] r r').moveBlk run c c').role e = L.role e := fun ne =>
    Ledger.moveSb_role_not_mem (by simpa using ne)
  have oth : L.Others ((L.moveSb [d] r r').moveBlk run c c') d :=
    { n := rfl
      role := role
      free := fun ne => Placement.move_items_other (free _ ne).1.symm (free _ ne).2.symm
      lists := fun l => Placement.move_items_other (listed l).1.symm (listed l).2.symm
      large := fun p => Placement.move_items_other (large p).1.symm (large p).2.symm }
  refine rep.others (C := h.cache) oth (fun p => ?_) (by rwa [role_d]) (fun sc o he => ?_)
    (by rw [empty]; exact linked_nil) (fun {e sc u} he => ?_) (fun l hl => ?_) (fun u sc => ?_)
    (rep.client_move at_c client)
  · rw [role_d]
    exact (large p).2
  · rw [empty]
    exact anchor sc o (role_d.symm.trans he)
  · by_cases e' : e = d
    · subst e'
      obtain ⟨rfl, rfl⟩ := fresh sc u (role_d.symm.trans he)
      exact fun b hb => Ledger.moveBlk_place_mem hb
    · rw [role e'] at he
      exact rep.fresh_move at_c he (hands u sc)
  · exact absurd (at_r.symm.trans ((ok.mem_sbs l.role_tracked).1 hl)) (listed l).1
  · rw [show ((L.moveSb [d] r r').moveBlk run c c').blks.items (.cached u sc) = _ from
      Placement.move_items_other (cached u sc).1.symm (cached u sc).2.symm]
    exact rep.cache u sc

/-- The same seen by another thread. -/
lemma Frame.reassign (ok : L.Ok cfg) {u : ℕ} {d D r r' run c c'} (at_r : L.role d = r)
    (listed : ∀ l : ListId, r ≠ l.role ∧ r' ≠ l.role)
    (sbs : ∀ sc x, x = .raw u ∨ x = .small sc (.thr u) ∨ x = .small sc (.fresh u) → r ≠ x ∧ r' ≠ x)
    (blks : ∀ sc x, x = .freeing u sc ∨ x = .hands u sc ∨ x = .cached u sc → c ≠ x ∧ c' ≠ x)
    (free : ∀ e, e ≠ d → c ≠ .free e ∧ c' ≠ .free e) :
    Frame u h L (h.setDesc d D) ((L.moveSb [d] r r').moveBlk run c c') := by
  set L' := (L.moveSb [d] r r').moveBlk run c c' with hL'
  have sb : ∀ {x}, r ≠ x ∧ r' ≠ x → L'.sbs.items x = L.sbs.items x := fun hx =>
    Placement.move_items_other hx.1.symm hx.2.symm
  have blk : ∀ {x}, c ≠ x ∧ c' ≠ x → L'.blks.items x = L.blks.items x := fun hx =>
    Placement.move_items_other hx.1.symm hx.2.symm
  have other : ∀ {e x}, L.role e = x → r ≠ x → e ≠ d := by
    rintro e x he hx rfl
    exact hx (at_r.symm.trans he)
  refine { Frame.refl u h L with
    raw := sb (sbs 0 _ (.inl rfl))
    own := fun sc => sb (sbs sc _ (.inr (.inl rfl)))
    fresh := fun sc => sb (sbs sc _ (.inr (.inr rfl)))
    freeing := fun sc => blk (blks sc _ (.inl rfl))
    hands := fun sc => blk (blks sc _ (.inr (.inl rfl)))
    cached := fun sc => blk (blks sc _ (.inr (.inr rfl)))
    free := fun {e sc} he => ?_
    rawDesc := fun he => Heap.desc_setDesc_ne (other he (sbs 0 _ (.inl rfl)).1)
    ownDesc := fun {e sc} he => ?_
    next := fun {l p} _ hp => ?_ }
  · rw [blk (free e (other he (sbs sc _ (.inr (.inl rfl))).1))]
  · rw [Heap.desc_setDesc_ne (other he (sbs sc _ (.inr (.inl rfl))).1)]
    exact ⟨rfl, rfl⟩
  · rw [sb (listed l)] at hp
    refine ⟨hp, ?_⟩
    rw [Heap.desc_setDesc_ne (other ((ok.mem_sbs l.role_tracked).1 hp) (listed l).1)]

/-- `malloc_from_newsb` assigns a superblock to a class. -/
theorem Trans.assign (ok : L.Ok cfg) (rep : Rep cfg h L) {d sc} (hsc : SmallClass sc)
    (hd : L.sbs.items (.raw t) = [d]) (zero : (h.desc d).anchor = .zero) :
    Trans cfg t h L
      (h.setDesc d
        { h.desc d with
          heap := some sc, blockSize := blockSize sc, maxcount := maxcount sc,
          superblock := some (cfg.sb d) })
      ((L.moveSb [d] (.raw t) (.small sc (.fresh t))).moveBlk
        (cfg.blocks sc d) .none (.hands t sc)) := by
  have hr : L.role d = .raw t := (ok.mem_sbs (r := .raw t) trivial).1 (by simp [hd])
  have at_c : ∀ b ∈ cfg.blocks sc d, L.place b = .none := fun b hb =>
    ok.place_none hsc (ok.insideOf hr (by simp)) hb (by simp [hr]) (by simp [hr])
  have listed : ∀ l : ListId, Role.raw t ≠ l.role ∧ Role.small sc (.fresh t) ≠ l.role := by
    intro l
    cases l <;> simp [ListId.role]
  refine ⟨ok.assign hsc hd, ?_, fun u ne => ?_⟩
  · refine rep.reassign ok hr listed (by simp) at_c rfl (by simp) (by simp) ?_
      ⟨rfl, rfl, rfl, rfl⟩ ?_ (by rintro sc' u ⟨⟩; exact ⟨rfl, rfl⟩) (by simp)
    · exact (Placement.move_items_other (by simp) (by simp)).trans (ok.free_nil (by simp [hr]))
    · rintro sc' o ⟨⟩
      exact ⟨zero, rfl⟩
  · refine Frame.reassign ok hr listed ?_ ?_ (by simp)
    · rintro sc' x (rfl | rfl | rfl) <;> simp [ne.symm]
    · rintro sc' x (rfl | rfl | rfl) <;> simp [ne.symm]

/-- The constructor in `small_sb_retire` clears the fields of a superblock whose blocks are all
free. -/
theorem Trans.dissolve (ok : L.Ok cfg) (rep : Rep cfg h L) {d sc l D}
    (hd : L.sbs.items (.small sc (.thr t)) = d :: l)
    (all : (L.blks.items (.free d)).length = maxcount sc) (heap : D.heap = none) :
    Trans cfg t h L (h.setDesc d D)
      ((L.moveSb [d] (.small sc (.thr t)) (.raw t)).moveBlk
        (L.blks.items (.free d)) (.free d) .none) := by
  have hr : L.role d = .small sc (.thr t) :=
    (ok.mem_sbs (r := .small sc (.thr t)) trivial).1 (by simp [hd])
  have at_c : ∀ b ∈ L.blks.items (.free d), L.place b = .free d := fun b hb =>
    (ok.mem_items (c := .free d) trivial).1 hb
  have listed : ∀ l : ListId, Role.small sc (.thr t) ≠ l.role ∧ Role.raw t ≠ l.role := by
    intro l
    cases l <;> simp [ListId.role]
  have free : ∀ e, e ≠ d → Place.free d ≠ .free e ∧ Place.none ≠ .free e := fun e ne =>
    ⟨by simpa using ne.symm, by simp⟩
  refine ⟨ok.dissolve hd all, ?_, fun u ne => ?_⟩
  · refine rep.reassign ok hr listed (by simp) at_c rfl (by simp) free ?_ (.inl heap) (by simp)
      (by simp) (by simp)
    exact Placement.move_items_from (by simp) (by simp)
  · refine Frame.reassign ok hr listed ?_ ?_ free
    · rintro sc' x (rfl | rfl | rfl) <;> simp [ne.symm]
    · rintro sc' x (rfl | rfl | rfl) <;> simp

end Ralloc
