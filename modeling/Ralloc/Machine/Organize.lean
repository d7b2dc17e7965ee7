import Ralloc.Machine.Fill

/-!
# The steps that prepare and push descriptors

`Descriptor::Descriptor` with its four callers, `organize_sb_list`, and the pushes of
`organize_sb_list`, `small_sb_retire` and `heap_push_partial`. A superblock that is retired stays
assigned until the constructor clears its fields; from then on it is in the hands of the thread
until the push.
-/

namespace Ralloc

open Lib SuperblockState

variable {cfg : Cfg} {t : ℕ} {h h' : Heap} {L L' : Ledger}

/-- A step that keeps the request and the caches of the thread. -/
lemma PushK.Ok.congr {k : PushK} (hk : k.Ok cfg h t) (cache : h'.cache t = h.cache t)
    (req : h'.req t = h.req t) : k.Ok cfg h' t := by
  cases k with
  | retry sc => exact Filling.congr hk (by rw [cache]) req
  | flush sc k => exact hk
  | newsb sc res => exact ⟨Filling.congr hk.1 (by rw [cache]) req, hk.2⟩
  | done => trivial

/-- A step that keeps the request. -/
lemma LargeOk.congr {sbs} (l : LargeOk h t sbs) (req : h'.req t = h.req t) : LargeOk h' t sbs :=
  ⟨l.mod, l.pos, l.lt, req ▸ l.req, req ▸ l.large⟩

/-- The superblocks in the hands of a thread. -/
lemma ThInv.role_raw {pc d} (th : ThInv cfg h L t pc) (ok : L.Ok cfg) (hd : d ∈ rawOf cfg pc) :
    L.role d = .raw t :=
  (ok.mem_sbs (r := .raw t) trivial).1 (th.owned.raw ▸ hd)

/-- The descriptor of a superblock in the hands of a thread has no size class. -/
lemma Rep.raw (rep : Rep cfg h L) {d} (hd : L.role d = .raw t) :
    (h.desc d).heap = none ∨ (h.desc d).heap = some 0 := by
  have := rep.desc d
  rwa [hd] at this

/-- The constructor never gives a descriptor a class. -/
lemma ctorWrite_heap (D : Descriptor) (ph : CtorPhase) :
    (ctorWrite D ph).heap = D.heap ∨ (ctorWrite D ph).heap = none := by
  cases ph
  case fields => exact .inr rfl
  all_goals exact .inl rfl

/-- A write of the constructor on a superblock in the hands of the thread. -/
lemma Trans.ctor_raw (ok : L.Ok cfg) (rep : Rep cfg h L) {d} (ph : CtorPhase)
    (hd : L.role d = .raw t) : Trans cfg t h L (h.setDesc d (ctorWrite (h.desc d) ph)) L := by
  refine .setDesc (l := .avail) ok rep hd ?_ (by simp)
  rcases ctorWrite_heap (h.desc d) ph with e | e
  · rcases rep.raw hd with e' | e'
    · exact .inl (e.trans e')
    · exact .inr (e.trans e')
  · exact .inl e

/-- The last write of the constructor completes the reset. -/
lemma ctorWrite_fields {D : Descriptor} (hp : PhaseOk D .fields) :
    ctorWrite D .fields = .reset := by
  cases D
  obtain ⟨h1, h2⟩ := hp
  simp only [ctorWrite, Descriptor.reset] at *
  rw [h1, h2]

/-- What the constructor knows, but for its own descriptor, survives its own writes. -/
lemma CtorOk.write {d ph k} (hk : CtorOk cfg h L t d ph k) (nr : ∀ k', k ≠ .retire k') {D ph'}
    (hp : PhaseOk D ph') : CtorOk cfg (h.setDesc d D) L t d ph' k := by
  cases k with
  | retire k' => exact absurd rfl (nr k')
  | organize start count i k =>
    obtain ⟨h1, h2, rfl, h4, -, h6⟩ := hk
    refine ⟨h1.congr rfl rfl, h2, rfl, h4, by rwa [Heap.desc_setDesc_self], fun j hj => ?_⟩
    rw [Heap.desc_setDesc_ne (by omega)]
    exact h6 j hj
  | newsb sc res =>
    obtain ⟨h1, h2, -⟩ := hk
    exact ⟨h1.congr rfl rfl, h2, by rwa [Heap.desc_setDesc_self]⟩
  | large sbs res =>
    obtain ⟨h1, h2, -, h4⟩ := hk
    refine ⟨h1.congr rfl, h2, by rwa [Heap.desc_setDesc_self], fun j h5 h6 => ?_⟩
    rw [Heap.desc_setDesc_ne (by omega)]
    exact h4 j h5 h6

/-- The superblock under construction is in the hands of the thread, unless it is being retired. -/
lemma CtorOk.mem_raw {d ph k} (hk : CtorOk cfg h L t d ph k)
    (nr : ∀ k', k = .retire k' → ¬ph.Early) : d ∈ rawOf cfg (.ctor d ph k) := by
  cases k with
  | retire k' =>
    rw [rawOf, if_neg (nr k' rfl)]
    simp
  | organize start count i k =>
    obtain ⟨-, -, rfl, h4, -⟩ := hk
    simp [rawOf, List.mem_range'_1, h4]
  | newsb sc res => simp [rawOf]
  | large sbs res => simp [rawOf, List.mem_range'_1, hk.1.count_pos]

/-- The steps of the constructor before its fence, for a superblock in the hands of the thread. -/
lemma sound_ctor_raw (ok : L.Ok cfg) (rep : Rep cfg h L) {d ph ph' k}
    (th : ThInv cfg h L t (.ctor d ph k)) (nr : ∀ k', k ≠ .retire k')
    (hp : PhaseOk (ctorWrite (h.desc d) ph) ph') :
    Sound cfg t h L (h.setDesc d (ctorWrite (h.desc d) ph), .ctor d ph' k) := by
  have hd := th.role_raw ok (CtorOk.mem_raw th.known fun k' e => absurd e (nr k'))
  refine ⟨L, .ctor_raw ok rep ph hd, ?_, CtorOk.write th.known nr hp⟩
  refine th.owned.same ?_
  cases k with
  | retire k' => exact absurd rfl (nr k')
  | organize start count i k => exact ⟨rfl, rfl, rfl, rfl, rfl⟩
  | newsb sc res => exact ⟨rfl, rfl, rfl, rfl, rfl⟩
  | large sbs res => exact ⟨rfl, rfl, rfl, rfl, rfl⟩

/-- The first two stores of the constructor on a superblock that is still assigned. -/
lemma sound_ctor_early (ok : L.Ok cfg) (rep : Rep cfg h L) {d ph ph' k}
    (th : ThInv cfg h L t (.ctor d ph (.retire k))) (early : ph = .nextFree ∨ ph = .nextPartial)
    (early' : ph'.Early) (hp : PhaseOk (ctorWrite (h.desc d) ph) ph') :
    Sound cfg t h L (h.setDesc d (ctorWrite (h.desc d) ph), .ctor d ph' (.retire k)) := by
  have he : ph.Early := by rcases early with rfl | rfl <;> trivial
  have hd : L.role d = .small k.sc (.thr t) := th.role_own ok (if_pos he)
  have hdesc := rep.small hd
  obtain ⟨ow, h1, h2, h3, -, h5⟩ := th
  refine ⟨L, .setDesc (l := .part k.sc) ok rep hd ?_ fun _ => ?_, ow.same ?_, ?_⟩
  · rcases early with rfl | rfl <;> exact hdesc
  · rcases early with rfl | rfl <;> rfl
  · exact ⟨by simp [rawOf, he, early'], by simp [ownOf, he, early'], rfl, rfl, rfl⟩
  · exact ⟨h1.congr rfl rfl, h2, h3, by rwa [Heap.desc_setDesc_self], fun _ => h5 he⟩

/-- The constructor clears the fields of a superblock that is being retired. -/
lemma sound_ctor_dissolve (ok : L.Ok cfg) (rep : Rep cfg h L) {d k}
    (th : ThInv cfg h L t (.ctor d .fields (.retire k))) :
    Sound cfg t h L
      (h.setDesc d (ctorWrite (h.desc d) .fields), .ctor d .flush (.retire k)) := by
  obtain ⟨ow, h1, h2, h3, h4, h5⟩ := th
  have hown : L.sbs.items (.small k.sc (.thr t)) = [d] := by rw [ow.own]; exact only_self ..
  refine ⟨_, .dissolve ok rep hown (h5 trivial) rfl, ?_, ?_⟩
  · constructor
    case raw =>
      refine (Placement.move_items_to _ _ _ _).trans ?_
      rw [ow.raw]
      rfl
    case own =>
      intro sc
      by_cases e : k.sc = sc
      · subst e
        exact Placement.move_items_from (by simp) hown
      · refine (Placement.move_items_other (by simp [Ne.symm e]) (by simp)).trans ?_
        rw [ow.own]
        exact only_ne e
    case fresh =>
      exact fun sc => (Placement.move_items_other (by simp) (by simp)).trans (ow.fresh sc)
    case freeing =>
      exact fun sc => (Placement.move_items_other (by simp) (by simp)).trans (ow.freeing sc)
    case hands =>
      exact fun sc _ => (Placement.move_items_other (by simp) (by simp)).trans
        (ow.hands sc (by simp [handsOf]))
  · refine ⟨h1.congr rfl rfl, h2, h3, ?_, fun e => e.elim⟩
    rw [Heap.desc_setDesc_self]
    exact ctorWrite_fields h4

/-- Writing a descriptor back changes nothing. -/
lemma Heap.setDesc_self (h : Heap) (d : ℕ) : h.setDesc d (h.desc d) = h := by
  simp [Heap.setDesc]

/-- The constructor returns. -/
lemma sound_ctorDone (ok : L.Ok cfg) (rep : Rep cfg h L) {d k}
    (th : ThInv cfg h L t (.ctor d .fence k)) : Sound cfg t h L (h, ctorDone d k) := by
  have hd := th.role_raw ok (CtorOk.mem_raw th.known fun _ _ => id)
  obtain ⟨ow, hk⟩ := th
  refine .stay ok rep ?_
  cases k with
  | retire k =>
    obtain ⟨h1, h2, h3, h4, -⟩ := hk
    refine ⟨ow.same ⟨?_, rfl, rfl, rfl, rfl⟩, h1, le_rfl, h4, fun j hj hj' => by omega⟩
    simp [ctorDone, rawOf, h3, CtorPhase.Early]
  | organize start count i k =>
    obtain ⟨h1, h2, rfl, h4, h5, h6⟩ := hk
    rw [ctorDone]
    split
    case isTrue lt => exact ⟨ow.same ⟨rfl, rfl, rfl, rfl, rfl⟩, h1, h2, lt, h5, h6⟩
    case isFalse ge =>
      have e : start + i + 1 - start = count := by omega
      refine ⟨ow.same ⟨by simp only [rawOf, e], rfl, rfl, h2, rfl⟩, h1, by omega, h5, ?_⟩
      intro j hj hj'
      obtain ⟨j', rfl⟩ := Nat.exists_eq_add_of_le hj
      exact h6 j' (by omega)
  | newsb sc res =>
    obtain ⟨h1, rfl, h3⟩ := hk
    have inside := ok.insideOf hd (by simp)
    refine ⟨ow.same ⟨?_, rfl, rfl, rfl, rfl⟩, h1, inside.isSb, ?_⟩
    · simp [ctorDone, rawOf, inside.sbIndex_sb]
    · rw [inside.sbIndex_sb, show h.desc d = .reset from h3]
      rfl
  | large sbs res =>
    obtain ⟨h1, rfl, h3, h4⟩ := hk
    have inside := ok.insideOf hd (by simp)
    refine ⟨ow.same ⟨?_, rfl, rfl, rfl, rfl⟩, h1, inside.isSb, ?_⟩
    · simp [ctorDone, rawOf, inside.sbIndex_sb]
    · rwa [inside.sbIndex_sb]

/-- How far the constructor is, whoever called it. -/
lemma CtorOk.phase {d ph k} (hk : CtorOk cfg h L t d ph k) : PhaseOk (h.desc d) ph := by
  cases k with
  | retire k => exact hk.2.2.2.1
  | organize start count i k => exact hk.2.2.2.2.1
  | newsb sc res => exact hk.2.2
  | large sbs res => exact hk.2.2.1

/-- One step of `Descriptor::Descriptor`. -/
lemma sound_ctor (ok : L.Ok cfg) (rep : Rep cfg h L) {d ph k spur}
    (th : ThInv cfg h L t (.ctor d ph k)) :
    Sound cfg t h L (exec cfg t spur h (.ctor d ph k)) := by
  have hp : PhaseOk (h.desc d) ph := CtorOk.phase th.known
  rw [exec]
  by_cases nr : ∀ k', k ≠ .retire k'
  · cases ph with
    | nextFree => exact sound_ctor_raw ok rep th nr rfl
    | nextPartial => exact sound_ctor_raw ok rep th nr ⟨hp, rfl⟩
    | fields => exact sound_ctor_raw ok rep th nr (ctorWrite_fields hp)
    | flush => exact sound_ctor_raw ok rep th nr hp
    | fence =>
      rw [ctorWrite, Heap.setDesc_self]
      exact sound_ctorDone ok rep th
  · obtain ⟨k', rfl⟩ := not_forall_not.1 nr
    cases ph with
    | nextFree => exact sound_ctor_early ok rep th (.inl rfl) trivial rfl
    | nextPartial => exact sound_ctor_early ok rep th (.inr rfl) trivial ⟨hp, rfl⟩
    | fields => exact sound_ctor_dissolve ok rep th
    | flush =>
      rw [ctorWrite, Heap.setDesc_self]
      obtain ⟨ow, h1, h2, h3, h4, -⟩ := th
      exact .stay ok rep ⟨ow.same ⟨rfl, rfl, rfl, rfl, rfl⟩, h1, h2, h3, h4, fun e => e.elim⟩
    | fence =>
      rw [ctorWrite, Heap.setDesc_self]
      exact sound_ctorDone ok rep th

/-- `organize_sb_list` links a descriptor to the next one. -/
lemma sound_orgLink (ok : L.Ok cfg) (rep : Rep cfg h L) {start count i k spur}
    (th : ThInv cfg h L t (.orgLink start count i k)) :
    Sound cfg t h L (exec cfg t spur h (.orgLink start count i k)) := by
  have role : ∀ j < count, L.role (start + j) = .raw t := fun j hj =>
    th.role_raw ok (by simp [rawOf, List.mem_range'_1, hj])
  obtain ⟨ow, hk, hf, hi, hd, hc⟩ := th
  have hdesc : { h.desc (start + i) with nextFree := some (start + i + 1) } =
      Descriptor.chained (start + i) := by
    rw [hd]
    rfl
  rw [exec, hdesc]
  refine ⟨L, .setDesc (l := .avail) ok rep (role i (by omega)) (.inl rfl) (by simp), ?_, ?_⟩
  · exact ow.same ⟨rfl, rfl, rfl, rfl, rfl⟩
  · refine ⟨hk.congr rfl rfl, hf, by omega, hi, trivial, fun j hj => ?_⟩
    by_cases e : j = i
    · subst e
      exact Heap.desc_setDesc_self ..
    · rw [Heap.desc_setDesc_ne (by omega)]
      exact hc j (by omega)

/-- A push loads the head. -/
lemma sound_pushLoad (ok : L.Ok cfg) (rep : Rep cfg h L) {first last k spur}
    (th : ThInv cfg h L t (.pushLoad first last k)) :
    Sound cfg t h L (exec cfg t spur h (.pushLoad first last k)) := by
  obtain ⟨ow, hk, hle, hd, hc⟩ := th
  refine .stay ok rep ⟨ow.same ⟨rfl, rfl, rfl, rfl, rfl⟩, hk, hle, ?_, hc⟩
  rw [hd]

/-- A superblock that a thread has taken is not at the head of its list. -/
lemma Rep.head_ne (rep : Rep cfg h L) (ok : L.Ok cfg) {sc d} (hd : L.role d = .small sc (.thr t)) :
    (h.head (.part sc)).ptr ≠ some d := by
  intro e
  have hl := rep.list (.part sc)
  rw [e] at hl
  obtain ⟨l', hl', -⟩ := hl.of_some
  have := (ok.mem_sbs (ListId.role_tracked (.part sc))).1 (by rw [hl']; exact List.mem_cons_self)
  rw [hd] at this
  cases this

/-- `heap_push_partial` loads the head of the list of the class. -/
lemma sound_heapPushPartial (ok : L.Ok cfg) (rep : Rep cfg h L) {d k spur}
    (th : ThInv cfg h L t (.heapPushPartial d k)) :
    Sound cfg t h L (exec cfg t spur h (.heapPushPartial d k)) := by
  have hd := th.role_own ok rfl
  obtain ⟨ow, hk, sc, fk, rfl⟩ := th
  rw [exec, (rep.small hd).1]
  exact .stay ok rep ⟨ow.same ⟨rfl, rfl, rfl, rfl, rfl⟩, hk, rfl, rep.head_ne ok hd, fk, rfl⟩

/-- A push links its last descriptor to the head that it has loaded. -/
lemma sound_pushStore (ok : L.Ok cfg) (rep : Rep cfg h L) {l first last old k spur}
    (th : ThInv cfg h L t (.pushStore l first last old k)) :
    Sound cfg t h L (exec cfg t spur h (.pushStore l first last old k)) := by
  rw [exec]
  cases l with
  | avail =>
    have hle := th.known.2.1
    have hlast := th.role_raw (d := last) ok (by
      simp only [rawOf, List.mem_append, List.mem_range'_1]
      omega)
    obtain ⟨ow, hk, -, hd, hc⟩ := th
    have hdesc : (h.desc last).setNext .avail old.ptr =
        { Descriptor.reset with nextFree := old.ptr } := by
      rw [hd]
      rfl
    rw [hdesc]
    refine .check (.inl rfl) ⟨L, .setDesc (l := .avail) ok rep hlast (.inl rfl) (by simp), ?_, ?_⟩
    · exact ow.same ⟨rfl, rfl, rfl, rfl, rfl⟩
    · refine ⟨hk.congr rfl rfl, hle, Heap.desc_setDesc_self .., fun j h1 h2 => ?_⟩
      rw [Heap.desc_setDesc_ne (by omega)]
      exact hc j h1 h2
  | part sc =>
    have hd := th.role_own ok rfl
    have hdesc := rep.small hd
    obtain ⟨ow, hsc, rfl, hne, fk, rfl⟩ := th
    refine .check (.inr hne) ⟨L, .setDesc (l := .part sc) ok rep hd hdesc fun _ => rfl, ?_, ?_⟩
    · exact ow.same ⟨rfl, rfl, rfl, rfl, rfl⟩
    · refine ⟨hsc, rfl, ?_, fk, rfl⟩
      rw [Heap.desc_setDesc_self]
      rfl

/-- A push has succeeded and left the thread with what the caller still needs. -/
lemma sound_pushDone {h' : Heap} {L' : Ledger} {k : PushK} {l first last old}
    (tr : Trans cfg t h L h' L') (ow : Owned cfg L t (.pushCas l first last old k))
    (hk : k.Ok cfg h' t) (raw : L'.sbs.items (.raw t) = k.raw cfg)
    (own : ∀ sc, L'.sbs.items (.small sc (.thr t)) = [])
    (fresh : ∀ sc, L'.sbs.items (.small sc (.fresh t)) = []) (blks : L'.blks = L.blks) :
    Sound cfg t h L (h', pushDone cfg k) := by
  have freeing : ∀ sc, L'.blks.items (.freeing t sc) = only k.freeing sc := by
    intro sc
    rw [blks]
    exact ow.freeing sc
  have hands : ∀ sc, L'.blks.items (.hands t sc) = [] := by
    intro sc
    rw [blks]
    exact ow.hands sc (by simp [handsOf])
  refine ⟨L', tr, ?_⟩
  cases k with
  | retry sc => exact ⟨⟨raw, own, fresh, freeing, fun sc _ => hands sc⟩, .inr rfl, hk⟩
  | flush sc k => exact ⟨⟨raw, own, fresh, freeing, fun sc _ => hands sc⟩, hk⟩
  | newsb sc res =>
    exact ⟨⟨raw, own, fresh, freeing, fun sc _ => hands sc⟩, hk.1, hk.2.symm, trivial⟩
  | done => exact ⟨⟨raw, own, fresh, freeing, fun sc _ => hands sc⟩, trivial⟩

/-- The compare-and-swap of a push on `avail_sb`. -/
lemma sound_pushCas_avail (ok : L.Ok cfg) (rep : Rep cfg h L) {first last old k spur}
    (th : ThInv cfg h L t (.pushCas .avail first last old k)) :
    Sound cfg t h L (exec cfg t spur h (.pushCas .avail first last old k)) := by
  obtain ⟨ow, hk, hle, hd, hc⟩ := th
  rw [exec]
  split
  case isFalse =>
    refine .stay ok rep ⟨ow.same ⟨rfl, rfl, rfl, rfl, rfl⟩, hk, hle, ?_, hc⟩
    rw [hd]
  case isTrue hcas =>
    have hrun : L.sbs.items (ListId.avail.taken t) =
        List.range' first (last + 1 - first) ++ k.raw cfg := ow.raw
    have link : ∀ j ∈ List.range' first (last + 1 - first),
        DescRep cfg j (h.desc j) ListId.avail.role := by
      intro j hj
      rw [List.mem_range'_1] at hj
      by_cases e : j = last
      · subst e
        rw [hd]
        rfl
      · rw [hc j hj.1 (by omega)]
        rfl
    have list : IsList (fun d => (h.desc d).next .avail) (some first)
        (List.range' first (last + 1 - first) ++ L.sbs.items ListId.avail.role) := by
      have hl := rep.list .avail
      rw [hcas.1] at hl
      obtain ⟨n, rfl⟩ := Nat.exists_eq_add_of_le hle
      rw [show first + n + 1 - first = n + 1 by omega]
      refine hl.range_append (fun j hj => ?_) ?_
      · rw [hc _ (by omega) (by omega)]
        rfl
      · rw [hd]
        rfl
    have tr := Trans.push ok rep hrun (by simp) link list
    rw [hcas.1] at tr
    refine sound_pushDone tr ow (hk.congr rfl rfl) ?_ (fun sc => ?_) (fun sc => ?_) rfl
    · exact Placement.move_items_from (by simp [ListId.taken, ListId.role]) hrun
    · exact (Placement.move_items_other (by simp [ListId.taken]) (by simp [ListId.role])).trans
        (ow.own sc)
    · exact (Placement.move_items_other (by simp [ListId.taken]) (by simp [ListId.role])).trans
        (ow.fresh sc)

/-- The compare-and-swap of `heap_push_partial`. -/
lemma sound_pushCas_part (ok : L.Ok cfg) (rep : Rep cfg h L) {sc first last old k spur}
    (th : ThInv cfg h L t (.pushCas (.part sc) first last old k)) :
    Sound cfg t h L (exec cfg t spur h (.pushCas (.part sc) first last old k)) := by
  have hd := th.role_own ok rfl
  obtain ⟨ow, hsc, rfl, hn, fk, rfl⟩ := th
  rw [exec]
  split
  case isFalse =>
    exact .stay ok rep ⟨ow.same ⟨rfl, rfl, rfl, rfl, rfl⟩, hsc, rfl, rep.head_ne ok hd, fk, rfl⟩
  case isTrue hcas =>
    have hown : L.sbs.items ((ListId.part sc).taken t) = [first] ++ [] := by
      rw [ListId.taken, ow.own]
      exact only_self ..
    have list : IsList (fun d => (h.desc d).next (.part sc)) (some first)
        ([first] ++ L.sbs.items (ListId.part sc).role) := by
      have hl := rep.list (.part sc)
      rw [hcas.1, ← hn] at hl
      exact ⟨rfl, hl⟩
    have descRep : ∀ d ∈ [first], DescRep cfg d (h.desc d) (ListId.part sc).role := fun d hd' => by
      rw [List.mem_singleton.1 hd']
      exact rep.small hd
    have tr := Trans.push ok rep hown (fun _ => rfl) descRep list
    rw [hcas.1] at tr
    refine sound_pushDone tr ow hsc ?_ (fun sc' => ?_) (fun sc' => ?_) rfl
    · exact (Placement.move_items_other (by simp [ListId.taken]) (by simp [ListId.role])).trans
        ow.raw
    · by_cases e : sc = sc'
      · subst e
        exact Placement.move_items_from (by simp [ListId.taken, ListId.role]) hown
      · refine (Placement.move_items_other (by simp [ListId.taken, Ne.symm e])
          (by simp [ListId.role])).trans ?_
        rw [ow.own]
        exact only_ne e
    · exact (Placement.move_items_other (by simp [ListId.taken]) (by simp [ListId.role])).trans
        (ow.fresh sc')

end Ralloc
