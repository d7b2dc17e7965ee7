import Ralloc.Model.AtomicCell

/-!
# Pointer cells keep pointers

`pptr_faithful`: the encoding of a `pptr` loses nothing, and an `atomic_pptr` is an atomic pointer.
`counted_register`: an `AtomicCrossPtrCnt` is an atomic pair of a descriptor pointer and a counter
modulo `2 ^ 34`. The compare-and-swap of both is the one of `Lib.Code` at their encodings.
-/

namespace Ralloc

open Lib

section pptr

variable {v w p v' p' : ℕ}

/-- The mask reads the low 16 bits but the sign. -/
lemma and_pattern_mask (w : ℕ) : w &&& PPTR_PATTERN_MASK = w % 2 ^ 16 / 2 * 2 := by
  have mask : PPTR_PATTERN_MASK = (2 ^ 16 - 1) &&& (WORD - 2 ^ 1) := by decide
  have lt : w % 2 ^ 16 < WORD := lt_of_lt_of_le (Nat.mod_lt _ (by decide)) (by decide)
  rw [mask, ← Nat.and_assoc, Nat.and_two_pow_sub_one_eq_mod, and_high_mask lt (by decide), pow_one]

/-- A valid word is one of the two patterns below a magnitude. -/
lemma isValidPptr_cases (h : isValidPptr w = true) :
    ∃ x, w = x * 2 ^ 16 + 0x52b0 ∨ w = x * 2 ^ 16 + 0x52b1 := by
  rw [isValidPptr, decide_eq_true_eq, and_pattern_mask, PPTR_PATTERN_POS] at h
  exact ⟨w / 2 ^ 16, by omega⟩

/-- A word that stands for an address is the word for that address. -/
lemma toPptrOff_fromPptrOff (hw : w < WORD) (hp : p < ADDR) (valid : isValidPptr w = true)
    (ne : fromPptrOff w p ≠ 0) (lt : fromPptrOff w p < ADDR) :
    toPptrOff (fromPptrOff w p) p = w := by
  unfold WORD at hw
  obtain ⟨x, rfl | rfl⟩ := isValidPptr_cases valid
  · rw [fromPptrOff_pos] at ne lt ⊢
    split at ne
    · exact absurd rfl ne
    next hx =>
      rw [if_neg hx] at lt ⊢
      have e : (p + x) % WORD = p + x := by
        unfold ADDR at hp
        unfold WORD
        omega
      rw [e] at lt ⊢
      rw [toPptrOff_eq lt hp, if_neg (by omega), if_pos (by omega), Nat.add_sub_cancel_left]
  · rw [fromPptrOff_neg] at ne lt ⊢
    have e : (p + WORD - x) % WORD = p - x ∧ x ≤ p := by
      unfold ADDR at hp lt
      unfold WORD at lt ⊢
      omega
    rw [e.1] at ne lt ⊢
    rw [toPptrOff_eq lt hp, if_neg ne, if_neg (by omega), Nat.sub_sub_self e.2]

/-- The word depends on the distance only. -/
lemma toPptrOff_moved (hv : v ≠ 0) (hv' : v' ≠ 0) (lv : v < ADDR) (lp : p < ADDR) (lv' : v' < ADDR)
    (lp' : p' < ADDR) (e : v' + p = v + p') : toPptrOff v' p' = toPptrOff v p := by
  rw [toPptrOff_eq lv lp, toPptrOff_eq lv' lp', if_neg hv, if_neg hv']
  split <;> split <;> omega

/-- The encoding of a `pptr` at `p`. -/
def pptrCode (p : ℕ) (hp : p < ADDR) : Code ℕ ℕ where
  enc v := toPptrOff v p
  dec w := fromPptrOff w p
  norm v := v
  Good v := v < ADDR
  good_norm h := h
  dec_enc h := fromPptrOff_toPptrOff h hp
  enc_norm _ := rfl

namespace AtomicPptr

/-- A failed compare-and-swap decodes the word that it has found. -/
lemma compareExchange_eq (hp : p < ADDR) (off expected desired : ℕ) (spurious : Bool) :
    compareExchange off p expected desired spurious =
      (pptrCode p hp).exchange off expected desired spurious := by
  have null : ∀ w, (if isNullPptr w then 0 else fromPptrOff w p) = fromPptrOff w p := by
    intro w
    split
    next h => simp [fromPptrOff, h]
    next => rfl
  simp only [compareExchange, null]
  rfl

/-- The word of an `atomic_pptr` is always that of an address. -/
lemma Written.exists_addr {off : ℕ} (hp : p < ADDR) (h : Written p off) :
    ∃ v < ADDR, off = toPptrOff v p := by
  induction h with
  | construct hv => exact ⟨_, hv, rfl⟩
  | constructFrom hv => exact ⟨_, hv, rfl⟩
  | @write off w hw run ih =>
    cases w with
    | store v => exact ⟨v, hw, rfl⟩
    | construct off' src => exact ⟨_, hw, rfl⟩
    | assign off' src => exact ⟨_, hw, rfl⟩
    | compareExchange expected desired spurious =>
      obtain ⟨v, hv, rfl⟩ := ih
      have e := (pptrCode p hp).exchange_enc (d := desired) hv hw.1 spurious
      rw [Write.apply, compareExchange_eq hp]
      rw [show (pptrCode p hp).exchange (toPptrOff v p) expected desired spurious = _ from e]
      split
      · exact ⟨desired, hw.2, rfl⟩
      · exact ⟨v, hv, rfl⟩

/-- What the compare-and-swap of an `atomic_pptr` does. -/
lemma Written.compareExchange_eq {off expected desired : ℕ} (h : Written p off) (hp : p < ADDR)
    (he : expected < ADDR) (spurious : Bool) :
    compareExchange off p expected desired spurious =
      if load off p = expected ∧ ¬spurious then (true, store desired p, expected)
      else (false, off, load off p) := by
  obtain ⟨v, hv, rfl⟩ := h.exists_addr hp
  have e := (pptrCode p hp).exchange_enc (d := desired) hv he spurious
  rw [AtomicPptr.compareExchange_eq hp, load, fromPptrOff_toPptrOff hv hp]
  exact e

end AtomicPptr

end pptr

/-- A `pptr` keeps every address, wherever it is; its words and the addresses correspond; moving a
pointer together with what it points to does not change it; copies point to the same place.
Therefore an `atomic_pptr` is an atomic pointer: its compare-and-swap compares pointers. -/
theorem pptr_faithful :
    (∀ v p, v < ADDR → p < ADDR → fromPptrOff (toPptrOff v p) p = v) ∧
    (∀ v v' p, v < ADDR → v' < ADDR → p < ADDR → toPptrOff v p = toPptrOff v' p → v = v') ∧
    (∀ w p, w < WORD → p < ADDR → isValidPptr w = true → fromPptrOff w p ≠ 0 →
    fromPptrOff w p < ADDR →
      toPptrOff (fromPptrOff w p) p = w) ∧
    (∀ v p v' p', v < ADDR → p < ADDR → v' < ADDR → p' < ADDR → v ≠ 0 → v' ≠ 0 →
      (v' : ℤ) - v = (p' : ℤ) - p → toPptrOff v' p' = toPptrOff v p) ∧
    (∀ w p p', fromPptrOff w p < ADDR → p' < ADDR →
      fromPptrOff (Pptr.copy w p p') p' = fromPptrOff w p) ∧
    (∀ off p expected desired, AtomicPptr.Written p off → p < ADDR → expected < ADDR →
    desired < ADDR →
      let r := AtomicPptr.compareExchange off p expected desired false
      (r.1 = true ↔ AtomicPptr.load off p = expected) ∧
      (r.1 = true → AtomicPptr.load r.2.1 p = desired) ∧
      (r.1 = false → r.2.1 = off ∧ r.2.2 = AtomicPptr.load off p)) := by
  refine ⟨fun v p hv hp => fromPptrOff_toPptrOff hv hp, fun v v' p hv hv' hp e => ?_,
    fun w p hw hp valid ne lt => toPptrOff_fromPptrOff hw hp valid ne lt,
    fun v p v' p' lv lp lv' lp' hv hv' e => toPptrOff_moved hv hv' lv lp lv' lp' (by omega),
    fun w p p' hv hp' => fromPptrOff_toPptrOff hv hp', fun off p expected desired h hp he hd => ?_⟩
  · rw [← fromPptrOff_toPptrOff hv hp, e, fromPptrOff_toPptrOff hv' hp]
  · intro r
    have hr : r = _ := h.compareExchange_eq hp he false
    by_cases same : AtomicPptr.load off p = expected
    · rw [if_pos ⟨same, by decide⟩] at hr
      rw [hr]
      exact ⟨iff_of_true rfl same, fun _ => fromPptrOff_toPptrOff hd hp,
        fun c => absurd c (by simp)⟩
    · rw [if_neg fun c => same c.1] at hr
      rw [hr]
      exact ⟨iff_of_false (by simp) same, fun c => absurd c (by simp), fun _ => ⟨rfl, rfl⟩⟩

/-- An `atomic_pptr` that is constructed null and then set to its own address. -/
theorem pptr_faithful_sample :
    (AtomicPptr.compareExchange (toPptrOff 0 4096) 4096 0 4096 false).1 = true :=
  (pptr_faithful.2.2.2.2.2 _ 4096 0 4096 (.construct (by decide)) (by decide) (by decide)
    (by decide)).1.2 (by decide)

section counted

namespace AtomicCrossPtrCnt

variable {start ptr : ℕ}

/-- The packed word is the one of the index of the descriptor. -/
lemma pack_eq (hs : start < WORD) (hp : IsDesc start ptr) (cnt : ℕ) :
    ∃ o : Option ℕ, (∀ d ∈ o, 1 ≤ d ∧ d < 2 ^ MAX_DESC_AMOUNT_BITS) ∧
      ptr = castCross start (descOff o) ∧ pack start ptr cnt = countedWord ⟨o, cnt⟩ := by
  by_cases null : ptr = 0
  · refine ⟨none, by simp, null, ?_⟩
    rw [pack, if_pos null, countedWord, descOff, counted, Nat.zero_or]
  · obtain ⟨i, h1, h2, e⟩ := hp.resolve_left null
    have e : ptr = translate start (i * DESCSIZE) := e
    have lt : i * DESCSIZE < WORD :=
      lt_trans (descOff_lt (o := some i) (by simpa using h2)) (by decide)
    refine ⟨some i, by simpa using ⟨h1, h2⟩, ?_, ?_⟩
    · rw [castCross, isNullCross_descOff h1, if_neg (by decide), e, descOff]
    · rw [pack, if_neg null, countedWord, e, untranslate_translate hs lt, descOff]

/-- What is stored is loaded again, but for the bits of the counter that have no room. -/
lemma unpack_pack (hs : start < WORD) (hp : IsDesc start ptr) (cnt : ℕ) :
    unpack start (pack start ptr cnt) = (ptr, cnt % CNT) := by
  obtain ⟨o, small, e, word⟩ := pack_eq hs hp cnt
  have off := descOff_lt fun d hd => (small d hd).2
  rw [unpack, word, countedWord, wordOff_counted off, wordCnt_counted off, e]

/-- The encoding of a register. -/
def code (start : ℕ) (hs : start < WORD) : Code (ℕ × ℕ) ℕ where
  enc v := pack start v.1 v.2
  dec w := unpack start w
  norm v := (v.1, v.2 % CNT)
  Good v := IsDesc start v.1
  good_norm h := h
  dec_enc h := unpack_pack hs h _
  enc_norm {v} _ := by
    have same : cntPrefix (v.2 % CNT) = cntPrefix v.2 := by
      rw [cntPrefix_eq, cntPrefix_eq, Nat.mod_mod]
    simp only [pack, counted, same]

/-- The word of a register is always that of a pair. -/
lemma Written.exists_pair {word : ℕ} (hs : start < WORD) (h : Written start word) :
    ∃ v : ℕ × ℕ, IsDesc start v.1 ∧ word = pack start v.1 v.2 := by
  induction h with
  | @store ptr cnt hp => exact ⟨(ptr, cnt), hp, rfl⟩
  | @compareExchange word expected desired spurious he hd run ih =>
    obtain ⟨v, hv, rfl⟩ := ih
    have e := (code start hs).exchange_enc (v := v) (d := desired) hv he spurious
    rw [show AtomicCrossPtrCnt.compareExchange start (pack start v.1 v.2) expected desired
      spurious = _ from e]
    split
    · exact ⟨desired, hd, rfl⟩
    · exact ⟨v, hv, rfl⟩

/-- What the compare-and-swap of a register does. -/
lemma Written.compareExchange_eq {word : ℕ} {expected desired : ℕ × ℕ} (h : Written start word)
    (hs : start < WORD) (he : IsDesc start expected.1) (spurious : Bool) :
    AtomicCrossPtrCnt.compareExchange start word expected desired spurious =
      if unpack start word = (expected.1, expected.2 % CNT) ∧ ¬spurious then
        (true, pack start desired.1 desired.2, expected)
      else (false, word, unpack start word) := by
  obtain ⟨v, hv, rfl⟩ := h.exists_pair hs
  rw [unpack_pack hs hv]
  exact (code start hs).exchange_enc (v := v) (d := desired) hv he spurious

end AtomicCrossPtrCnt

end counted

open AtomicCrossPtrCnt in
/-- An `AtomicCrossPtrCnt` is an atomic register for a descriptor pointer and a counter modulo
`2 ^ 34`. -/
theorem counted_register {start : ℕ} (hs : start < WORD) :
    (∀ ptr cnt, IsDesc start ptr → unpack start (pack start ptr cnt) = (ptr, cnt % CNT)) ∧
    (∀ ptr cnt ptr' cnt', IsDesc start ptr → IsDesc start ptr' →
      pack start ptr cnt = pack start ptr' cnt' → ptr = ptr' ∧ cnt % CNT = cnt' % CNT) ∧
    (∀ word expected desired spurious, Written start word → IsDesc start expected.1 →
      IsDesc start desired.1 →
      let r := AtomicCrossPtrCnt.compareExchange start word expected desired spurious
      (r.1 = true → unpack start word = (expected.1, expected.2 % CNT)) ∧
      (unpack start word = (expected.1, expected.2 % CNT) → spurious = false → r.1 = true) ∧
      (r.1 = true → unpack start r.2.1 = (desired.1, desired.2 % CNT)) ∧
      (r.1 = false → r.2.1 = word ∧ r.2.2 = unpack start word)) ∧
    (∀ ptr cnt, IsDesc start ptr → cnt % CNT = CNT - 1 →
      unpack start (pack start ptr (cnt + 1)) = (ptr, 0)) := by
  refine ⟨fun ptr cnt hp => unpack_pack hs hp cnt, fun ptr cnt ptr' cnt' hp hp' e => ?_,
    fun word expected desired spurious h he hd => ?_, fun ptr cnt hp wrap => ?_⟩
  · have same := unpack_pack hs hp cnt
    rw [e, unpack_pack hs hp'] at same
    exact ⟨(congrArg Prod.fst same).symm, (congrArg Prod.snd same).symm⟩
  · intro r
    have hr : r = _ := h.compareExchange_eq hs he spurious
    by_cases c : unpack start word = (expected.1, expected.2 % CNT) ∧ ¬spurious
    · rw [if_pos c] at hr
      rw [hr]
      exact ⟨fun _ => c.1, fun _ _ => rfl, fun _ => unpack_pack hs hd _,
        fun f => absurd f (by simp)⟩
    · rw [if_neg c] at hr
      rw [hr]
      refine ⟨fun f => absurd f (by simp), fun same no => absurd ⟨same, by simp [no]⟩ c,
        fun f => absurd f (by simp), fun _ => ⟨rfl, rfl⟩⟩
  · rw [unpack_pack hs hp]
    have zero : (cnt + 1) % CNT = 0 := by
      unfold CNT MAX_DESC_OFFSET_BITS MAX_DESC_AMOUNT_BITS at wrap ⊢
      omega
    rw [zero]

/-- A register of a descriptor region at `2 ^ 40`. -/
theorem counted_register_sample : AtomicCrossPtrCnt.unpack (2 ^ 40)
    (AtomicCrossPtrCnt.pack (2 ^ 40) (2 ^ 40 + 64) (2 ^ 34 - 1 + 1)) = (2 ^ 40 + 64, 0) :=
  (counted_register (by decide)).2.2.2 _ _ (.inr ⟨1, by decide, by decide, by decide⟩) (by decide)

end Ralloc
