import Ralloc.Model.Heap

/-!
# Pointers into another region

Model of `CrossPtr`, of the word in an `AtomicCrossPtrCnt`, and of the roots, which are `CrossPtr`s.
All of them keep the offset of what they point to from the start of its region, so they move with
the region; offset 0 is the null pointer.

The word of an `AtomicCrossPtrCnt` has the offset of a descriptor in its low 30 bits and a counter
in the 34 bits above it (`counted`). Shifting a counter into place drops the bits for which there is
no room. `wordOff_counted` and `wordCnt_counted` take the word apart again; the word appears with
absolute pointers (`pack`, `unpack`) and with numbers of descriptors (`countedWord`).
-/

namespace Ralloc

/-- `Regions::translate`, for a region that starts at `start`. -/
def translate (start off : ℕ) : ℕ := (start + off) % WORD

/-- `Regions::untranslate`. -/
def untranslate (start a : ℕ) : ℕ := (a + WORD - start) % WORD

/-- An offset is found again. -/
lemma untranslate_translate {start off : ℕ} (hs : start < WORD) (lt : off < WORD) :
    untranslate start (translate start off) = off := by
  unfold untranslate translate
  unfold WORD at hs lt ⊢
  omega

section crossPtr

/-- `CrossPtr::is_null`. -/
def isNullCross (off : ℕ) : Bool := off = 0

/-- The cast of a `CrossPtr` to a pointer, in a region that starts at `start`. -/
def castCross (start off : ℕ) : ℕ := if isNullCross off then 0 else translate start off

/-- The assignment of a pointer of any type to a `CrossPtr`. -/
def assignCross (start p : ℕ) : ℕ := untranslate start p

/-- The assignment of `nullptr` to a `CrossPtr`. -/
def assignNullCross : ℕ := 0

/-- `BaseMeta::set_root`: the previous root and the new array, unless the assertion fails. -/
def setRoot (start : ℕ) (roots : ℕ → ℕ) (p i : ℕ) : Option (ℕ × (ℕ → ℕ)) :=
  if i < MAX_ROOTS then
    some (if isNullCross (roots i) then 0 else castCross start (roots i),
      Function.update roots i (assignCross start p))
  else none

/-- `BaseMeta::get_root`. -/
def getRoot (start : ℕ) (roots : ℕ → ℕ) (i : ℕ) : Option ℕ :=
  if i < MAX_ROOTS then some (castCross start (roots i)) else none

/-- Whether `GarbageCollection::operator()` calls the filter function of root `i`. -/
def visitsRoot (roots : ℕ → ℕ) (i : ℕ) : Bool := !isNullCross (roots i)

end crossPtr

section counted

/-- `cnt_prefix`. -/
def cntPrefix (cnt : ℕ) : ℕ := (cnt <<< MAX_DESC_OFFSET_BITS) % WORD

/-- The word with an offset and a counter. -/
def counted (off cnt : ℕ) : ℕ := off ||| cntPrefix cnt

/-- The offset in a counted word. -/
def wordOff (word : ℕ) : ℕ := word &&& MAX_DESC_OFFSET_MASK

/-- The counter in a counted word. -/
def wordCnt (word : ℕ) : ℕ := word >>> MAX_DESC_OFFSET_BITS

variable {off : ℕ}

/-- The counter is kept modulo `CNT`. -/
lemma cntPrefix_eq (cnt : ℕ) : cntPrefix cnt = cnt % CNT * 2 ^ 30 := by
  rw [cntPrefix, Nat.shiftLeft_eq]
  unfold CNT MAX_DESC_OFFSET_BITS MAX_DESC_AMOUNT_BITS WORD
  omega

/-- Offset and counter do not overlap. -/
lemma counted_eq (lt : off < 2 ^ 30) (cnt : ℕ) : counted off cnt = cnt % CNT * 2 ^ 30 + off := by
  rw [counted, cntPrefix_eq, Nat.lor_comm, ← Nat.shiftLeft_eq, Nat.shiftLeft_add_eq_or_of_lt lt]

/-- The offset is found again. -/
lemma wordOff_counted (lt : off < 2 ^ 30) (cnt : ℕ) : wordOff (counted off cnt) = off := by
  rw [wordOff, counted_eq lt, MAX_DESC_OFFSET_MASK, show MAX_DESC_OFFSET_BITS = 30 from rfl,
    Nat.and_two_pow_sub_one_eq_mod]
  omega

/-- So is the counter, but for the bits that have no room. -/
lemma wordCnt_counted (lt : off < 2 ^ 30) (cnt : ℕ) : wordCnt (counted off cnt) = cnt % CNT := by
  rw [wordCnt, counted_eq lt, show MAX_DESC_OFFSET_BITS = 30 from rfl, Nat.shiftRight_eq_div_pow]
  omega

/-- The offset of a descriptor, 0 for null. -/
def descOff : Option ℕ → ℕ
  | none => 0
  | some d => d * DESCSIZE

/-- The counted word that points to a descriptor, by its number. -/
def countedWord (w : PtrCnt) : ℕ := counted (descOff w.ptr) w.cnt

/-- The offset of a descriptor fits its part of a counted word. -/
lemma descOff_lt {o : Option ℕ} (hd : ∀ d ∈ o, d < 2 ^ MAX_DESC_AMOUNT_BITS) :
    descOff o < 2 ^ 30 := by
  cases o with
  | none => exact Nat.two_pow_pos 30
  | some d =>
    have := hd d rfl
    unfold MAX_DESC_AMOUNT_BITS at this
    show d * 64 < 2 ^ 30
    omega

/-- A descriptor other than number 0 is not null. -/
lemma isNullCross_descOff {d : ℕ} (pos : 1 ≤ d) : isNullCross (descOff (some d)) = false :=
  decide_eq_false (Nat.mul_ne_zero (Nat.one_le_iff_ne_zero.1 pos) (by decide))

namespace AtomicCrossPtrCnt

/-- The word for a pointer and a counter, in the constructor, in `store` and in
`compare_exchange`. -/
def pack (start ptr cnt : ℕ) : ℕ :=
  if ptr = 0 then cntPrefix cnt else counted (untranslate start ptr) cnt

/-- The pointer and the counter in a word, in `load` and after a failed `compare_exchange`. -/
def unpack (start word : ℕ) : ℕ × ℕ := (castCross start (wordOff word), wordCnt word)

end AtomicCrossPtrCnt

end counted

end Ralloc
