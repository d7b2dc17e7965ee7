import Ralloc.Model.Config
import Mathlib.Tactic.NormNum

/-!
# Position independent pointers

Model of `pptr.hpp`: the conversions `to_pptr_off` and `from_pptr_off` between an absolute pointer
and the word a `pptr` or `atomic_pptr` at address `p` keeps. Pointers are numbers, the null pointer
is 0, and the word arithmetic is modulo `2 ^ 64` as in the source.

`toPptrOff_eq` says what the encoding is as a number, `fromPptrOff_word` what every word of that
form decodes to; the round trip `fromPptrOff_toPptrOff` is put together from the two.
-/

namespace Ralloc

/-- `is_null_pptr`. -/
def isNullPptr (off : ℕ) : Bool := off = PPTR_PATTERN_POS

/-- `is_valid_pptr`. -/
def isValidPptr (off : ℕ) : Bool := off &&& PPTR_PATTERN_MASK = PPTR_PATTERN_POS

/-- `to_pptr_off`: the word for a pointer `v` kept at `p`. -/
def toPptrOff (v p : ℕ) : ℕ :=
  if v = 0 then PPTR_PATTERN_POS
  else if v > p then ((v - p) <<< PPTR_PATTERN_SHIFT) % WORD ||| PPTR_PATTERN_POS
  else ((p - v) <<< PPTR_PATTERN_SHIFT) % WORD ||| PPTR_PATTERN_NEG

/-- `from_pptr_off`: the pointer that the word `off` kept at `p` stands for. -/
def fromPptrOff (off p : ℕ) : ℕ :=
  if !isValidPptr off || isNullPptr off then 0
  else if off &&& 1 = 1 then (p + WORD - off >>> PPTR_PATTERN_SHIFT) % WORD
  else (p + off >>> PPTR_PATTERN_SHIFT) % WORD

/-- A shifted magnitude with a pattern below it is a sum. -/
lemma shift_or_pattern {x c : ℕ} (hx : x < ADDR) (hc : c < 2 ^ 16) :
    (x <<< PPTR_PATTERN_SHIFT) % WORD ||| c = x * 2 ^ 16 + c := by
  have h : x <<< 16 < WORD := by
    rw [Nat.shiftLeft_eq]
    unfold ADDR at hx
    unfold WORD
    omega
  rw [PPTR_PATTERN_SHIFT, Nat.mod_eq_of_lt h, ← Nat.shiftLeft_add_eq_or_of_lt hc, Nat.shiftLeft_eq]

/-- The encoding as a number: null, a forward distance or a backward distance. -/
lemma toPptrOff_eq {v p : ℕ} (hv : v < ADDR) (hp : p < ADDR) :
    toPptrOff v p = if v = 0 then 0x52b0 else
      if v > p then (v - p) * 2 ^ 16 + 0x52b0 else (p - v) * 2 ^ 16 + 0x52b1 := by
  unfold toPptrOff
  split
  · rfl
  · split
    · exact shift_or_pattern (by omega) (by decide)
    · exact shift_or_pattern (by omega) (by decide)

/-- An encoding is a machine word. -/
lemma toPptrOff_lt {v p : ℕ} (hv : v < ADDR) (hp : p < ADDR) : toPptrOff v p < WORD := by
  rw [toPptrOff_eq hv hp]
  unfold ADDR at hv hp
  unfold WORD
  split
  · omega
  · split <;> omega

/-- The mask reads the low 16 bits only. -/
private lemma and_mask (x c : ℕ) :
    (x * 2 ^ 16 + c) &&& PPTR_PATTERN_MASK = c % 2 ^ 16 &&& PPTR_PATTERN_MASK := by
  have hlt : (x * 2 ^ 16 + c) &&& PPTR_PATTERN_MASK < 2 ^ 16 :=
    lt_of_le_of_lt Nat.and_le_right (by decide)
  have h := Nat.and_mod_two_pow (a := x * 2 ^ 16 + c) (b := PPTR_PATTERN_MASK) (n := 16)
  rw [Nat.mod_eq_of_lt hlt] at h
  rw [h, show (x * 2 ^ 16 + c) % 2 ^ 16 = c % 2 ^ 16 by omega,
    show PPTR_PATTERN_MASK % 2 ^ 16 = PPTR_PATTERN_MASK from rfl]

/-- Shifting the pattern out of a word leaves the offset. -/
private lemma shiftRight_word {x c : ℕ} (hc : c < 2 ^ 16) :
    (x * 2 ^ 16 + c) >>> PPTR_PATTERN_SHIFT = x := by
  rw [PPTR_PATTERN_SHIFT, Nat.shiftRight_eq_div_pow]
  omega

/-- A word with the positive pattern decodes to the address `x` bytes ahead, null for `x = 0`. -/
lemma fromPptrOff_pos (x p : ℕ) :
    fromPptrOff (x * 2 ^ 16 + 0x52b0) p = if x = 0 then 0 else (p + x) % WORD := by
  have hv : isValidPptr (x * 2 ^ 16 + 0x52b0) = true := by
    unfold isValidPptr
    rw [and_mask]
    decide
  have h1 : (x * 2 ^ 16 + 0x52b0) &&& 1 = 0 := by
    rw [Nat.and_one_is_mod]
    omega
  unfold fromPptrOff
  rw [hv, h1, shiftRight_word (by decide)]
  by_cases hx : x = 0
  · subst hx
    rfl
  · have hn : isNullPptr (x * 2 ^ 16 + 0x52b0) = false := by
      unfold isNullPptr PPTR_PATTERN_POS
      simpa using hx
    rw [hn, if_neg (by decide), if_neg (by decide), if_neg hx]

/-- A word with the negative pattern decodes to the address `x` bytes back. -/
lemma fromPptrOff_neg (x p : ℕ) :
    fromPptrOff (x * 2 ^ 16 + 0x52b1) p = (p + WORD - x) % WORD := by
  have hv : isValidPptr (x * 2 ^ 16 + 0x52b1) = true := by
    unfold isValidPptr
    rw [and_mask]
    decide
  have hn : isNullPptr (x * 2 ^ 16 + 0x52b1) = false := by
    unfold isNullPptr PPTR_PATTERN_POS
    simp only [decide_eq_false_iff_not]
    omega
  have h1 : (x * 2 ^ 16 + 0x52b1) &&& 1 = 1 := by
    rw [Nat.and_one_is_mod]
    omega
  unfold fromPptrOff
  rw [hv, hn, h1, shiftRight_word (by decide), if_neg (by decide), if_pos rfl]

/-- Decoding at the same place gives the pointer back. -/
lemma fromPptrOff_toPptrOff {v p : ℕ} (hv : v < ADDR) (hp : p < ADDR) :
    fromPptrOff (toPptrOff v p) p = v := by
  rw [toPptrOff_eq hv hp]
  unfold ADDR at hv hp
  split
  · next h =>
    subst h
    exact fromPptrOff_pos 0 p
  · next h =>
    split
    · next h' =>
      rw [fromPptrOff_pos, if_neg (by omega), show p + (v - p) = v by omega]
      exact Nat.mod_eq_of_lt (by unfold WORD; omega)
    · next h' =>
      rw [fromPptrOff_neg, show p + WORD - (p - v) = v + WORD by omega, Nat.add_mod_right]
      exact Nat.mod_eq_of_lt (by unfold WORD; omega)

/-- A pointer and its word that move together keep their distance. -/
lemma fromPptrOff_moved {v p v' p' : ℕ} (hv : v ≠ 0) (h1 : v < p + ADDR) (h2 : p < v + ADDR)
    (e : v' + p = v + p') (lt : v' < WORD) : fromPptrOff (toPptrOff v p) p' = v' := by
  rw [toPptrOff, if_neg hv]
  split
  · rw [shift_or_pattern (by omega) (by decide)]
    show fromPptrOff (_ + 0x52b0) p' = v'
    rw [fromPptrOff_pos, if_neg (by omega), show p' + (v - p) = v' by omega]
    exact Nat.mod_eq_of_lt lt
  · rw [shift_or_pattern (by omega) (by decide)]
    show fromPptrOff (_ + 0x52b1) p' = v'
    rw [fromPptrOff_neg, show p' + WORD - (p - v) = v' + WORD by omega, Nat.add_mod_right]
    exact Nat.mod_eq_of_lt lt

/-- The same for any word that stands for a pointer, however it came about. -/
lemma fromPptrOff_move {w v p v' p' : ℕ} (h : fromPptrOff w p = v) (hv : v ≠ 0) (hw : w < WORD)
    (hp : p < ADDR) (hva : v < ADDR) (e : v' + p = v + p') (lt : v' < WORD) :
    fromPptrOff w p' = v' := by
  have hx : w >>> PPTR_PATTERN_SHIFT < ADDR := by
    rw [PPTR_PATTERN_SHIFT, Nat.shiftRight_eq_div_pow]
    unfold WORD at hw
    unfold ADDR
    omega
  unfold fromPptrOff at h ⊢
  split at h
  · exact absurd h.symm hv
  next valid =>
    rw [if_neg valid]
    unfold ADDR at hp hva hx
    unfold WORD at h lt ⊢
    split at h
    next neg =>
      rw [if_pos neg]
      omega
    next pos =>
      rw [if_neg pos]
      omega

end Ralloc
