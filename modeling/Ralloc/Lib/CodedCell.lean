import Mathlib.Logic.Basic
import Mathlib.Tactic.Lemma

/-!
# Atomic cells of encoded values

An atomic cell holds machine words, and the program wants to keep values of another type in it. It
encodes what it stores and decodes what it loads, and its compare-and-swap compares the words. The
encoding may drop a part of a value that has no room; `norm v` is what is left of `v`.

`exchange_enc`: a compare-and-swap on the words is one on the values that are left.
-/

namespace Lib

/-- An encoding of the good values. -/
structure Code (V W : Type) where
  enc : V → W
  dec : W → V
  /-- what is left of a value -/
  norm : V → V
  Good : V → Prop
  good_norm : ∀ {v}, Good v → Good (norm v)
  dec_enc : ∀ {v}, Good v → dec (enc v) = norm v
  enc_norm : ∀ {v}, Good v → enc (norm v) = enc v

/-- `compare_exchange_weak` and `compare_exchange_strong` of a cell with the word `word`: the
result, the word after it, and the expected word, which is overwritten on failure. The strong form
does not fail spuriously. -/
def compareExchange {W : Type} [DecidableEq W] (word old new : W) (spurious : Bool) :
    Bool × W × W :=
  if word = old ∧ ¬spurious then (true, new, old) else (false, word, word)

namespace Code

variable {V W : Type} (C : Code V W) {v e d : V}

/-- Good values have the same word exactly when the same is left of them. -/
lemma enc_eq_iff (hv : C.Good v) (he : C.Good e) : C.enc v = C.enc e ↔ C.norm v = C.norm e := by
  constructor
  · intro h
    rw [← C.dec_enc hv, h, C.dec_enc he]
  · intro h
    rw [← C.enc_norm hv, h, C.enc_norm he]

/-- The compare-and-swap on values. -/
def exchange [DecidableEq W] (word : W) (expected desired : V) (spurious : Bool) : Bool × W × V :=
  let r := compareExchange word (C.enc expected) (C.enc desired) spurious
  (r.1, r.2.1, if r.1 then expected else C.dec r.2.2)

/-- What it does to a cell with the word of a good value. -/
lemma exchange_enc [DecidableEq W] [DecidableEq V] (hv : C.Good v) (he : C.Good e)
    (spurious : Bool) :
    C.exchange (C.enc v) e d spurious =
      if C.norm v = C.norm e ∧ ¬spurious then (true, C.enc d, e)
      else (false, C.enc v, C.norm v) := by
  have same := C.enc_eq_iff hv he
  rw [exchange, compareExchange]
  by_cases h : C.norm v = C.norm e ∧ ¬spurious
  · rw [if_pos h, if_pos ⟨same.2 h.1, h.2⟩]
    rfl
  · rw [if_neg h, if_neg fun c => h ⟨same.1 c.1, c.2⟩]
    show (false, C.enc v, C.dec (C.enc v)) = _
    rw [C.dec_enc hv]

end Code

end Lib
