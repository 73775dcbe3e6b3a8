import Mathlib.Data.List.Basic

/-!
# Sets of numbers in words of 32 bits

A number stands for a bit of a word. Adding a number sets its bit and no other, and a word
beyond the end holds none.
-/

namespace EconomyLab.Foundation

/-- `Uint32Array`. -/
abbrev Words := List (BitVec 32)

namespace Words

def zeros (n : Nat) : Words := List.replicate n 0#32

/-- `words[n >> 5] |= 1 << (n & 31)`. -/
def add (words : Words) (n : Nat) : Words := words.modify (n / 32) (· ||| 1#32 <<< (n % 32))

/-- `(words[n >> 5] >>> (n & 31)) & 1`, a missing word having no bits. -/
def has (words : Words) (n : Nat) : Bool :=
  match words[n / 32]? with
  | none => false
  | some word => (word >>> (n % 32)) &&& 1#32 = 1#32

theorem bit_eq_one_iff (word : BitVec 32) (k : Nat) :
    (word >>> k) &&& 1#32 = 1#32 ↔ word.getLsbD k = true := by
  have hbit : ((word >>> k) &&& 1#32).getLsbD 0 = word.getLsbD k := by
    simp only [BitVec.getLsbD_and, BitVec.getLsbD_ushiftRight, BitVec.getLsbD_one, Nat.add_zero,
      decide_true, Bool.and_true, Nat.zero_lt_succ]
  constructor
  · intro h
    rw [← hbit, h]
    rfl
  · intro h
    apply BitVec.eq_of_getLsbD_eq
    intro i hi
    by_cases hzero : i = 0
    · rw [hzero, hbit, h]
      rfl
    · simp only [BitVec.getLsbD_and, BitVec.getLsbD_one, hzero, decide_false, Bool.and_false]

theorem has_eq (words : Words) (n : Nat) :
    words.has n = (words[n / 32]?.any fun word => word.getLsbD (n % 32)) := by
  unfold has
  cases words[n / 32]? with
  | none => rfl
  | some word =>
    apply Bool.eq_iff_iff.mpr
    rw [decide_eq_true_iff, bit_eq_one_iff]
    rfl

@[simp] theorem length_add (words : Words) (n : Nat) : (words.add n).length = words.length :=
  List.length_modify ..

@[simp] theorem has_zeros (count n : Nat) : (zeros count).has n = false := by
  rw [has_eq, zeros, List.getElem?_replicate]
  split
  · simp only [Option.any_some, BitVec.getLsbD_zero]
  · rfl

theorem has_add {words : Words} {n : Nat} (h : n / 32 < words.length) (m : Nat) :
    (words.add n).has m = (words.has m || decide (m = n)) := by
  rw [has_eq, has_eq, add, List.getElem?_modify, Option.map_eq_map]
  by_cases hword : n / 32 = m / 32
  · have hroom : m / 32 < words.length := hword ▸ h
    rw [List.getElem?_eq_getElem hroom]
    simp only [hword, if_true, Option.map_some, Option.any_some, BitVec.getLsbD_or,
      BitVec.getLsbD_shiftLeft, BitVec.getLsbD_one]
    congr 1
    apply Bool.eq_iff_iff.mpr
    simp only [Bool.and_eq_true, decide_eq_true_eq, Bool.not_eq_true', decide_eq_false_iff_not]
    omega
  · have hother : m ≠ n := fun hsame => hword (congrArg (· / 32) hsame.symm)
    simp only [hword, if_false, hother, decide_false, Bool.or_false]
    cases words[m / 32]? with
    | none => rfl
    | some word => rfl

end Words

end EconomyLab.Foundation
