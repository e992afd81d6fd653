import RegisterMachine.Instruction

/-!
# Arithmetic in words

The machine computes from words of 16 bits and cuts its results down to 15. What is left is
what arithmetic says it should be: **a result is the one of the numbers that the words stand
for, modulo 32768** (`BinaryOp.toNat_apply`). Nothing else is cut off on the way there, since
the numbers are computed in 32 bits, and also the product of the two greatest words fits into
these (`BinaryOp.toNat_compute`).
-/

namespace RegisterMachine

namespace BinaryOp

/-- **In 32 bits nothing is lost** of what is computed from two words. -/
theorem toNat_compute (op : BinaryOp) (x y : Word) :
    (op.compute x.toUInt32 y.toUInt32).toNat = op.compute x.toNat y.toNat := by
  have hx : x.toNat ≤ 65535 := Nat.le_of_lt_succ x.toNat_lt
  have hy : y.toNat ≤ 65535 := Nat.le_of_lt_succ y.toNat_lt
  cases op with
  | eq =>
    simp only [compute, UInt16.toUInt32_inj, UInt16.toNat_inj]
    split <;> rfl
  | gt =>
    simp only [compute, UInt16.toUInt32_lt, UInt16.lt_iff_toNat_lt]
    split <;> rfl
  | add =>
    rw [compute, UInt32.toNat_add]
    exact Nat.mod_eq_of_lt (Nat.lt_of_le_of_lt (Nat.add_le_add hx hy) (by decide))
  | mult =>
    rw [compute, UInt32.toNat_mul]
    exact Nat.mod_eq_of_lt (Nat.lt_of_le_of_lt (Nat.mul_le_mul hx hy) (by decide))
  | mod => exact UInt32.toNat_mod _ _
  | and => exact UInt32.toNat_and _ _
  | or => exact UInt32.toNat_or _ _

/-- The mask is all ones, so what it leaves is a remainder. -/
theorem toNat_and_valueMask (n : UInt32) :
    (n &&& Word.valueMask.toUInt32).toNat = n.toNat % 32768 := by
  rw [UInt32.toNat_and]
  exact Nat.and_two_pow_sub_one_eq_mod _ 15

/-- **Reduced to 15 bits, what was computed in 32 is what the numbers give.** -/
theorem toNat_reduce_wide (op : BinaryOp) (x y : Word) :
    (op.wide x y % Word.modulus.toUInt32).toUInt16.toNat = op.compute x.toNat y.toNat % 32768 := by
  have hreduced : (op.wide x y % Word.modulus.toUInt32).toNat
      = op.compute x.toNat y.toNat % 32768 := by
    rw [UInt32.toNat_mod, ← toNat_compute]
    cases op with
    | and | or =>
      rw [wide, toNat_and_valueMask]
      exact Nat.mod_mod _ _
    | _ => rfl
  rw [UInt32.toNat_toUInt16, hreduced]
  exact Nat.mod_eq_of_lt (Nat.lt_trans (Nat.mod_lt _ (by decide)) (by decide))

/-- **A result is what the numbers give, modulo 32768.** -/
theorem toNat_apply {op : BinaryOp} {x y w : Word} (h : op.apply x y = some w) :
    w.toNat = op.compute x.toNat y.toNat % 32768 := by
  cases op with
  | mod =>
    simp only [apply] at h
    split at h
    · cases h
    · cases h
      rw [UInt16.toNat_mod, UInt16.toNat_mod]
      rfl
  | _ =>
    cases h
    exact toNat_reduce_wide ..

/-- So it is no greater than a literal. -/
theorem le_maxLiteral_of_apply {op : BinaryOp} {x y w : Word} (h : op.apply x y = some w) :
    w ≤ Word.maxLiteral := by
  rw [UInt16.le_iff_toNat_le, toNat_apply h]
  exact Nat.le_of_lt_succ (Nat.mod_lt _ (by decide))

/-- A remainder by zero has no result. -/
theorem ne_zero_of_apply_mod {x y w : Word} (h : BinaryOp.mod.apply x y = some w) : y ≠ 0 := by
  rintro rfl
  cases h

end BinaryOp

/-- The complement in 15 bits takes the rest modulo 32768 from the greatest literal. -/
theorem Word.toNat_complement (x : Word) :
    (~~~ x &&& Word.valueMask).toNat = 32767 - x.toNat % 32768 := by
  have hx := x.toNat_lt
  have hmask : (65535 - x.toNat) &&& (2 ^ 15 - 1) = (65535 - x.toNat) % 2 ^ 15 :=
    Nat.and_two_pow_sub_one_eq_mod _ 15
  rw [UInt16.toNat_and, UInt16.toNat_not]
  refine hmask.trans ?_
  omega

end RegisterMachine
