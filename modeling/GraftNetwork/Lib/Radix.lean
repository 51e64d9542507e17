import Mathlib.Algebra.BigOperators.Group.List.Basic
import Mathlib.Data.Nat.Digits.Defs

/-!
# Positional notation

Digit `k` of a natural number `n` in base `b` is `n / b ^ k % b`, and the `k` low digits of `n`
make `n % b ^ k`. Code that takes a number apart digit by digit, or builds one from its digits,
keeps a running value of the digits read so far; this module says how those running values
relate to the number.

* `mod_pow_le_mod_pow`, `mod_pow_succ_lt`: the value of the low digits grows with their count,
  by less than the next power of the base each time.
* `digit_mul_pow_le`, `digit_mul_pow_lt_pow`: one digit at its place is within the low digits up
  to it, and below the next power.
* `mod_pow_add_sum_digits`: the low digits and the digits above them, each at its place, add up to
  the low digits of the larger count.
* `digit_eq_zero_of_lt`: the digits above a number's length are zero.
* `fixedDigits`: the `w` low digits of a number, lowest first, as a writer of fixed width puts
  them down; `ofDigits_fixedDigits` and `fixedDigits_ofDigits` are its round trips through
  Mathlib's `Nat.ofDigits`. `fixedDigits_add` splits them at a place, and `flatMap_fixedDigits`
  turns digits in base `b ^ k` into digits in base `b`.
-/

namespace Radix

variable {b n k m : Nat}

/-- The low digits of a number, fewer of them first. -/
theorem mod_pow_le_mod_pow (h : k ≤ m) : n % b ^ k ≤ n % b ^ m :=
  calc n % b ^ k = n % b ^ m % b ^ k := (Nat.mod_mod_of_dvd n (Nat.pow_dvd_pow b h)).symm
    _ ≤ n % b ^ m := Nat.mod_le _ _

theorem div_pow_div (b n k : Nat) : n / b ^ k / b = n / b ^ (k + 1) := by
  rw [Nat.div_div_eq_div_mul, Nat.pow_succ]

/-- Digit `k` at its place is part of the `k + 1` low digits. -/
theorem digit_mul_pow_le (b n k : Nat) : n / b ^ k % b * b ^ k ≤ n % b ^ (k + 1) := by
  rw [Nat.mod_pow_succ, Nat.mul_comm]
  exact Nat.le_add_left _ _

theorem digit_mul_pow_lt_pow (hb : 0 < b) : n / b ^ k % b * b ^ k < b ^ (k + 1) := by
  rw [Nat.pow_succ, Nat.mul_comm (b ^ k) b]
  exact Nat.mul_lt_mul_of_pos_right (Nat.mod_lt _ hb) (Nat.pow_pos hb)

/-- One more digit adds less than the next power of the base. -/
theorem mod_pow_succ_lt (hb : 0 < b) : n % b ^ (k + 1) < n % b ^ k + b ^ (k + 1) := by
  have digit := digit_mul_pow_lt_pow (n := n) (k := k) hb
  rw [Nat.mod_pow_succ, Nat.mul_comm (b ^ k)]
  omega

theorem digit_eq_zero_of_lt (hb : 0 < b) (h : n < b ^ k) {i : Nat} (hi : k ≤ i) :
    n / b ^ i % b = 0 := by
  rw [Nat.div_eq_of_lt (Nat.lt_of_lt_of_le h (Nat.pow_le_pow_right hb hi)), Nat.zero_mod]

/-- The low `k` digits and digits `k` to `k + m - 1`, each at its place, make the low `k + m`
digits. -/
theorem mod_pow_add_sum_digits (b n : Nat) :
    ∀ k m, n % b ^ k + ((List.range' k m).map fun i => n / b ^ i % b * b ^ i).sum =
      n % b ^ (k + m)
  | k, 0 => by simp
  | k, m + 1 => by
    have next := mod_pow_add_sum_digits b n (k + 1) m
    rw [List.range'_succ, List.map_cons, List.sum_cons, ← Nat.add_assoc,
      Nat.mul_comm (n / b ^ k % b), ← Nat.mod_pow_succ, next, Nat.add_right_comm, Nat.add_assoc]

/-! ## Fixed width -/

/-- The `w` low digits of `n` in base `b`, the lowest first, with zeros above the number's own
digits. -/
def fixedDigits (b : Nat) : (w n : Nat) → List Nat
  | 0, _ => []
  | w + 1, n => n % b :: fixedDigits b w (n / b)

theorem length_fixedDigits (b : Nat) : ∀ w n, (fixedDigits b w n).length = w
  | 0, _ => rfl
  | w + 1, n => by rw [fixedDigits, List.length_cons, length_fixedDigits b w (n / b)]

theorem fixedDigits_zero (b : Nat) : ∀ w, fixedDigits b w 0 = List.replicate w 0
  | 0 => rfl
  | w + 1 => by rw [fixedDigits, Nat.zero_mod, Nat.zero_div, fixedDigits_zero b w, List.replicate_succ]

theorem fixedDigits_lt (hb : 0 < b) : ∀ w n, ∀ d ∈ fixedDigits b w n, d < b
  | 0, _, _, mem => absurd mem List.not_mem_nil
  | w + 1, n, d, mem => by
    rcases List.mem_cons.mp mem with rfl | rest
    · exact Nat.mod_lt _ hb
    · exact fixedDigits_lt hb w (n / b) d rest

theorem ofDigits_fixedDigits (b : Nat) : ∀ w n, Nat.ofDigits b (fixedDigits b w n) = n % b ^ w
  | 0, n => by rw [fixedDigits, Nat.ofDigits_nil, Nat.pow_zero, Nat.mod_one]
  | w + 1, n => by
    rw [fixedDigits, Nat.ofDigits_cons, ofDigits_fixedDigits b w (n / b), Nat.pow_succ',
      Nat.mod_mul]

/-- Digits below the base, as many as the width, are the fixed-width digits of their value. -/
theorem fixedDigits_ofDigits : ∀ {ds : List Nat}, (∀ d ∈ ds, d < b) →
    fixedDigits b ds.length (Nat.ofDigits b ds) = ds
  | [], _ => rfl
  | d :: ds, below => by
    have digit := below d List.mem_cons_self
    have pos : 0 < b := Nat.lt_of_le_of_lt (Nat.zero_le d) digit
    rw [List.length_cons, fixedDigits, Nat.ofDigits_cons, Nat.add_mul_mod_self_left,
      Nat.mod_eq_of_lt digit, Nat.add_mul_div_left _ _ pos, Nat.div_eq_of_lt digit, Nat.zero_add,
      fixedDigits_ofDigits fun e mem => below e (List.mem_cons_of_mem d mem)]

/-- Digit `i` of the fixed-width digits is `n / b ^ i % b`. -/
theorem fixedDigits_eq_map_range (b : Nat) :
    ∀ w n, fixedDigits b w n = (List.range w).map fun i => n / b ^ i % b
  | 0, _ => rfl
  | w + 1, n => by
    rw [fixedDigits, fixedDigits_eq_map_range b w (n / b), List.range_succ_eq_map, List.map_cons,
      List.map_map, Nat.pow_zero, Nat.div_one]
    congr 1
    refine List.map_congr_left fun i _ => ?_
    rw [Function.comp_apply, Nat.div_div_eq_div_mul, ← Nat.pow_succ']

/-- `k + m` digits are the `k` low digits, then `m` digits of what is above them. -/
theorem fixedDigits_add (b : Nat) :
    ∀ k m n, fixedDigits b (k + m) n = fixedDigits b k n ++ fixedDigits b m (n / b ^ k)
  | 0, m, n => by rw [Nat.zero_add, fixedDigits, List.nil_append, Nat.pow_zero, Nat.div_one]
  | k + 1, m, n => by
    rw [Nat.add_right_comm, fixedDigits, fixedDigits, fixedDigits_add b k m (n / b),
      List.cons_append, Nat.div_div_eq_div_mul, ← Nat.pow_succ']

/-- The `k` low digits do not see what is above `b ^ k`. -/
theorem fixedDigits_mod_pow (b : Nat) : ∀ k n, fixedDigits b k (n % b ^ k) = fixedDigits b k n
  | 0, _ => rfl
  | k + 1, n => by
    rw [fixedDigits, fixedDigits, Nat.pow_succ', Nat.mod_mul_right_div_self,
      fixedDigits_mod_pow b k (n / b), Nat.mod_mul_right_mod]

theorem take_fixedDigits (b : Nat) {k w : Nat} (n : Nat) (h : k ≤ w) :
    (fixedDigits b w n).take k = fixedDigits b k n := by
  obtain ⟨m, rfl⟩ := Nat.exists_eq_add_of_le h
  rw [fixedDigits_add, List.take_append_of_le_length (by rw [length_fixedDigits]),
    List.take_of_length_le (by rw [length_fixedDigits])]

/-- Each digit in base `b ^ k`, written as `k` digits in base `b`, gives the digits in base
`b`: the bits of the bytes are the bits of the number. -/
theorem flatMap_fixedDigits (b k : Nat) :
    ∀ w n, (fixedDigits (b ^ k) w n).flatMap (fixedDigits b k) = fixedDigits b (w * k) n
  | 0, n => by rw [fixedDigits, List.flatMap_nil, Nat.zero_mul, fixedDigits]
  | w + 1, n => by
    rw [fixedDigits, List.flatMap_cons, flatMap_fixedDigits b k w (n / b ^ k), fixedDigits_mod_pow,
      Nat.succ_mul, Nat.add_comm (w * k) k, fixedDigits_add]

/-- Reading `j + 1` digits from the top puts digit `j` above the `j` below it. -/
theorem ofDigits_map_range_succ (b : Nat) (digit : Nat → Nat) (j : Nat) :
    Nat.ofDigits b ((List.range (j + 1)).map digit) =
      Nat.ofDigits b ((List.range j).map digit) + b ^ j * digit j := by
  rw [List.range_succ, List.map_append, Nat.ofDigits_append, List.length_map, List.length_range,
    List.map_singleton, Nat.ofDigits_singleton]

end Radix
