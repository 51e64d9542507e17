import Mathlib

/-!
# Sums of multiples, window by window

A multi-scalar multiplication computes `∑ j, n j • P j` in an additive monoid without forming
any `n j • P j`: it cuts every scalar into windows of `w` bits, sums the points of each window
weighted by their digits, and puts the window sums together by Horner's rule, doubling `w` times
between two windows. The digit-weighted sum of one window is computed either from precomputed
multiples `d • P` or by sorting the points into buckets by digit and summing the buckets with a
running total. This module states the identities these schemes rest on.

* `foldl_horner`: Horner's rule over the windows `m - 1, …, 0`.
* `sum_range_smul_windows`: the windows of the scalars, weighted and put back at their places,
  give the sum of the multiples, for scalars below `b ^ m`.
* `sum_range_smul_update`: adding a point to the bucket of digit `d` adds `d` times the point to
  the digit-weighted sum of the buckets.
* `foldl_running_sum`: summing the buckets from the top into a running total, and the running
  total into the result, adds each bucket to the result as many times as its digit.
-/

namespace MultiScalar

open Finset

variable {M α : Type} [AddCommMonoid M]

/-- Horner's rule: multiplying by `b` and adding the next term, from term `m - 1` down to term
`0`, weighs term `t` by `b ^ t`. -/
theorem foldl_horner (b : Nat) (f : Nat → M) :
    ∀ (m : Nat) (init : M), (List.range m).reverse.foldl (fun acc t => b • acc + f t) init =
      b ^ m • init + ∑ t ∈ range m, b ^ t • f t
  | 0, init => by simp
  | m + 1, init => by
    rw [List.range_succ, List.reverse_append, List.reverse_singleton, List.singleton_append,
      List.foldl_cons, foldl_horner b f m, sum_range_succ, nsmul_add, ← mul_nsmul', ← pow_succ,
      add_assoc, add_comm (b ^ m • f m)]

/-- The `m` low digits of `n` in base `b`, each at its place, make `n % b ^ m`. -/
theorem sum_range_digits (b n : Nat) :
    ∀ m, ∑ t ∈ range m, b ^ t * (n / b ^ t % b) = n % b ^ m
  | 0 => by rw [sum_range_zero, Nat.pow_zero, Nat.mod_one]
  | m + 1 => by rw [sum_range_succ, sum_range_digits b n m, Nat.mod_pow_succ]

/-- The windows of the scalars, each window's digit-weighted sum of the points put back at its
place, give the sum of the multiples, when every scalar is below `b ^ m`. The induction is on
the points; the windows of one scalar add up to it by `sum_range_digits`. -/
theorem sum_range_smul_windows (b m : Nat) (value : α → Nat) (point : α → M) :
    ∀ {xs : List α}, (∀ x ∈ xs, value x < b ^ m) →
      ∑ t ∈ range m, b ^ t • (xs.map fun x => (value x / b ^ t % b) • point x).sum =
        (xs.map fun x => value x • point x).sum
  | [], _ => by simp
  | x :: xs, small => by
    have rest := sum_range_smul_windows b m value point fun y mem =>
      small y (List.mem_cons_of_mem x mem)
    have first : ∑ t ∈ range m, b ^ t • (value x / b ^ t % b) • point x = value x • point x := by
      have digits := sum_range_digits b (value x) m
      rw [Nat.mod_eq_of_lt (small x List.mem_cons_self)] at digits
      simp only [← mul_nsmul']
      rw [← sum_smul, digits]
    simp only [List.map_cons, List.sum_cons, nsmul_add, sum_add_distrib]
    rw [first, rest]

/-- Adding `P` to bucket `d` of `m` adds `d • P` to the digit-weighted sum of the buckets. -/
theorem sum_range_smul_update (bucket : Nat → M) {d m : Nat} (inside : d < m) (P : M) :
    ∑ i ∈ range m, i • Function.update bucket d (bucket d + P) i =
      ∑ i ∈ range m, i • bucket i + d • P := by
  have split : ∀ i, i • Function.update bucket d (bucket d + P) i =
      i • bucket i + if d = i then d • P else 0 := by
    intro i
    by_cases here : i = d
    · rw [here, Function.update_self, nsmul_add, if_pos rfl]
    · rw [Function.update_of_ne here, if_neg (Ne.symm here), add_zero]
  rw [sum_congr rfl fun i _ => split i, sum_add_distrib, sum_ite_eq, if_pos (mem_range.mpr inside)]

/-- Summing buckets `n, …, 1` into a running total `pail`, and the running total into `result`
after each bucket, adds every bucket to `pail` once and to `result` as many times as its
number, besides `n` times the starting `pail`. The induction takes the top bucket first. -/
theorem foldl_running_sum (bucket : Nat → M) :
    ∀ (n : Nat) (pail result : M),
      (List.range' 1 n).reverse.foldl
          (fun (state : M × M) i => (state.1 + bucket i, state.2 + (state.1 + bucket i)))
          (pail, result) =
        (pail + ∑ i ∈ range n, bucket (i + 1),
          result + n • pail + ∑ i ∈ range n, (i + 1) • bucket (i + 1))
  | 0, pail, result => by simp
  | n + 1, pail, result => by
    rw [List.range'_concat, Nat.one_mul, Nat.add_comm 1 n, List.reverse_append,
      List.reverse_singleton, List.singleton_append, List.foldl_cons, foldl_running_sum bucket n,
      sum_range_succ, sum_range_succ, succ_nsmul, succ_nsmul, nsmul_add]
    dsimp only
    rw [Prod.mk.injEq]
    constructor
    · abel
    · abel

end MultiScalar
