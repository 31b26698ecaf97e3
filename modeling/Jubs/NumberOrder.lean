/-
**The order of numbers, and the numbers that are doubles.**

JavaScript compares two finite numbers as rationals, puts the infinities on either side, and answers
`false` for every comparison with `NaN`.  What it computes is rounded to a double, and a double
stays as it is.

Main results:

* `Jubs.Number.lt_natCast`, `Jubs.Number.le_natCast` — whole numbers compare as natural numbers;
* `Jubs.Number.le_trans`, `Jubs.Number.lt_of_le_of_ne` — `<=` is transitive, and strict between
  different numbers;
* `Jubs.Number.le_of_not_le` — two numbers that are not `NaN` are comparable;
* `Jubs.Number.double_double`, `Jubs.Number.double_next` — **what was rounded is a double**;
* `Jubs.Number.next_natCast` — whole numbers count up one by one, as far as doubles tell them apart.
-/

import Jubs.Number
import Mathlib.Algebra.Order.Ring.Rat
import Mathlib.Tactic.FieldSimp
import Mathlib.Tactic.Positivity

set_option autoImplicit false

namespace Decimal

@[simp] theorem toRat_ofInt (n : ℤ) : (ofInt n).toRat = n := by simp [toRat, ofInt]

@[simp] theorem toRat_natCast (n : ℕ) : (n : Decimal).toRat = n := toRat_ofInt n

theorem toRat_reduce (m : ℤ) (s : ℕ) : (reduce m s).toRat = m / 10 ^ s := by
  induction s generalizing m with
  | zero => simp [reduce]
  | succ s ih =>
      rw [reduce]
      split_ifs with h
      · obtain ⟨k, rfl⟩ := Int.dvd_of_emod_eq_zero h
        rw [Int.mul_ediv_cancel_left k (by norm_num), ih, pow_succ']
        push_cast
        rw [mul_div_mul_left _ _ (by norm_num)]
      · rfl

/-- Of two decimals in lowest terms that denote one rational, neither has more digits after its
point. -/
theorem scale_le_of_toRat_eq {a b : Decimal} (h : a.toRat = b.toRat) : a.scale ≤ b.scale := by
  by_contra hlt
  have hlt : b.scale < a.scale := not_le.1 hlt
  have hpos : ∀ e : ℕ, (10 : ℚ) ^ e ≠ 0 := fun e => pow_ne_zero e (by norm_num)
  have hcross : (a.mantissa : ℚ) = b.mantissa * 10 ^ (a.scale - b.scale) := by
    rw [toRat, toRat, div_eq_div_iff (hpos _) (hpos _)] at h
    have hsplit : (10 : ℚ) ^ a.scale = 10 ^ (a.scale - b.scale) * 10 ^ b.scale := by
      rw [← pow_add, Nat.sub_add_cancel hlt.le]
    rw [hsplit, ← mul_assoc] at h
    exact mul_right_cancel₀ (hpos _) h
  have hmantissa : a.mantissa = b.mantissa * 10 ^ (a.scale - b.scale) := by exact_mod_cast hcross
  -- a digit after the point that is a zero would not be in lowest terms
  have hdvd : (10 : ℤ) ∣ a.mantissa := by
    rw [hmantissa]
    exact (dvd_pow_self 10 (by omega)).mul_left _
  exact (a.lowest.resolve_left (by omega)) (Int.emod_eq_zero_of_dvd hdvd)

/-- Two decimals that denote one rational are one decimal. -/
theorem toRat_injective : Function.Injective toRat := by
  intro a b h
  have hscale : a.scale = b.scale :=
    le_antisymm (scale_le_of_toRat_eq h) (scale_le_of_toRat_eq h.symm)
  have hpos : (10 : ℚ) ^ b.scale ≠ 0 := pow_ne_zero _ (by norm_num)
  have hmantissa : a.mantissa = b.mantissa := by
    rw [toRat, toRat, hscale, div_left_inj' hpos] at h
    exact_mod_cast h
  obtain ⟨m, e, hlowest⟩ := a
  obtain rfl : m = b.mantissa := hmantissa
  obtain rfl : e = b.scale := hscale
  rfl

/-- **A decimal is whole** exactly when it is its own floor. -/
theorem isInt_iff_le_floor {d : Decimal} : d.isInt = true ↔ d.toRat ≤ ⌊d.toRat⌋ := by
  constructor
  · intro h
    have hscale : d.scale = 0 := of_decide_eq_true h
    have hwhole : d.toRat = (d.mantissa : ℚ) := by rw [toRat, hscale, pow_zero, div_one]
    rw [hwhole, Int.floor_intCast]
  · intro h
    have hwhole : d.toRat = (ofInt ⌊d.toRat⌋).toRat := by
      rw [toRat_ofInt]
      exact h.antisymm (Int.floor_le _)
    rw [toRat_injective hwhole]
    rfl

end Decimal

namespace Jubs.Number

theorem lt_natCast (m n : ℕ) :
    lt (.finite (m : Decimal)) (.finite (n : Decimal)) = decide (m < n) := by
  simp [lt]

theorem le_natCast (m n : ℕ) :
    le (.finite (m : Decimal)) (.finite (n : Decimal)) = decide (m ≤ n) := by
  simp [le]

theorem lt_irrefl (n : Number) : n.lt n = false := by
  cases n with
  | finite d => simp [lt]
  | nan => rfl
  | infinity negative => cases negative <;> rfl

theorem le_of_lt {a b : Number} (h : a.lt b = true) : a.le b = true := by
  cases a with
  | finite a =>
      cases b with
      | finite b => exact decide_eq_true (of_decide_eq_true h).le
      | nan => cases h
      | infinity negative => exact h
  | nan => cases h
  | infinity negative =>
      cases b with
      | finite b => exact h
      | nan => cases h
      | infinity negative' => cases negative <;> cases negative' <;> simp_all [lt, le]

theorem le_trans {a b c : Number} (h : a.le b = true) (h' : b.le c = true) : a.le c = true := by
  cases a with
  | nan => simp [le] at h
  | finite a =>
      cases b with
      | nan => simp [le] at h
      | finite b =>
          cases c with
          | nan => simp [le] at h'
          | finite c =>
              exact decide_eq_true ((of_decide_eq_true h : a.toRat ≤ b.toRat).trans
                (of_decide_eq_true h'))
          | infinity negative => exact h'
      | infinity negative =>
          cases c with
          | nan => simp [le] at h'
          | finite c => simp_all [le]
          | infinity negative' => simp_all [le]
  | infinity negative =>
      cases b with
      | nan => simp [le] at h
      | finite b => cases c <;> simp_all [le]
      | infinity negative' => cases c <;> cases negative <;> simp_all [le]

/-- A number that is compared at all and is not below a whole number is at least that number. -/
theorem le_of_not_lt {a b : Number} {d : Decimal} (hlt : a.lt b = true)
    (h : ¬a.lt (.finite d) = true) : Number.le (.finite d) a = true := by
  cases a with
  | finite a => exact decide_eq_true (not_lt.1 fun hlt => h (decide_eq_true hlt))
  | nan => cases hlt
  | infinity negative => simp_all [lt, le]

/-- `<=` between different numbers is `<`. -/
theorem lt_of_le_of_ne {a b : Number} (h : a.le b = true) (hne : a ≠ b) : a.lt b = true := by
  cases a with
  | finite a =>
      cases b with
      | finite b =>
          have hle : a.toRat ≤ b.toRat := of_decide_eq_true h
          have hrat : a.toRat ≠ b.toRat := fun heq =>
            hne (congrArg finite (Decimal.toRat_injective heq))
          exact decide_eq_true (hle.lt_of_ne hrat)
      | nan => cases h
      | infinity negative => exact h
  | nan => cases h
  | infinity negative =>
      cases b with
      | finite b => exact h
      | nan => cases h
      | infinity negative' => cases negative <;> cases negative' <;> simp_all [lt, le]

theorem le_refl {n : Number} (h : n ≠ .nan) : n.le n = true := by
  cases n with
  | finite d => simp [le]
  | nan => exact absurd rfl h
  | infinity negative => cases negative <;> rfl

/-- Of two numbers that are not `NaN`, the one not below the other is at most it. -/
theorem le_of_not_le {a b : Number} (ha : a ≠ .nan) (hb : b ≠ .nan) (h : ¬a.le b = true) :
    b.le a = true := by
  cases a with
  | nan => exact absurd rfl ha
  | finite a =>
      cases b with
      | nan => exact absurd rfl hb
      | finite b => exact decide_eq_true (not_le.1 fun hle => h (decide_eq_true hle)).le
      | infinity negative => simp_all [le]
  | infinity negative =>
      cases b with
      | nan => exact absurd rfl hb
      | finite b => simp_all [le]
      | infinity negative' => simp_all [le]

/-! ### Doubles -/

theorem scaled_eq (m e : ℤ) : ∃ d : Decimal, scaled m e = .finite d ∧ d.toRat = m * 10 ^ e := by
  refine ⟨_, rfl, ?_⟩
  unfold Decimal.shift
  split_ifs with he
  · obtain ⟨k, rfl⟩ := Int.eq_ofNat_of_zero_le he
    simp
  · obtain ⟨k, hk⟩ := Int.eq_ofNat_of_zero_le (by omega : 0 ≤ -e)
    obtain rfl : e = -(k : ℤ) := by omega
    simp [Decimal.toRat_reduce, div_eq_mul_inv]

/-- The shortest text of a double is read as that double. -/
theorem round_of_shortest {x : ℚ} {c e : ℤ} (h : Binary64.shortest x = some (c, e)) :
    Binary64.round (c * 10 ^ e) = x := by
  have hfrom : ∀ fuel k, Binary64.shortestFrom x fuel k = some (c, e) →
      Binary64.round (c * 10 ^ e) = x := by
    intro fuel
    induction fuel with
    | zero => intro k h; cases h
    | succ fuel ih =>
        intro k h
        rw [Binary64.shortestFrom, Option.or_eq_some_iff] at h
        rcases h with h | ⟨-, h⟩
        · exact (Binary64.round_of_nearest h).2.1
        · exact ih (k + 1) h
  exact hfrom 17 1 h

/-- What a double is written as is that double. -/
theorem double_ofDouble (y : ℚ) : (ofDouble (.ofRat y)).double = ofDouble (.ofRat y) := by
  unfold Binary64.Double.ofRat
  split_ifs with hlimit
  · have hround := Binary64.round_round y
    generalize Binary64.round y = x at hlimit hround
    by_cases hzero : x = 0
    · have hself : Binary64.Double.ofRat ((0 : ℕ) : ℚ) = .finite (0 : ℕ) :=
        Binary64.Double.exact_natCast (Nat.zero_le _)
      rw [ofDouble, if_pos hzero]
      change ofDouble (.ofRat ((0 : ℕ) : Decimal).toRat) = 0
      rw [Decimal.toRat_natCast, hself, ofDouble, if_pos Nat.cast_zero]
    · rw [ofDouble, if_neg hzero]
      cases hshortest : Binary64.shortest |x| with
      | none => rfl
      | some found =>
          obtain ⟨c, e⟩ := found
          obtain ⟨d, hd, hrat⟩ := scaled_eq (if x < 0 then -c else c) e
          have habs := round_of_shortest hshortest
          have hself : Binary64.round d.toRat = x := by
            rw [hrat]
            split_ifs with hneg
            · push_cast
              rw [neg_mul, Binary64.round_neg, habs, abs_of_neg hneg, neg_neg]
            · rw [habs, abs_of_nonneg (not_lt.1 hneg)]
          simp only [hd]
          rw [double, Binary64.Double.ofRat, hself, if_pos hlimit, ofDouble, if_neg hzero,
            hshortest]
          exact hd
  · rfl

/-- **What was rounded is a double.** -/
theorem double_double (n : Number) : n.double.double = n.double := by
  cases n with
  | finite d => exact double_ofDouble d.toRat
  | nan => rfl
  | infinity negative => rfl

/-- **What was counted up is a double.** -/
theorem double_next (n : Number) : n.next.double = n.next := by
  cases n with
  | nan => rfl
  | infinity negative => rfl
  | finite d =>
      rw [next]
      unfold Binary64.Double.ofRat
      split_ifs
      · exact double_ofDouble _
      · rfl

/-- A whole number that is a double is written as itself, as far as doubles tell them apart. -/
theorem ofDouble_natCast {n : ℕ} (h : n < 2 ^ 53) : ofDouble (.finite n) = .finite (n : ℕ) := by
  rcases Nat.eq_zero_or_pos n with rfl | hpos
  · rw [Nat.cast_zero, ofDouble, if_pos rfl]
    rfl
  · obtain ⟨c, e, hshortest, hce⟩ := Binary64.shortest_natCast hpos h
    have hpos : (0 : ℚ) < n := by positivity
    rw [ofDouble, if_neg hpos.ne', abs_of_pos hpos, hshortest]
    simp only [not_lt.2 hpos.le, if_false, scaled, Decimal.shift, Int.natCast_nonneg, if_true,
      Int.toNat_natCast]
    rw [← hce]
    rfl

theorem double_natCast {n : ℕ} (h : n < 2 ^ 53) :
    (Number.finite (n : ℕ)).double = .finite (n : ℕ) := by
  have hself : Binary64.Double.ofRat (n : ℚ) = .finite n := Binary64.Double.exact_natCast h.le
  rw [double, Decimal.toRat_natCast, hself, ofDouble_natCast h]

/-- Whole numbers count up one by one, as far as doubles tell them apart. -/
theorem next_natCast {n : ℕ} (h : n + 1 < 2 ^ 53) :
    (Number.finite (n : ℕ)).next = .finite ((n + 1 : ℕ) : Decimal) := by
  have hself : Binary64.Double.ofRat (n : ℚ) = .finite n :=
    Binary64.Double.exact_natCast (by omega)
  have hsum : Binary64.Double.ofRat ((n + 1 : ℕ) : ℚ) = .finite ((n + 1 : ℕ) : ℚ) :=
    Binary64.Double.exact_natCast h.le
  rw [next, Decimal.toRat_natCast, hself, Binary64.Double.add, ← ofDouble_natCast h, ← hsum]
  push_cast
  rfl

end Jubs.Number
