/-
**Doubles, their grid and their shortest text.**

The result of an operation on doubles is the exact result, rounded to the nearest point of a grid
whose step grows with the number, and of two nearest points to the one with the even digit.  A
double is written with as few digits as tell it from its neighbours.

Main definitions:

* `Binary64.step`, `Binary64.round` — the step of the grid around a number, and rounding to it;
* `Binary64.nearest`, `Binary64.shortest` — the decimal of a given number of digits that stands for
  a double, and the shortest one;
* `Binary64.Double`, `Binary64.Double.add`, `Binary64.Double.mul` — doubles with their infinities,
  their sum and their product;
* `Binary64.Double.Exact` — a number that is a double.

Main results:

* `Binary64.round_round` — a number that was rounded is on the grid;
* `Binary64.round_natCast` — a whole number up to `2 ^ 53` is on the grid;
* `Binary64.le_round` — a number of `2 ^ 53` or more is rounded to one;
* `Binary64.shortest_natCast` — **the shortest text of a whole number below `2 ^ 53` is its own**;
* `Binary64.Double.mul_eq_finite_iff` — a product of whole numbers is computed as it is exactly when
  it is a double.
-/

import Mathlib.Algebra.Order.Ring.Rat
import Mathlib.Data.Int.Log
import Mathlib.Data.Nat.Factorization.Basic
import Mathlib.Data.Rat.Floor
import Mathlib.RingTheory.Coprime.Lemmas
import Mathlib.Tactic.Linarith
import Mathlib.Tactic.Positivity

set_option autoImplicit false

namespace Binary64

/-- The exponent of the step of the grid around a number: 53 binary digits are kept, and no step is
finer than that of the smallest doubles. -/
def step (x : ℚ) : ℤ := max (Int.log 2 |x| - 52) (-1074)

/-- The nearest integer, and the even one of two. -/
def roundHalfEven (q : ℚ) : ℤ :=
  if q - ⌊q⌋ < 1 / 2 then ⌊q⌋
  else if 1 / 2 < q - ⌊q⌋ then ⌊q⌋ + 1
  else if ⌊q⌋ % 2 = 0 then ⌊q⌋ else ⌊q⌋ + 1

/-- The double nearest to a number. -/
def round (x : ℚ) : ℚ := roundHalfEven (x / 2 ^ step x) * 2 ^ step x

/-- The exponent of the last of `k` decimal digits of a number. -/
def unit (k : ℕ) (x : ℚ) : ℤ := Int.log 10 |x| + 1 - k

/-- The decimal `c * 10 ^ e` of `k` digits that is nearest to a positive double among those that are
read as it, when there is one. -/
def nearest (k : ℕ) (x : ℚ) : Option (ℤ × ℤ) :=
  let e := unit k x
  let low := ⌊x / 10 ^ e⌋
  let reads := fun c : ℤ => round (c * 10 ^ e) = x
  if reads low ∧ (¬ reads (low + 1) ∨ x / 10 ^ e - low < 1 / 2 ∨
      (x / 10 ^ e - low = 1 / 2 ∧ low % 2 = 0)) then some (low, e)
  else if reads (low + 1) then some (low + 1, e) else none

/-- The first decimal found that is read as a positive double, of `k` digits or more. -/
def shortestFrom (x : ℚ) : ℕ → ℕ → Option (ℤ × ℤ)
  | 0, _ => none
  | fuel + 1, k => (nearest k x).or (shortestFrom x fuel (k + 1))

/-- The shortest decimal that is read as a positive double.  Seventeen digits always suffice. -/
def shortest (x : ℚ) : Option (ℤ × ℤ) := shortestFrom x 17 1

/-! ### Rounding -/

theorem roundHalfEven_intCast (n : ℤ) : roundHalfEven n = n := by
  simp [roundHalfEven]

theorem floor_le_roundHalfEven (q : ℚ) : ⌊q⌋ ≤ roundHalfEven q := by
  unfold roundHalfEven
  split_ifs <;> omega

theorem roundHalfEven_le (q : ℚ) : roundHalfEven q ≤ ⌊q⌋ + 1 := by
  unfold roundHalfEven
  split_ifs <;> omega

/-- A multiple of the step of its own grid is not moved. -/
theorem round_eq_self {x : ℚ} {n : ℤ} (h : x = n * 2 ^ step x) : round x = x := by
  have hpos : (2 : ℚ) ^ step x ≠ 0 := zpow_ne_zero _ (by norm_num)
  have hquot : x / 2 ^ step x = n := by
    rw [div_eq_iff hpos]
    exact h
  rw [round, hquot, roundHalfEven_intCast]
  exact h.symm

/-- Below 53 binary digits, the grid around a number is at least as fine as the number needs. -/
theorem round_eq_self_of_lt {c e : ℤ} (he : -1074 ≤ e) (hc : |c| < 2 ^ 53) :
    round ((c : ℚ) * 2 ^ e) = c * 2 ^ e := by
  rcases eq_or_ne c 0 with rfl | hne
  · simp [round, roundHalfEven]
  have hpos : (0 : ℚ) < |(c : ℚ) * 2 ^ e| :=
    abs_pos.2 (mul_ne_zero (by exact_mod_cast hne) (zpow_ne_zero _ (by norm_num)))
  have hstep : step ((c : ℚ) * 2 ^ e) ≤ e := by
    have hlt : |(c : ℚ) * 2 ^ e| < 2 ^ (e + 53) := by
      rw [abs_mul, abs_of_pos (zpow_pos (by norm_num : (0 : ℚ) < 2) e), add_comm,
        zpow_add₀ (by norm_num : (2 : ℚ) ≠ 0)]
      refine mul_lt_mul_of_pos_right ?_ (zpow_pos (by norm_num) e)
      exact_mod_cast hc
    have hlog : Int.log 2 |(c : ℚ) * 2 ^ e| < e + 53 :=
      (Int.lt_zpow_iff_log_lt (by norm_num) hpos).1 (by exact_mod_cast hlt)
    exact max_le (by omega) he
  obtain ⟨k, hk⟩ := Int.eq_ofNat_of_zero_le (sub_nonneg.2 hstep)
  refine @round_eq_self _ (c * 2 ^ k) ?_
  have he' : e = k + step ((c : ℚ) * 2 ^ e) := by omega
  push_cast
  rw [mul_assoc, ← zpow_natCast, ← zpow_add₀ (by norm_num : (2 : ℚ) ≠ 0), ← he']

/-- A number of at most 53 binary digits is on the grid. -/
theorem round_eq_self_of_le {c e : ℤ} (he : -1074 ≤ e) (hc : |c| ≤ 2 ^ 53) :
    round ((c : ℚ) * 2 ^ e) = c * 2 ^ e := by
  rcases lt_or_eq_of_le hc with hlt | heq
  · exact round_eq_self_of_lt he hlt
  · -- it is half as many steps of twice the size
    obtain ⟨d, rfl, hd⟩ : ∃ d : ℤ, c = d * 2 ∧ |d| < 2 ^ 53 := by
      rcases abs_choice c with h | h
      · exact ⟨2 ^ 52, by omega, by norm_num⟩
      · exact ⟨-2 ^ 52, by omega, by norm_num⟩
    have hdouble : ((d * 2 : ℤ) : ℚ) * 2 ^ e = d * 2 ^ (e + 1) := by
      rw [zpow_add₀ (by norm_num : (2 : ℚ) ≠ 0), zpow_one]
      push_cast
      ring
    rw [hdouble]
    exact round_eq_self_of_lt (by omega) hd

/-- What a number is rounded to has at most 53 binary digits. -/
theorem exists_round (x : ℚ) : ∃ c : ℤ, |c| ≤ 2 ^ 53 ∧ round x = c * 2 ^ step x := by
  refine ⟨roundHalfEven (x / 2 ^ step x), ?_, rfl⟩
  have hunit : (0 : ℚ) < 2 ^ step x := zpow_pos (by norm_num) _
  have hquot : |x / 2 ^ step x| < 2 ^ 53 := by
    rcases eq_or_ne x 0 with rfl | hne
    · simp
    · rw [abs_div, abs_of_pos hunit, div_lt_iff₀ hunit, ← zpow_natCast,
        ← zpow_add₀ (by norm_num : (2 : ℚ) ≠ 0)]
      refine (Int.lt_zpow_iff_log_lt (by norm_num) (abs_pos.2 hne)).2 ?_
      rw [step]
      push_cast
      omega
  obtain ⟨hlow, hhigh⟩ := abs_lt.1 hquot
  have hfloor : -2 ^ 53 ≤ ⌊x / 2 ^ step x⌋ := Int.le_floor.2 (by exact_mod_cast hlow.le)
  have hceil : ⌊x / 2 ^ step x⌋ < 2 ^ 53 := Int.floor_lt.2 (by exact_mod_cast hhigh)
  have := floor_le_roundHalfEven (x / 2 ^ step x)
  have := roundHalfEven_le (x / 2 ^ step x)
  exact abs_le.2 ⟨by omega, by omega⟩

/-- **A number that was rounded is on the grid.** -/
theorem round_round (x : ℚ) : round (round x) = round x := by
  obtain ⟨c, hc, heq⟩ := exists_round x
  rw [heq]
  exact round_eq_self_of_le (le_max_right _ _) hc

theorem roundHalfEven_neg (q : ℚ) : roundHalfEven (-q) = -roundHalfEven q := by
  rcases eq_or_ne q ⌊q⌋ with hq | hq
  · rw [hq, ← Int.cast_neg, roundHalfEven_intCast, roundHalfEven_intCast]
  · -- the distances to the two neighbours change places
    have hlt : (⌊q⌋ : ℚ) < q := lt_of_le_of_ne (Int.floor_le q) (Ne.symm hq)
    have hfloor : ⌊-q⌋ = -⌊q⌋ - 1 := by
      rw [Int.floor_eq_iff]
      push_cast
      have := Int.lt_floor_add_one q
      constructor <;> linarith
    unfold roundHalfEven
    rw [hfloor]
    push_cast
    split_ifs <;> first | omega | (exfalso; linarith)

/-- Rounding does not look at the sign. -/
theorem round_neg (x : ℚ) : round (-x) = -round x := by
  rw [round, round, step, step, abs_neg, neg_div, roundHalfEven_neg]
  push_cast
  ring

/-! ### Whole numbers -/

/-- **A whole number up to `2 ^ 53` is on the grid.** -/
theorem round_natCast {n : ℕ} (h : n ≤ 2 ^ 53) : round n = n := by
  rcases Nat.eq_zero_or_pos n with rfl | hpos
  · simp [round, roundHalfEven]
  rcases Nat.lt_or_eq_of_le h with hlt | rfl
  · have hlog : Nat.log 2 n < 53 := Nat.log_lt_of_lt_pow (by omega) hlt
    have hstep : step n = (Nat.log 2 n : ℤ) - 52 := by
      rw [step, abs_of_nonneg (by positivity), Int.log_natCast]
      omega
    obtain ⟨s, hs⟩ : ∃ s : ℕ, step n = -s := ⟨52 - Nat.log 2 n, by rw [hstep]; omega⟩
    refine @round_eq_self _ (n * 2 ^ s : ℤ) ?_
    rw [hs, zpow_neg, zpow_natCast]
    push_cast
    rw [mul_assoc, mul_inv_cancel₀ (by positivity), mul_one]
  · refine @round_eq_self _ (2 ^ 52 : ℤ) ?_
    have hstep : step ((2 ^ 53 : ℕ) : ℚ) = 1 := by
      rw [step, abs_of_nonneg (by positivity), Int.log_natCast, Nat.log_pow (by norm_num)]
      norm_num
    rw [hstep]
    norm_num

/-- **A number of `2 ^ 53` or more is rounded to one.** -/
theorem le_round {x : ℚ} (h : 2 ^ 53 ≤ x) : 2 ^ 53 ≤ round x := by
  have hpos : (0 : ℚ) < x := lt_of_lt_of_le (by norm_num) h
  have hlog : 53 ≤ Int.log 2 x := by
    refine (Int.zpow_le_iff_le_log (by norm_num) hpos).1 ?_
    simpa using h
  have hstep : step x = Int.log 2 x - 52 := by
    rw [step, abs_of_pos hpos]
    omega
  have hunit : (0 : ℚ) < 2 ^ step x := zpow_pos (by norm_num) _
  have hfloor : (2 ^ 52 : ℤ) ≤ ⌊x / 2 ^ step x⌋ := by
    refine Int.le_floor.2 ?_
    rw [le_div_iff₀ hunit, hstep]
    have hself : (2 : ℚ) ^ Int.log 2 x ≤ x := Int.zpow_log_le_self (by norm_num) hpos
    calc ((2 ^ 52 : ℤ) : ℚ) * 2 ^ (Int.log 2 x - 52) = 2 ^ Int.log 2 x := by
          rw [zpow_sub₀ (by norm_num : (2 : ℚ) ≠ 0)]
          push_cast
          rw [mul_div_assoc']
          norm_num
      _ ≤ x := hself
  have hround : ((2 ^ 52 : ℤ) : ℚ) ≤ roundHalfEven (x / 2 ^ step x) := by
    exact_mod_cast hfloor.trans (floor_le_roundHalfEven _)
  have htwo : (2 : ℚ) ≤ 2 ^ step x := by
    calc (2 : ℚ) = 2 ^ (1 : ℤ) := by norm_num
      _ ≤ 2 ^ step x := zpow_le_zpow_right₀ (by norm_num) (by omega)
  calc (2 ^ 53 : ℚ) = ((2 ^ 52 : ℤ) : ℚ) * 2 := by norm_num
    _ ≤ roundHalfEven (x / 2 ^ step x) * 2 ^ step x :=
        mul_le_mul hround htwo (by norm_num) (le_trans (by norm_num) hround)

/-- A whole number that is read as a whole number below `2 ^ 53` is that number. -/
theorem eq_of_round_eq {c n : ℕ} (hn : n < 2 ^ 53) (h : round c = n) : c = n := by
  rcases Nat.lt_or_ge c (2 ^ 53) with hc | hc
  · rw [round_natCast hc.le] at h
    exact_mod_cast h
  · have hle : (2 ^ 53 : ℚ) ≤ round c := le_round (by exact_mod_cast hc)
    rw [h] at hle
    have hle : 2 ^ 53 ≤ n := by exact_mod_cast hle
    omega

/-! ### The shortest text -/

/-- What is found is read as the number, and its digits end where they were asked to. -/
theorem round_of_nearest {k : ℕ} {x : ℚ} {c e : ℤ} (h : nearest k x = some (c, e)) :
    e = unit k x ∧ round (c * 10 ^ e) = x ∧ ⌊x / 10 ^ e⌋ ≤ c := by
  simp only [nearest] at h
  split_ifs at h with hlow hhigh
  · cases h
    exact ⟨rfl, hlow.1, le_rfl⟩
  · cases h
    exact ⟨rfl, hhigh, by omega⟩

/-- A search finds something by the time there is something to find. -/
theorem exists_shortestFrom {x : ℚ} {n : ℕ} (hn : (nearest n x).isSome = true) (fuel k : ℕ)
    (hk : k ≤ n) (hfuel : n < k + fuel) :
    ∃ k' found, k' ≤ n ∧ nearest k' x = some found ∧ shortestFrom x fuel k = some found := by
  induction fuel generalizing k with
  | zero => omega
  | succ fuel ih =>
      rw [shortestFrom]
      cases hfound : nearest k x with
      | some found => exact ⟨k, found, hk, hfound, rfl⟩
      | none =>
          have hne : k ≠ n := by
            rintro rfl
            rw [hfound] at hn
            cases hn
          exact ih (k + 1) (by omega) (by omega)

/-- A whole number has a text of as many digits as it has. -/
theorem nearest_natCast {n : ℕ} (hn : n < 2 ^ 53) :
    (nearest (Nat.log 10 n + 1) n).isSome = true := by
  have hunit : unit (Nat.log 10 n + 1) n = 0 := by
    rw [unit, abs_of_nonneg (by positivity), Int.log_natCast]
    push_cast
    omega
  have hfloor : ⌊(n : ℚ) / 10 ^ (0 : ℤ)⌋ = n := by simp
  simp only [nearest, hunit, hfloor]
  rw [if_pos]
  · rfl
  · refine ⟨?_, Or.inr (Or.inl ?_)⟩
    · simpa using round_natCast hn.le
    · simp

/-- **The shortest text of a whole number below `2 ^ 53` is its own.** -/
theorem shortest_natCast {n : ℕ} (hpos : 0 < n) (hn : n < 2 ^ 53) :
    ∃ c e : ℕ, shortest n = some ((c : ℤ), (e : ℤ)) ∧ c * 10 ^ e = n := by
  have hdigits : Nat.log 10 n < 17 := Nat.log_lt_of_lt_pow (by omega) (by omega)
  obtain ⟨k, ⟨c, e⟩, hk, hfound, hshortest⟩ :=
    exists_shortestFrom (nearest_natCast hn) 17 1 (by omega) (by omega)
  obtain ⟨he, hround, hfloor⟩ := round_of_nearest hfound
  -- no digit stands after the point, so the decimal is a whole number too
  have hunit : e = ((Nat.log 10 n + 1 - k : ℕ) : ℤ) := by
    rw [he, unit, abs_of_nonneg (by positivity), Int.log_natCast]
    omega
  have hquot : (0 : ℚ) ≤ n / 10 ^ e := div_nonneg (Nat.cast_nonneg n) (zpow_nonneg (by norm_num) _)
  have hnonneg : 0 ≤ c := le_trans (Int.floor_nonneg.2 hquot) hfloor
  obtain ⟨c, rfl⟩ := Int.eq_ofNat_of_zero_le hnonneg
  refine ⟨c, Nat.log 10 n + 1 - k, by rw [← hunit]; exact hshortest, eq_of_round_eq hn ?_⟩
  rw [hunit, zpow_natCast] at hround
  exact_mod_cast hround

/-! ### Doubles -/

/-- A double. -/
inductive Double where
  | finite (x : ℚ)
  | infinity (negative : Bool)
  | nan
deriving DecidableEq

namespace Double

/-- The first power of two that is no longer finite. -/
def limit : ℚ := 2 ^ 1024

theorem lt_limit {n : ℕ} (h : n ≤ 2 ^ 53) : (n : ℚ) < limit := by
  have hpow : (2 : ℚ) ^ 53 < limit := pow_lt_pow_right₀ one_lt_two (by decide)
  refine lt_of_le_of_lt ?_ hpow
  exact_mod_cast h

/-- The double a number is read as. -/
def ofRat (x : ℚ) : Double :=
  if |round x| < limit then .finite (round x) else .infinity (x < 0)

/-- `a + b`. -/
def add : Double → Double → Double
  | .finite x, .finite y => ofRat (x + y)
  | .infinity negative, .infinity negative' =>
      if negative = negative' then .infinity negative else .nan
  | .infinity negative, .finite _ => .infinity negative
  | .finite _, .infinity negative => .infinity negative
  | .nan, _ => .nan
  | _, .nan => .nan

/-- `a * b`. -/
def mul : Double → Double → Double
  | .finite x, .finite y => ofRat (x * y)
  | .finite x, .infinity negative => if x = 0 then .nan else .infinity ((x < 0) != negative)
  | .infinity negative, .finite y => if y = 0 then .nan else .infinity (negative != (y < 0))
  | .infinity negative, .infinity negative' => .infinity (negative != negative')
  | .nan, _ => .nan
  | _, .nan => .nan

@[simp] theorem mul_nan (a : Double) : a.mul .nan = .nan := by
  cases a <;> rfl

/-- A number that is a double. -/
def Exact (x : ℚ) : Prop := ofRat x = .finite x

theorem exact_iff {x : ℚ} : Exact x ↔ round x = x ∧ |x| < limit := by
  unfold Exact ofRat
  split_ifs with hlt
  · rw [finite.injEq]
    constructor
    · intro h
      exact ⟨h, h ▸ hlt⟩
    · exact And.left
  · refine iff_of_false (by intro h; cases h) ?_
    rintro ⟨h, hx⟩
    rw [h] at hlt
    exact hlt hx

theorem exact_natCast {n : ℕ} (h : n ≤ 2 ^ 53) : Exact n := by
  refine exact_iff.2 ⟨round_natCast h, ?_⟩
  rw [abs_of_nonneg (Nat.cast_nonneg n)]
  exact lt_limit h

/-- What a number is read as is a double. -/
theorem exact_of_ofRat {x y : ℚ} (h : ofRat x = .finite y) : Exact y := by
  unfold ofRat at h
  split_ifs at h with hlt
  obtain rfl := finite.inj h
  exact exact_iff.2 ⟨round_round x, hlt⟩

/-- A divisor of a double is one. -/
theorem Exact.of_mul {m n : ℕ} (hn : 0 < n) (h : Exact (m * n : ℕ)) : Exact m := by
  obtain ⟨hround, hlt⟩ := exact_iff.1 h
  have hle : (m : ℚ) ≤ (m * n : ℕ) := by exact_mod_cast Nat.le_mul_of_pos_right m hn
  have hbound : |(m : ℚ)| < limit := by
    rw [abs_of_nonneg (Nat.cast_nonneg _)] at hlt ⊢
    exact hle.trans_lt hlt
  refine exact_iff.2 ⟨?_, hbound⟩
  rcases Nat.eq_zero_or_pos m with rfl | hm
  · simp [round, roundHalfEven]
  obtain ⟨c, hc, heq⟩ := exists_round (m * n : ℕ)
  rw [hround] at heq
  obtain ⟨t, w, hodd, rfl⟩ := Nat.exists_eq_two_pow_mul_odd hm.ne'
  -- the odd part of a factor divides the digits of the product
  have hdvd : (w : ℤ) ∣ c := by
    have hcoprime : ∀ k : ℕ, IsCoprime (w : ℤ) (2 ^ k) := fun k =>
      (Nat.isCoprime_iff_coprime.2 (Nat.coprime_two_right.2 hodd)).pow_right
    rcases Int.le_total 0 (step ((2 ^ t * w * n : ℕ) : ℚ)) with hs | hs
    · obtain ⟨k, hk⟩ := Int.eq_ofNat_of_zero_le hs
      rw [hk] at heq
      have hint : ((2 ^ t * w * n : ℕ) : ℤ) = c * 2 ^ k := by exact_mod_cast heq
      refine (hcoprime k).dvd_of_dvd_mul_right ?_
      rw [← hint]
      exact ⟨2 ^ t * n, by push_cast; ring⟩
    · obtain ⟨k, hk⟩ := Int.eq_ofNat_of_zero_le (neg_nonneg.2 hs)
      have hmul : ((2 ^ t * w * n : ℕ) : ℚ) * 2 ^ k = c := by
        rw [heq, mul_assoc, ← zpow_natCast, ← zpow_add₀ (by norm_num : (2 : ℚ) ≠ 0), ← hk,
          add_neg_cancel, zpow_zero, mul_one]
      have hint : ((2 ^ t * w * n : ℕ) : ℤ) * 2 ^ k = c := by exact_mod_cast hmul
      exact ⟨2 ^ t * n * 2 ^ k, by rw [← hint]; push_cast; ring⟩
  have hcne : c ≠ 0 := by
    rintro rfl
    rw [Int.cast_zero, zero_mul] at heq
    have hzero : 2 ^ t * w * n = 0 := by exact_mod_cast heq
    exact absurd hzero (Nat.mul_pos hm hn).ne'
  have hw : |(w : ℤ)| ≤ 2 ^ 53 :=
    (Int.le_of_dvd (abs_pos.2 hcne) ((dvd_abs _ _).2 ((abs_dvd _ _).2 hdvd))).trans hc
  have hself := round_eq_self_of_le (by omega : -1074 ≤ (t : ℤ)) hw
  have hcast : ((2 ^ t * w : ℕ) : ℚ) = ((w : ℤ) : ℚ) * 2 ^ (t : ℤ) := by
    rw [zpow_natCast]
    push_cast
    ring
  rw [hcast]
  exact hself

/-- **A product of whole numbers is computed as it is exactly when it is a double.** -/
theorem mul_eq_finite_iff {m n : ℕ} (hn : n ≤ 2 ^ 53) (hpos : 0 < n) :
    (ofRat m).mul (ofRat n) = .finite (m * n : ℕ) ↔ Exact (m * n : ℕ) := by
  have hn' : ofRat n = .finite n := exact_natCast hn
  rw [hn']
  constructor
  · intro h
    cases hfirst : ofRat m with
    | finite x =>
        rw [hfirst] at h
        exact exact_of_ofRat h
    | nan =>
        rw [hfirst] at h
        cases h
    | infinity negative =>
        rw [hfirst, mul] at h
        split_ifs at h
  · intro h
    have hm' : ofRat m = .finite m := Exact.of_mul hpos h
    rw [hm', mul, ← Nat.cast_mul]
    exact h

end Double

end Binary64
