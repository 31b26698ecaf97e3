/-
**Finite decimal numbers and their text.**

A number that a text format can carry is a finite decimal: an integer divided by a power of ten,
in lowest terms.  This module gives the type and its text, positional or with an exponent, and
proves that the text reads back as the number it was written for.

Main definitions:

* `Decimal`, `Decimal.ofInt`, `Decimal.reduce`, `Decimal.shift` — decimals in lowest terms;
* `Decimal.toRat`, `Decimal.isInt` — the rational a decimal denotes, and whether it is whole;
* `Decimal.print`, `Decimal.read` — the text of a decimal, and the reader of such texts.

Main results:

* `Decimal.reduce_self` — a decimal in lowest terms is its own reduction;
* `Decimal.reads_printAbs` — what the parts of a text are read as;
* `Decimal.read_print` — **the text of a decimal reads back as that decimal**.
-/

import Mathlib.Data.Rat.Defs
import Mathlib.Data.List.Basic
import Mathlib.Data.List.TakeWhile
import Mathlib.Tactic.Common
import Mathlib.Tactic.Ring

set_option autoImplicit false

/-- A finite decimal in lowest terms: `mantissa / 10 ^ scale`. -/
structure Decimal where
  /-- The digits, read as one integer. -/
  mantissa : ℤ
  /-- How many of the digits stand after the point. -/
  scale : ℕ
  /-- The last digit after the point is not a zero. -/
  lowest : scale = 0 ∨ mantissa % 10 ≠ 0
deriving DecidableEq

namespace Decimal

/-- The decimal of an integer. -/
def ofInt (n : ℤ) : Decimal := ⟨n, 0, Or.inl rfl⟩

instance : NatCast Decimal := ⟨fun n => ofInt n⟩

instance (n : ℕ) : OfNat Decimal n := ⟨ofInt n⟩

/-- The decimal `m / 10 ^ e` in lowest terms. -/
def reduce (m : ℤ) : ℕ → Decimal
  | 0 => ofInt m
  | e + 1 => if h : m % 10 = 0 then reduce (m / 10) e else ⟨m, e + 1, Or.inr h⟩

@[simp] theorem reduce_self (d : Decimal) : reduce d.mantissa d.scale = d := by
  obtain ⟨m, e, h⟩ := d
  cases e with
  | zero => rfl
  | succ e =>
      have hm : m % 10 ≠ 0 := h.resolve_left (by simp)
      simp [reduce, hm]

/-- The decimal `m * 10 ^ e` in lowest terms. -/
def shift (m e : ℤ) : Decimal :=
  if 0 ≤ e then ofInt (m * 10 ^ e.toNat) else reduce m (-e).toNat

/-- The rational a decimal denotes. -/
def toRat (d : Decimal) : ℚ := d.mantissa / 10 ^ d.scale

/-- Whether a decimal is a whole number. -/
def isInt (d : Decimal) : Bool := d.scale = 0

theorem ofInt_injective : Function.Injective ofInt := by
  intro m n h
  simpa [ofInt] using h

theorem natCast_injective : Function.Injective fun n : ℕ => (n : Decimal) :=
  fun _ _ h => Int.ofNat.inj (ofInt_injective h)

/-! ### The text of a decimal -/

/-- The digits of `n`, padded on the left to at least `k` of them. -/
def padded (k n : ℕ) : List Char :=
  List.replicate (k - (Nat.toDigits 10 n).length) '0' ++ Nat.toDigits 10 n

theorem isDigit_of_mem_toDigits {n : ℕ} : ∀ c ∈ Nat.toDigits 10 n, c.isDigit = true := fun _ hc =>
  Nat.isDigit_of_mem_toDigits (by decide) (by decide) hc

theorem isDigit_of_mem_padded {k n : ℕ} : ∀ c ∈ padded k n, c.isDigit = true := by
  intro c hc
  rcases List.mem_append.1 hc with h | h
  · obtain rfl := List.eq_of_mem_replicate h
    rfl
  · exact isDigit_of_mem_toDigits c h

theorem le_length_padded (k n : ℕ) : k ≤ (padded k n).length := by
  simp only [padded, List.length_append, List.length_replicate]
  omega

@[simp] theorem ofDigitChars_padded (k n : ℕ) : Nat.ofDigitChars 10 (padded k n) 0 = n := by
  rw [padded, Nat.ofDigitChars_append, Nat.ofDigitChars_replicate_zero, Nat.mul_zero,
    Nat.ofDigitChars_ten_toDigits]

theorem padded_ne_nil (k n : ℕ) : padded k n ≠ [] := by
  simp [padded, Nat.toDigits_ne_nil]

/-- The positional text of `n / 10 ^ scale`: the digits, with a point before the last `scale` of
them. -/
def positional (n scale : ℕ) : List Char :=
  if scale = 0 then padded 1 n
  else
    let digits := padded (scale + 1) n
    digits.take (digits.length - scale) ++ '.' :: digits.drop (digits.length - scale)

/-- The digits of a number without the zeros at their end. -/
def keptDigits (n : ℕ) : List Char := ((Nat.toDigits 10 n).reverse.dropWhile (· = '0')).reverse

/-- The text of an exponent. -/
def printExponent (e : ℤ) : List Char :=
  'e' :: (if 0 ≤ e then '+' else '-') :: Nat.toDigits 10 e.natAbs

/-- The text of `n / 10 ^ scale` with an exponent: one digit stands before the point. -/
def exponential (n scale : ℕ) : List Char :=
  (keptDigits n).take 1 ++ (if (keptDigits n).length = 1 then [] else '.' :: (keptDigits n).drop 1)
    ++ printExponent ((Nat.toDigits 10 n).length - scale - 1)

/-- The text of the absolute value.  One with more than 21 digits before the point, or with six
zeros or more behind it, is written with an exponent. -/
def printAbs (n scale : ℕ) : List Char :=
  let point : ℤ := (Nat.toDigits 10 n).length - scale
  if n = 0 ∨ (-6 < point ∧ point ≤ 21) then positional n scale else exponential n scale

/-- The text of a decimal. -/
def print (d : Decimal) : List Char :=
  (if d.mantissa < 0 then ['-'] else []) ++ printAbs d.mantissa.natAbs d.scale

/-! ### Reading -/

/-- The digits at the front of a text, and the rest. -/
def digits (cs : List Char) : List Char × List Char :=
  (cs.takeWhile Char.isDigit, cs.dropWhile Char.isDigit)

/-- What a number with the whole part `whole` goes on to: a point with more digits, or nothing. -/
def readFraction (whole : List Char) : List Char → (ℕ × ℕ) × List Char
  | '.' :: cs =>
      ((Nat.ofDigitChars 10 (whole ++ (digits cs).1) 0, (digits cs).1.length), (digits cs).2)
  | cs => ((Nat.ofDigitChars 10 whole 0, 0), cs)

/-- Reads an absolute value: digits, and a point with more digits when there is one. -/
def readAbs (cs : List Char) : Option ((ℕ × ℕ) × List Char) :=
  if (digits cs).1 = [] then none else some (readFraction (digits cs).1 (digits cs).2)

/-- The sign of an exponent, which may be left out, and the rest. -/
def readSign : List Char → Bool × List Char
  | '-' :: cs => (true, cs)
  | '+' :: cs => (false, cs)
  | cs => (false, cs)

/-- Reads an exponent, which may be left out. -/
def readExponent : List Char → Option (ℤ × List Char)
  | [] => some (0, [])
  | e :: cs =>
      if e = 'e' ∨ e = 'E' then
        let (negative, cs) := readSign cs
        if (digits cs).1 = [] then none
        else
          let n : ℤ := Nat.ofDigitChars 10 (digits cs).1 0
          some (if negative then -n else n, (digits cs).2)
      else some (0, e :: cs)

/-- Whether a text begins the way a number is written: no zero leads its digits, and digits stand
behind its point. -/
def WellBegun (cs : List Char) : Prop :=
  ((digits cs).1.length = 1 ∨ (digits cs).1.head? ≠ some '0') ∧
    ((digits cs).2.head? = some '.' → (digits (digits cs).2.tail).1 ≠ [])

instance (cs : List Char) : Decidable (WellBegun cs) := inferInstanceAs (Decidable (_ ∧ _))

/-- Reads a decimal behind its sign. -/
def readSigned (negative : Bool) (cs : List Char) : Option (Decimal × List Char) :=
  if WellBegun cs then do
    let p ← readAbs cs
    let e ← readExponent p.2
    return (shift (if negative then -p.1.1 else p.1.1) (e.1 - p.1.2), e.2)
  else none

/-- Reads a decimal off the front of a text. -/
def read : List Char → Option (Decimal × List Char)
  | '-' :: cs => readSigned true cs
  | cs => readSigned false cs

/-! ### Reading back the parts -/

/-- What may follow a number in a text: nothing that it could go on with. -/
def Ends (rest : List Char) : Prop :=
  ∀ c ∈ rest.head?, c.isDigit = false ∧ c ≠ '.' ∧ c ≠ 'e' ∧ c ≠ 'E'

theorem digits_append {ds rest : List Char} (hd : ∀ c ∈ ds, c.isDigit = true)
    (hr : ∀ c ∈ rest.head?, c.isDigit = false) : digits (ds ++ rest) = (ds, rest) := by
  have hstop : rest.takeWhile Char.isDigit = [] ∧ rest.dropWhile Char.isDigit = rest := by
    cases rest with
    | nil => simp
    | cons c rest =>
        have hc : c.isDigit = false := hr c (by simp)
        simp [hc]
  rw [digits, List.takeWhile_append_of_pos hd, List.dropWhile_append_of_pos hd, hstop.1, hstop.2,
    List.append_nil]

theorem readFraction_of_ne {whole behind : List Char} (h : ∀ c ∈ behind.head?, c ≠ '.') :
    readFraction whole behind = ((Nat.ofDigitChars 10 whole 0, 0), behind) := by
  cases behind with
  | nil => rfl
  | cons c behind =>
      have hc : c ≠ '.' := h c (by simp)
      unfold readFraction
      split
      · next h => exact absurd (List.cons.inj h).1 hc
      · rfl

/-- Digits without a point are read as a whole number. -/
theorem readAbs_whole {ds rest : List Char} (hne : ds ≠ []) (hd : ∀ c ∈ ds, c.isDigit = true)
    (hr : ∀ c ∈ rest.head?, c.isDigit = false ∧ c ≠ '.') :
    readAbs (ds ++ rest) = some ((Nat.ofDigitChars 10 ds 0, 0), rest) := by
  rw [readAbs, digits_append hd fun c hc => (hr c hc).1, if_neg hne,
    readFraction_of_ne fun c hc => (hr c hc).2]

/-- Digits around a point are read as all of them, with those behind it counted. -/
theorem readAbs_point {ds fs rest : List Char} (hne : ds ≠ []) (hd : ∀ c ∈ ds, c.isDigit = true)
    (hf : ∀ c ∈ fs, c.isDigit = true) (hr : ∀ c ∈ rest.head?, c.isDigit = false) :
    readAbs (ds ++ '.' :: (fs ++ rest)) =
      some ((Nat.ofDigitChars 10 (ds ++ fs) 0, fs.length), rest) := by
  have hpoint : ∀ c ∈ ('.' :: (fs ++ rest)).head?, c.isDigit = false := by
    rintro c ⟨⟩
    rfl
  rw [readAbs, digits_append hd hpoint, if_neg hne, readFraction, digits_append hf hr]

theorem wellBegun_whole {ds rest : List Char} (hlead : ds.length = 1 ∨ ds.head? ≠ some '0')
    (hd : ∀ c ∈ ds, c.isDigit = true) (hr : ∀ c ∈ rest.head?, c.isDigit = false ∧ c ≠ '.') :
    WellBegun (ds ++ rest) := by
  rw [WellBegun, digits_append hd fun c hc => (hr c hc).1]
  exact ⟨hlead, fun hpoint => absurd rfl (hr '.' hpoint).2⟩

theorem wellBegun_point {ds fs rest : List Char} (hlead : ds.length = 1 ∨ ds.head? ≠ some '0')
    (hne : fs ≠ []) (hd : ∀ c ∈ ds, c.isDigit = true) (hf : ∀ c ∈ fs, c.isDigit = true)
    (hr : ∀ c ∈ rest.head?, c.isDigit = false) : WellBegun (ds ++ '.' :: (fs ++ rest)) := by
  have hpoint : ∀ c ∈ ('.' :: (fs ++ rest)).head?, c.isDigit = false := by
    rintro c ⟨⟩
    rfl
  rw [WellBegun, digits_append hd hpoint]
  refine ⟨hlead, fun _ => ?_⟩
  rw [List.tail_cons, digits_append hf hr]
  exact hne

theorem readExponent_of_ends {rest : List Char} (hr : Ends rest) :
    readExponent rest = some (0, rest) := by
  cases rest with
  | nil => rfl
  | cons c rest =>
      obtain ⟨-, -, he, hE⟩ := hr c rfl
      rw [readExponent, if_neg (not_or.2 ⟨he, hE⟩)]

/-- The text of an exponent reads back as it. -/
theorem readExponent_print (e : ℤ) {rest : List Char} (hr : Ends rest) :
    readExponent (printExponent e ++ rest) = some (e, rest) := by
  have hdigits : digits (Nat.toDigits 10 e.natAbs ++ rest) = (Nat.toDigits 10 e.natAbs, rest) :=
    digits_append isDigit_of_mem_toDigits fun c hc => (hr c hc).1
  by_cases he : 0 ≤ e
  · have hvalue : (e.natAbs : ℤ) = e := by omega
    simp only [readExponent, printExponent, ↓Char.isValue, he, ↓reduceIte, List.cons_append,
      Char.reduceEq, or_false, readSign, hdigits, Nat.toDigits_ne_nil, Bool.false_eq_true,
      Nat.ofDigitChars_ten_toDigits, hvalue]
  · have hvalue : -(e.natAbs : ℤ) = e := by omega
    simp only [readExponent, printExponent, ↓Char.isValue, he, ↓reduceIte, List.cons_append,
      Char.reduceEq, or_false, readSign, hdigits, Nat.toDigits_ne_nil,
      Nat.ofDigitChars_ten_toDigits, hvalue]

/-! ### Reading back an absolute value -/

/-- No zero leads the digits of a number above zero. -/
theorem head_toDigits {n : ℕ} (hn : n ≠ 0) : (Nat.toDigits 10 n).head? ≠ some '0' := by
  induction n using Nat.strongRecOn with
  | ind n ih =>
      by_cases hlt : n < 10
      · have hone : ∀ m < 10, m ≠ 0 → [Nat.digitChar m].head? ≠ some '0' := by decide
        rw [Nat.toDigits_of_lt_base hlt]
        exact hone n hlt hn
      · rw [Nat.toDigits_of_base_le (by decide) (by omega),
          List.head?_append_of_ne_nil _ Nat.toDigits_ne_nil]
        exact ih (n / 10) (by omega) (by omega)

/-- Nor does one lead others. -/
theorem led_toDigits (n : ℕ) :
    (Nat.toDigits 10 n).length = 1 ∨ (Nat.toDigits 10 n).head? ≠ some '0' := by
  rcases eq_or_ne n 0 with rfl | hn
  · exact Or.inl rfl
  · exact Or.inr (head_toDigits hn)

/-- Padded digits before a point: one of them, or those of the number. -/
theorem led_padded (scale n : ℕ) :
    ((padded (scale + 1) n).take ((padded (scale + 1) n).length - scale)).length = 1 ∨
      ((padded (scale + 1) n).take ((padded (scale + 1) n).length - scale)).head? ≠ some '0' := by
  have hlen := le_length_padded (scale + 1) n
  by_cases hlong : scale + 1 < (Nat.toDigits 10 n).length
  · right
    have hpad : padded (scale + 1) n = Nat.toDigits 10 n := by
      rw [padded, Nat.sub_eq_zero_of_le hlong.le, List.replicate_zero, List.nil_append]
    rw [hpad, List.head?_take, if_neg (by omega)]
    exact (led_toDigits n).resolve_left (by omega)
  · left
    have hpad : (padded (scale + 1) n).length = scale + 1 := by
      simp only [padded, List.length_append, List.length_replicate]
      omega
    rw [List.length_take, hpad]
    omega

/-- The positional text of an absolute value is read as its digits and its scale. -/
theorem reads_positional (n scale : ℕ) {rest : List Char} (hr : Ends rest) :
    WellBegun (positional n scale ++ rest) ∧
      readAbs (positional n scale ++ rest) = some ((n, scale), rest) := by
  have hstop : ∀ c ∈ rest.head?, c.isDigit = false ∧ c ≠ '.' := fun c hc =>
    ⟨(hr c hc).1, (hr c hc).2.1⟩
  unfold positional
  split_ifs with hs
  · subst hs
    have hpad : padded 1 n = Nat.toDigits 10 n := by
      rw [padded, Nat.sub_eq_zero_of_le Nat.length_toDigits_pos, List.replicate_zero,
        List.nil_append]
    refine ⟨wellBegun_whole ?_ isDigit_of_mem_padded hstop, ?_⟩
    · rw [hpad]
      exact led_toDigits n
    · rw [readAbs_whole (padded_ne_nil 1 n) isDigit_of_mem_padded hstop, ofDigitChars_padded]
  · -- the digits before the point and the digits after it are read in turn
    have hled := led_padded scale n
    set ds := padded (scale + 1) n with hds
    have hlen : scale + 1 ≤ ds.length := le_length_padded _ _
    have hdig : ∀ c ∈ ds, c.isDigit = true := isDigit_of_mem_padded
    have hwhole : ∀ c ∈ ds.take (ds.length - scale), c.isDigit = true := fun c hc =>
      hdig c (List.mem_of_mem_take hc)
    have hfrac : ∀ c ∈ ds.drop (ds.length - scale), c.isDigit = true := fun c hc =>
      hdig c (List.mem_of_mem_drop hc)
    have hne : ds.take (ds.length - scale) ≠ [] := by
      intro h
      have := congrArg List.length h
      simp only [List.length_take, List.length_nil] at this
      omega
    have hscale : (ds.drop (ds.length - scale)).length = scale := by
      rw [List.length_drop]
      omega
    have hbehind : ds.drop (ds.length - scale) ≠ [] := by
      intro h
      rw [h] at hscale
      exact hs hscale.symm
    have hn : Nat.ofDigitChars 10 ds 0 = n := by rw [hds, ofDigitChars_padded]
    simp only [List.append_assoc, List.cons_append]
    refine ⟨wellBegun_point hled hbehind hwhole hfrac fun c hc => (hr c hc).1, ?_⟩
    rw [readAbs_point hne hwhole hfrac fun c hc => (hr c hc).1, List.take_append_drop, hn, hscale]

/-- The digits of a number are the kept ones and zeros. -/
theorem toDigits_eq_kept (n : ℕ) : ∃ z, Nat.toDigits 10 n = keptDigits n ++
    List.replicate z '0' := by
  have hsplit := List.takeWhile_append_dropWhile (p := (· = '0')) (l := (Nat.toDigits 10 n).reverse)
  have hzeros : ∀ c ∈ (Nat.toDigits 10 n).reverse.takeWhile (· = '0'), c = '0' := by
    intro c hc
    simpa using List.mem_takeWhile_imp hc
  have hreverse := congrArg List.reverse hsplit
  rw [List.reverse_append, List.reverse_reverse, List.eq_replicate_of_mem hzeros,
    List.reverse_replicate] at hreverse
  exact ⟨_, hreverse.symm⟩

theorem isDigit_of_mem_keptDigits {n : ℕ} : ∀ c ∈ keptDigits n, c.isDigit = true := by
  intro c hc
  obtain ⟨z, hz⟩ := toDigits_eq_kept n
  exact isDigit_of_mem_toDigits c (hz ▸ List.mem_append_left _ hc)

/-- The text of an absolute value with an exponent is read as its kept digits, one of them before
the point. -/
theorem reads_exponential (n scale : ℕ) (hn : n ≠ 0) (rest : List Char) :
    ∃ (z : ℕ) (e : ℤ), n = 10 ^ z * Nat.ofDigitChars 10 (keptDigits n) 0 ∧
      e - ((keptDigits n).length - 1 : ℕ) = z - scale ∧
      WellBegun (exponential n scale ++ rest) ∧
      readAbs (exponential n scale ++ rest) =
        some ((Nat.ofDigitChars 10 (keptDigits n) 0, (keptDigits n).length - 1),
          printExponent e ++ rest) := by
  obtain ⟨z, hz⟩ := toDigits_eq_kept n
  have hvalue : n = 10 ^ z * Nat.ofDigitChars 10 (keptDigits n) 0 := by
    have hdigits := Nat.ofDigitChars_ten_toDigits (n := n)
    rw [hz, Nat.ofDigitChars_append, Nat.ofDigitChars_replicate_zero] at hdigits
    exact hdigits.symm
  have hlength : (Nat.toDigits 10 n).length = (keptDigits n).length + z := by
    rw [hz, List.length_append, List.length_replicate]
  have hexponent : ∀ c ∈ (printExponent ((Nat.toDigits 10 n).length - scale - 1) ++ rest).head?,
      c.isDigit = false ∧ c ≠ '.' := by
    rintro c ⟨⟩
    decide
  have hdigits := @isDigit_of_mem_keptDigits n
  refine ⟨z, (Nat.toDigits 10 n).length - scale - 1, hvalue, ?_, ?_⟩
  · have hpos : keptDigits n ≠ [] := by
      intro hnil
      rw [hnil] at hvalue
      exact hn (by simpa using hvalue)
    have := List.length_pos_iff.2 hpos
    omega
  unfold exponential
  generalize printExponent ((Nat.toDigits 10 n).length - scale - 1) = written at hexponent ⊢
  generalize keptDigits n = kept at hvalue hdigits ⊢
  rcases kept with _ | ⟨c, _ | ⟨c', cs⟩⟩
  · exact absurd (by simpa using hvalue) hn
  · have hone : ∀ b ∈ [c], b.isDigit = true := hdigits
    have hread := readAbs_whole (List.cons_ne_nil c []) hone hexponent
    have hbegun := @wellBegun_whole [c] _ (Or.inl rfl) hone hexponent
    simp only [List.cons_append, List.nil_append] at hread hbegun
    simpa using ⟨hbegun, hread⟩
  · have hone : ∀ b ∈ [c], b.isDigit = true := fun b hb =>
      hdigits b (List.mem_append_left (c' :: cs) hb)
    have hmore : ∀ b ∈ c' :: cs, b.isDigit = true := fun b hb =>
      hdigits b (List.mem_cons_of_mem _ hb)
    have hstop : ∀ c ∈ (written ++ rest).head?, c.isDigit = false := fun c hc => (hexponent c hc).1
    have hread := readAbs_point (List.cons_ne_nil c []) hone hmore hstop
    have hbegun := @wellBegun_point [c] (c' :: cs) _ (Or.inl rfl) (List.cons_ne_nil c' cs) hone
      hmore hstop
    simp only [List.cons_append, List.nil_append] at hread hbegun
    simpa using ⟨hbegun, hread⟩

/-- **What the text of an absolute value is read as**: digits, and how far they are shifted, which
is the zeros that were left out and the scale. -/
theorem reads_printAbs (n scale : ℕ) {rest : List Char} (hr : Ends rest) :
    ∃ (k t z : ℕ) (e : ℤ) (behind : List Char), n = 10 ^ z * k ∧ e - t = z - scale ∧
      WellBegun (printAbs n scale ++ rest) ∧
      readAbs (printAbs n scale ++ rest) = some ((k, t), behind) ∧
      readExponent behind = some (e, rest) := by
  unfold printAbs
  dsimp only
  split_ifs with hform
  · obtain ⟨hbegun, hread⟩ := reads_positional n scale hr
    exact ⟨n, scale, 0, 0, rest, (Nat.one_mul n).symm, rfl, hbegun, hread, readExponent_of_ends hr⟩
  · obtain ⟨z, e, hvalue, hshift, hbegun, hread⟩ :=
      reads_exponential n scale (not_or.1 hform).1 rest
    exact ⟨_, _, z, e, _, hvalue, hshift, hbegun, hread, readExponent_print e hr⟩

theorem positional_head (n scale : ℕ) :
    ∃ c cs, positional n scale = c :: cs ∧ c.isDigit = true := by
  by_cases hs : scale = 0
  · obtain ⟨c, cs, h⟩ := List.exists_cons_of_ne_nil (padded_ne_nil 1 n)
    exact ⟨c, cs, by simp [positional, hs, h], isDigit_of_mem_padded c (h ▸ List.mem_cons_self)⟩
  · obtain ⟨c, cs, h⟩ := List.exists_cons_of_ne_nil (padded_ne_nil (scale + 1) n)
    have hlen := le_length_padded (scale + 1) n
    obtain ⟨k, hk⟩ : ∃ k, (padded (scale + 1) n).length - scale = k + 1 :=
      ⟨(padded (scale + 1) n).length - scale - 1, by omega⟩
    refine ⟨c, cs.take k ++ '.' :: cs.drop k, ?_,
      isDigit_of_mem_padded c (h ▸ List.mem_cons_self)⟩
    simp only [positional, hs, if_false, hk]
    rw [h, List.take_succ_cons, List.drop_succ_cons, List.cons_append]

theorem exponential_head {n : ℕ} (scale : ℕ) (hn : n ≠ 0) :
    ∃ c cs, exponential n scale = c :: cs ∧ c.isDigit = true := by
  obtain ⟨z, hz⟩ := toDigits_eq_kept n
  have hne : keptDigits n ≠ [] := by
    intro hnil
    have hdigits := Nat.ofDigitChars_ten_toDigits (n := n)
    rw [hz, hnil, List.nil_append, ← List.append_nil (List.replicate z '0')] at hdigits
    simp at hdigits
    exact hn hdigits.symm
  obtain ⟨c, cs, h⟩ := List.exists_cons_of_ne_nil hne
  have hdigit : c.isDigit = true := isDigit_of_mem_keptDigits c (h ▸ List.mem_cons_self)
  rw [exponential, h]
  exact ⟨c, _, rfl, hdigit⟩

theorem printAbs_head (n scale : ℕ) : ∃ c cs, printAbs n scale = c :: cs ∧ c.isDigit = true := by
  unfold printAbs
  dsimp only
  split_ifs with hform
  · exact positional_head n scale
  · exact exponential_head scale (not_or.1 hform).1

/-! ### Reading back what was written -/

/-- Digits shifted back by whole places are the decimal in lowest terms. -/
theorem shift_neg (m : ℤ) (s : ℕ) : shift m (-s) = reduce m s := by
  cases s with
  | zero => simp [shift, reduce]
  | succ s =>
      have hneg : ¬ (0 : ℤ) ≤ -((s + 1 : ℕ) : ℤ) := by omega
      have hback : (- -((s + 1 : ℕ) : ℤ)).toNat = s + 1 := by omega
      rw [shift, if_neg hneg, hback]

/-- The digits of a decimal that are kept, shifted back behind the zeros, are the decimal. -/
theorem shift_kept {d : Decimal} {k z : ℕ} (h : d.mantissa.natAbs = 10 ^ z * k) :
    shift (if d.mantissa < 0 then -k else k) (z - d.scale) = d := by
  have hmantissa : (if d.mantissa < 0 then -(k : ℤ) else k) * 10 ^ z = d.mantissa := by
    have hnat : ((d.mantissa.natAbs : ℕ) : ℤ) = k * 10 ^ z := by
      rw [h]
      push_cast
      ring
    split_ifs with hneg
    · rw [neg_mul, ← hnat]
      omega
    · rw [← hnat]
      omega
  rcases Nat.eq_zero_or_pos d.scale with hscale | hscale
  · have hd : d = ofInt d.mantissa := by
      obtain ⟨m, e, hlowest⟩ := d
      obtain rfl : e = 0 := hscale
      rfl
    rw [hscale, Nat.cast_zero, sub_zero, shift, if_pos (Int.natCast_nonneg z), Int.toNat_natCast,
      hmantissa, ← hd]
  · -- a number with digits after its point ends in none of these zeros
    have hlast := d.lowest.resolve_left (by omega)
    obtain rfl : z = 0 := by
      by_contra hz
      obtain ⟨z, rfl⟩ := Nat.exists_eq_succ_of_ne_zero hz
      refine hlast (Int.emod_eq_zero_of_dvd ⟨(if d.mantissa < 0 then -(k : ℤ) else k) * 10 ^ z, ?_⟩)
      rw [mul_left_comm, ← pow_succ']
      exact hmantissa.symm
    rw [pow_zero, mul_one] at hmantissa
    rw [hmantissa, Nat.cast_zero, zero_sub, shift_neg, reduce_self]

/-- A decimal behind its sign reads back. -/
theorem readSigned_print (d : Decimal) {rest : List Char} (hr : Ends rest) :
    readSigned (d.mantissa < 0) (printAbs d.mantissa.natAbs d.scale ++ rest) = some (d, rest) := by
  obtain ⟨k, t, z, e, behind, hvalue, hshift, hbegun, hread, hexponent⟩ :=
    reads_printAbs d.mantissa.natAbs d.scale hr
  have hd := shift_kept hvalue
  simp only [readSigned, if_pos hbegun, hread, Option.bind_eq_bind, Option.bind_some, hexponent,
    hshift, decide_eq_true_eq, hd]
  rfl

/-- **The text of a decimal reads back as that decimal**, whatever follows it. -/
theorem read_print (d : Decimal) {rest : List Char} (hr : Ends rest) :
    read (d.print ++ rest) = some (d, rest) := by
  have hsigned := readSigned_print d hr
  by_cases hneg : d.mantissa < 0
  · rw [decide_eq_true hneg] at hsigned
    rw [print, if_pos hneg]
    exact hsigned
  · rw [decide_eq_false hneg] at hsigned
    rw [print, if_neg hneg, List.nil_append]
    obtain ⟨c, cs, hc, hdig⟩ := printAbs_head d.mantissa.natAbs d.scale
    have hne : c ≠ '-' := by
      rintro rfl
      exact absurd hdig (by decide)
    rw [hc, List.cons_append] at hsigned ⊢
    unfold read
    split
    · next h => exact absurd (List.cons.inj h).1 hne
    · exact hsigned

end Decimal
