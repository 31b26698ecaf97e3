/-
**The text of a number, read as a number.**

An object is keyed by texts, so a number that is used as a key is written as one, and a key that is
meant as a number is read as one.  The text of a number reads back as that number.

Main results:

* `Jubs.Number.readUnsigned_of_readAbs` — a literal is its digits, shifted by its exponent;
* `Jubs.Number.literal_numberText` — **the text of a number reads back as that number**;
* `Jubs.Number.ofText_numberText` — and `Number(text)` as the double it is rounded to;
* `Jubs.Number.numberText_injective` — two numbers of one text are one number.
-/

import Jubs.Value

set_option autoImplicit false

namespace Jubs.Number

/-! ### Literals -/

/-- What the text of a finite number is made of. -/
def Plain (c : Char) : Prop := c.isDigit = true ∨ c ∈ ['.', 'e', '+', '-']

theorem Plain.not_mem_blanks {c : Char} (h : Plain c) : c ∉ blanks := by
  intro hc
  rcases h with h | h
  · have hnone : (blanks.all fun b => !b.isDigit) = true := by decide
    have hdigit := List.all_eq_true.1 hnone c hc
    rw [h] at hdigit
    cases hdigit
  · have hnone : (['.', 'e', '+', '-'].all fun b => decide (b ∉ blanks)) = true := by decide
    exact of_decide_eq_true (List.all_eq_true.1 hnone c h) hc

theorem Plain.ne_mark {c : Char} (h : Plain c) : c ∉ ['x', 'X', 'o', 'O', 'b', 'B'] := by
  intro hc
  rcases h with h | h
  · have hnone : (['x', 'X', 'o', 'O', 'b', 'B'].all fun b => !b.isDigit) = true := by decide
    have hdigit := List.all_eq_true.1 hnone c hc
    rw [h] at hdigit
    cases hdigit
  · have hnone : (['.', 'e', '+', '-'].all fun b =>
        decide (b ∉ ['x', 'X', 'o', 'O', 'b', 'B'])) = true := by decide
    exact of_decide_eq_true (List.all_eq_true.1 hnone c h) hc

theorem dropWhile_of_forall {α : Type} {q : α → Bool} {l : List α} (h : ∀ a ∈ l, q a = false) :
    l.dropWhile q = l := by
  cases l with
  | nil => rfl
  | cons a l => rw [List.dropWhile_cons, h a List.mem_cons_self, if_neg Bool.false_ne_true]

/-- A text without blanks is not trimmed. -/
theorem trim_plain {cs : List Char} (h : ∀ c ∈ cs, Plain c) : trim cs = cs := by
  have hblank : ∀ c ∈ cs, decide (c ∈ blanks) = false := fun c hc =>
    decide_eq_false (h c hc).not_mem_blanks
  rw [trim, dropWhile_of_forall hblank, dropWhile_of_forall, List.reverse_reverse]
  intro c hc
  exact hblank c (List.mem_reverse.1 hc)

/-- A text that begins with a digit is a literal without a sign. -/
theorem literal_unsigned {text : String} {c : Char} {cs : List Char} (htext : text.toList = c :: cs)
    (hdigit : c.isDigit = true) (hplain : ∀ b ∈ c :: cs, Plain b) :
    literal text = (readUnsigned false (c :: cs)).getD .nan := by
  have hmark : ∀ b ∈ c :: cs, b ∉ ['x', 'X', 'o', 'O', 'b', 'B'] := fun b hb =>
    (hplain b hb).ne_mark
  unfold literal
  rw [htext, trim_plain hplain]
  split <;> rename_i heq
  -- a second character that is the mark of a base is not part of such a text
  all_goals first
    | rfl
    | (cases heq; exact absurd hdigit (by decide))
    | (cases heq; exact absurd (by decide) (hmark _ (List.mem_cons_of_mem _ List.mem_cons_self)))
    | cases heq

/-- A text that begins with a minus is a literal behind it. -/
theorem literal_negative {text : String} {cs : List Char} (htext : text.toList = '-' :: cs)
    (hplain : ∀ b ∈ cs, Plain b) : literal text = (readUnsigned true cs).getD .nan := by
  have hall : ∀ b ∈ '-' :: cs, Plain b := by
    intro b hb
    rcases List.mem_cons.1 hb with rfl | hb
    · exact Or.inr (by decide)
    · exact hplain b hb
  unfold literal
  rw [htext, trim_plain hall]
  rfl

/-- **A literal is its digits, shifted by its exponent.** -/
theorem readUnsigned_of_readAbs {cs behind : List Char} {n s : ℕ} {e : ℤ} (negative : Bool)
    (h : Decimal.readAbs cs = some ((n, s), behind))
    (hexponent : Decimal.readExponent behind = some (e, [])) (hhead : cs.head? ≠ some 'I') :
    readUnsigned negative cs = some (scaled (if negative then -n else n) (e - s)) := by
  have hinfinity : cs ≠ "Infinity".toList := by
    rintro rfl
    exact hhead rfl
  unfold Decimal.readAbs at h
  unfold readUnsigned
  rw [if_neg hinfinity]
  generalize Decimal.digits cs = parts at h ⊢
  obtain ⟨whole, rest⟩ := parts
  split_ifs at h with hwhole
  replace hwhole : whole ≠ [] := hwhole
  replace h : Decimal.readFraction whole rest = ((n, s), behind) := Option.some.inj h
  dsimp only
  split
  · next fraction =>
      cases h
      simp [hwhole, hexponent]
  · next hpoint =>
      have hnone : Decimal.readFraction whole rest =
          ((Nat.ofDigitChars 10 whole 0, 0), rest) := by
        unfold Decimal.readFraction
        split
        · next fraction => exact absurd rfl (hpoint fraction)
        · rfl
      cases hnone.symm.trans h
      simp [hwhole, hexponent]

/-! ### The text of a number -/

theorem plain_toDigits (n : ℕ) : ∀ c ∈ Nat.toDigits 10 n, Plain c := fun c hc =>
  Or.inl (Decimal.isDigit_of_mem_toDigits c hc)

theorem plain_positional (n s : ℕ) : ∀ c ∈ Decimal.positional n s, Plain c := by
  intro c hc
  have hdigit : ∀ k, ∀ b ∈ Decimal.padded k n, Plain b := fun k b hb =>
    Or.inl (Decimal.isDigit_of_mem_padded b hb)
  unfold Decimal.positional at hc
  split_ifs at hc
  · exact hdigit 1 c hc
  · rcases List.mem_append.1 hc with hc | hc
    · exact hdigit _ c (List.mem_of_mem_take hc)
    · rcases List.mem_cons.1 hc with rfl | hc
      · exact Or.inr (by decide)
      · exact hdigit _ c (List.mem_of_mem_drop hc)

theorem plain_exponential (n s : ℕ) : ∀ c ∈ Decimal.exponential n s, Plain c := by
  have hkept : ∀ c ∈ Decimal.keptDigits n, Plain c := fun c hc =>
    Or.inl (Decimal.isDigit_of_mem_keptDigits c hc)
  intro c hc
  rcases List.mem_append.1 hc with hc | hc
  · rcases List.mem_append.1 hc with hc | hc
    · exact hkept c (List.mem_of_mem_take hc)
    · split_ifs at hc
      · cases hc
      · rcases List.mem_cons.1 hc with rfl | hc
        · exact Or.inr (by decide)
        · exact hkept c (List.mem_of_mem_drop hc)
  · rcases List.mem_cons.1 hc with rfl | hc
    · exact Or.inr (by decide)
    · rcases List.mem_cons.1 hc with rfl | hc
      · split_ifs <;> exact Or.inr (by decide)
      · exact plain_toDigits _ c hc

theorem plain_printAbs (n s : ℕ) : ∀ c ∈ Decimal.printAbs n s, Plain c := by
  unfold Decimal.printAbs
  dsimp only
  split_ifs
  · exact plain_positional n s
  · exact plain_exponential n s

/-- The text of a finite number reads back as it. -/
theorem literal_print (d : Decimal) : literal (String.ofList d.print) = .finite d := by
  obtain ⟨k, t, z, e, behind, hvalue, hshift, -, hread, hexponent⟩ :=
    @Decimal.reads_printAbs d.mantissa.natAbs d.scale [] (by intro c hc; cases hc)
  rw [List.append_nil] at hread
  have hd : scaled (if d.mantissa < 0 then -k else k) (e - t) = .finite d := by
    rw [scaled, hshift, Decimal.shift_kept hvalue]
  obtain ⟨c, cs, hc, hdigit⟩ := Decimal.printAbs_head d.mantissa.natAbs d.scale
  have hhead : (Decimal.printAbs d.mantissa.natAbs d.scale).head? ≠ some 'I' := by
    rw [hc]
    rintro heq
    cases heq
    cases hdigit
  have hplain := plain_printAbs d.mantissa.natAbs d.scale
  by_cases hneg : d.mantissa < 0
  · have hprint : (String.ofList d.print).toList =
        '-' :: Decimal.printAbs d.mantissa.natAbs d.scale := by
      simp [Decimal.print, hneg]
    rw [if_pos hneg] at hd
    rw [literal_negative hprint hplain, readUnsigned_of_readAbs true hread hexponent hhead]
    exact hd
  · have hprint : (String.ofList d.print).toList = c :: cs := by
      simp [Decimal.print, hneg, hc]
    rw [if_neg hneg] at hd
    rw [literal_unsigned hprint hdigit (hc ▸ hplain), ← hc,
      readUnsigned_of_readAbs false hread hexponent hhead]
    exact hd

/-- **The text of a number reads back as that number.** -/
theorem literal_numberText (n : Number) : literal (Value.numberText n) = n := by
  cases n with
  | nan => rfl
  | infinity negative => cases negative <;> rfl
  | finite d => exact literal_print d

/-- `Number(String(n))`. -/
theorem ofText_numberText (n : Number) : ofText (Value.numberText n) = n.double := by
  rw [ofText, literal_numberText]

/-- Two numbers of one text are one number. -/
theorem numberText_injective : Function.Injective Value.numberText := by
  intro m n h
  rw [← literal_numberText m, ← literal_numberText n, h]

/-- The text of a finite number holds nothing else. -/
theorem plain_numberText (d : Decimal) :
    ∀ c ∈ (Value.numberText (.finite d)).toList, Plain c := by
  intro c hc
  rw [Value.numberText, String.toList_ofList] at hc
  rcases List.mem_append.1 hc with hc | hc
  · split_ifs at hc
    · obtain rfl := List.mem_singleton.1 hc
      exact Or.inr (by decide)
    · cases hc
  · exact plain_printAbs _ _ c hc

end Jubs.Number
