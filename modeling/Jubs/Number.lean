/-
**JavaScript numbers.**

A number is a double, and is kept here by its text: the shortest decimal that is read as it.  Two of
them compare as these decimals do.  A number that is computed, or read from a text, is rounded to a
double first.

Main definitions:

* `Jubs.Number` — numbers;
* `Jubs.Number.lt`, `Jubs.Number.le`, `Jubs.Number.isInteger` — the comparisons and tests;
* `Jubs.Number.double`, `Jubs.Number.next` — rounding to a double, and `n + 1`;
* `Jubs.Number.literal`, `Jubs.Number.ofText` — what a text stands for, and `Number(text)`.
-/

import Jubs.Binary64
import Jubs.Json
import Mathlib.Algebra.Group.Int.Defs

set_option autoImplicit false

namespace Jubs

/-- A JavaScript number. -/
inductive Number where
  | finite (d : Decimal)
  | nan
  | infinity (negative : Bool)
deriving DecidableEq

namespace Number

instance (n : ℕ) : OfNat Number n := ⟨finite n⟩

/-- `a < b`. -/
def lt : Number → Number → Bool
  | .finite a, .finite b => a.toRat < b.toRat
  | .finite _, .infinity negative => !negative
  | .infinity negative, .finite _ => negative
  | .infinity negative, .infinity negative' => negative && !negative'
  | _, _ => false

/-- `a <= b`. -/
def le : Number → Number → Bool
  | .finite a, .finite b => a.toRat ≤ b.toRat
  | .finite _, .infinity negative => !negative
  | .infinity negative, .finite _ => negative
  | .infinity negative, .infinity negative' => negative || !negative'
  | _, _ => false

/-- `Number.isInteger`. -/
def isInteger : Number → Bool
  | .finite d => d.isInt
  | _ => false

/-- `Number.isFinite`. -/
def isFinite : Number → Bool
  | .finite _ => true
  | _ => false

/-! ### Doubles -/

/-- `m * 10 ^ e`, as it is written. -/
def scaled (m e : ℤ) : Number := .finite (.shift m e)

/-- A double, by its shortest text. -/
def ofDouble : Binary64.Double → Number
  | .finite x =>
      if x = 0 then 0
      else match Binary64.shortest |x| with
        | some (c, e) => scaled (if x < 0 then -c else c) e
        | none => .nan
  | .infinity negative => .infinity negative
  | .nan => .nan

/-- A number rounded to a double, which every number of the language is. -/
def double : Number → Number
  | .finite d => ofDouble (.ofRat d.toRat)
  | n => n

/-- `n + 1`. -/
def next : Number → Number
  | .finite d => ofDouble ((Binary64.Double.ofRat d.toRat).add (.finite 1))
  | n => n

/-- `n - 1`. -/
def pred : Number → Number
  | .finite d => .finite (.reduce (d.mantissa - 10 ^ d.scale) d.scale)
  | n => n

/-! ### Reading a text as a number -/

/-- The blanks `Number(text)` drops at both ends. -/
def blanks : List Char :=
  [' ', '\t', '\n', '\r', '\x0b', '\x0c', '\u00a0', '\u1680', '\u2000', '\u2001',
    '\u2002', '\u2003',
    '\u2004', '\u2005', '\u2006', '\u2007', '\u2008', '\u2009', '\u200a', '\u2028', '\u2029',
    '\u202f', '\u205f', '\u3000', '\ufeff']

/-- A text without the blanks at its ends. -/
def trim (cs : List Char) : List Char :=
  ((cs.dropWhile (· ∈ blanks)).reverse.dropWhile (· ∈ blanks)).reverse

/-- A decimal literal without a sign. -/
def readUnsigned (negative : Bool) (cs : List Char) : Option Number :=
  if cs = "Infinity".toList then some (.infinity negative)
  else
    let (whole, rest) := Decimal.digits cs
    let (fraction, rest) := match rest with
      | '.' :: rest => Decimal.digits rest
      | rest => ([], rest)
    if whole = [] ∧ fraction = [] then none
    else match Decimal.readExponent rest with
      | some (e, []) =>
          let n : ℤ := Nat.ofDigitChars 10 (whole ++ fraction) 0
          some (scaled (if negative then -n else n) (e - fraction.length))
      | _ => none

/-- The value of a digit in a base of at most sixteen. -/
def digitIn (base : ℕ) (c : Char) : Option ℕ := (Json.hexValue c).filter (· < base)

/-- A literal in another base, behind its two-character mark. -/
def readBase (base : ℕ) (cs : List Char) : Option Number :=
  if cs = [] then none
  else (cs.mapM (digitIn base)).map fun ds =>
    .finite (.ofInt (ds.foldl (fun n d => base * n + d) 0 : ℕ))

/-- The number a text stands for, before it is rounded. -/
def literal (text : String) : Number :=
  match trim text.toList with
  | [] => 0
  | '0' :: 'x' :: cs | '0' :: 'X' :: cs => (readBase 16 cs).getD .nan
  | '0' :: 'o' :: cs | '0' :: 'O' :: cs => (readBase 8 cs).getD .nan
  | '0' :: 'b' :: cs | '0' :: 'B' :: cs => (readBase 2 cs).getD .nan
  | '-' :: cs => (readUnsigned true cs).getD .nan
  | '+' :: cs => (readUnsigned false cs).getD .nan
  | cs => (readUnsigned false cs).getD .nan

/-- `Number(text)`. -/
def ofText (text : String) : Number := (literal text).double

end Number

end Jubs
