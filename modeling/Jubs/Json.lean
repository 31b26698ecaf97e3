/-
**JSON values, their text, and reading the text back.**

The data type of JSON values, the text a serializer without spacing writes for one, and a reader
of texts, with blanks between their parts or without.  The reader works by recursive descent with a
bound on the depth it may visit; the bound it is given, the length of the text, is always enough for
a text that was written here.

Main definitions:

* `Json` — JSON values, with object fields in order;
* `Json.stringify` — the text of a value;
* `Json.parse` — the value of a text.

Main results:

* `Json.readString_quoted`, `Json.readValue_print` — reading what was written, with anything
  after it that cannot continue a number;
* `Json.parse_stringify` — **the text of a value reads back as that value**;
* `Json.stringify_obj_head` — the text of an object starts with a brace.
-/

import Jubs.Decimal

set_option autoImplicit false

/-- JSON values.  The fields of an object are kept in the order they are written in. -/
inductive Json where
  | null
  | bool (b : Bool)
  | num (d : Decimal)
  | str (s : String)
  | arr (items : List Json)
  | obj (fields : List (String × Json))

namespace Json

/-! ### Writing -/

/-- The hexadecimal digit of a number below sixteen. -/
def hexDigit (n : ℕ) : Char := Nat.digitChar n

/-- How one character stands inside a quoted text. -/
def escape (c : Char) : List Char :=
  if c = '"' then ['\\', '"']
  else if c = '\\' then ['\\', '\\']
  else if c = '\n' then ['\\', 'n']
  else if c = '\r' then ['\\', 'r']
  else if c = '\t' then ['\\', 't']
  else if c = '\x08' then ['\\', 'b']
  else if c = '\x0c' then ['\\', 'f']
  else if c.toNat < 32 then ['\\', 'u', '0', '0', hexDigit (c.toNat / 16), hexDigit (c.toNat % 16)]
  else [c]

/-- A quoted text. -/
def quoted (cs : List Char) : List Char := '"' :: (cs.flatMap escape ++ ['"'])

mutual

/-- The text of a value. -/
def print : Json → List Char
  | .null => ['n', 'u', 'l', 'l']
  | .bool true => ['t', 'r', 'u', 'e']
  | .bool false => ['f', 'a', 'l', 's', 'e']
  | .num d => d.print
  | .str s => quoted s.toList
  | .arr [] => ['[', ']']
  | .arr (x :: xs) => '[' :: (print x ++ printItems xs)
  | .obj [] => ['{', '}']
  | .obj ((k, v) :: fs) => '{' :: (quoted k.toList ++ ':' :: (print v ++ printFields fs))

/-- The items after the first one, and the closing bracket. -/
def printItems : List Json → List Char
  | [] => [']']
  | x :: xs => ',' :: (print x ++ printItems xs)

/-- The fields after the first one, and the closing brace. -/
def printFields : List (String × Json) → List Char
  | [] => ['}']
  | (k, v) :: fs => ',' :: (quoted k.toList ++ ':' :: (print v ++ printFields fs))

end

/-- The text of a value, with no spacing. -/
def stringify (j : Json) : String := String.ofList (print j)

/-! ### Reading -/

/-- The value of a hexadecimal digit. -/
def hexValue (c : Char) : Option ℕ :=
  if c.isDigit then some (c.toNat - 48)
  else if 97 ≤ c.toNat ∧ c.toNat ≤ 102 then some (c.toNat - 87)
  else if 65 ≤ c.toNat ∧ c.toNat ≤ 70 then some (c.toNat - 55)
  else none

/-- The character a short escape stands for. -/
def unescape : Char → Option Char
  | 'n' => some '\n'
  | 'r' => some '\r'
  | 't' => some '\t'
  | 'b' => some '\x08'
  | 'f' => some '\x0c'
  | '"' => some '"'
  | '\\' => some '\\'
  | '/' => some '/'
  | _ => none

/-- The character four hexadecimal digits stand for. -/
def fromHex (a b c d : Char) : Option Char := do
  let a ← hexValue a
  let b ← hexValue b
  let c ← hexValue c
  let d ← hexValue d
  return Char.ofNat (((a * 16 + b) * 16 + c) * 16 + d)

/-- Reads the rest of a quoted text, up to and including the closing quote. -/
def readString : List Char → Option (List Char × List Char)
  | '"' :: cs => some ([], cs)
  | '\\' :: 'u' :: a :: b :: c :: d :: cs => do
      let x ← fromHex a b c d
      let p ← readString cs
      return (x :: p.1, p.2)
  | '\\' :: e :: cs => do
      let x ← unescape e
      let p ← readString cs
      return (x :: p.1, p.2)
  -- a control character stands in a text in its escaped form only
  | c :: cs => if c.toNat < 32 then none else (readString cs).map fun p => (c :: p.1, p.2)
  | [] => none

/-- The blanks that may stand between the parts of a text. -/
def blanks : List Char := [' ', '\t', '\n', '\r']

/-- A text without the blanks at its front. -/
def skip (cs : List Char) : List Char := cs.dropWhile (· ∈ blanks)

theorem skip_cons {c : Char} (h : c ∉ blanks) (cs : List Char) : skip (c :: cs) = c :: cs := by
  rw [skip, List.dropWhile_cons_of_neg (by simpa using h)]

mutual

/-- Reads a value off the front of a text, visiting at most the given depth. -/
def readValue : ℕ → List Char → Option (Json × List Char)
  | 0, _ => none
  | n + 1, cs =>
      match skip cs with
      | 'n' :: 'u' :: 'l' :: 'l' :: cs => some (.null, cs)
      | 't' :: 'r' :: 'u' :: 'e' :: cs => some (.bool true, cs)
      | 'f' :: 'a' :: 'l' :: 's' :: 'e' :: cs => some (.bool false, cs)
      | '"' :: cs => (readString cs).map fun p => (.str (String.ofList p.1), p.2)
      | '[' :: cs =>
          match skip cs with
          | ']' :: cs => some (.arr [], cs)
          | cs => do
              let x ← readValue n cs
              let xs ← readItems n x.2
              return (.arr (x.1 :: xs.1), xs.2)
      | '{' :: cs =>
          match skip cs with
          | '}' :: cs => some (.obj [], cs)
          | cs => do
              let f ← readField n cs
              let fs ← readFields n f.2
              return (.obj (f.1 :: fs.1), fs.2)
      | cs => (Decimal.read cs).map fun p => (.num p.1, p.2)

/-- Reads the items after the first one, and the closing bracket. -/
def readItems : ℕ → List Char → Option (List Json × List Char)
  | 0, _ => none
  | n + 1, cs =>
      match skip cs with
      | ']' :: cs => some ([], cs)
      | ',' :: cs => do
          let x ← readValue n cs
          let xs ← readItems n x.2
          return (x.1 :: xs.1, xs.2)
      | _ => none

/-- Reads one field. -/
def readField : ℕ → List Char → Option ((String × Json) × List Char)
  | 0, _ => none
  | n + 1, cs =>
      match skip cs with
      | '"' :: cs => do
          let k ← readString cs
          match skip k.2 with
          | ':' :: cs =>
              let v ← readValue n cs
              return ((String.ofList k.1, v.1), v.2)
          | _ => none
      | _ => none

/-- Reads the fields after the first one, and the closing brace. -/
def readFields : ℕ → List Char → Option (List (String × Json) × List Char)
  | 0, _ => none
  | n + 1, cs =>
      match skip cs with
      | '}' :: cs => some ([], cs)
      | ',' :: cs => do
          let f ← readField n cs
          let fs ← readFields n f.2
          return (f.1 :: fs.1, fs.2)
      | _ => none

end

/-- The value of a text, when the whole text is one value. -/
def parse (s : String) : Option Json :=
  match readValue (s.toList.length + 1) s.toList with
  | some (j, cs) => if skip cs = [] then some j else none
  | none => none

/-! ### Reading back what was written -/

theorem hexValue_hexDigit : ∀ n, n < 16 → hexValue (hexDigit n) = some n := by decide

theorem readString_control {c : Char} (hc : c.toNat < 32) (cs : List Char) :
    readString ('\\' :: 'u' :: '0' :: '0' :: hexDigit (c.toNat / 16) :: hexDigit
      (c.toNat % 16) :: cs) = (readString cs).map fun p => (c :: p.1, p.2) := by
  have h₀ : hexValue '0' = some 0 := by decide
  have h₁ := hexValue_hexDigit (c.toNat / 16) (by omega)
  have h₂ := hexValue_hexDigit (c.toNat % 16) (by omega)
  have hn : ((0 * 16 + 0) * 16 + c.toNat / 16) * 16 + c.toNat % 16 = c.toNat := by omega
  have hx : fromHex '0' '0' (hexDigit (c.toNat / 16)) (hexDigit (c.toNat % 16)) = some c := by
    simp only [fromHex, h₀, h₁, h₂, Option.bind_eq_bind, Option.bind_some, hn]
    simp
  simp only [readString, hx, Option.bind_eq_bind, Option.bind_some]
  cases readString cs <;> rfl

theorem readString_plain {c : Char} (h₁ : c ≠ '"') (h₂ : c ≠ '\\') (h₃ : ¬c.toNat < 32)
    (cs : List Char) : readString (c :: cs) = (readString cs).map fun p => (c :: p.1, p.2) := by
  rw [readString.eq_def]
  split <;> simp_all

/-- A short escape reads as the character it stands for. -/
theorem readString_short {e c : Char} (hu : e ≠ 'u') (h : unescape e = some c) (cs : List Char) :
    readString ('\\' :: e :: cs) = (readString cs).map fun p => (c :: p.1, p.2) := by
  rw [readString.eq_3 e cs fun _ _ _ _ _ he _ => hu he, h]
  cases readString cs <;> rfl

/-- An escaped character reads back as that character. -/
theorem readString_escape (c : Char) (cs : List Char) :
    readString (escape c ++ cs) = (readString cs).map fun p => (c :: p.1, p.2) := by
  unfold escape
  split
  · next h => subst h; exact readString_short (by decide) rfl cs
  split
  · next h => subst h; exact readString_short (by decide) rfl cs
  split
  · next h => subst h; exact readString_short (by decide) rfl cs
  split
  · next h => subst h; exact readString_short (by decide) rfl cs
  split
  · next h => subst h; exact readString_short (by decide) rfl cs
  split
  · next h => subst h; exact readString_short (by decide) rfl cs
  split
  · next h => subst h; exact readString_short (by decide) rfl cs
  split
  · next h => exact readString_control h cs
  · next h₁ h₂ _ _ _ _ _ h₃ => exact readString_plain h₁ h₂ h₃ cs

/-- A quoted text reads back, up to its closing quote. -/
theorem readString_quoted (cs rest : List Char) :
    readString (cs.flatMap escape ++ '"' :: rest) = some (cs, rest) := by
  induction cs with
  | nil => rfl
  | cons c cs ih =>
      rw [List.flatMap_cons, List.append_assoc, readString_escape, ih]
      rfl

mutual

/-- How deep reading a value goes. -/
def depth : Json → ℕ
  | .arr (x :: xs) => depth x + depthItems xs + 1
  | .obj ((_, v) :: fs) => depth v + depthFields fs + 2
  | _ => 1

/-- How deep reading the remaining items goes. -/
def depthItems : List Json → ℕ
  | [] => 1
  | x :: xs => depth x + depthItems xs + 1

/-- How deep reading the remaining fields goes. -/
def depthFields : List (String × Json) → ℕ
  | [] => 1
  | (_, v) :: fs => depth v + depthFields fs + 2

end

/-- No number begins with a character that begins anything else. -/
theorem ne_of_number {c : Char} (hc : c.isDigit = true ∨ c = '-') :
    ∀ x ∈ ['n', 't', 'f', '"', '[', '{', ']'] ++ blanks, c ≠ x := by
  rintro x hx rfl
  have hnone : ((['n', 't', 'f', '"', '[', '{', ']'] ++ blanks).all fun b =>
      !b.isDigit && b != '-') = true := by decide
  have := List.all_eq_true.1 hnone c hx
  rcases hc with hdigit | rfl
  · simp [hdigit] at this
  · cases this

theorem readValue_number (n : ℕ) {c : Char} (hc : c.isDigit = true ∨ c = '-') (cs : List Char) :
    readValue (n + 1) (c :: cs) = (Decimal.read (c :: cs)).map fun p => (.num p.1, p.2) := by
  have hne := ne_of_number hc
  have hblank : c ∉ blanks := fun h => hne c (List.mem_append_right _ h) rfl
  simp only [List.cons_append, List.mem_cons, forall_eq_or_imp] at hne
  obtain ⟨h₁, h₂, h₃, h₄, h₅, h₆, -⟩ := hne
  rw [readValue.eq_def]
  simp only [skip_cons hblank]
  split <;> simp_all

theorem decimal_print_head (d : Decimal) :
    ∃ c cs, d.print = c :: cs ∧ (c.isDigit = true ∨ c = '-') := by
  obtain ⟨c, cs, h, hc⟩ := Decimal.printAbs_head d.mantissa.natAbs d.scale
  by_cases hneg : d.mantissa < 0
  · exact ⟨'-', _, by simp [Decimal.print, hneg]; rfl, Or.inr rfl⟩
  · exact ⟨c, cs, by simp [Decimal.print, hneg, h], Or.inl hc⟩

theorem ends_cons {c : Char} (h : c.isDigit = false ∧ c ≠ '.' ∧ c ≠ 'e' ∧ c ≠ 'E')
    (cs : List Char) : Decimal.Ends (c :: cs) := by
  intro x hx
  obtain rfl : c = x := by simpa using hx
  exact h

theorem ends_printItems (xs : List Json) (rest : List Char) :
    Decimal.Ends (printItems xs ++ rest) := by
  cases xs with
  | nil => exact ends_cons (by decide) _
  | cons x xs => exact ends_cons (by decide) _

theorem ends_printFields (fs : List (String × Json)) (rest : List Char) :
    Decimal.Ends (printFields fs ++ rest) := by
  cases fs with
  | nil => exact ends_cons (by decide) _
  | cons f fs => exact ends_cons (by decide) _

/-- The text of a value begins with neither a closing bracket nor a blank. -/
theorem print_head (j : Json) : ∃ c cs, print j = c :: cs ∧ c ≠ ']' ∧ c ∉ blanks := by
  cases j with
  | null => exact ⟨'n', _, by rw [print], by decide⟩
  | bool b => cases b <;> exact ⟨_, _, by rw [print], by decide⟩
  | num d =>
      obtain ⟨c, cs, h, hc⟩ := decimal_print_head d
      have hne := ne_of_number hc
      refine ⟨c, cs, by rw [print, h], hne ']' (by decide), ?_⟩
      exact fun hblank => hne c (List.mem_append_right _ hblank) rfl
  | str s => exact ⟨'"', _, by rw [print]; rfl, by decide⟩
  | arr items => cases items <;> exact ⟨'[', _, by rw [print], by decide⟩
  | obj fields => cases fields <;> exact ⟨'{', _, by rw [print], by decide⟩

theorem readValue_items (n : ℕ) {c : Char} (hc : c ≠ ']') (hblank : c ∉ blanks) (cs : List Char) :
    readValue (n + 1) ('[' :: c :: cs) = (do
      let x ← readValue n (c :: cs)
      let xs ← readItems n x.2
      return (.arr (x.1 :: xs.1), xs.2)) := by
  rw [readValue.eq_def]
  simp only [skip_cons (show '[' ∉ blanks by decide), skip_cons hblank]
  split <;> simp_all

theorem readValue_fields (n : ℕ) (cs : List Char) :
    readValue (n + 1) ('{' :: '"' :: cs) = (do
      let f ← readField n ('"' :: cs)
      let fs ← readFields n f.2
      return (.obj (f.1 :: fs.1), fs.2)) := by
  rw [readValue.eq_def]
  rfl

theorem depth_pos (j : Json) : 0 < depth j := by
  unfold depth
  split <;> omega

theorem readField_print {n : ℕ} {k : String} {v : Json} {rest : List Char}
    (h : readValue n (print v ++ rest) = some (v, rest)) :
    readField (n + 1) (quoted k.toList ++ ':' :: (print v ++ rest)) = some ((k, v), rest) := by
  have hk := readString_quoted k.toList (':' :: (print v ++ rest))
  simp [quoted, readField, hk, h, skip, blanks]

mutual

/-- **Reading a value that was written**, whatever follows that cannot continue a number. -/
theorem readValue_print (j : Json) (n : ℕ) (rest : List Char) (hn : depth j ≤ n)
    (hr : Decimal.Ends rest) : readValue n (print j ++ rest) = some (j, rest) := by
  have hpos := depth_pos j
  obtain ⟨m, rfl⟩ : ∃ m, n = m + 1 := ⟨n - 1, by omega⟩
  match j with
  | .null => simp [print, readValue, skip, blanks]
  | .bool true => simp [print, readValue, skip, blanks]
  | .bool false => simp [print, readValue, skip, blanks]
  | .num d =>
      obtain ⟨c, cs, h, hc⟩ := decimal_print_head d
      have hd := Decimal.read_print d hr
      rw [h, List.cons_append] at hd
      rw [print, h, List.cons_append, readValue_number m hc, hd]
      rfl
  | .str s =>
      have hs := readString_quoted s.toList rest
      simp [print, quoted, readValue, hs, skip, blanks]
  | .arr [] => simp [print, readValue, skip, blanks]
  | .arr (x :: xs) =>
      simp only [depth] at hn
      have hx := readValue_print x m (printItems xs ++ rest) (by omega) (ends_printItems xs rest)
      have hxs := readItems_print xs m rest (by omega)
      obtain ⟨c, cs, hc, hne, hblank⟩ := print_head x
      rw [hc, List.cons_append] at hx
      simp [print, hc, readValue_items m hne hblank, hx, hxs]
  | .obj [] => simp [print, readValue, skip, blanks]
  | .obj ((k, v) :: fs) =>
      simp only [depth] at hn
      obtain ⟨l, rfl⟩ : ∃ l, m = l + 1 := ⟨m - 1, by omega⟩
      have hv := readValue_print v l (printFields fs ++ rest) (by omega) (ends_printFields fs rest)
      have hf := readField_print (k := k) hv
      have hfs := readFields_print fs (l + 1) rest (by omega)
      simp only [quoted, List.cons_append, List.append_assoc, List.nil_append] at hf
      simp only [print, quoted, List.cons_append, List.append_assoc, List.nil_append,
        readValue_fields]
      simp [hf, hfs]

theorem readItems_print (xs : List Json) (n : ℕ) (rest : List Char) (hn : depthItems xs ≤ n) :
    readItems n (printItems xs ++ rest) = some (xs, rest) := by
  match xs with
  | [] =>
      obtain ⟨m, rfl⟩ : ∃ m, n = m + 1 := ⟨n - 1, by simp only [depthItems] at hn; omega⟩
      simp [printItems, readItems, skip, blanks]
  | x :: xs =>
      simp only [depthItems] at hn
      obtain ⟨m, rfl⟩ : ∃ m, n = m + 1 := ⟨n - 1, by omega⟩
      have hx := readValue_print x m (printItems xs ++ rest) (by omega) (ends_printItems xs rest)
      have hxs := readItems_print xs m rest (by omega)
      simp [printItems, readItems, hx, hxs, skip, blanks]

theorem readFields_print (fs : List (String × Json)) (n : ℕ) (rest : List Char)
    (hn : depthFields fs ≤ n) : readFields n (printFields fs ++ rest) = some (fs, rest) := by
  match fs with
  | [] =>
      obtain ⟨m, rfl⟩ : ∃ m, n = m + 1 := ⟨n - 1, by simp only [depthFields] at hn; omega⟩
      simp [printFields, readFields, skip, blanks]
  | (k, v) :: fs =>
      simp only [depthFields] at hn
      obtain ⟨m, rfl⟩ : ∃ m, n = m + 2 := ⟨n - 2, by omega⟩
      have hv := readValue_print v m (printFields fs ++ rest) (by omega) (ends_printFields fs rest)
      have hf := readField_print (k := k) hv
      have hfs := readFields_print fs (m + 1) rest (by omega)
      simp only [printFields, List.cons_append, List.append_assoc] at hf ⊢
      rw [readFields, skip_cons (by decide)]
      simp [hf, hfs]

end

mutual

/-- The length of a text bounds the depth of reading it. -/
theorem depth_le_length (j : Json) : depth j ≤ (print j).length := by
  match j with
  | .null => simp [depth, print]
  | .bool true => simp [depth, print]
  | .bool false => simp [depth, print]
  | .num d =>
      obtain ⟨c, cs, h, -⟩ := decimal_print_head d
      simp [depth, print, h]
  | .str s => simp [depth, print, quoted]
  | .arr [] => simp [depth, print]
  | .arr (x :: xs) =>
      have hx := depth_le_length x
      have hxs := depthItems_le_length xs
      simp only [depth, print, List.length_cons, List.length_append]
      omega
  | .obj [] => simp [depth, print]
  | .obj ((k, v) :: fs) =>
      have hv := depth_le_length v
      have hfs := depthFields_le_length fs
      simp only [depth, print, quoted, List.length_cons, List.length_append]
      omega

theorem depthItems_le_length (xs : List Json) : depthItems xs ≤ (printItems xs).length := by
  match xs with
  | [] => simp [depthItems, printItems]
  | x :: xs =>
      have hx := depth_le_length x
      have hxs := depthItems_le_length xs
      simp only [depthItems, printItems, List.length_cons, List.length_append]
      omega

theorem depthFields_le_length (fs : List (String × Json)) :
    depthFields fs ≤ (printFields fs).length := by
  match fs with
  | [] => simp [depthFields, printFields]
  | (k, v) :: fs =>
      have hv := depth_le_length v
      have hfs := depthFields_le_length fs
      simp only [depthFields, printFields, quoted, List.length_cons, List.length_append]
      omega

end

/-- **The text of a value reads back as that value.** -/
theorem parse_stringify (j : Json) : parse (stringify j) = some j := by
  have hdepth : depth j ≤ (print j).length + 1 := (depth_le_length j).trans (Nat.le_succ _)
  have hread := readValue_print j _ [] hdepth (by simp [Decimal.Ends])
  rw [List.append_nil] at hread
  have hskip : skip [] = [] := rfl
  simp [parse, stringify, hread, hskip]

/-- The text of an object starts with a brace. -/
theorem stringify_obj_head (fs : List (String × Json)) :
    ∃ cs, (stringify (.obj fs)).toList = '{' :: cs := by
  cases fs with
  | nil => exact ⟨['}'], by simp [stringify, print]⟩
  | cons f fs => exact ⟨_, by simp only [stringify, String.toList_ofList, print]; rfl⟩

example : parse "[1e2, \"a\"]\n" = some (.arr [.num 100, .str "a"]) := by rfl

example : stringify (.obj [("a", .arr [.num 1, .null]), ("b", .str "x\"")]) =
    "\x7b\"a\":[1,null],\"b\":\"x\\\"\"\x7d" := by decide

end Json
