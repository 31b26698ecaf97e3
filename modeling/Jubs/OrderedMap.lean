/-
**Maps that keep the order of their keys, and the renaming of keys.**

A map is the list of its entries, in the order their keys were first set.  Two maps that hold the
same values in the same order under different keys answer alike to a caller who calls each key by
the name it has there, as long as no key that is held shares its new name with another.

Main definitions:

* `OrderedMap.get`, `OrderedMap.set`, `OrderedMap.delete`, `OrderedMap.has` — the four operations;
* `OrderedMap.rename` — the same values under other keys;
* `OrderedMap.Separates` — a renaming that tells the keys of a map from all others;
* `OrderedMap.Related` — the same keys in the same order, with related values under them;
* `OrderedMap.nameOf` — the renaming by the order in which keys were given.

Main results:

* `OrderedMap.get_rename`, `OrderedMap.has_rename`, `OrderedMap.delete_rename` — **a map answers
  under the new names as it did under the old ones**;
* `OrderedMap.Related.get`, `OrderedMap.Related.has`, `OrderedMap.Related.delete` — and related maps
  give related answers;
* `OrderedMap.separates_nameOf`, `OrderedMap.nameOf_next` — keys that are named as they are given.
-/

import Mathlib.Data.List.Basic
import Mathlib.Data.List.Nodup

set_option autoImplicit false

namespace OrderedMap

variable {κ ι α : Type*}

/-! ### The operations -/

section

variable [DecidableEq κ]

/-- What is held under a key. -/
def get (l : List (κ × α)) (k : κ) : Option α := (l.find? fun e => e.1 = k).map Prod.snd

/-- Whether something is held under a key. -/
def has (l : List (κ × α)) (k : κ) : Bool := l.any fun e => e.1 = k

/-- A key that is held keeps its place, and a new one comes last. -/
def set (l : List (κ × α)) (k : κ) (a : α) : List (κ × α) :=
  if has l k then l.map fun e => if e.1 = k then (k, a) else e else l ++ [(k, a)]

/-- The other keys keep their places. -/
def delete (l : List (κ × α)) (k : κ) : List (κ × α) := l.filter fun e => e.1 ≠ k

theorem has_iff {l : List (κ × α)} {k : κ} : has l k = true ↔ ∃ e ∈ l, e.1 = k := by
  simp [has]

theorem set_of_new {l : List (κ × α)} {k : κ} (h : ∀ e ∈ l, e.1 ≠ k) (a : α) :
    set l k a = l ++ [(k, a)] := by
  rw [set, if_neg]
  rw [has_iff]
  rintro ⟨e, he, hk⟩
  exact h e he hk

theorem delete_of_not_has {l : List (κ × α)} {k : κ} (h : has l k = false) : delete l k = l := by
  rw [delete, List.filter_eq_self]
  intro e he
  refine decide_eq_true fun hk => ?_
  rw [has_iff.2 ⟨e, he, hk⟩] at h
  cases h

theorem has_eq (l : List (κ × α)) (k : κ) : has l k = (get l k).isSome := by
  induction l with
  | nil => rfl
  | cons e l ih =>
      have ih : (l.any fun e => e.1 = k) = ((l.find? fun e => e.1 = k).map Prod.snd).isSome := ih
      by_cases hk : e.1 = k
      · simp [has, get, hk]
      · simpa [has, get, hk] using ih

end

/-! ### Renaming -/

/-- The same values under other keys. -/
def rename (f : κ → ι) (l : List (κ × α)) : List (ι × α) := l.map fun e => (f e.1, e.2)

/-- No key that is held shares its new name with another. -/
def Separates (f : κ → ι) (l : List (κ × α)) : Prop := ∀ e ∈ l, ∀ k, f e.1 = f k → e.1 = k

theorem Separates.tail {f : κ → ι} {e : κ × α} {l : List (κ × α)} (h : Separates f (e :: l)) :
    Separates f l := fun e' he' => h e' (List.mem_cons_of_mem _ he')

theorem Separates.head_iff {f : κ → ι} {e : κ × α} {l : List (κ × α)} (h : Separates f (e :: l))
    {k : κ} : f e.1 = f k ↔ e.1 = k :=
  ⟨h e List.mem_cons_self k, congrArg f⟩

section

variable [DecidableEq κ] [DecidableEq ι]

theorem get_rename {f : κ → ι} {l : List (κ × α)} (h : Separates f l) (k : κ) :
    get (rename f l) (f k) = get l k := by
  induction l with
  | nil => rfl
  | cons e l ih =>
      have ih : ((rename f l).find? fun e => e.1 = f k).map Prod.snd =
          (l.find? fun e => e.1 = k).map Prod.snd := ih h.tail
      by_cases hk : e.1 = k
      · simp [get, rename, hk]
      · have hname : f e.1 ≠ f k := mt h.head_iff.1 hk
        simpa [get, rename, hk, hname] using ih

theorem has_rename {f : κ → ι} {l : List (κ × α)} (h : Separates f l) (k : κ) :
    has (rename f l) (f k) = has l k := by
  induction l with
  | nil => rfl
  | cons e l ih =>
      have ih : (rename f l).any (fun e => e.1 = f k) = l.any fun e => e.1 = k := ih h.tail
      simp only [has, rename, List.map_cons, List.any_cons, h.head_iff]
      exact congrArg _ ih

theorem delete_rename {f : κ → ι} {l : List (κ × α)} (h : Separates f l) (k : κ) :
    delete (rename f l) (f k) = rename f (delete l k) := by
  induction l with
  | nil => rfl
  | cons e l ih =>
      have ih : (rename f l).filter (fun e => e.1 ≠ f k) = rename f (l.filter fun e => e.1 ≠ k) :=
        ih h.tail
      by_cases hk : e.1 = k
      · simpa [delete, rename, hk] using ih
      · have hname : f e.1 ≠ f k := mt h.head_iff.1 hk
        simpa [delete, rename, hk, hname] using ih

end

/-! ### Related values under the same keys -/

/-- The same keys in the same order, with related values under them. -/
def Related {β : Type*} (R : α → β → Prop) (l : List (κ × α)) (l' : List (κ × β)) : Prop :=
  List.Forall₂ (fun e e' => e.1 = e'.1 ∧ R e.2 e'.2) l l'

section

variable {β : Type*} {R : α → β → Prop} {l : List (κ × α)} {l' : List (κ × β)}

theorem Related.append (h : Related R l l') (k : κ) {a : α} {b : β} (hab : R a b) :
    Related R (l ++ [(k, a)]) (l' ++ [(k, b)]) :=
  List.rel_append h (.cons ⟨rfl, hab⟩ .nil)

variable [DecidableEq κ]

theorem Related.get (h : Related R l l') (k : κ) :
    Option.Rel R (OrderedMap.get l k) (OrderedMap.get l' k) := by
  induction h with
  | nil => exact .none
  | @cons e e' l l' hhead _ ih =>
      obtain ⟨key, a⟩ := e
      obtain ⟨key', b⟩ := e'
      obtain ⟨rfl, hab⟩ := hhead
      by_cases hk : key = k
      · simpa [OrderedMap.get, hk] using hab
      · simpa [OrderedMap.get, hk] using ih

theorem Related.has (h : Related R l l') (k : κ) : OrderedMap.has l k = OrderedMap.has l' k := by
  induction h with
  | nil => rfl
  | @cons e e' l l' hhead _ ih =>
      have ih : (l.any fun e => e.1 = k) = l'.any fun e => e.1 = k := ih
      simp only [OrderedMap.has, List.any_cons, hhead.1, ih]

theorem Related.delete (h : Related R l l') (k : κ) :
    Related R (OrderedMap.delete l k) (OrderedMap.delete l' k) := by
  induction h with
  | nil => exact .nil
  | @cons e e' l l' hhead _ ih =>
      by_cases hk : e.1 = k
      · have hk' : e'.1 = k := hhead.1 ▸ hk
        simpa [OrderedMap.delete, hk, hk'] using ih
      · have hk' : e'.1 ≠ k := hhead.1 ▸ hk
        simpa [OrderedMap.delete, Related, hk, hk'] using And.intro hhead ih

end

/-! ### Keys that are named as they are given -/

variable [DecidableEq κ]

/-- A key is named by its place among the keys that are given. -/
def nameOf (mint : ℕ → ι) (given : List κ) (k : κ) : ι := mint (given.idxOf k)

/-- The names of keys that were given tell them from all others. -/
theorem separates_nameOf {mint : ℕ → ι} (hmint : Function.Injective mint) {given : List κ}
    {l : List (κ × α)} (h : ∀ e ∈ l, e.1 ∈ given) : Separates (nameOf mint given) l := by
  intro e he k hname
  have hidx : given.idxOf e.1 = given.idxOf k := hmint hname
  exact (List.idxOf_inj (h e he)).1 hidx

/-- The key that is given next has the next name. -/
theorem nameOf_next (mint : ℕ → ι) {before : List κ} {k : κ} (hnew : k ∉ before) (after : List κ) :
    nameOf mint (before ++ k :: after) k = mint before.length := by
  rw [nameOf, List.idxOf_append_of_notMem hnew, List.idxOf_cons_self, Nat.add_zero]

end OrderedMap
