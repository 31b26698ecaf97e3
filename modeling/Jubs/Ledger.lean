/-
**A set of open keys, and two tables of settled ones.**

Somebody waits on a number of parties, each known by a key.  The keys of the parties that are still
out stand in a set, those that came back with a value in one table, those that were lost for a
reason in another, and a party may be dropped without a trace.  A lost party may be taken back.

Main definitions:

* `Ledger`, `Ledger.start` — the set and the two tables;
* `Ledger.complete`, `Ledger.fail`, `Ledger.drop`, `Ledger.revive` — one party moves;
* `Ledger.Place`, `Ledger.Agrees` — where a party is, and a ledger that says so of every party.

Main results:

* `Ledger.Agrees.complete`, `Ledger.Agrees.fail`, `Ledger.Agrees.drop`, `Ledger.Agrees.revive` —
  **each move keeps the ledger in agreement with where the parties are**;
* `Ledger.Agrees.processed_perm`, `Ledger.Agrees.failed_perm`, `Ledger.Agrees.card_pending` — the
  tables list exactly the parties that came back and those that were lost, and the set holds as many
  keys as parties are out.
-/

import Mathlib.Data.Finset.Basic
import Mathlib.Data.Finset.Card
import Mathlib.Data.Finset.Image
import Mathlib.Data.List.AList
import Mathlib.Data.List.FinRange
import Mathlib.Logic.Function.Basic
import Mathlib.Tactic.Common

set_option autoImplicit false

/-- The keys that are out, and those that settled either way. -/
structure Ledger (κ α β : Type) where
  pending : Finset κ
  processed : AList fun _ : κ => α
  failed : AList fun _ : κ => β

namespace Ledger

variable {ι κ α β : Type}

/-- Where a party is. -/
inductive Place (α β : Type) where
  | pending
  | done (a : α)
  | lost (b : β)
  | gone

/-- What a party came back with. -/
def Place.value : Place α β → Option α
  | .done a => some a
  | _ => none

/-- What a party was lost for. -/
def Place.reason : Place α β → Option β
  | .lost b => some b
  | _ => none

section Moves

variable [DecidableEq κ]

/-- Every key is out. -/
def start (keys : Finset κ) : Ledger κ α β := ⟨keys, ∅, ∅⟩

/-- A party that is out comes back with a value. -/
def complete (l : Ledger κ α β) (k : κ) (a : α) : Ledger κ α β :=
  if k ∈ l.pending then ⟨l.pending.erase k, l.processed.insert k a, l.failed⟩ else l

/-- A party that is out is lost. -/
def fail (l : Ledger κ α β) (k : κ) (b : β) : Ledger κ α β :=
  if k ∈ l.pending then ⟨l.pending.erase k, l.processed, l.failed.insert k b⟩ else l

/-- A party that is out leaves without a trace. -/
def drop (l : Ledger κ α β) (k : κ) : Ledger κ α β := { l with pending := l.pending.erase k }

/-- A lost party is taken back. -/
def revive (l : Ledger κ α β) (k : κ) : Ledger κ α β :=
  if (l.failed.lookup k).isSome then ⟨insert k l.pending, l.processed, l.failed.erase k⟩ else l

/-- What a ledger says of every party: its key is out, in one of the tables, or nowhere, according
to where the party is, and no other key is in it. -/
structure Agrees (l : Ledger κ α β) (key : ι → κ) (place : ι → Place α β) : Prop where
  pending : ∀ k, k ∈ l.pending ↔ ∃ i, key i = k ∧ place i = .pending
  processed : ∀ k a, l.processed.lookup k = some a ↔ ∃ i, key i = k ∧ place i = .done a
  failed : ∀ k b, l.failed.lookup k = some b ↔ ∃ i, key i = k ∧ place i = .lost b

variable {l : Ledger κ α β} {key : ι → κ} {place : ι → Place α β}

/-- A ledger that starts with the keys of all parties says that all are out. -/
theorem agrees_start [Fintype ι] (key : ι → κ) :
    (start (Finset.univ.image key) : Ledger κ α β).Agrees key fun _ => .pending := by
  refine ⟨?_, ?_, ?_⟩
  · intro k
    simp [start]
  · intro k a
    simp [start]
  · intro k b
    simp [start]

/-! ### One party moves -/

variable [DecidableEq ι]

/-- Who is at a place once the party `i` moved there or away from it. -/
theorem exists_update_iff (hkey : Function.Injective key) {i : ι} {p : Place α β} {k : κ}
    (q : Place α β) :
    (∃ j, key j = k ∧ Function.update place i p j = q) ↔
      if k = key i then p = q else ∃ j, key j = k ∧ place j = q := by
  split_ifs with hk
  · constructor
    · rintro ⟨j, hj, hp⟩
      obtain rfl : j = i := hkey (hj.trans hk)
      simpa using hp
    · intro hp
      exact ⟨i, hk.symm, by simpa using hp⟩
  · have hne : ∀ j, key j = k → j ≠ i := by
      rintro j rfl rfl
      exact hk rfl
    constructor
    · rintro ⟨j, hj, hp⟩
      exact ⟨j, hj, by rwa [Function.update_of_ne (hne j hj)] at hp⟩
    · rintro ⟨j, hj, hp⟩
      exact ⟨j, hj, by rwa [Function.update_of_ne (hne j hj)]⟩

/-- A move between two other places changes nothing about a place. -/
theorem exists_update_of_ne (hkey : Function.Injective key) {i : ι} {p q : Place α β} (hp : p ≠ q)
    (hi : place i ≠ q) (k : κ) :
    (∃ j, key j = k ∧ Function.update place i p j = q) ↔ ∃ j, key j = k ∧ place j = q := by
  rw [exists_update_iff hkey]
  split_ifs with hk
  · constructor
    · intro h
      exact absurd h hp
    · rintro ⟨j, hj, hq⟩
      obtain rfl : j = i := hkey (hj.trans hk)
      exact absurd hq hi
  · rfl

theorem Agrees.complete (h : l.Agrees key place) (hkey : Function.Injective key) {i : ι}
    (hi : place i = .pending) (a : α) :
    (l.complete (key i) a).Agrees key (Function.update place i (.done a)) := by
  have hmem : key i ∈ l.pending := (h.pending _).2 ⟨i, rfl, hi⟩
  rw [Ledger.complete, if_pos hmem]
  refine ⟨?_, ?_, ?_⟩
  · intro k
    rw [exists_update_iff hkey, Finset.mem_erase, h.pending]
    split_ifs with hk <;> simp [hk]
  · intro k b
    rw [exists_update_iff hkey]
    split_ifs with hk
    · subst hk
      simp
    · rw [AList.lookup_insert_ne hk, h.processed]
  · intro k b
    rw [exists_update_of_ne hkey (by simp) (by simp [hi]), h.failed]

theorem Agrees.fail (h : l.Agrees key place) (hkey : Function.Injective key) {i : ι}
    (hi : place i = .pending) (b : β) :
    (l.fail (key i) b).Agrees key (Function.update place i (.lost b)) := by
  have hmem : key i ∈ l.pending := (h.pending _).2 ⟨i, rfl, hi⟩
  rw [Ledger.fail, if_pos hmem]
  refine ⟨?_, ?_, ?_⟩
  · intro k
    rw [exists_update_iff hkey, Finset.mem_erase, h.pending]
    split_ifs with hk <;> simp [hk]
  · intro k a
    rw [exists_update_of_ne hkey (by simp) (by simp [hi]), h.processed]
  · intro k b'
    rw [exists_update_iff hkey]
    split_ifs with hk
    · subst hk
      simp
    · rw [AList.lookup_insert_ne hk, h.failed]

theorem Agrees.drop (h : l.Agrees key place) (hkey : Function.Injective key) {i : ι}
    (hi : place i = .pending) : (l.drop (key i)).Agrees key (Function.update place i .gone) := by
  refine ⟨?_, ?_, ?_⟩
  · intro k
    rw [exists_update_iff hkey, Ledger.drop, Finset.mem_erase, h.pending]
    split_ifs with hk <;> simp [hk]
  · intro k a
    rw [exists_update_of_ne hkey (by simp) (by simp [hi]), Ledger.drop, h.processed]
  · intro k b
    rw [exists_update_of_ne hkey (by simp) (by simp [hi]), Ledger.drop, h.failed]

theorem Agrees.revive (h : l.Agrees key place) (hkey : Function.Injective key) {i : ι} {b : β}
    (hi : place i = .lost b) :
    (l.revive (key i)).Agrees key (Function.update place i .pending) := by
  have hlost : l.failed.lookup (key i) = some b := (h.failed _ _).2 ⟨i, rfl, hi⟩
  rw [Ledger.revive, if_pos (by simp [hlost])]
  refine ⟨?_, ?_, ?_⟩
  · intro k
    rw [exists_update_iff hkey, Finset.mem_insert, h.pending]
    split_ifs with hk <;> simp [hk]
  · intro k a
    rw [exists_update_of_ne hkey (by simp) (by simp [hi]), h.processed]
  · intro k b'
    rw [exists_update_iff hkey]
    split_ifs with hk
    · subst hk
      simp
    · rw [AList.lookup_erase_ne hk, h.failed]

end Moves

/-! ### Reading a ledger in agreement -/

section Reading

variable [DecidableEq κ] {n : ℕ} {l : Ledger κ α β} {key : Fin n → κ} {place : Fin n → Place α β}

/-- With nobody out and nobody lost, everybody came back or left without a trace. -/
theorem Agrees.settled (h : l.Agrees key place) (hpending : l.pending = ∅) (hfailed : l.failed = ∅)
    (i : Fin n) : (∃ a, place i = .done a) ∨ place i = .gone := by
  cases hi : place i with
  | pending =>
      have hmem : key i ∈ l.pending := (h.pending _).2 ⟨i, rfl, hi⟩
      simp [hpending] at hmem
  | done a => exact Or.inl ⟨a, rfl⟩
  | lost b =>
      have hlost : l.failed.lookup (key i) = some b := (h.failed _ _).2 ⟨i, rfl, hi⟩
      simp [hfailed] at hlost
  | gone => exact Or.inr rfl

/-- A table whose keys are those of some parties lists exactly these parties, in some order. -/
theorem entries_perm {γ : Type} {table : AList fun _ : κ => γ} {value : Fin n → Option γ}
    (h : ∀ k c, table.lookup k = some c ↔ ∃ i, key i = k ∧ value i = some c)
    (hkey : Function.Injective key) :
    (table.entries.map fun e => (e.1, e.2)).Perm
      ((List.finRange n).filterMap fun i => (value i).map fun c => (key i, c)) := by
  have hnodup : (table.entries.map fun e => (e.1, e.2)).Nodup := by
    refine List.Nodup.of_map Prod.fst ?_
    rw [List.map_map]
    exact table.nodupKeys
  refine (List.perm_ext_iff_of_nodup hnodup ?_).2 ?_
  · refine (List.nodup_finRange n).filterMap ?_
    intro i j p hi hj
    obtain ⟨a, -, rfl⟩ := Option.map_eq_some_iff.1 hi
    obtain ⟨b, -, hp⟩ := Option.map_eq_some_iff.1 hj
    exact hkey (Prod.ext_iff.1 hp).1.symm
  · rintro ⟨k, c⟩
    have hentry : (k, c) ∈ table.entries.map (fun e => (e.1, e.2)) ↔ table.lookup k = some c := by
      rw [← Option.mem_def, AList.mem_lookup_iff]
      constructor
      · intro hmem
        obtain ⟨⟨k', c'⟩, hentry, heq⟩ := List.mem_map.1 hmem
        cases heq
        exact hentry
      · intro hmem
        exact List.mem_map.2 ⟨_, hmem, rfl⟩
    rw [hentry, h, List.mem_filterMap]
    constructor
    · rintro ⟨i, rfl, hi⟩
      exact ⟨i, List.mem_finRange i, by simp [hi]⟩
    · rintro ⟨i, -, hi⟩
      obtain ⟨c', hc', heq⟩ := Option.map_eq_some_iff.1 hi
      obtain ⟨rfl, rfl⟩ := Prod.ext_iff.1 heq
      exact ⟨i, rfl, hc'⟩

theorem Place.value_eq_some {place : Place α β} {a : α} :
    place.value = some a ↔ place = .done a := by
  cases place <;> simp [Place.value]

theorem Place.reason_eq_some {place : Place α β} {b : β} :
    place.reason = some b ↔ place = .lost b := by
  cases place <;> simp [Place.reason]

/-- **The first table lists exactly the parties that came back**, in some order. -/
theorem Agrees.processed_perm (h : l.Agrees key place) (hkey : Function.Injective key) :
    (l.processed.entries.map fun e => (e.1, e.2)).Perm
      ((List.finRange n).filterMap fun i => (place i).value.map fun a => (key i, a)) := by
  refine entries_perm ?_ hkey
  simpa only [Place.value_eq_some] using h.processed

/-- **And the second exactly those that were lost.** -/
theorem Agrees.failed_perm (h : l.Agrees key place) (hkey : Function.Injective key) :
    (l.failed.entries.map fun e => (e.1, e.2)).Perm
      ((List.finRange n).filterMap fun i => (place i).reason.map fun b => (key i, b)) := by
  refine entries_perm ?_ hkey
  simpa only [Place.reason_eq_some] using h.failed

/-- Whether a party is out. -/
def Place.isPending : Place α β → Bool
  | .pending => true
  | _ => false

theorem Place.isPending_iff {place : Place α β} : place.isPending = true ↔ place = .pending := by
  cases place <;> simp [Place.isPending]

/-- And the set holds as many keys as parties are out. -/
theorem Agrees.card_pending (h : l.Agrees key place) (hkey : Function.Injective key) :
    l.pending.card = (List.finRange n).countP fun i => (place i).isPending := by
  have hpending : l.pending = ((List.finRange n).filter fun i => (place i).isPending).toFinset.image
      key := by
    ext k
    rw [h.pending]
    simp [Place.isPending_iff, and_comm]
  rw [hpending, Finset.card_image_of_injective _ hkey, List.toFinset_card_of_nodup,
    List.countP_eq_length_filter]
  exact (List.nodup_finRange n).filter _

end Reading

end Ledger
