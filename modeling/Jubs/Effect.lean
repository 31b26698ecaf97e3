/-
**Computations that emit, that may fail, and that may never settle.**

A chain of awaited steps emits what an observer sees of it, and settles with a value, settles with
an error, or hangs on a step that never settles.  What was emitted before an error stays emitted.

Main definitions:

* `Effect` — such a computation: nothing when it hangs, or what it emitted and how it settled;
* `Effect.emit`, `Effect.fail`, `Effect.await` — emitting, failing, and waiting for an answer;
* `Effect.onError` — what a `catch` does;
* `Effect.Quiet`, `Effect.Fails` — a computation that emits nothing, and one whose errors satisfy a
  predicate.

Main results:

* `Effect.bind_eq_some_iff` — **the two ways a chain settles**;
* `Effect.Quiet.bind`, `Effect.Fails.bind` — both properties compose.
-/

import Mathlib.Data.List.Basic
import Mathlib.Data.Option.Basic
import Mathlib.Tactic.Common

set_option autoImplicit false

/-- A computation that emits values of type `ω`, and settles with an `α`, or with an error. -/
def Effect (ω ε α : Type) : Type := Option (List ω × Except ε α)

/-- What somebody else answers: a value or an error, and nothing when the answer never comes. -/
abbrev Answer (ε α : Type) : Type := Option (Except ε α)

namespace Effect

variable {ω ε α β : Type}

/-- A computation that settles at once. -/
protected def pure (a : α) : Effect ω ε α := some ([], .ok a)

/-- A computation that fails at once. -/
def fail (e : ε) : Effect ω ε α := some ([], .error e)

/-- One step after another. -/
protected def bind (x : Effect ω ε α) (f : α → Effect ω ε β) : Effect ω ε β :=
  match x with
  | none => none
  | some (l, .error e) => some (l, .error e)
  | some (l, .ok a) => Option.map (fun p => (l ++ p.1, p.2)) (f a)

instance : Monad (Effect ω ε) where
  pure := Effect.pure
  bind := Effect.bind

/-- Emits one value. -/
def emit (w : ω) : Effect ω ε Unit := some ([w], .ok ())

/-- Waits for an answer. -/
def await (answer : Answer ε α) : Effect ω ε α := answer.map fun r => ([], r)

/-- What is known at once. -/
def ofExcept (r : Except ε α) : Effect ω ε α := some ([], r)

/-- Handles an error. -/
def onError (x : Effect ω ε α) (handle : ε → Effect ω ε α) : Effect ω ε α :=
  match x with
  | none => none
  | some (l, .ok a) => some (l, .ok a)
  | some (l, .error e) => Option.map (fun p => (l ++ p.1, p.2)) (handle e)

/-- The outcome of a computation as a value. -/
def attempt (x : Effect ω ε α) : Effect ω ε (Except ε α) := Option.map (fun p => (p.1, .ok p.2)) x

/-! ### How a computation settles -/

@[simp] theorem pure_eq (a : α) : (pure a : Effect ω ε α) = some ([], .ok a) := rfl

/-- **The two ways a chain settles**: its first step fails, or both steps settle one after the
other. -/
theorem bind_eq_some_iff {x : Effect ω ε α} {f : α → Effect ω ε β} {l : List ω} {r : Except ε β} :
    (x >>= f) = some (l, r) ↔
      (∃ e, x = some (l, .error e) ∧ r = .error e) ∨
        ∃ a l₁ l₂, x = some (l₁, .ok a) ∧ f a = some (l₂, r) ∧ l = l₁ ++ l₂ := by
  change Effect.bind x f = some (l, r) ↔ _
  rcases x with _ | ⟨l₁, e | a⟩
  · simp [Effect.bind]
  · constructor
    · intro h
      cases h
      exact Or.inl ⟨e, rfl, rfl⟩
    · rintro (⟨e', h, rfl⟩ | ⟨a, l₁, l₂, h, -, -⟩)
      · cases h
        rfl
      · cases h
  · constructor
    · intro h
      obtain ⟨p, hp, hlr⟩ := Option.map_eq_some_iff.1 h
      cases hlr
      exact Or.inr ⟨a, l₁, p.1, rfl, hp, rfl⟩
    · rintro (⟨e, h, -⟩ | ⟨a', l₁', l₂, h, hf, rfl⟩)
      · cases h
      · cases h
        exact Option.map_eq_some_iff.2 ⟨_, hf, rfl⟩

theorem bind_eq_ok_iff {x : Effect ω ε α} {f : α → Effect ω ε β} {l : List ω} {b : β} :
    (x >>= f) = some (l, .ok b) ↔
      ∃ a l₁ l₂, x = some (l₁, .ok a) ∧ f a = some (l₂, .ok b) ∧ l = l₁ ++ l₂ := by
  rw [bind_eq_some_iff]
  constructor
  · rintro (⟨e, -, h⟩ | h)
    · cases h
    · exact h
  · exact Or.inr

theorem bind_eq_error_iff {x : Effect ω ε α} {f : α → Effect ω ε β} {l : List ω} {e : ε} :
    (x >>= f) = some (l, .error e) ↔
      x = some (l, .error e) ∨
        ∃ a l₁ l₂, x = some (l₁, .ok a) ∧ f a = some (l₂, .error e) ∧ l = l₁ ++ l₂ := by
  rw [bind_eq_some_iff]
  constructor
  · rintro (⟨e', h, heq⟩ | h)
    · cases heq
      exact Or.inl h
    · exact Or.inr h
  · rintro (h | h)
    · exact Or.inl ⟨e, h, rfl⟩
    · exact Or.inr h

/-- Chains of computations are put together in either order. -/
instance : LawfulMonad (Effect ω ε) := by
  refine LawfulMonad.mk' (Effect ω ε) ?_ ?_ ?_
  · intro α x
    change Effect.bind x Effect.pure = x
    rcases x with _ | ⟨l, e | a⟩
    · rfl
    · rfl
    · exact congrArg (fun l => some (l, Except.ok a)) (List.append_nil l)
  · intro α β a f
    change Option.map (fun p => ([] ++ p.1, p.2)) (f a) = f a
    cases f a <;> rfl
  · intro α β γ x f g
    change Effect.bind (Effect.bind x f) g = Effect.bind x fun a => Effect.bind (f a) g
    rcases x with _ | ⟨l, e | a⟩
    · rfl
    · rfl
    · rcases hf : f a with _ | ⟨l', e | b⟩
      · simp only [Effect.bind, hf]
        rfl
      · simp only [Effect.bind, hf]
        rfl
      · simp only [Effect.bind, hf]
        change Option.map (fun p => (l ++ l' ++ p.1, p.2)) (g b) = Option.map _ (Option.map _ (g b))
        cases g b with
        | none => rfl
        | some p => exact congrArg (fun l => some (l, p.2)) (List.append_assoc l l' p.1)

theorem ofExcept_eq_some_iff {r r' : Except ε α} {l : List ω} :
    ofExcept r = some (l, r') ↔ l = [] ∧ r = r' := by
  constructor
  · intro h
    cases h
    exact ⟨rfl, rfl⟩
  · rintro ⟨rfl, rfl⟩
    rfl

/-- What is known at once is handed on at once. -/
theorem ofExcept_ok_bind (a : α) (f : α → Effect ω ε β) : (ofExcept (.ok a) >>= f) = f a := by
  change Option.map (fun p => ([] ++ p.1, p.2)) (f a) = f a
  cases f a with
  | none => rfl
  | some p => rfl

theorem onError_eq_some_iff {x : Effect ω ε α} {handle : ε → Effect ω ε α} {l : List ω}
    {r : Except ε α} :
    x.onError handle = some (l, r) ↔
      (∃ a, x = some (l, .ok a) ∧ r = .ok a) ∨
        ∃ e l₁ l₂, x = some (l₁, .error e) ∧ handle e = some (l₂, r) ∧ l = l₁ ++ l₂ := by
  rcases x with _ | ⟨l₁, e | a⟩
  · simp [onError]
  · constructor
    · intro h
      obtain ⟨p, hp, hlr⟩ := Option.map_eq_some_iff.1 h
      cases hlr
      exact Or.inr ⟨e, l₁, p.1, rfl, hp, rfl⟩
    · rintro (⟨a, h, -⟩ | ⟨e', l₁', l₂, h, hf, rfl⟩)
      · cases h
      · cases h
        exact Option.map_eq_some_iff.2 ⟨_, hf, rfl⟩
  · constructor
    · intro h
      cases h
      exact Or.inl ⟨a, rfl, rfl⟩
    · rintro (⟨a', h, rfl⟩ | ⟨e, l₁, l₂, h, -, -⟩)
      · cases h
        rfl
      · cases h

/-! ### Computations that emit nothing -/

/-- Nothing is emitted, however the computation settles. -/
def Quiet (x : Effect ω ε α) : Prop := ∀ l r, x = some (l, r) → l = []

theorem Quiet.pure (a : α) : Quiet (Pure.pure a : Effect ω ε α) := by
  intro l r h
  cases h
  rfl

theorem Quiet.fail (e : ε) : Quiet (fail e : Effect ω ε α) := by
  intro l r h
  cases h
  rfl

theorem Quiet.ofExcept (r : Except ε α) : Quiet (ofExcept r : Effect ω ε α) := by
  intro l r' h
  cases h
  rfl

theorem Quiet.await (answer : Answer ε α) : Quiet (await answer : Effect ω ε α) := by
  intro l r h
  obtain ⟨r', -, heq⟩ := Option.map_eq_some_iff.1 h
  cases heq
  rfl

theorem Quiet.bind {x : Effect ω ε α} {f : α → Effect ω ε β} (hx : Quiet x)
    (hf : ∀ a, Quiet (f a)) : Quiet (x >>= f) := by
  intro l r h
  rcases bind_eq_some_iff.1 h with ⟨e, h, -⟩ | ⟨a, l₁, l₂, h₁, h₂, rfl⟩
  · exact hx _ _ h
  · rw [hx _ _ h₁, hf a _ _ h₂, List.append_nil]

theorem Quiet.onError {x : Effect ω ε α} {handle : ε → Effect ω ε α} (hx : Quiet x)
    (hf : ∀ e, Quiet (handle e)) : Quiet (x.onError handle) := by
  intro l r h
  rcases onError_eq_some_iff.1 h with ⟨a, h, -⟩ | ⟨e, l₁, l₂, h₁, h₂, rfl⟩
  · exact hx _ _ h
  · rw [hx _ _ h₁, hf e _ _ h₂, List.append_nil]

theorem Quiet.attempt {x : Effect ω ε α} (hx : Quiet x) : Quiet x.attempt := by
  intro l r h
  obtain ⟨p, hp, heq⟩ := Option.map_eq_some_iff.1 h
  cases heq
  exact hx _ _ hp

/-! ### What a computation fails with -/

/-- Every error the computation settles with satisfies `P`. -/
def Fails (P : ε → Prop) (x : Effect ω ε α) : Prop := ∀ l e, x = some (l, .error e) → P e

variable {P : ε → Prop}

theorem Fails.pure (a : α) : Fails P (Pure.pure a : Effect ω ε α) := by
  intro l e h
  cases h

theorem Fails.fail {e : ε} (h : P e) : Fails P (fail e : Effect ω ε α) := by
  intro l e' heq
  cases heq
  exact h

theorem Fails.ofExcept {r : Except ε α} (h : ∀ e, r = .error e → P e) :
    Fails P (ofExcept r : Effect ω ε α) := by
  intro l e heq
  cases heq
  exact h e rfl

theorem Fails.await {answer : Answer ε α} (h : ∀ e, answer = some (.error e) → P e) :
    Fails P (await answer : Effect ω ε α) := by
  intro l e heq
  obtain ⟨r, hr, hlr⟩ := Option.map_eq_some_iff.1 heq
  cases hlr
  exact h e hr

theorem Fails.bind {x : Effect ω ε α} {f : α → Effect ω ε β} (hx : Fails P x)
    (hf : ∀ a, Fails P (f a)) : Fails P (x >>= f) := by
  intro l e h
  rcases bind_eq_error_iff.1 h with h | ⟨a, l₁, l₂, -, h, -⟩
  · exact hx _ _ h
  · exact hf a _ _ h

theorem Fails.onError {x : Effect ω ε α} {handle : ε → Effect ω ε α}
    (hf : ∀ e, Fails P (handle e)) : Fails P (x.onError handle) := by
  intro l e h
  rcases onError_eq_some_iff.1 h with ⟨a, -, heq⟩ | ⟨e', l₁, l₂, -, h, -⟩
  · cases heq
  · exact hf e' _ _ h

/-- A handler of errors is only given errors the computation fails with. -/
theorem Fails.onError_of {Q : ε → Prop} {x : Effect ω ε α} {handle : ε → Effect ω ε α}
    (hx : Fails Q x) (hf : ∀ e, Q e → Fails P (handle e)) : Fails P (x.onError handle) := by
  intro l e h
  rcases onError_eq_some_iff.1 h with ⟨a, -, heq⟩ | ⟨e', l₁, l₂, he, h, -⟩
  · cases heq
  · exact hf e' (hx _ _ he) _ _ h

/-- After an `attempt` it is only known of the error that it is one the computation fails with. -/
theorem Fails.attempt_bind {Q : ε → Prop} {x : Effect ω ε α} {f : Except ε α → Effect ω ε β}
    (hx : Fails P x) (hok : ∀ a, Fails Q (f (.ok a))) (herror : ∀ e, P e → Fails Q (f (.error e))) :
    Fails Q (x.attempt >>= f) := by
  intro l e h
  rcases bind_eq_error_iff.1 h with h | ⟨r, l₁, l₂, hattempt, h, -⟩
  · obtain ⟨p, -, heq⟩ := Option.map_eq_some_iff.1 h
    cases heq
  · obtain ⟨p, hp, heq⟩ := Option.map_eq_some_iff.1 hattempt
    cases heq
    rcases hr : p.2 with e' | a
    · rw [hr] at h
      exact herror e' (hx p.1 e' (by rw [hp, ← hr])) _ _ h
    · rw [hr] at h
      exact hok a _ _ h

end Effect
