/-
**Simulation between machines, and runs that must end.**

One machine simulates another along a relation when it follows every step the other takes by some
run of its own, and the relation holds again.  What is known of the runs of the one is then known of
the runs of the other.  A potential that pays for every step bounds what a run can cost.

Main definitions:

* `Machine.Simulates` — every step of `m` is followed by a run of `n`.

Main results:

* `Machine.Simulates.exec` — **every run of `m` is followed by a run of `n`**;
* `Machine.exec_mono` — a machine that takes every step of another takes every run of it;
* `Machine.cost_le_of_potential` — **what a potential pays for**, over a whole run.
-/

import Jubs.Machine
import Mathlib.Algebra.BigOperators.Group.List.Basic
import Mathlib.Algebra.GroupWithZero.Nat

set_option autoImplicit false

namespace Machine

variable {σ τ ε η : Type*} {m : Machine σ ε} {n : Machine τ η}

/-! ### Simulation -/

/-- `n` follows every step of `m` along the relation `R`. -/
def Simulates (n : Machine τ η) (m : Machine σ ε) (R : σ → τ → Prop) : Prop :=
  ∀ s t a s', R s t → m s a = some s' → ∃ l t', n.exec t l = some t' ∧ R s' t'

/-- **Every run of `m` is followed by a run of `n`.** -/
theorem Simulates.exec {R : σ → τ → Prop} (h : n.Simulates m R) {s s' : σ} {t : τ} {l : List ε}
    (hst : R s t) (hrun : m.exec s l = some s') :
    ∃ l' t', n.exec t l' = some t' ∧ R s' t' := by
  induction l generalizing s t with
  | nil =>
      obtain rfl := Option.some.inj hrun
      exact ⟨[], t, rfl, hst⟩
  | cons a l ih =>
      obtain ⟨u, hu, hrun⟩ := exec_cons_iff.1 hrun
      obtain ⟨l₁, v, hv, huv⟩ := h s t a u hst hu
      obtain ⟨l₂, t', ht', hst'⟩ := ih huv hrun
      exact ⟨l₁ ++ l₂, t', exec_append_iff.2 ⟨v, hv, ht'⟩, hst'⟩

/-- A machine that takes every step of another takes every run of it. -/
theorem exec_mono {m' : Machine σ ε} (h : ∀ s a t, m s a = some t → m' s a = some t) {s t : σ}
    {l : List ε} (hrun : m.exec s l = some t) : m'.exec s l = some t := by
  induction l generalizing s with
  | nil => exact hrun
  | cons a l ih =>
      obtain ⟨u, hu, hrun⟩ := exec_cons_iff.1 hrun
      exact exec_cons_iff.2 ⟨u, h s a u hu, ih hrun⟩

/-! ### Potentials -/

/-- **What a potential pays for**: where every step costs no more than the potential goes down, plus
what its label brings in, a run costs no more either. -/
theorem cost_le_of_potential {μ : σ → ℕ} {cost gain : ε → ℕ}
    (step : ∀ s a t, m s a = some t → cost a + μ t ≤ μ s + gain a) {s t : σ} {l : List ε}
    (hrun : m.exec s l = some t) : (l.map cost).sum + μ t ≤ μ s + (l.map gain).sum := by
  induction l generalizing s with
  | nil =>
      obtain rfl := Option.some.inj hrun
      simp
  | cons a l ih =>
      obtain ⟨u, hu, hrun⟩ := exec_cons_iff.1 hrun
      have hfirst := step s a u hu
      have hrest := ih hrun
      simp only [List.map_cons, List.sum_cons]
      omega

end Machine
