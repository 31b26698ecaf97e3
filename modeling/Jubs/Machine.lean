/-
**Labelled machines and their runs.**

A machine answers a label with the state it moves to, or refuses the label.  All choices that a
concurrent system leaves open (which party moves, what the outside world answers) are carried by
the label, so a run is a list of labels and replaying it is a computation.

Main definitions:

* `Machine.exec` — the state a list of labels leads to;
* `Machine.Reaches` — reachability by some list of labels;
* `Machine.Along` — a condition on the steps of a run, each read in the state it is taken in.

Main results:

* `Machine.exec_invariant`, `Machine.exec_invariant_of` — the induction that carries a one-step
  fact over a whole run, the second form for runs all of whose labels are admitted;
* `Machine.exec_invariant_along` — the same for runs all of whose steps meet a condition;
* `Machine.exec_history` — the same for a fact about the state and the labels that led there;
* `Machine.forall_prefix_iff_along` — a property that a step keeps exactly when it meets a
  condition;
* `Machine.exec_split` — a run through a given label is a run before it, one step, and a run after;
* `Machine.exec_leaves` — a run that starts inside a set of states and ends outside it contains
  the step that leaves;
* `Machine.not_mem_of_blocked` — a label that a preserved condition forbids never occurs.
-/

import Mathlib.Data.List.Basic
import Mathlib.Data.List.Induction
import Mathlib.Tactic.Common

set_option autoImplicit false

/-- A machine takes a step for a label, or refuses the label. -/
def Machine (σ ε : Type*) : Type _ := σ → ε → Option σ

namespace Machine

variable {σ ε : Type*} (m : Machine σ ε)

/-- The state a list of labels leads to, when no label is refused on the way. -/
def exec : σ → List ε → Option σ
  | s, [] => some s
  | s, a :: l => (m s a).bind fun t => exec t l

/-- Some list of labels leads from `s` to `t`. -/
def Reaches (s t : σ) : Prop := ∃ l, m.exec s l = some t

variable {m}

@[simp] theorem exec_nil (s : σ) : m.exec s [] = some s := rfl

theorem exec_cons (s : σ) (a : ε) (l : List ε) :
    m.exec s (a :: l) = (m s a).bind fun t => m.exec t l := rfl

theorem exec_cons_iff {s u : σ} {a : ε} {l : List ε} :
    m.exec s (a :: l) = some u ↔ ∃ t, m s a = some t ∧ m.exec t l = some u := by
  simp [exec_cons, Option.bind_eq_some_iff]

theorem exec_singleton {s t : σ} {a : ε} : m.exec s [a] = some t ↔ m s a = some t := by
  simp [exec_cons]

theorem exec_append (s : σ) (l₁ l₂ : List ε) :
    m.exec s (l₁ ++ l₂) = (m.exec s l₁).bind fun t => m.exec t l₂ := by
  induction l₁ generalizing s with
  | nil => rfl
  | cons a l₁ ih =>
      simp only [List.cons_append, exec_cons]
      cases m s a with
      | none => rfl
      | some t => exact ih t

theorem exec_append_iff {s u : σ} {l₁ l₂ : List ε} :
    m.exec s (l₁ ++ l₂) = some u ↔ ∃ t, m.exec s l₁ = some t ∧ m.exec t l₂ = some u := by
  simp [exec_append, Option.bind_eq_some_iff]

/-- **Splitting a run at a label**: the run before it, its own step, and the run after it. -/
theorem exec_split {s u : σ} {l₁ l₂ : List ε} {a : ε} (h : m.exec s (l₁ ++ a :: l₂) = some u) :
    ∃ t t', m.exec s l₁ = some t ∧ m t a = some t' ∧ m.exec t' l₂ = some u := by
  obtain ⟨t, h₁, h₂⟩ := exec_append_iff.1 h
  obtain ⟨t', h₃, h₄⟩ := exec_cons_iff.1 h₂
  exact ⟨t, t', h₁, h₃, h₄⟩

/-! ### Reachability -/

theorem Reaches.refl (s : σ) : m.Reaches s s := ⟨[], rfl⟩

theorem Reaches.trans {s t u : σ} (h₁ : m.Reaches s t) (h₂ : m.Reaches t u) : m.Reaches s u := by
  obtain ⟨l₁, h₁⟩ := h₁
  obtain ⟨l₂, h₂⟩ := h₂
  exact ⟨l₁ ++ l₂, exec_append_iff.2 ⟨t, h₁, h₂⟩⟩

theorem Reaches.step {s t u : σ} {a : ε} (h₁ : m.Reaches s t) (h₂ : m t a = some u) :
    m.Reaches s u :=
  h₁.trans ⟨[a], exec_singleton.2 h₂⟩

theorem Reaches.of_exec {s t : σ} {l : List ε} (h : m.exec s l = some t) : m.Reaches s t := ⟨l, h⟩

/-! ### Invariants -/

/-- **The invariant rule for admitted labels**: what every step on an admitted label preserves,
every run on admitted labels preserves. -/
theorem exec_invariant_of {P : σ → Prop} {Q : ε → Prop}
    (step : ∀ s a t, Q a → P s → m s a = some t → P t) {s t : σ} {l : List ε}
    (h : m.exec s l = some t) (hQ : ∀ a ∈ l, Q a) (hs : P s) : P t := by
  induction l generalizing s with
  | nil =>
      simp only [exec_nil, Option.some_inj] at h
      exact h ▸ hs
  | cons a l ih =>
      obtain ⟨u, hu, hut⟩ := exec_cons_iff.1 h
      have hPu : P u := step s a u (hQ a List.mem_cons_self) hs hu
      exact ih hut (fun b hb => hQ b (List.mem_cons_of_mem a hb)) hPu

/-- **The invariant rule**: what every step preserves, every run preserves. -/
theorem exec_invariant {P : σ → Prop} (step : ∀ s a t, P s → m s a = some t → P t)
    {s t : σ} {l : List ε} (h : m.exec s l = some t) (hs : P s) : P t :=
  exec_invariant_of (Q := fun _ => True) (fun s a t _ => step s a t) h (fun _ _ => trivial) hs

theorem Reaches.invariant {P : σ → Prop} (step : ∀ s a t, P s → m s a = some t → P t)
    {s t : σ} (h : m.Reaches s t) (hs : P s) : P t := by
  obtain ⟨l, hl⟩ := h
  exact exec_invariant step hl hs

/-- Every step of a run meets the condition `Q` in the state it is taken in. -/
def Along (m : Machine σ ε) (Q : σ → ε → Prop) : σ → List ε → Prop
  | _, [] => True
  | s, a :: l => Q s a ∧ ∀ t, m s a = some t → Along m Q t l

/-- A run whose first step is known meets a condition when that step and the rest do. -/
theorem Along.cons {Q : σ → ε → Prop} {s t : σ} {a : ε} {l : List ε} (hQ : Q s a)
    (hstep : m s a = some t) (hl : m.Along Q t l) : m.Along Q s (a :: l) := by
  refine ⟨hQ, ?_⟩
  intro t' ht'
  obtain rfl : t = t' := Option.some.inj (hstep.symm.trans ht')
  exact hl

/-- A run whose labels meet a condition in every state meets it. -/
theorem Along.of_forall {Q : σ → ε → Prop} {l : List ε} (h : ∀ a ∈ l, ∀ s, Q s a) (s : σ) :
    m.Along Q s l := by
  induction l generalizing s with
  | nil => trivial
  | cons a l ih =>
      exact ⟨h a List.mem_cons_self s,
        fun t _ => ih (fun b hb => h b (List.mem_cons_of_mem a hb)) t⟩

/-- A run meets a condition when it does up to some state and from there on. -/
theorem Along.append {Q : σ → ε → Prop} {s t : σ} {l₁ l₂ : List ε} (h₁ : m.Along Q s l₁)
    (hexec : m.exec s l₁ = some t) (h₂ : m.Along Q t l₂) : m.Along Q s (l₁ ++ l₂) := by
  induction l₁ generalizing s with
  | nil =>
      obtain rfl := Option.some.inj hexec
      exact h₂
  | cons a l ih =>
      obtain ⟨u, hu, hut⟩ := exec_cons_iff.1 hexec
      exact .cons h₁.1 hu (ih (h₁.2 u hu) hut)

/-- **The invariant rule for runs whose steps meet a condition**: what every such step preserves,
every such run preserves. -/
theorem exec_invariant_along {P : σ → Prop} {Q : σ → ε → Prop}
    (step : ∀ s a t, Q s a → P s → m s a = some t → P t) {s t : σ} {l : List ε}
    (h : m.exec s l = some t) (hQ : m.Along Q s l) (hs : P s) : P t := by
  induction l generalizing s with
  | nil =>
      simp only [exec_nil, Option.some_inj] at h
      exact h ▸ hs
  | cons a l ih =>
      obtain ⟨u, hu, hut⟩ := exec_cons_iff.1 h
      exact ih hut (hQ.2 u hu) (step s a u hQ.1 hs hu)

/-- **The invariant rule with a history**: what every step keeps between the labels that were taken
and the state they led to, every run does. -/
theorem exec_history {P : List ε → σ → Prop}
    (step : ∀ l s a t, P l s → m s a = some t → P (l ++ [a]) t) {s t : σ} {l : List ε}
    (h : m.exec s l = some t) (hs : P [] s) : P l t := by
  induction l using List.reverseRecOn generalizing t with
  | nil =>
      simp only [exec_nil, Option.some_inj] at h
      exact h ▸ hs
  | append_singleton l a ih =>
      obtain ⟨u, hu, hut⟩ := exec_append_iff.1 h
      exact step l u a t (ih hu) (exec_singleton.1 hut)

/-- **A property of every state of a run, step by step**: where a step keeps the property exactly
when it meets a condition, the property holds all along a run exactly when every step meets it.
`I` is what the steps keep anyway. -/
theorem forall_prefix_iff_along {I P : σ → Prop} {Q : σ → ε → Prop}
    (keeps : ∀ s a t, I s → m s a = some t → I t)
    (step : ∀ s a t, I s → P s → m s a = some t → (P t ↔ Q s a)) {s u : σ} {l : List ε}
    (h : m.exec s l = some u) (hI : I s) (hP : P s) :
    (∀ front t, front <+: l → m.exec s front = some t → P t) ↔ m.Along Q s l := by
  induction l generalizing s with
  | nil =>
      simp only [Along, iff_true]
      intro front t hfront ht
      rw [List.prefix_nil.1 hfront] at ht
      exact Option.some.inj ht ▸ hP
  | cons a l ih =>
      obtain ⟨v, hv, hvu⟩ := exec_cons_iff.1 h
      constructor
      · intro hall
        have hPv : P v := hall [a] v ⟨l, rfl⟩ (exec_singleton.2 hv)
        refine Along.cons ((step s a v hI hP hv).1 hPv) hv ((ih hvu (keeps s a v hI hv) hPv).1 ?_)
        intro front t hfront ht
        exact hall (a :: front) t (List.cons_prefix_cons.2 ⟨rfl, hfront⟩)
          (exec_cons_iff.2 ⟨v, hv, ht⟩)
      · rintro ⟨hQ, hrest⟩ front t hfront ht
        have hPv : P v := (step s a v hI hP hv).2 hQ
        rcases front with _ | ⟨b, front⟩
        · exact Option.some.inj ht ▸ hP
        · obtain ⟨rfl, hsuffix⟩ := List.cons_prefix_cons.1 hfront
          obtain ⟨v', hv', ht⟩ := exec_cons_iff.1 ht
          obtain rfl : v = v' := Option.some.inj (hv.symm.trans hv')
          exact (ih hvu (keeps s b v hI hv) hPv).2 (hrest v hv) front t hsuffix ht

/-! ### Leaving a set of states, and labels that never occur -/

/-- **The step that leaves**: a run from inside `P` to outside `P` contains a step that leaves
`P`, and up to that step it stays inside. -/
theorem exec_leaves {P : σ → Prop} [DecidablePred P] {s t : σ} {l : List ε}
    (h : m.exec s l = some t) (hs : P s) (ht : ¬ P t) :
    ∃ l₁ a l₂ u v, l = l₁ ++ a :: l₂ ∧ m.exec s l₁ = some u ∧ P u ∧ m u a = some v ∧ ¬ P v ∧
      m.exec v l₂ = some t := by
  induction l generalizing s with
  | nil =>
      simp only [exec_nil, Option.some_inj] at h
      exact absurd (h ▸ hs) ht
  | cons a l ih =>
      obtain ⟨u, hu, hut⟩ := exec_cons_iff.1 h
      by_cases hPu : P u
      · obtain ⟨l₁, b, l₂, v, w, rfl, hv, hPv, hw, hPw, hwt⟩ := ih hut hPu
        exact ⟨a :: l₁, b, l₂, v, w, rfl, exec_cons_iff.2 ⟨u, hu, hv⟩, hPv, hw, hPw, hwt⟩
      · exact ⟨[], a, l, s, u, rfl, rfl, hs, hu, hPu, hut⟩

/-- **A blocked label**: when `P` forbids the label `b` and every admitted label keeps `P`, a run on
admitted labels from inside `P` never takes `b`. -/
theorem not_mem_of_blocked {P : σ → Prop} {Q : ε → Prop} {b : ε}
    (step : ∀ s a t, Q a → P s → m s a = some t → P t)
    (blocked : ∀ s t, P s → m s b = some t → False) {s t : σ} {l : List ε}
    (h : m.exec s l = some t) (hQ : ∀ a ∈ l, Q a) (hs : P s) : b ∉ l := by
  intro hb
  obtain ⟨l₁, l₂, rfl⟩ := List.append_of_mem hb
  obtain ⟨u, v, hu, hv, -⟩ := exec_split h
  have hPu : P u :=
    exec_invariant_of step hu (fun a ha => hQ a (List.mem_append_left _ ha)) hs
  exact blocked u v hPu hv

end Machine
