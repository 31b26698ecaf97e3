/-
**The loop that migrates a payload, for whatever version was stored.**

The version a stored payload is read with is any number, and the loop counts it up by one until it
is no longer below the version that runs.  A definition declares steps from whole versions only, so
whatever else was stored should be refused at once.  `assertVersioning` tells whether it found a
stray key from the key it found, and the empty key reads as none: behind it a definition declares
whatever it likes.

Main definitions:

* `Jubs.takeStep`, `Jubs.migrateLoop` — one step of the loop, and the loop;
* `Jubs.Migrates` — the steps a call runs, and how it settles;
* `Jubs.follow` — the steps from given versions, each on the output of the one before;
* `Jubs.cutAt` — a definition as it stood at an earlier version;
* `Jubs.MigrationLaw` — what a call owes for a stored payload;
* `Jubs.KeepsVersions` — which stored versions a definition treats so.

Main results:

* `Jubs.migrateLoop_add` — the loop follows the versions it counts through;
* `Jubs.migrationLaw_iff` — **for which stored versions the law holds**;
* `Jubs.migrationLaw_of_whole_keys` — it holds for every one, where every key names a version;
* `Jubs.migrateEnvelope_eq_iff` — `migrateEnvelope` is what the loop comes to;
* `Jubs.fraction_migrated` — a stored version that is no whole number is migrated.
-/

import Jubs.Effect
import Jubs.EnvelopeReads
import Jubs.Migration
import Jubs.NumberTexts
import Mathlib.Data.List.Iterate

set_option autoImplicit false

namespace Jubs

/-! ### The loop -/

/-- One step of the loop of `migrateEnvelope`: the step from a version is run on the data. -/
def takeStep (definition : JobDefinition) (data : Value) (version : Number) :
    Effect (Number × Value) Thrown Value := do
  let step ← Effect.ofExcept (stepOf definition version)
  Effect.emit (version, data)
  Effect.ofExcept ((step data).mapError (migrationError definition version))

/-- The loop of `migrateEnvelope`, as far as it comes within so many turns. -/
def migrateLoop (definition : JobDefinition) :
    ℕ → Number → Value → Effect (Number × Value) Thrown Value
  | 0, _, _ => none
  | turns + 1, version, data =>
      if version.lt (payloadVersion definition) then do
        let data ← takeStep definition data version
        migrateLoop definition turns version.next data
      else pure data

/-- `migrateEnvelope(definition, envelope)`, as far as it comes within so many turns. -/
def migrateWithin (definition : JobDefinition) (envelope : Envelope) (turns : ℕ) :
    Effect (Number × Value) Thrown Value := do
  Effect.ofExcept (assertVersionIsKnown definition envelope)
  migrateLoop definition turns envelope.v envelope.data

/-- The steps a call runs, each with the version it is from and the data it is given, and how the
call settles. -/
def Migrates (definition : JobDefinition) (envelope : Envelope) (l : List (Number × Value))
    (r : Except Thrown Value) : Prop := ∃ turns, migrateWithin definition envelope turns =
    some (l, r)

/-- The steps from the given versions, each on the output of the one before. -/
def follow (definition : JobDefinition) (versions : List Number) (data : Value) :
    Effect (Number × Value) Thrown Value := versions.foldlM (takeStep definition) data

/-- A definition declares a step from a version. -/
def Declared (definition : JobDefinition) (version : Number) : Prop :=
  (definition.migrations.lookup (Value.numberText version)).isSome = true

variable {definition : JobDefinition} {envelope : Envelope} {v : Number} {data : Value}
variable {l : List (Number × Value)} {r : Except Thrown Value}

/-! ### Steps -/

theorem takeStep_declared {version : Number} {step : PayloadMigration}
    (h : definition.migrations.lookup (Value.numberText version) = some step) :
    takeStep definition data version =
      some ([(version, data)], (step data).mapError (migrationError definition version)) := by
  simp only [takeStep, stepOf, h]
  rfl

/-- The error of a step that is not declared. -/
def missingStep (definition : JobDefinition) (version : Number) : Thrown :=
  plainError ("jubs: the job \"" ++ definition.name ++ "\" stored a payload of version " ++
    Value.numberText version ++ " and declares no migration from it — add " ++
    "`migrations: \x7b " ++ Value.numberText version ++ ": (data) => ... \x7d` to its definition")
      none

theorem takeStep_missing {version : Number} (h : ¬Declared definition version) :
    takeStep definition data version = some ([], .error (missingStep definition version)) := by
  have hnone : definition.migrations.lookup (Value.numberText version) = none :=
    Option.not_isSome_iff_eq_none.1 h
  simp only [takeStep, stepOf, hnone]
  rfl

/-- The error of a missing step names its version. -/
theorem missingStep_injective {version version' : Number}
    (h : missingStep definition version = missingStep definition version') :
    version = version' := by
  refine Number.numberText_injective ?_
  have hmessage := congrArg Thrown.messageValue h
  simp only [missingStep, plainError, newError, Thrown.messageValue] at hmessage
  have htext := congrArg String.toList (Value.str.inj hmessage)
  simp only [String.toList_append, List.append_assoc] at htext
  have hrest := List.append_cancel_left (List.append_cancel_left (List.append_cancel_left htext))
  have hlength := congrArg List.length hrest
  simp only [List.length_append] at hlength
  exact String.toList_inj.1 (List.append_inj_left hrest (by omega))

theorem takeStep_settles (version : Number) : ∃ p, takeStep definition data version = some p := by
  by_cases h : Declared definition version
  · obtain ⟨step, hstep⟩ := Option.isSome_iff_exists.1 h
    exact ⟨_, takeStep_declared hstep⟩
  · exact ⟨_, takeStep_missing h⟩

theorem follow_nil (data : Value) : follow definition [] data = pure data := List.foldlM_nil

theorem follow_cons (version : Number) (versions : List Number) :
    follow definition (version :: versions) data =
      takeStep definition data version >>= follow definition versions := List.foldlM_cons

theorem follow_append (versions versions' : List Number) :
    follow definition (versions ++ versions') data =
      follow definition versions data >>= follow definition versions' := List.foldlM_append

theorem follow_settles (versions : List Number) (data : Value) :
    ∃ l r, follow definition versions data = some (l, r) := by
  induction versions generalizing data with
  | nil => exact ⟨[], .ok data, rfl⟩
  | cons version versions ih =>
      rw [follow_cons]
      obtain ⟨⟨l, r⟩, hstep⟩ := @takeStep_settles definition data version
      rw [hstep]
      cases r with
      | error e => exact ⟨l, .error e, rfl⟩
      | ok data' =>
          obtain ⟨l', r', hrest⟩ := ih data'
          exact ⟨l ++ l', r', Effect.bind_eq_some_iff.2 (Or.inr ⟨data', l, l', rfl, hrest, rfl⟩)⟩

/-- Nothing is done behind a missing step. -/
theorem follow_missing {version : Number} (h : ¬Declared definition version)
    (versions versions' : List Number) (data : Value) :
    ∃ l e, follow definition (versions ++ [version]) data = some (l, .error e) ∧
      follow definition (versions ++ version :: versions') data = some (l, .error e) := by
  obtain ⟨l, r, hfirst⟩ := @follow_settles definition versions data
  rw [follow_append, follow_append, hfirst]
  cases r with
  | error e => exact ⟨l, e, rfl, rfl⟩
  | ok data' =>
      refine ⟨l, missingStep definition version, ?_, ?_⟩
      · refine Effect.bind_eq_some_iff.2 (Or.inr ⟨data', l, [], rfl, ?_, (List.append_nil l).symm⟩)
        rw [follow_cons, takeStep_missing h]
        rfl
      · refine Effect.bind_eq_some_iff.2 (Or.inr ⟨data', l, [], rfl, ?_, (List.append_nil l).symm⟩)
        rw [follow_cons, takeStep_missing h]
        rfl

/-- A walk that comes to a version without a step ends there. -/
theorem follow_iterate_missing {k : ℕ} (h : ¬Declared definition (Number.next^[k] v))
    (data : Value) :
    ∃ l e, follow definition (List.iterate Number.next v (k + 1)) data = some (l, .error e) := by
  obtain ⟨l, e, hfollow, -⟩ := follow_missing h (List.iterate Number.next v k) [] data
  rw [List.iterate_add]
  exact ⟨l, e, hfollow⟩

/-- Two definitions of one name that agree on some versions run the same steps from them. -/
theorem follow_congr {definition' : JobDefinition} (hname : definition'.name = definition.name)
    {versions : List Number} (hlookup : ∀ version ∈ versions,
      definition'.migrations.lookup (Value.numberText version) =
        definition.migrations.lookup (Value.numberText version)) (data : Value) :
    follow definition' versions data = follow definition versions data := by
  induction versions generalizing data with
  | nil => rw [follow_nil, follow_nil]
  | cons version versions ih =>
      have hstep : takeStep definition' data version = takeStep definition data version := by
        simp only [takeStep, stepOf, hlookup version List.mem_cons_self, hname,
          show migrationError definition' version = migrationError definition version by
            funext error
            simp only [migrationError, hname]]
      rw [follow_cons, follow_cons, hstep]
      refine congrArg (takeStep definition data version >>= ·) ?_
      funext data'
      exact ih (fun w hw => hlookup w (List.mem_cons_of_mem _ hw)) data'

/-! ### How a call settles -/

/-- The loop ends the same way whatever turns it is left. -/
theorem migrateLoop_succ {turns : ℕ} {p : List (Number × Value) × Except Thrown Value}
    (h : migrateLoop definition turns v data = some p) :
    migrateLoop definition (turns + 1) v data = some p := by
  induction turns generalizing v data p with
  | zero => cases h
  | succ turns ih =>
      rw [migrateLoop] at h ⊢
      split_ifs at h ⊢ with hlt
      · rcases Effect.bind_eq_some_iff.1 h with ⟨e, hstep, hr⟩ | ⟨data', l₁, l₂, hstep, hrest, hl⟩
        · exact Effect.bind_eq_some_iff.2 (Or.inl ⟨e, hstep, hr⟩)
        · exact Effect.bind_eq_some_iff.2 (Or.inr ⟨data', l₁, l₂, hstep, ih hrest, hl⟩)
      · exact h

theorem migrateLoop_mono {turns turns' : ℕ} {p : List (Number × Value) × Except Thrown Value}
    (hle : turns ≤ turns') (h : migrateLoop definition turns v data = some p) :
    migrateLoop definition turns' v data = some p := by
  induction hle with
  | refl => exact h
  | step _ ih => exact migrateLoop_succ ih

theorem migrateWithin_known (hle : envelope.v.le (payloadVersion definition) = true) (turns : ℕ) :
    migrateWithin definition envelope turns =
      migrateLoop definition turns envelope.v envelope.data := by
  rw [migrateWithin, assertVersionIsKnown, if_pos hle]
  exact Effect.ofExcept_ok_bind _ _

/-- **A call settles in one way.** -/
theorem migrates_iff {turns : ℕ} {p : List (Number × Value) × Except Thrown Value}
    (hle : envelope.v.le (payloadVersion definition) = true)
    (h : migrateLoop definition turns envelope.v envelope.data = some p) :
    Migrates definition envelope l r ↔ p = (l, r) := by
  constructor
  · rintro ⟨turns', h'⟩
    rw [migrateWithin_known hle] at h'
    have hone := (migrateLoop_mono (le_max_left turns turns') h).symm.trans
      (migrateLoop_mono (le_max_right turns turns') h')
    exact Option.some.inj hone
  · rintro rfl
    exact ⟨turns, (migrateWithin_known hle turns).trans h⟩

/-- **The loop follows the versions it counts through.** -/
theorem migrateLoop_add {k : ℕ}
    (h : ∀ j < k, (Number.next^[j] v).lt (payloadVersion definition) = true) (turns : ℕ) :
    migrateLoop definition (k + turns) v data =
      follow definition (List.iterate Number.next v k) data >>=
        migrateLoop definition turns (Number.next^[k] v) := by
  induction k generalizing v data with
  | zero =>
      rw [Nat.zero_add]
      exact (pure_bind data _).symm
  | succ k ih =>
      have hlt : v.lt (payloadVersion definition) = true := h 0 (Nat.succ_pos k)
      rw [Nat.add_right_comm, migrateLoop, if_pos hlt, List.iterate, follow_cons, bind_assoc]
      refine congrArg (takeStep definition data v >>= ·) ?_
      funext data'
      rw [Function.iterate_succ_apply]
      exact ih fun j hj => h (j + 1) (Nat.succ_lt_succ hj)

/-- A call that counts up to the running version follows the versions before it. -/
theorem migrates_iff_of_reached {k : ℕ} (hle : envelope.v.le (payloadVersion definition) = true)
    (h : ∀ j < k, (Number.next^[j] envelope.v).lt (payloadVersion definition) = true)
    (hend : (Number.next^[k] envelope.v).lt (payloadVersion definition) = false) :
    Migrates definition envelope l r ↔
      follow definition (List.iterate Number.next envelope.v k) envelope.data = some (l, r) := by
  obtain ⟨l', r', hfollow⟩ :=
    @follow_settles definition (List.iterate Number.next envelope.v k) envelope.data
  have hlast : migrateLoop definition 1 (Number.next^[k] envelope.v) = pure := by
    funext data'
    rw [migrateLoop, if_neg (by rw [hend]; exact Bool.false_ne_true)]
  have hloop := @migrateLoop_add definition envelope.v envelope.data k h 1
  rw [hlast, bind_pure, hfollow] at hloop
  rw [migrates_iff hle hloop, hfollow]
  exact ⟨congrArg some, Option.some.inj⟩

/-- A call that comes to a missing step follows the versions up to it. -/
theorem migrates_iff_of_missing {k : ℕ} (hle : envelope.v.le (payloadVersion definition) = true)
    (h : ∀ j ≤ k, (Number.next^[j] envelope.v).lt (payloadVersion definition) = true)
    (hmissing : ¬Declared definition (Number.next^[k] envelope.v)) :
    Migrates definition envelope l r ↔
      follow definition (List.iterate Number.next envelope.v (k + 1)) envelope.data =
        some (l, r) := by
  obtain ⟨l', e, hfollow⟩ := follow_iterate_missing hmissing envelope.data
  have hloop := @migrateLoop_add definition envelope.v envelope.data (k + 1)
    (fun j hj => h j (Nat.lt_succ_iff.1 hj)) 0
  rw [hfollow] at hloop
  rw [migrates_iff hle hloop, hfollow]
  exact ⟨congrArg some, Option.some.inj⟩

/-! ### Accepted definitions -/

/-- A whole number of 1 or more. -/
theorem Number.exists_natCast {n : Number} (hwhole : n.isInteger = true) (hone : n.lt 1 = false) :
    ∃ m : ℕ, 1 ≤ m ∧ n = .finite (m : ℕ) := by
  cases n with
  | nan => cases hwhole
  | infinity negative => cases hwhole
  | finite d =>
      obtain ⟨m, e, hlowest⟩ := d
      obtain rfl : e = 0 := of_decide_eq_true hwhole
      have hle : ¬(m : ℚ) < 1 := by
        have hlt : ¬Decimal.toRat ⟨m, 0, hlowest⟩ < ((1 : ℕ) : Decimal).toRat :=
          of_decide_eq_false hone
        rw [Decimal.toRat_natCast] at hlt
        simpa [Decimal.toRat] using hlt
      have hle : 1 ≤ m := by exact_mod_cast not_lt.1 hle
      obtain ⟨k, rfl⟩ := Int.eq_ofNat_of_zero_le (by omega : 0 ≤ m)
      exact ⟨k, by omega, rfl⟩

/-- A key that is no version a definition may declare a step from. -/
def isStrayKey (version : Number) (key : String) : Bool :=
  !(Number.ofText key).isInteger || (Number.ofText key).lt 1 || version.le (Number.ofText key)

/-- **What `assertVersioning` accepts**: the first stray key, if there is one, is the empty one. -/
theorem assertVersioning_eq_ok_iff : assertVersioning definition = .ok () ↔
    (payloadVersion definition).isInteger = true ∧ (payloadVersion definition).lt 1 = false ∧
      ∀ key, (definition.migrations.map Prod.fst).find? (isStrayKey (payloadVersion definition)) =
        some key → key = "" := by
  have hstray : (isStrayKey (payloadVersion definition)) = fun key =>
      !(Number.ofText key).isInteger || (Number.ofText key).lt 1 ||
        (payloadVersion definition).le (Number.ofText key) := rfl
  unfold assertVersioning
  dsimp only
  rw [← hstray]
  generalize (definition.migrations.map Prod.fst).find? (isStrayKey (payloadVersion definition)) =
    stray
  cases (payloadVersion definition).isInteger with
  | false => simp
  | true =>
      cases (payloadVersion definition).lt 1 with
      | true => simp
      | false =>
          cases stray with
          | none => simp
          | some key => by_cases hkey : key = "" <;> simp [hkey]

theorem defineJob_eq_ok_iff : defineJob definition = .ok definition ↔
    assertVersioning definition = .ok () ∧ assertTimeout definition = .ok () ∧
      assertAwaits definition = .ok () := by
  constructor
  · intro h
    obtain ⟨⟨⟩, hversioning, h⟩ := bind_eq_ok.1 h
    obtain ⟨⟨⟩, htimeout, h⟩ := bind_eq_ok.1 h
    obtain ⟨⟨⟩, hawaits, -⟩ := bind_eq_ok.1 h
    exact ⟨hversioning, htimeout, hawaits⟩
  · rintro ⟨hversioning, htimeout, hawaits⟩
    exact bind_eq_ok.2 ⟨(), hversioning, bind_eq_ok.2
      ⟨(), htimeout, bind_eq_ok.2 ⟨(), hawaits, rfl⟩⟩⟩

/-- An accepted definition runs a whole version of 1 or more. -/
theorem exists_running (hdefined : defineJob definition = .ok definition) :
    ∃ n : ℕ, 1 ≤ n ∧ payloadVersion definition = .finite (n : ℕ) := by
  obtain ⟨hwhole, hone, -⟩ := assertVersioning_eq_ok_iff.1 (defineJob_eq_ok_iff.1 hdefined).1
  exact Number.exists_natCast hwhole hone

/-- What is accepted of the steps is their keys. -/
theorem defineJob_withMigrations {migrations : List (String × PayloadMigration)}
    (hkeys : migrations.map Prod.fst = definition.migrations.map Prod.fst) :
    defineJob { definition with migrations := migrations } =
        .ok { definition with migrations := migrations } ↔
          defineJob definition = .ok definition := by
  rw [defineJob_eq_ok_iff, defineJob_eq_ok_iff, assertVersioning_eq_ok_iff,
    assertVersioning_eq_ok_iff]
  simp only [hkeys]
  rfl

/-! ### A definition as it stood at an earlier version -/

/-- The keys that stay: those of the versions below, and the empty key, which is no version.  A key
is taken for the number it writes, as a step is only looked up at the text of its version. -/
def staysBelow (m : ℕ) (key : String) : Bool :=
  decide (key = "") || (Number.literal key).lt (.finite (m : ℕ))

/-- A definition as it stood at version `m`. -/
def cutAt (definition : JobDefinition) (m : ℕ) : JobDefinition :=
  { definition with
    version := some (.finite (m : ℕ))
    migrations := definition.migrations.filter fun p => staysBelow m p.1 }

@[simp] theorem payloadVersion_cutAt (m : ℕ) :
    payloadVersion (cutAt definition m) = .finite (m : ℕ) := rfl

theorem lookup_filter {α : Type} {p : String × α → Bool} {key : String}
    {entries : List (String × α)}
    (h : ∀ a, p (key, a) = true) : (entries.filter p).lookup key = entries.lookup key := by
  induction entries with
  | nil => rfl
  | cons entry entries ih =>
      obtain ⟨key', a⟩ := entry
      by_cases hkey : key = key'
      · subst hkey
        rw [List.filter_cons_of_pos (h a), List.lookup_cons_self, List.lookup_cons_self]
      · have hne : (key == key') = false := by simpa using hkey
        by_cases hp : p (key', a) = true
        · rw [List.filter_cons_of_pos hp, List.lookup_cons, List.lookup_cons, hne, ih]
        · rw [List.filter_cons_of_neg hp, List.lookup_cons, hne, ih]

/-- It declares the same steps below that version. -/
theorem lookup_cutAt {m : ℕ} {version : Number} (h : version.lt (.finite (m : ℕ)) = true) :
    (cutAt definition m).migrations.lookup (Value.numberText version) =
      definition.migrations.lookup (Value.numberText version) := by
  refine lookup_filter fun _ => ?_
  simp [staysBelow, Number.literal_numberText, h]

/-- It runs the same steps below that version. -/
theorem follow_cutAt {m : ℕ} {versions : List Number}
    (h : ∀ version ∈ versions, version.lt (.finite (m : ℕ)) = true) (data : Value) :
    follow (cutAt definition m) versions data = follow definition versions data :=
  @follow_congr definition (cutAt definition m) rfl versions
    (fun version hversion => lookup_cutAt (h version hversion)) data

/-! ### The law -/

/-- The whole versions `m, m + 1, …`, so many of them. -/
def wholeVersions (m k : ℕ) : List Number := (List.range' m k).map fun i => .finite (i : ℕ)

/-- Migrating to version `m` under the definition as it stood there, and from there on. -/
def MigratesThrough (definition : JobDefinition) (envelope : Envelope) (m : ℕ)
    (l : List (Number × Value)) (r : Except Thrown Value) : Prop :=
  (∃ e, Migrates (cutAt definition m) envelope l (.error e) ∧ r = .error e) ∨
    ∃ data l₁ l₂, Migrates (cutAt definition m) envelope l₁ (.ok data) ∧
      Migrates definition { envelope with v := .finite (m : ℕ), data := data } l₂ r ∧ l = l₁ ++ l₂

/-- **What a call owes for a stored payload.** -/
structure MigrationLaw (definition : JobDefinition) (envelope : Envelope) : Prop where
  /-- It settles. -/
  terminates : ∃ l r, Migrates definition envelope l r
  /-- A payload of the running version is given back as it is. -/
  current : envelope.v = payloadVersion definition →
    Migrates definition envelope [] (.ok envelope.data)
  /-- A payload of a version that is not at most the running one is refused. -/
  ahead : envelope.v.le (payloadVersion definition) = false →
    Migrates definition envelope []
      (.error (versionAheadError definition.name envelope.v (payloadVersion definition)))
  /-- A payload of an earlier whole version goes through the steps from each version up to the
  running one, as far as they are declared and do not throw. -/
  whole : ∀ m k : ℕ, 1 ≤ m → envelope.v = .finite (m : ℕ) →
    payloadVersion definition = .finite (m + k : ℕ) → ∀ l r, Migrates definition envelope l r ↔
      follow definition (wholeVersions m k) envelope.data = some (l, r)
  /-- Any other payload is rejected at the first step that is missing or throws. -/
  otherwise : envelope.v.lt (payloadVersion definition) = true →
    (∀ m : ℕ, 1 ≤ m → envelope.v ≠ .finite (m : ℕ)) →
    ∃ k, (∀ j ≤ k, (Number.next^[j] envelope.v).lt (payloadVersion definition) = true) ∧
      ∃ l e, Migrates definition envelope l (.error e) ∧
        follow definition (List.iterate Number.next envelope.v (k + 1)) envelope.data =
          some (l, .error e)
  /-- Stopping at a version on the way makes no difference. -/
  composes : ∀ m : ℕ, 1 ≤ m → envelope.v.le (.finite (m : ℕ)) = true →
    Number.le (.finite (m : ℕ)) (payloadVersion definition) = true → ∀ l r,
      Migrates definition envelope l r ↔ MigratesThrough definition envelope m l r

/-- Counting from a whole version, each version up to the running one is reached, as long as the
steps before it are declared.  The running one may be passed. -/
def CountsUp (definition : JobDefinition) (m : ℕ) : Prop :=
  ∀ k, Number.le (.finite (m + k : ℕ)) (payloadVersion definition) = true →
    (∀ j < k, Declared definition (.finite (m + j : ℕ))) →
    Number.next^[k] (.finite (m : ℕ)) = .finite (m + k : ℕ) ∨
      (payloadVersion definition = .finite (m + k : ℕ) ∧
        (Number.next^[k] (.finite (m : ℕ))).lt (payloadVersion definition) = false)

/-- Counting from a version below the running one, a version without a step is reached before the
running one, and no whole version from the stored one on is passed on the way there. -/
def RunsOut (definition : JobDefinition) (v : Number) : Prop :=
  ∃ k, (∀ j ≤ k, (Number.next^[j] v).lt (payloadVersion definition) = true) ∧
    (∀ j < k, Declared definition (Number.next^[j] v)) ∧ ¬Declared definition (Number.next^[k] v) ∧
    ∀ m : ℕ, 1 ≤ m → v.le (.finite (m : ℕ)) = true → ∀ j ≤ k,
      (∀ i < j, (Number.next^[i] v).lt (.finite (m : ℕ)) = true) →
      (Number.next^[j] v).lt (.finite (m : ℕ)) = true ∨ Number.next^[j] v = .finite (m : ℕ)

/-- Which stored versions below the running one a definition treats as it should. -/
structure KeepsVersions (definition : JobDefinition) (v : Number) : Prop where
  counts : ∀ m : ℕ, 1 ≤ m → v = .finite (m : ℕ) → v.lt (payloadVersion definition) = true →
    CountsUp definition m
  runsOut : v.lt (payloadVersion definition) = true → (∀ m : ℕ, 1 ≤ m → v ≠ .finite (m : ℕ)) →
    RunsOut definition v

/-! ### Where the law holds -/

theorem wholeVersions_add (m a b : ℕ) :
    wholeVersions m (a + b) = wholeVersions m a ++ wholeVersions (m + a) b := by
  rw [wholeVersions, wholeVersions, wholeVersions, ← List.map_append]
  refine congrArg (List.map _) ?_
  simp

theorem iterate_eq_wholeVersions {m k : ℕ}
    (h : ∀ j < k, Number.next^[j] (.finite (m : ℕ)) = .finite (m + j : ℕ)) :
    List.iterate Number.next (.finite (m : ℕ)) k = wholeVersions m k := by
  rw [← List.range_map_iterate, wholeVersions, List.range'_eq_map_range, List.map_map]
  refine List.map_congr_left fun j hj => ?_
  exact h j (List.mem_range.1 hj)

theorem declared_of_follow {versions : List Number} {data' : Value}
    (h : follow definition versions data = some (l, .ok data')) :
    ∀ version ∈ versions, Declared definition version := by
  intro version hversion
  by_contra hmissing
  obtain ⟨before, behind, rfl⟩ := List.append_of_mem hversion
  obtain ⟨l', e, -, hfollow⟩ := follow_missing hmissing before behind data
  cases hfollow.symm.trans h

/-- An earlier whole version goes through the whole versions from there on. -/
theorem migrates_iff_of_countsUp {m k : ℕ} (hcounts : CountsUp definition m)
    (hv : envelope.v = .finite (m : ℕ))
    (hrunning : payloadVersion definition = .finite (m + k : ℕ)) :
    Migrates definition envelope l r ↔
      follow definition (wholeVersions m k) envelope.data = some (l, r) := by
  have hle : ∀ j ≤ k, Number.le (.finite (m + j : ℕ)) (payloadVersion definition) = true := by
    intro j hj
    rw [hrunning, Number.le_natCast]
    exact decide_eq_true (by omega)
  have hlt : ∀ j < k, Number.lt (.finite (m + j : ℕ)) (payloadVersion definition) = true := by
    intro j hj
    rw [hrunning, Number.lt_natCast]
    exact decide_eq_true (by omega)
  have hreaches : ∀ j < k, (∀ i < j, Declared definition (.finite (m + i : ℕ))) →
      Number.next^[j] (.finite (m : ℕ)) = .finite (m + j : ℕ) := by
    intro j hj hdeclared
    refine (hcounts j (hle j hj.le) hdeclared).resolve_right ?_
    rintro ⟨heq, -⟩
    rw [hrunning] at heq
    have := Decimal.natCast_injective (Number.finite.inj heq)
    omega
  have hknown : envelope.v.le (payloadVersion definition) = true := by
    rw [hv]
    exact hle 0 (Nat.zero_le k)
  by_cases hall : ∀ j < k, Declared definition (.finite (m + j : ℕ))
  · have hwalk : ∀ j < k, Number.next^[j] (.finite (m : ℕ)) = .finite (m + j : ℕ) := fun j hj =>
      hreaches j hj fun i hi => hall i (hi.trans hj)
    have hend : (Number.next^[k] envelope.v).lt (payloadVersion definition) = false := by
      rw [hv]
      rcases hcounts k (hle k le_rfl) hall with heq | ⟨-, hend⟩
      · rw [heq, hrunning]
        exact Number.lt_irrefl _
      · exact hend
    rw [migrates_iff_of_reached hknown ?_ hend, hv, iterate_eq_wholeVersions hwalk]
    intro j hj
    rw [hv, hwalk j hj]
    exact hlt j hj
  · push Not at hall
    -- the walk stops at the first version without a step
    obtain ⟨j, ⟨hj, hmissing⟩, hfirst⟩ : ∃ j, (j < k ∧ ¬Declared definition (.finite (m + j : ℕ))) ∧
        ∀ i < j, Declared definition (.finite (m + i : ℕ)) := by
      classical
      refine ⟨Nat.find hall, Nat.find_spec hall, fun i hi => ?_⟩
      by_contra hnot
      exact Nat.find_min hall hi ⟨hi.trans (Nat.find_spec hall).1, hnot⟩
    have hwalk : ∀ i < j + 1, Number.next^[i] (.finite (m : ℕ)) = .finite (m + i : ℕ) := fun i hi =>
      hreaches i (by omega) fun i' hi' => hfirst i' (by omega)
    have hmissing' : ¬Declared definition (Number.next^[j] envelope.v) := by
      rw [hv, hwalk j (Nat.lt_succ_self j)]
      exact hmissing
    rw [migrates_iff_of_missing hknown ?_ hmissing', hv, iterate_eq_wholeVersions hwalk]
    · obtain ⟨b, rfl⟩ := Nat.exists_eq_add_of_lt hj
      obtain ⟨l', e, hshort, hlong⟩ := follow_missing hmissing (wholeVersions m j)
        (wholeVersions (m + j + 1) b) envelope.data
      have hsplit : wholeVersions m (j + b + 1) = wholeVersions m j ++
          .finite (m + j : ℕ) :: wholeVersions (m + j + 1) b := by
        rw [Nat.add_assoc, wholeVersions_add]
        rfl
      rw [hsplit, wholeVersions_add, hlong]
      exact iff_of_eq (congrArg (· = some (l, r)) hshort)
    · intro i hi
      rw [hv, hwalk i (by omega)]
      exact hlt i (by omega)

/-- A stop on the way is where the steps before it end and the steps behind it begin. -/
theorem migratesThrough_iff {m : ℕ} {versions versions' : List Number}
    (hfirst : ∀ l r, Migrates (cutAt definition m) envelope l r ↔
      follow definition versions envelope.data = some (l, r))
    (hrest : ∀ l data, follow definition versions envelope.data = some (l, .ok data) → ∀ l' r',
      Migrates definition { envelope with v := .finite (m : ℕ), data := data } l' r' ↔
        follow definition versions' data = some (l', r')) :
    MigratesThrough definition envelope m l r ↔
      follow definition (versions ++ versions') envelope.data = some (l, r) := by
  rw [follow_append, Effect.bind_eq_some_iff]
  constructor
  · rintro (⟨e, h, hr⟩ | ⟨data, l₁, l₂, h, h', hl⟩)
    · exact Or.inl ⟨e, (hfirst _ _).1 h, hr⟩
    · have hfollow := (hfirst _ _).1 h
      exact Or.inr ⟨data, l₁, l₂, hfollow, (hrest _ _ hfollow _ _).1 h', hl⟩
  · rintro (⟨e, h, hr⟩ | ⟨data, l₁, l₂, h, h', hl⟩)
    · exact Or.inl ⟨e, (hfirst _ _).2 h, hr⟩
    · exact Or.inr ⟨data, l₁, l₂, (hfirst _ _).2 h, (hrest _ _ h _ _).2 h', hl⟩

/-- Counting goes on from a version that was reached. -/
theorem countsUp_add {m a : ℕ} (hcounts : CountsUp definition m)
    (hle : Number.le (.finite (m + a : ℕ)) (payloadVersion definition) = true)
    (hdeclared : ∀ j < a, Declared definition (.finite (m + j : ℕ))) :
    CountsUp definition (m + a) := by
  intro k hk hbehind
  rcases hcounts a hle hdeclared with hwalk | ⟨hrunning, -⟩
  · have hall : ∀ j < a + k, Declared definition (.finite (m + j : ℕ)) := by
      intro j hj
      rcases Nat.lt_or_ge j a with hj' | hj'
      · exact hdeclared j hj'
      · obtain ⟨i, rfl⟩ := Nat.exists_eq_add_of_le hj'
        rw [← Nat.add_assoc]
        exact hbehind i (by omega)
    rw [Nat.add_assoc] at hk ⊢
    rw [← hwalk, ← Function.iterate_add_apply, Nat.add_comm k a]
    exact hcounts (a + k) hk hall
  · rw [hrunning, Number.le_natCast] at hk
    obtain rfl : k = 0 := by
      have := of_decide_eq_true hk
      omega
    exact Or.inl rfl

/-- Counting is the same under the definition as it stood at a version. -/
theorem countsUp_cutAt {m a : ℕ} (hcounts : CountsUp definition m)
    (hle : Number.le (.finite (m + a : ℕ)) (payloadVersion definition) = true) :
    CountsUp (cutAt definition (m + a)) m := by
  intro k hk hdeclared
  rw [payloadVersion_cutAt, Number.le_natCast] at hk
  have hka : k ≤ a := by
    have := of_decide_eq_true hk
    omega
  have hbelow : Number.le (.finite (m + k : ℕ)) (payloadVersion definition) = true := by
    refine Number.le_trans ?_ hle
    rw [Number.le_natCast]
    exact decide_eq_true (by omega)
  have hdeclared' : ∀ j < k, Declared definition (.finite (m + j : ℕ)) := by
    intro j hj
    have hlt : Number.lt (.finite (m + j : ℕ)) (.finite (m + a : ℕ)) = true := by
      rw [Number.lt_natCast]
      exact decide_eq_true (by omega)
    have h := hdeclared j hj
    rwa [Declared, lookup_cutAt hlt] at h
  rcases hcounts k hbelow hdeclared' with hwalk | ⟨hrunning, hend⟩
  · exact Or.inl hwalk
  · rw [hrunning, Number.le_natCast] at hle
    obtain rfl : k = a := by
      have := of_decide_eq_true hle
      omega
    rw [hrunning] at hend
    exact Or.inr ⟨rfl, hend⟩

theorem declared_wholeVersions {m k : ℕ}
    (h : ∀ j < k, Declared definition (.finite (m + j : ℕ))) :
    ∀ version ∈ wholeVersions m k, Declared definition version := by
  intro version hversion
  obtain ⟨i, hi, rfl⟩ := List.mem_map.1 hversion
  obtain ⟨hmi, hi⟩ := List.mem_range'_1.1 hi
  obtain ⟨j, rfl⟩ := Nat.exists_eq_add_of_le hmi
  exact h j (by omega)

theorem lt_of_mem_wholeVersions {m k : ℕ} {version : Number} (h : version ∈ wholeVersions m k) :
    version.lt (.finite (m + k : ℕ)) = true := by
  obtain ⟨i, hi, rfl⟩ := List.mem_map.1 h
  rw [Number.lt_natCast]
  exact decide_eq_true (by simpa using (List.mem_range'_1.1 hi).2)

/-- **Stopping on the way from a whole version.** -/
theorem composes_of_countsUp {m a b : ℕ} (hcounts : CountsUp definition m)
    (hv : envelope.v = .finite (m : ℕ))
    (hrunning : payloadVersion definition = .finite (m + (a + b) : ℕ)) :
    Migrates definition envelope l r ↔ MigratesThrough definition envelope (m + a) l r := by
  have hle : Number.le (.finite (m + a : ℕ)) (payloadVersion definition) = true := by
    rw [hrunning, Number.le_natCast]
    exact decide_eq_true (by omega)
  rw [migrates_iff_of_countsUp hcounts hv hrunning, wholeVersions_add]
  refine (migratesThrough_iff ?_ ?_).symm
  · intro l r
    rw [migrates_iff_of_countsUp (countsUp_cutAt hcounts hle) hv rfl,
      follow_cutAt fun version hversion => lt_of_mem_wholeVersions hversion]
  · intro l data hfollow l' r'
    have hdeclared := declared_of_follow hfollow
    refine migrates_iff_of_countsUp (countsUp_add hcounts hle fun j hj => ?_) rfl
      (by rw [hrunning, Nat.add_assoc])
    exact hdeclared _ (List.mem_map.2 ⟨m + j, List.mem_range'_1.2 ⟨by omega, by omega⟩, rfl⟩)

/-- **Stopping on the way from any other version.** -/
theorem composes_of_runsOut (hout : RunsOut definition envelope.v)
    (hknown : envelope.v.le (payloadVersion definition) = true) {m : ℕ} (hm : 1 ≤ m)
    (hle : envelope.v.le (.finite (m : ℕ)) = true)
    (hmle : Number.le (.finite (m : ℕ)) (payloadVersion definition) = true) :
    Migrates definition envelope l r ↔ MigratesThrough definition envelope m l r := by
  obtain ⟨k, hbelow, -, hmissing, hpasses⟩ := hout
  rw [migrates_iff_of_missing hknown hbelow hmissing]
  by_cases hall : ∀ j ≤ k, (Number.next^[j] envelope.v).lt (.finite (m : ℕ)) = true
  · -- the missing step is one before the stop
    have hcut : ¬Declared (cutAt definition m) (Number.next^[k] envelope.v) := by
      rw [Declared, lookup_cutAt (hall k le_rfl)]
      exact hmissing
    obtain ⟨l', e, hfollow⟩ := follow_iterate_missing hmissing envelope.data
    rw [← List.append_nil (List.iterate Number.next envelope.v (k + 1))]
    refine (migratesThrough_iff ?_ ?_).symm
    · intro l r
      rw [migrates_iff_of_missing hle hall hcut, follow_cutAt]
      intro version hversion
      obtain ⟨j, hj, rfl⟩ := List.mem_iterate.1 hversion
      exact hall j (Nat.lt_succ_iff.1 hj)
    · intro l data hok
      cases hfollow.symm.trans hok
  · push Not at hall
    -- the stop is a version on the way
    obtain ⟨j, ⟨hj, hnot⟩, hfirst⟩ : ∃ j, (j ≤ k ∧
        (Number.next^[j] envelope.v).lt (.finite (m : ℕ)) ≠ true) ∧
        ∀ i < j, (Number.next^[i] envelope.v).lt (.finite (m : ℕ)) = true := by
      classical
      refine ⟨Nat.find hall, Nat.find_spec hall, fun i hi => ?_⟩
      by_contra hnot
      exact Nat.find_min hall hi ⟨hi.le.trans (Nat.find_spec hall).1, hnot⟩
    have hstop := (hpasses m hm hle j hj hfirst).resolve_left hnot
    obtain ⟨b, rfl⟩ := Nat.exists_eq_add_of_le hj
    rw [Nat.add_assoc, List.iterate_add]
    refine (migratesThrough_iff ?_ ?_).symm
    · intro l r
      rw [migrates_iff_of_reached hle hfirst (by simpa using hnot), follow_cutAt]
      intro version hversion
      obtain ⟨i, hi, rfl⟩ := List.mem_iterate.1 hversion
      exact hfirst i hi
    · intro l data _ l' r'
      have hwalk : ∀ i, Number.next^[i] (.finite (m : ℕ)) = Number.next^[j + i] envelope.v := by
        intro i
        rw [← hstop, ← Function.iterate_add_apply, Nat.add_comm i j]
      rw [hstop]
      refine migrates_iff_of_missing hmle (fun i hi => ?_) ?_
      · change (Number.next^[i] (.finite (m : ℕ))).lt _ = true
        rw [hwalk i]
        exact hbelow (j + i) (by omega)
      · change ¬Declared definition (Number.next^[b] (.finite (m : ℕ)))
        rw [hwalk b]
        exact hmissing

/-- The law holds for a payload that is ahead. -/
theorem migrationLaw_of_ahead (hdefined : defineJob definition = .ok definition)
    (hknown : envelope.v.le (payloadVersion definition) = false) :
    MigrationLaw definition envelope := by
  obtain ⟨n, hn, hrunning⟩ := exists_running hdefined
  have hahead : Migrates definition envelope []
      (.error (versionAheadError definition.name envelope.v (payloadVersion definition))) := by
    refine ⟨0, ?_⟩
    rw [migrateWithin, assertVersionIsKnown, if_neg (by rw [hknown]; exact Bool.false_ne_true)]
    rfl
  refine ⟨⟨_, _, hahead⟩, ?_, fun _ => hahead, ?_, ?_, ?_⟩
  · intro hcurrent
    rw [hcurrent, hrunning, Number.le_natCast, decide_eq_false_iff_not] at hknown
    exact absurd le_rfl hknown
  · intro m k hm hv hrunning'
    rw [hv, hrunning', Number.le_natCast, decide_eq_false_iff_not] at hknown
    omega
  · intro hlt
    rw [Number.le_of_lt hlt] at hknown
    cases hknown
  · intro m hm hle hmle
    rw [Number.le_trans hle hmle] at hknown
    cases hknown

/-- The law holds for a payload of a whole version from which counting goes up. -/
theorem migrationLaw_of_countsUp {m k : ℕ} (hcounts : CountsUp definition m) (hm : 1 ≤ m)
    (hv : envelope.v = .finite (m : ℕ))
    (hrunning : payloadVersion definition = .finite (m + k : ℕ)) :
    MigrationLaw definition envelope := by
  have hruns := fun l r => @migrates_iff_of_countsUp definition envelope l r m k hcounts hv hrunning
  obtain ⟨l, r, hfollow⟩ := @follow_settles definition (wholeVersions m k) envelope.data
  refine ⟨⟨l, r, (hruns l r).2 hfollow⟩, ?_, ?_, ?_, ?_, ?_⟩
  · intro hcurrent
    rw [hv, hrunning] at hcurrent
    have := Decimal.natCast_injective (Number.finite.inj hcurrent)
    obtain rfl : k = 0 := by omega
    exact (hruns _ _).2 rfl
  · intro hahead
    rw [hv, hrunning, Number.le_natCast, decide_eq_false_iff_not] at hahead
    omega
  · intro m' k' hm' hv' hrunning'
    obtain rfl := Decimal.natCast_injective (Number.finite.inj (hv.symm.trans hv'))
    have := Decimal.natCast_injective (Number.finite.inj (hrunning.symm.trans hrunning'))
    obtain rfl : k = k' := by omega
    exact hruns
  · intro hlt hnot
    exact absurd hv (hnot m hm)
  · intro m' hm' hle hmle l r
    rw [hv, Number.le_natCast, decide_eq_true_iff] at hle
    rw [hrunning, Number.le_natCast, decide_eq_true_iff] at hmle
    obtain ⟨a, rfl⟩ := Nat.exists_eq_add_of_le hle
    obtain ⟨b, rfl⟩ := Nat.exists_eq_add_of_le (Nat.le_of_add_le_add_left hmle)
    exact composes_of_countsUp hcounts hv hrunning

/-- The law holds for a payload of any other version from which counting runs out of steps. -/
theorem migrationLaw_of_runsOut (hdefined : defineJob definition = .ok definition)
    (hknown : envelope.v.le (payloadVersion definition) = true)
    (hwhole : ∀ m : ℕ, 1 ≤ m → envelope.v ≠ .finite (m : ℕ))
    (hout : RunsOut definition envelope.v) : MigrationLaw definition envelope := by
  obtain ⟨n, hn, hrunning⟩ := exists_running hdefined
  obtain ⟨k, hbelow, -, hmissing, -⟩ := id hout
  have hruns := fun l r => @migrates_iff_of_missing definition envelope l r k hknown hbelow hmissing
  obtain ⟨l, e, hfollow⟩ := follow_iterate_missing hmissing envelope.data
  refine ⟨⟨l, _, (hruns _ _).2 hfollow⟩, ?_, ?_, ?_, ?_, ?_⟩
  · intro hcurrent
    rw [hrunning] at hcurrent
    exact absurd hcurrent (hwhole n hn)
  · intro hahead
    rw [hknown] at hahead
    cases hahead
  · intro m k' hm hv
    exact absurd hv (hwhole m hm)
  · intro _ _
    exact ⟨k, hbelow, l, e, (hruns _ _).2 hfollow, hfollow⟩
  · intro m hm hle hmle l r
    exact composes_of_runsOut hout hknown hm hle hmle

/-- The law holds for a stored version that a definition treats as it should. -/
theorem migrationLaw_of_keepsVersions (hdefined : defineJob definition = .ok definition)
    (hkeeps : KeepsVersions definition envelope.v) : MigrationLaw definition envelope := by
  obtain ⟨n, hn, hrunning⟩ := exists_running hdefined
  cases hknown : envelope.v.le (payloadVersion definition) with
  | false => exact migrationLaw_of_ahead hdefined hknown
  | true =>
      by_cases hwhole : ∃ m : ℕ, 1 ≤ m ∧ envelope.v = .finite (m : ℕ)
      · obtain ⟨m, hm, hv⟩ := hwhole
        rw [hv, hrunning, Number.le_natCast, decide_eq_true_iff] at hknown
        obtain ⟨k, rfl⟩ := Nat.exists_eq_add_of_le hknown
        refine migrationLaw_of_countsUp ?_ hm hv hrunning
        rcases Nat.eq_zero_or_pos k with rfl | hk
        · intro k' hk' hdeclared
          rw [hrunning, Number.le_natCast, decide_eq_true_iff] at hk'
          obtain rfl : k' = 0 := by omega
          exact Or.inl rfl
        · refine hkeeps.counts m hm hv ?_
          rw [hv, hrunning, Number.lt_natCast, decide_eq_true_iff]
          omega
      · push Not at hwhole
        have hlt : envelope.v.lt (payloadVersion definition) = true := by
          refine Number.lt_of_le_of_ne hknown ?_
          rw [hrunning]
          exact hwhole n hn
        exact migrationLaw_of_runsOut hdefined hknown hwhole (hkeeps.runsOut hlt hwhole)

/-! ### Where it fails -/

/-- A definition whose steps give back what they are given. -/
def inert (definition : JobDefinition) : JobDefinition :=
  { definition with migrations := definition.migrations.map fun p => (p.1, .ok) }

theorem keys_inert : (inert definition).migrations.map Prod.fst = definition.migrations.map
    Prod.fst := by
  rw [inert, List.map_map]
  rfl

theorem declared_iff {version : Number} : Declared definition version ↔
    Value.numberText version ∈ definition.migrations.map Prod.fst := by
  rw [Declared, List.lookup_isSome_iff, List.mem_map]
  constructor
  · rintro ⟨p, hp, heq⟩
    exact ⟨p, hp, (beq_iff_eq.1 heq).symm⟩
  · rintro ⟨p, hp, heq⟩
    exact ⟨p, hp, beq_iff_eq.2 heq.symm⟩

/-- Which steps are declared is told by their keys. -/
theorem declared_of_keys {definition' : JobDefinition}
    (hkeys : definition'.migrations.map Prod.fst = definition.migrations.map Prod.fst)
    (version : Number) : Declared definition' version ↔ Declared definition version := by
  rw [declared_iff, declared_iff, hkeys]

theorem lookup_inert {version : Number} (h : Declared definition version) :
    (inert definition).migrations.lookup (Value.numberText version) = some .ok := by
  obtain ⟨step, hstep⟩ := Option.isSome_iff_exists.1 ((declared_of_keys keys_inert version).2 h)
  obtain ⟨before, behind, hsplit, -⟩ := List.lookup_eq_some_iff.1 hstep
  have hmem : (Value.numberText version, step) ∈ (inert definition).migrations := by
    rw [hsplit]
    exact List.mem_append_right _ List.mem_cons_self
  obtain ⟨p, -, heq⟩ := List.mem_map.1 hmem
  rw [hstep, (Prod.mk.inj heq).2]

theorem follow_inert {versions : List Number}
    (h : ∀ version ∈ versions, Declared definition version)
    (data : Value) : follow (inert definition) versions data =
      some (versions.map fun version => (version, data), .ok data) := by
  induction versions with
  | nil => rfl
  | cons version versions ih =>
      rw [follow_cons, takeStep_declared (lookup_inert (h version List.mem_cons_self))]
      have hrest := ih fun w hw => h w (List.mem_cons_of_mem _ hw)
      exact Effect.bind_eq_some_iff.2 (Or.inr ⟨data, [(version, data)], _, rfl, hrest, rfl⟩)

/-- What is seen first behind a version: its step is run, or is missing. -/
def Opens (definition : JobDefinition) (version : Number) (data : Value) (l : List (Number × Value))
    (r : Except Thrown Value) : Prop :=
  (∃ l', l = (version, data) :: l') ∨ (l = [] ∧ r = .error (missingStep definition version))

theorem opens_of_bind {version : Number} {rest : Value → Effect (Number × Value) Thrown Value}
    (h : (takeStep definition data version >>= rest) = some (l, r)) :
    Opens definition version data l r := by
  by_cases hdeclared : Declared definition version
  · obtain ⟨step, hstep⟩ := Option.isSome_iff_exists.1 hdeclared
    rw [takeStep_declared hstep] at h
    rcases Effect.bind_eq_some_iff.1 h with ⟨e, hfirst, -⟩ | ⟨data', l₁, l₂, hfirst, -, rfl⟩
    · obtain ⟨rfl, -⟩ := Prod.mk.inj (Option.some.inj hfirst)
      exact Or.inl ⟨[], rfl⟩
    · obtain ⟨rfl, -⟩ := Prod.mk.inj (Option.some.inj hfirst)
      exact Or.inl ⟨l₂, rfl⟩
  · rw [takeStep_missing hdeclared] at h
    cases h
    exact Or.inr ⟨rfl, rfl⟩

theorem opens_of_loop {turns : ℕ} (hlt : v.lt (payloadVersion definition) = true)
    (h : migrateLoop definition turns v data = some (l, r)) : Opens definition v data l r := by
  cases turns with
  | zero => cases h
  | succ turns =>
      rw [migrateLoop, if_pos hlt] at h
      exact opens_of_bind h

/-- What is seen first tells the version. -/
theorem Opens.unique {v' : Number} (h : Opens definition v data l r)
    (h' : Opens definition v' data l r) : v = v' := by
  rcases h with ⟨l', rfl⟩ | ⟨rfl, rfl⟩
  · rcases h' with ⟨l'', heq⟩ | ⟨heq, -⟩
    · cases heq
      rfl
    · cases heq
  · rcases h' with ⟨l'', heq⟩ | ⟨-, heq⟩
    · cases heq
    · exact missingStep_injective (Except.error.inj heq)

/-- What a call of inert steps does behind the first versions it counts through. -/
theorem exists_behind {k : ℕ} (hle : envelope.v.le (payloadVersion definition) = true)
    (hbelow : ∀ j < k, (Number.next^[j] envelope.v).lt (payloadVersion definition) = true)
    (hdeclared : ∀ j < k, Declared definition (Number.next^[j] envelope.v))
    (h : Migrates (inert definition) envelope l r) :
    ∃ l', l = (List.iterate Number.next envelope.v k).map (fun w => (w, envelope.data)) ++ l' ∧
      ∃ turns, migrateLoop (inert definition) turns (Number.next^[k] envelope.v) envelope.data =
        some (l', r) := by
  obtain ⟨turns, hturns⟩ := h
  rw [migrateWithin, assertVersionIsKnown,
    if_pos (show envelope.v.le (payloadVersion (inert definition))
    = true from hle), Effect.ofExcept_ok_bind] at hturns
  have hloop := migrateLoop_mono (Nat.le_add_left turns k) hturns
  rw [@migrateLoop_add (inert definition) _ _ k hbelow, follow_inert] at hloop
  · rcases Effect.bind_eq_some_iff.1 hloop with ⟨e, hfirst, -⟩ | ⟨data', l₁, l₂, hfirst, hrest, rfl⟩
    · cases hfirst
    · cases hfirst
      exact ⟨l₂, rfl, turns, hrest⟩
  · intro version hversion
    obtain ⟨j, hj, rfl⟩ := List.mem_iterate.1 hversion
    exact hdeclared j hj

/-- Counting goes up where the law holds of inert steps. -/
theorem countsUp_of_migrationLaw (hlaw : MigrationLaw (inert definition) envelope) {m n : ℕ}
    (hm : 1 ≤ m)
    (hv : envelope.v = .finite (m : ℕ)) (hrunning : payloadVersion definition = .finite (n : ℕ)) :
    CountsUp definition m := by
  intro k
  induction k using Nat.strong_induction_on with
  | _ k ih =>
      intro hk hdeclared
      rw [hrunning, Number.le_natCast, decide_eq_true_iff] at hk
      obtain ⟨b, rfl⟩ := Nat.exists_eq_add_of_le hk
      have hwalk : ∀ j < k, Number.next^[j] (.finite (m : ℕ)) = .finite (m + j : ℕ) := by
        intro j hj
        refine (ih j hj ?_ fun i hi => hdeclared i (hi.trans hj)).resolve_right ?_
        · rw [hrunning, Number.le_natCast]
          exact decide_eq_true (by omega)
        · rintro ⟨heq, -⟩
          have := Decimal.natCast_injective (Number.finite.inj (hrunning.symm.trans heq))
          omega
      have hle : envelope.v.le (payloadVersion definition) = true := by
        rw [hv, hrunning, Number.le_natCast]
        exact decide_eq_true (by omega)
      have hbelow : ∀ j < k, (Number.next^[j] envelope.v).lt (payloadVersion definition) =
          true := by
        intro j hj
        rw [hv, hwalk j hj, hrunning, Number.lt_natCast]
        exact decide_eq_true (by omega)
      have hdeclared' : ∀ j < k, Declared definition (Number.next^[j] envelope.v) := by
        intro j hj
        rw [hv, hwalk j hj]
        exact hdeclared j hj
      obtain ⟨l, r, hmigrates⟩ := hlaw.terminates
      have hfollow := (hlaw.whole m (k + b) hm hv (by rw [← Nat.add_assoc]; exact hrunning) l r).1
        hmigrates
      obtain ⟨l', rfl, turns, hloop⟩ := exists_behind hle hbelow hdeclared' hmigrates
      -- behind those versions, both come to the same
      rw [hv, iterate_eq_wholeVersions hwalk, wholeVersions_add, follow_append,
        follow_inert (declared_wholeVersions hdeclared)] at hfollow
      have hrest : follow (inert definition) (wholeVersions (m + k) b) envelope.data =
          some (l', r) := by
        rcases Effect.bind_eq_some_iff.1 hfollow with ⟨e, hfirst, -⟩ | ⟨_, l₁, l₂, hfirst,
          hrest, hl⟩
        · cases congrArg Prod.snd (Option.some.inj hfirst)
        · cases hfirst
          rw [List.append_cancel_left hl]
          exact hrest
      rw [hv] at hloop
      cases hlt : (Number.next^[k] (.finite (m : ℕ))).lt (payloadVersion definition) with
      | false =>
          have hstopped : migrateLoop (inert definition) turns (Number.next^[k] (.finite (m : ℕ)))
              envelope.data = some (l', r) := hloop
          cases turns with
          | zero => cases hstopped
          | succ turns =>
              rw [migrateLoop, if_neg (show ¬(Number.next^[k] (.finite (m : ℕ))).lt
                (payloadVersion (inert definition)) = true by
                  rw [show payloadVersion (inert definition) = payloadVersion definition from rfl,
                    hlt]
                  exact Bool.false_ne_true)] at hstopped
              cases hstopped
              cases b with
              | zero => exact Or.inr ⟨hrunning, rfl⟩
              | succ b =>
                  have hopens := opens_of_bind ((follow_cons _ _).symm.trans hrest)
                  rcases hopens with ⟨l', heq⟩ | ⟨-, heq⟩ <;> cases heq
      | true =>
          have hopens := @opens_of_loop (inert definition) _ _ _ _ _ hlt hloop
          cases b with
          | zero =>
              cases hrest
              rcases hopens with ⟨l', heq⟩ | ⟨-, heq⟩ <;> cases heq
          | succ b =>
              exact Or.inl (hopens.unique (opens_of_bind ((follow_cons _ _).symm.trans hrest)))

/-- Counting runs out of steps where the law holds of inert steps. -/
theorem runsOut_of_migrationLaw (hlaw : MigrationLaw (inert definition) envelope)
    (hlt : envelope.v.lt (payloadVersion definition) = true)
    (hwhole : ∀ m : ℕ, 1 ≤ m → envelope.v ≠ .finite (m : ℕ)) : RunsOut definition envelope.v := by
  obtain ⟨k, hbelow, l, e, -, hfollow⟩ := hlaw.otherwise hlt hwhole
  -- some step on the way is missing
  have hmissing : ∃ j, j ≤ k ∧ ¬Declared definition (Number.next^[j] envelope.v) := by
    by_contra hnot
    push Not at hnot
    rw [follow_inert] at hfollow
    · cases congrArg Prod.snd (Option.some.inj hfollow)
    · intro version hversion
      obtain ⟨j, hj, rfl⟩ := List.mem_iterate.1 hversion
      exact hnot j (Nat.lt_succ_iff.1 hj)
  obtain ⟨k', ⟨hk', hmissing⟩, hdeclared⟩ : ∃ j, (j ≤ k ∧
      ¬Declared definition (Number.next^[j] envelope.v)) ∧
      ∀ i < j, Declared definition (Number.next^[i] envelope.v) := by
    classical
    refine ⟨Nat.find hmissing, Nat.find_spec hmissing, fun i hi => ?_⟩
    by_contra hnot
    exact Nat.find_min hmissing hi ⟨hi.le.trans (Nat.find_spec hmissing).1, hnot⟩
  refine ⟨k', fun j hj => hbelow j (hj.trans hk'), hdeclared, hmissing, ?_⟩
  intro m hm hle j hj hfirst
  by_cases hpast : (Number.next^[j] envelope.v).lt (.finite (m : ℕ)) = true
  · exact Or.inl hpast
  -- a stop at `m` comes to the version that was reached, and goes on from `m`
  have hjlt := hbelow j (hj.trans hk')
  have hmle : Number.le (.finite (m : ℕ)) (Number.next^[j] envelope.v) = true :=
    Number.le_of_not_lt hjlt hpast
  have hmrunning : Number.le (.finite (m : ℕ)) (payloadVersion definition) = true :=
    Number.le_trans hmle (Number.le_of_lt hjlt)
  have hmlt : Number.lt (.finite (m : ℕ)) (payloadVersion definition) = true := by
    refine Number.lt_of_le_of_ne hmrunning fun heq => ?_
    rw [heq] at hpast
    exact hpast hjlt
  have hknown := Number.le_of_lt hlt
  have hbefore : ∀ i < j, Declared definition (Number.next^[i] envelope.v) := fun i hi =>
    hdeclared i (hi.trans_le hj)
  obtain ⟨l, r, hmigrates⟩ := hlaw.terminates
  obtain ⟨l', rfl, turns, hloop⟩ :=
    exists_behind hknown (fun i hi => hbelow i (hi.le.trans (hj.trans hk'))) hbefore hmigrates
  have hpast' : (Number.next^[j] envelope.v).lt (payloadVersion (cutAt (inert definition) m)) =
      false := by
    simpa using hpast
  have hcut := fun l r => @migrates_iff_of_reached (cutAt (inert definition) m) envelope l r j
    hle hfirst
    hpast'
  have hcut' : follow (cutAt (inert definition) m) (List.iterate Number.next envelope.v j)
      envelope.data = some ((List.iterate Number.next envelope.v j).map fun w => (w, envelope.data),
        .ok envelope.data) := by
    rw [follow_cutAt, follow_inert]
    · intro version hversion
      obtain ⟨i, hi, rfl⟩ := List.mem_iterate.1 hversion
      exact hbefore i hi
    · intro version hversion
      obtain ⟨i, hi, rfl⟩ := List.mem_iterate.1 hversion
      exact hfirst i hi
  refine Or.inr ?_
  rcases (hlaw.composes m hm hle hmrunning _ _).1 hmigrates with ⟨e, h, -⟩ | ⟨data, l₁, l₂,
    h, h', hl⟩
  · cases congrArg Prod.snd (Option.some.inj (hcut'.symm.trans ((hcut _ _).1 h)))
  · obtain ⟨rfl, hdata⟩ := Prod.mk.inj (Option.some.inj (hcut'.symm.trans ((hcut _ _).1 h)))
    cases hdata
    obtain rfl := List.append_cancel_left hl
    obtain ⟨l₂, rfl, turns', hloop'⟩ := @exists_behind definition _ _ _ 0 hmrunning (by simp)
      (by simp) h'
    exact (@opens_of_loop (inert definition) _ _ _ _ _ hjlt hloop).unique
      (@opens_of_loop (inert definition) _ _ _ _ _ hmlt hloop')

/-- What a definition does with a stored version is told by the keys of its steps. -/
theorem keepsVersions_of_keys {definition' : JobDefinition}
    (hkeys : definition'.migrations.map Prod.fst = definition.migrations.map Prod.fst)
    (hrunning : payloadVersion definition' = payloadVersion definition)
    (hkeeps : KeepsVersions definition v) : KeepsVersions definition' v := by
  constructor
  · intro m hm hv hlt k hk hdeclared
    rw [hrunning] at hlt hk ⊢
    exact hkeeps.counts m hm hv hlt k hk fun j hj => (declared_of_keys hkeys _).1 (hdeclared j hj)
  · intro hlt hwhole
    rw [hrunning] at hlt
    obtain ⟨k, hbelow, hdeclared, hmissing, hpasses⟩ := hkeeps.runsOut hlt hwhole
    refine ⟨k, by rwa [hrunning], fun j hj => (declared_of_keys hkeys _).2 (hdeclared j hj),
      ?_, hpasses⟩
    exact mt (declared_of_keys hkeys _).1 hmissing

/-- **For which stored versions the law holds.**  What the steps of a definition do is left open: it
holds whatever they do, and whatever data was stored, exactly where counting names the versions. -/
theorem migrationLaw_iff (hdefined : defineJob definition = .ok definition) :
    (∀ migrations : List (String × PayloadMigration),
        migrations.map Prod.fst = definition.migrations.map Prod.fst → ∀ data,
          MigrationLaw { definition with migrations := migrations }
            { envelope with data := data }) ↔
      KeepsVersions definition envelope.v := by
  constructor
  · intro hlaw
    have hinert : MigrationLaw (inert definition) envelope := hlaw _ keys_inert envelope.data
    obtain ⟨n, hn, hrunning⟩ := exists_running hdefined
    exact ⟨fun m hm hv _ => countsUp_of_migrationLaw hinert hm hv hrunning,
      runsOut_of_migrationLaw hinert⟩
  · intro hkeeps migrations hkeys data
    refine migrationLaw_of_keepsVersions ((defineJob_withMigrations hkeys).2 hdefined) ?_
    exact keepsVersions_of_keys hkeys rfl hkeeps

/-! ### Definitions whose keys are versions -/

/-- Where every key names a version, no step is declared from anything else. -/
theorem missing_of_whole_keys (hdefined : defineJob definition = .ok definition)
    (hkeys : "" ∉ definition.migrations.map Prod.fst) (hdouble : v.double = v)
    (hwhole : ∀ m : ℕ, 1 ≤ m → v ≠ .finite (m : ℕ)) : ¬Declared definition v := by
  intro hdeclared
  have hmem := declared_iff.1 hdeclared
  have hnone : (definition.migrations.map Prod.fst).find?
      (isStrayKey (payloadVersion definition)) = none := by
    obtain ⟨-, -, hfirst⟩ := assertVersioning_eq_ok_iff.1 (defineJob_eq_ok_iff.1 hdefined).1
    by_contra hsome
    obtain ⟨key, hkey⟩ := Option.ne_none_iff_exists'.1 hsome
    obtain rfl := hfirst key hkey
    exact hkeys (List.mem_of_find?_eq_some hkey)
  have hclean := List.find?_eq_none.1 hnone _ hmem
  rw [isStrayKey, Number.ofText_numberText, hdouble] at hclean
  simp only [Bool.or_eq_true, Bool.not_eq_true', not_or, Bool.not_eq_false,
    Bool.not_eq_true] at hclean
  obtain ⟨m, hm, rfl⟩ := Number.exists_natCast hclean.1.1 hclean.1.2
  exact hwhole m hm rfl

/-- **Every stored version is treated as it should be where every key names a version**, as far as
doubles tell whole numbers apart. -/
theorem keepsVersions_of_whole_keys (hdefined : defineJob definition = .ok definition)
    (hkeys : "" ∉ definition.migrations.map Prod.fst) {n : ℕ}
    (hrunning : payloadVersion definition = .finite (n : ℕ)) (hn : n < 2 ^ 53)
    (hdouble : v.double = v) : KeepsVersions definition v := by
  constructor
  · intro m hm _ _ k hk _
    left
    rw [hrunning, Number.le_natCast, decide_eq_true_iff] at hk
    clear * - hk hn
    induction k with
    | zero => rfl
    | succ k ih =>
        rw [Function.iterate_succ_apply', ih (by omega)]
        exact Number.next_natCast (by omega)
  · intro hlt hwhole
    have hmissing := missing_of_whole_keys hdefined hkeys hdouble hwhole
    refine ⟨0, ?_, ?_, hmissing, ?_⟩
    · intro j hj
      obtain rfl := Nat.le_zero.1 hj
      exact hlt
    · intro j hj
      cases hj
    · intro m hm hle j hj _
      obtain rfl := Nat.le_zero.1 hj
      exact Or.inl (Number.lt_of_le_of_ne hle (hwhole m hm))

/-- The law holds for every payload of a definition whose keys name versions. -/
theorem migrationLaw_of_whole_keys (hdefined : defineJob definition = .ok definition)
    (hkeys : "" ∉ definition.migrations.map Prod.fst) {n : ℕ}
    (hrunning : payloadVersion definition = .finite (n : ℕ)) (hn : n < 2 ^ 53)
    (hdouble : envelope.v.double = envelope.v) : MigrationLaw definition envelope :=
  migrationLaw_of_keepsVersions hdefined
    (keepsVersions_of_whole_keys hdefined hkeys hrunning hn hdouble)

/-! ### The loop of a delivery -/

/-- One step comes to what the loop of `migrateEnvelope` does with it. -/
theorem takeStep_eq (data : Value) (version : Number) :
    ∃ l, takeStep definition data version = some (l, migrateStep definition data version) := by
  by_cases h : Declared definition version
  · obtain ⟨step, hstep⟩ := Option.isSome_iff_exists.1 h
    refine ⟨[(version, data)], ?_⟩
    rw [takeStep_declared hstep]
    simp only [migrateStep, stepOf, hstep]
    rfl
  · have hnone : definition.migrations.lookup (Value.numberText version) = none :=
      Option.not_isSome_iff_eq_none.1 h
    refine ⟨[], ?_⟩
    rw [takeStep_missing h]
    simp only [migrateStep, stepOf, hnone]
    rfl

theorem migrateFrom_of_loop {turns : ℕ} (h : migrateLoop definition turns v data = some (l, r)) :
    definition.migrateFrom v data = some r := by
  induction turns generalizing v data l with
  | zero => cases h
  | succ turns ih =>
      rw [migrateLoop] at h
      rw [migrateFrom_eq]
      split_ifs at h ⊢ with hlt
      · obtain ⟨l₀, hstep⟩ := @takeStep_eq definition data v
        rw [hstep] at h
        rcases Effect.bind_eq_some_iff.1 h with ⟨e, hfirst, rfl⟩ | ⟨data', l₁, l₂, hfirst, hrest, -⟩
        · rw [(Prod.mk.inj (Option.some.inj hfirst)).2]
        · rw [(Prod.mk.inj (Option.some.inj hfirst)).2]
          exact ih hrest
      · cases h
        rfl

theorem loop_of_migrateFrom (h : definition.migrateFrom v data = some r) :
    ∃ turns l, migrateLoop definition turns v data = some (l, r) := by
  refine migrateFrom_induct
    (motive := fun v data r => ∃ turns l, migrateLoop definition turns v data = some (l, r))
    ?_ ?_ ?_ h
  · intro v data hlt
    refine ⟨1, [], ?_⟩
    rw [migrateLoop, hlt]
    rfl
  · intro v data e hlt hone
    obtain ⟨l₀, hstep⟩ := @takeStep_eq definition data v
    rw [hone] at hstep
    refine ⟨1, l₀, ?_⟩
    rw [migrateLoop, if_pos hlt, hstep]
    rfl
  · rintro v data data' r hlt hone ⟨turns, l', hrest⟩
    obtain ⟨l₀, hstep⟩ := @takeStep_eq definition data v
    rw [hone] at hstep
    refine ⟨turns + 1, l₀ ++ l', ?_⟩
    rw [migrateLoop, if_pos hlt, hstep]
    exact Effect.bind_eq_some_iff.2 (Or.inr ⟨data', l₀, l', rfl, hrest, rfl⟩)

/-- **`migrateEnvelope` is what the loop comes to**, and nothing where the loop is never left. -/
theorem migrateEnvelope_eq_iff :
    migrateEnvelope definition envelope = some r ↔ ∃ l, Migrates definition envelope l r := by
  by_cases hknown : envelope.v.le (payloadVersion definition) = true
  · rw [migrateEnvelope_known hknown]
    constructor
    · intro h
      obtain ⟨turns, l, hloop⟩ := loop_of_migrateFrom h
      exact ⟨l, turns, (migrateWithin_known hknown turns).trans hloop⟩
    · rintro ⟨l, turns, h⟩
      exact migrateFrom_of_loop ((migrateWithin_known hknown turns).symm.trans h)
  · have hwithin : ∀ turns, migrateWithin definition envelope turns = some ([],
        .error (versionAheadError definition.name envelope.v (payloadVersion definition))) := by
      intro turns
      rw [migrateWithin, assertVersionIsKnown, if_neg hknown]
      rfl
    rw [migrateEnvelope_ahead (by simpa using hknown)]
    constructor
    · intro h
      cases h
      exact ⟨[], 0, hwithin 0⟩
    · rintro ⟨l, turns, h⟩
      cases (hwithin turns).symm.trans h
      rfl

/-- Where every key names a version, every migration ends. -/
theorem migrateEnvelope_ends (hdefined : defineJob definition = .ok definition)
    (hkeys : "" ∉ definition.migrations.map Prod.fst) {n : ℕ}
    (hrunning : payloadVersion definition = .finite (n : ℕ)) (hn : n < 2 ^ 53)
    (hdouble : envelope.v.double = envelope.v) :
    ∃ r, migrateEnvelope definition envelope = some r := by
  obtain ⟨l, r, h⟩ := (migrationLaw_of_whole_keys hdefined hkeys hrunning hn hdouble).terminates
  exact ⟨r, migrateEnvelope_eq_iff.2 ⟨l, h⟩⟩

/-! ### Two definitions -/

/-- A job at its second version. -/
def secondLineJob : JobDefinition := { lineJob with version := some 2, migrations := [("1", .ok)] }

/-- One whose steps hide behind the empty key. -/
def looseLineJob : JobDefinition :=
  { lineJob with version := some 2, migrations := [("", .ok), ("1.5", .ok)] }

/-- A stored payload of a given version. -/
def storedLine (v : Number) : Envelope := ⟨v, "invoice.line", .null, .direct, none⟩

theorem defineJob_secondLineJob : defineJob secondLineJob = .ok secondLineJob := by
  refine defineJob_eq_ok_iff.2 ⟨assertVersioning_eq_ok_iff.2 ⟨by decide, by decide +kernel, ?_⟩,
    rfl, rfl⟩
  intro key hkey
  have hnone : ["1"].find? (isStrayKey 2) = none := by decide +kernel
  cases hnone.symm.trans hkey

theorem migrationLaw_example : MigrationLaw secondLineJob (storedLine 1) := by
  have hkeeps : KeepsVersions secondLineJob (storedLine 1).v :=
    keepsVersions_of_whole_keys defineJob_secondLineJob (by decide) rfl (by decide : 2 < 2 ^ 53)
      (Number.double_natCast (by decide : 1 < 2 ^ 53))
  exact (@migrationLaw_iff secondLineJob (storedLine 1) defineJob_secondLineJob).2 hkeeps
    secondLineJob.migrations rfl (storedLine 1).data

/-- A stored version that is no whole number is migrated by a step that an accepted definition
declares behind the empty key, and nothing is rejected. -/
theorem fraction_migrated : defineJob looseLineJob = .ok looseLineJob ∧
    Migrates looseLineJob (storedLine (.finite (.reduce 15 1)))
      [(.finite (.reduce 15 1), .null)] (.ok .null) ∧
    ¬MigrationLaw looseLineJob (storedLine (.finite (.reduce 15 1))) := by
  have hlt : Number.lt (.finite (.reduce 15 1)) 2 = true := by decide +kernel
  have hnext : (Number.next (.finite (.reduce 15 1))).lt 2 = false := by decide +kernel
  have hstep : takeStep looseLineJob .null (.finite (.reduce 15 1)) =
      some ([(.finite (.reduce 15 1), .null)], .ok .null) :=
    @takeStep_declared looseLineJob .null (.finite (.reduce 15 1)) .ok rfl
  have hloop : migrateLoop looseLineJob 2 (.finite (.reduce 15 1)) .null =
      some ([(.finite (.reduce 15 1), .null)], .ok .null) := by
    rw [migrateLoop, if_pos (show Number.lt _ (payloadVersion looseLineJob) = true from hlt), hstep]
    refine Effect.bind_eq_some_iff.2 (Or.inr ⟨.null, _, [], rfl, ?_, rfl⟩)
    rw [migrateLoop, if_neg]
    · rfl
    · rw [show payloadVersion looseLineJob = 2 from rfl, hnext]
      exact Bool.false_ne_true
  have hruns := fun l r => @migrates_iff looseLineJob (storedLine (.finite (.reduce 15 1))) l r 2 _
    (Number.le_of_lt hlt) hloop
  refine ⟨?_, (hruns _ _).2 rfl, ?_⟩
  · refine defineJob_eq_ok_iff.2 ⟨assertVersioning_eq_ok_iff.2 ⟨by decide, by decide +kernel, ?_⟩,
      rfl, rfl⟩
    intro key hkey
    have hfirst : ["", "1.5"].find? (isStrayKey 2) = some "" := by decide +kernel
    exact (Option.some.inj (hfirst.symm.trans hkey)).symm
  · intro hlaw
    obtain ⟨k, -, l, e, hmigrates, -⟩ := hlaw.otherwise hlt (by
      intro m _ heq
      have hscale := congrArg Decimal.scale (Number.finite.inj heq)
      cases hscale)
    cases congrArg Prod.snd ((hruns _ _).1 hmigrates)

end Jubs
