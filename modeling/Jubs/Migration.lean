/-
**Migrating a stored payload to the version that runs.**

A payload is stored with the version of the definition that wrote it.  A delivery refuses a version
ahead of its own, and carries an older payload forward one version at a time.

Main definitions:

* `Jubs.versionAheadError`, `Jubs.assertVersionIsKnown` — the refusal of a newer payload;
* `Jubs.JobDefinition.migrateFrom`, `Jubs.migrateEnvelope` — the loop, and the payload at the
  version that runs.

Main results:

* `Jubs.migrateFrom_eq`, `Jubs.migrateFrom_induct` — one turn of the loop, and what it comes to;
* `Jubs.migrateEnvelope_ahead`, `Jubs.migrateEnvelope_known` — the two ways a call starts;
* `Jubs.migrateEnvelope_current` — a payload of the running version is not touched.
-/

import Jubs.Effect
import Jubs.Envelope
import Jubs.NumberOrder

set_option autoImplicit false

namespace Jubs

/-! ### Migrating -/

/-- `new VersionAheadError(jobName, stored, running)`. -/
def versionAheadError (jobName : String) (stored running : Number) : Thrown :=
  newError .versionAhead "VersionAheadError"
    ("jubs: the job \"" ++ jobName ++ "\" stored a payload of version " ++
      Value.numberText stored ++ ", and this process runs version " ++ Value.numberText running ++
      " — a newer deploy wrote it, so this process cannot read it") none none

/-- `assertVersionIsKnown(definition, envelope)`. -/
def assertVersionIsKnown (definition : JobDefinition) (envelope : Envelope) : Except Thrown Unit :=
  let running := payloadVersion definition
  if envelope.v.le running then .ok ()
  else .error (versionAheadError definition.name envelope.v running)

/-- `stepOf(definition, from)`. -/
def stepOf (definition : JobDefinition) (version : Number) : Except Thrown PayloadMigration :=
  let key := Value.numberText version
  match definition.migrations.lookup key with
  | some step => .ok step
  | none => .error (plainError ("jubs: the job \"" ++ definition.name ++
      "\" stored a payload of version " ++ key ++ " and declares no migration from it — add " ++
      "`migrations: \x7b " ++ key ++ ": (data) => ... \x7d` to its definition") none)

/-- The error of a migration that threw.  Reading the text of what it threw may itself throw. -/
def migrationError (definition : JobDefinition) (version : Number) (error : Thrown) : Thrown :=
  match (serializeError error).bind fun s => s.message.toText with
  | some text => plainError ("jubs: the migration of job \"" ++ definition.name ++
      "\" from version " ++ Value.numberText version ++ " to " ++
      Value.numberText version.next ++ " threw — " ++ text) (some error)
  | none => typeError

/-- The body of the loop of `migrateEnvelope`. -/
def migrateStep (definition : JobDefinition) (data : Value) (version : Number) :
    Except Thrown Value := do
  let step ← stepOf definition version
  (step data).mapError (migrationError definition version)

/-- The loop of `migrateEnvelope`.  It is left when the version is no longer below the one that
runs, or when a step fails: a loop that never is gives nothing. -/
def JobDefinition.migrateFrom (definition : JobDefinition) (version : Number) (data : Value) :
    Option (Except Thrown Value) :=
  if version.lt (payloadVersion definition) then
    -- tested and bound, not matched: what is bound is seen to be monotone in the recursive call
    if (migrateStep definition data version).isOk then
      (migrateStep definition data version).toOption >>= fun data =>
        definition |>.migrateFrom version.next data
    else some (migrateStep definition data version)
  else some (.ok data)
partial_fixpoint

/-- One turn of the loop. -/
theorem migrateFrom_eq (definition : JobDefinition) (version : Number) (data : Value) :
    definition.migrateFrom version data =
      if version.lt (payloadVersion definition) then
        match migrateStep definition data version with
        | .error e => some (.error e)
        | .ok data => definition.migrateFrom version.next data
      else some (.ok data) := by
  rw [JobDefinition.migrateFrom]
  split
  · cases migrateStep definition data version <;> rfl
  · rfl

/-- **What the loop comes to**: whatever holds where the loop is left and where a step fails, and is
handed back by a turn, holds of it. -/
theorem migrateFrom_induct {definition : JobDefinition}
    {motive : Number → Value → Except Thrown Value → Prop}
    (left : ∀ version data, version.lt (payloadVersion definition) = false →
      motive version data (.ok data))
    (failed : ∀ version data error, version.lt (payloadVersion definition) = true →
      migrateStep definition data version = .error error → motive version data (.error error))
    (turned : ∀ version data data' r, version.lt (payloadVersion definition) = true →
      migrateStep definition data version = .ok data' → motive version.next data' r →
        motive version data r)
    {version : Number} {data : Value} {r : Except Thrown Value}
    (h : definition.migrateFrom version data = some r) : motive version data r := by
  refine JobDefinition.migrateFrom.partial_correctness definition motive ?_ version data r h
  intro loop ih version data r h
  split_ifs at h with hlt hok
  · cases hstep : migrateStep definition data version with
    | error error =>
        rw [hstep] at hok
        cases hok
    | ok data' =>
        rw [hstep] at h
        exact turned version data data' r hlt hstep (ih _ _ _ h)
  · cases hstep : migrateStep definition data version with
    | error error =>
        rw [hstep] at h
        cases h
        exact failed version data error hlt hstep
    | ok data' =>
        rw [hstep] at hok
        exact absurd rfl hok
  · cases h
    exact left version data (Bool.not_eq_true _ ▸ hlt)

/-- `migrateEnvelope(definition, envelope)`. -/
def migrateEnvelope (definition : JobDefinition) (envelope : Envelope) : Answer Thrown Value :=
  match assertVersionIsKnown definition envelope with
  | .error e => some (.error e)
  | .ok () => definition.migrateFrom envelope.v envelope.data

/-- A payload of a newer version is refused. -/
theorem migrateEnvelope_ahead {definition : JobDefinition} {envelope : Envelope}
    (h : envelope.v.le (payloadVersion definition) = false) :
    migrateEnvelope definition envelope =
      some (.error (versionAheadError definition.name envelope.v (payloadVersion definition))) := by
  simp [migrateEnvelope, assertVersionIsKnown, h]

/-- Any other payload goes through the loop. -/
theorem migrateEnvelope_known {definition : JobDefinition} {envelope : Envelope}
    (h : envelope.v.le (payloadVersion definition) = true) :
    migrateEnvelope definition envelope = definition.migrateFrom envelope.v envelope.data := by
  simp [migrateEnvelope, assertVersionIsKnown, h]

/-- A payload of the running version is not touched. -/
theorem migrateEnvelope_current {definition : JobDefinition} {envelope : Envelope} {d : Decimal}
    (hv : envelope.v = .finite d) (hrun : payloadVersion definition = .finite d) :
    migrateEnvelope definition envelope = some (.ok envelope.data) := by
  have hle : envelope.v.le (payloadVersion definition) = true := by simp [hv, hrun, Number.le]
  have hlt : envelope.v.lt (payloadVersion definition) = false := by
    rw [hv, hrun]
    exact Number.lt_irrefl _
  rw [migrateEnvelope_known hle, migrateFrom_eq, hlt]
  rfl

end Jubs
