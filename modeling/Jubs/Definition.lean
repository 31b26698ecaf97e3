/-
**Job definitions, and what `defineJob` refuses.**

A definition names a job, its queue, its schemas, what it waits on, how it is delivered and what
key it is guarded by.  Schemas, migrations, key functions and delivery policies are code of the
caller: each is a function that may throw.

Main definitions:

* `Jubs.Schema`, `Jubs.validatePayload`, `Jubs.validateResult` — schemas and their refusals;
* `Jubs.Delivery`, `Jubs.Unique`, `Jubs.DeliveryPolicy` — how a job is delivered;
* `Jubs.JobDefinition`, `Jubs.slotsOf` — definitions and their slots;
* `Jubs.defineJob` — the definition, or the error that refuses it.

Main results:

* `Jubs.defineJob_slot_name` — **a slot of an accepted definition holds neither separator** that a
  child's stored id is cut on.
-/

import Jubs.Thrown

set_option autoImplicit false

namespace Jubs

/-- `throw new Error(message)`. -/
def plainError (message : String) (cause : Option Thrown) : Thrown :=
  newError .plain "Error" message none cause

/-! ### Schemas -/

/-- One complaint of a schema: the path as text, segment by segment, and the message. -/
structure Issue where
  path : List String
  message : String

/-- What a schema answers about a value. -/
inductive Validation where
  | value (v : Value)
  | issues (is : List Issue)

/-- A schema of the caller. -/
structure Schema where
  validate : Value → Except Thrown Validation

/-- `readPath(issue)`, where an empty path reads as the root of what was validated. -/
def readPath (root : String) (issue : Issue) : String :=
  if issue.path = [] then root else String.intercalate "." issue.path

/-- The complaints of a schema, in one text. -/
def reasons (root : String) (is : List Issue) : String :=
  String.intercalate "; " (is.map fun issue => readPath root issue ++ ": " ++ issue.message)

/-- `new PayloadError(jobName, issues)`. -/
def payloadError (jobName : String) (is : List Issue) : Thrown :=
  newError .payload "PayloadError"
    ("jubs: the payload for job \"" ++ jobName ++ "\" is invalid — " ++ reasons "payload" is)
    none none

/-- `new ResultError(jobName, issues)`. -/
def resultError (jobName : String) (is : List Issue) : Thrown :=
  newError .result "ResultError"
    ("jubs: the result of job \"" ++ jobName ++ "\" is invalid — " ++ reasons "result" is)
    none none

/-! ### Delivery -/

/-- What uniqueness does with a second enqueue. -/
inductive UniqueMode where
  | keepFirst
  | keepLast
  | noOverlap
deriving DecidableEq

/-- The `unique` a delivery policy declares. -/
structure Unique where
  key : Value → Except Thrown String
  mode : UniqueMode
  ttlMs : Option Number

/-- A `unique` with its key computed from one payload. -/
inductive ResolvedUnique where
  | keepFirst (key : String) (ttlMs : Option Number)
  | keepLast (key : String) (ttlMs : Number)
  | noOverlap (key : String)

/-- An exponential backoff. -/
structure Backoff where
  delayMs : Number

/-- How one job is delivered. -/
structure Delivery where
  attempts : Number
  backoff : Backoff
  priority : Number
  keepCompletedForMs : Number
  keepFailedCount : Number
  delayMs : Option Number
  unique : Option ResolvedUnique

/-- What a delivery policy sets; `none` keeps the default. -/
structure DeliveryOverrides where
  attempts : Option Number
  backoff : Option Backoff
  priority : Option Number
  keepCompletedForMs : Option Number
  keepFailedCount : Option Number
  delayMs : Option Number
  unique : Option Unique

/-- A delivery policy: overrides, or a function from the payload and the defaults to overrides. -/
inductive DeliveryPolicy where
  | static (overrides : DeliveryOverrides)
  | computed (policy : Value → Delivery → Except Thrown DeliveryOverrides)

/-! ### Definitions -/

/-- One slot of a definition's `awaits`: the name children are stored under, the definition they
run, and whether the slot holds one child or many. -/
structure Slot (δ : Type) where
  name : String
  many : Bool
  definition : δ

/-- A migration of a payload from one version to the next. -/
abbrev PayloadMigration : Type := Value → Except Thrown Value

/-- A job definition.  `awaits` lists the entries of the object that declares the slots, empty when
there is none; `migrations` lists the entries of the object that declares the migrations; of a
`schedule` only its presence is kept. -/
structure JobDefinition where
  name : String
  queue : String
  payload : Schema
  result : Option Schema
  awaits : List (Slot JobDefinition)
  version : Option Number
  migrations : List (String × PayloadMigration)
  delivery : Option DeliveryPolicy
  schedule : Bool
  idempotencyKey : Option (Value → Except Thrown String)
  timeoutMs : Option Number

/-- `slotsOf(definition)`. -/
def slotsOf (definition : JobDefinition) : List (Slot JobDefinition) := definition.awaits

/-- The version of a definition that declares none. -/
def defaultPayloadVersion : Number := 1

/-- `payloadVersion(definition)`. -/
def payloadVersion (definition : JobDefinition) : Number :=
  definition.version.getD defaultPayloadVersion

/-- `validatePayload(definition, data)`. -/
def validatePayload (definition : JobDefinition) (data : Value) : Except Thrown Value := do
  match ← definition.payload.validate data with
  | .issues is => throw (payloadError definition.name is)
  | .value v => return v

/-- `validateResult(definition, value)`. -/
def validateResult (definition : JobDefinition) (value : Value) : Except Thrown Value :=
  match definition.result with
  | none => .ok value
  | some schema => do
      match ← schema.validate value with
      | .issues is => throw (resultError definition.name is)
      | .value v => return v

/-! ### What `defineJob` refuses -/

/-- What parts a flow child's stored id into the slot it fills and the unique half behind it. -/
def flowIdMarker : Char := '~'

/-- `strayMigration(name, from, version)`. -/
def strayMigration (name key : String) (version : Number) : Thrown :=
  let declares := "jubs: the job \"" ++ name ++ "\" declares a migration from version " ++ key ++
    ", which never runs — the job runs payload version " ++ Value.numberText version
  if version.le defaultPayloadVersion then
    plainError (declares ++ ", so it takes no migration at all; raise its `version` first") none
  else
    plainError (declares ++ ", so a migration key is a whole number between 1 and " ++
      Value.numberText version.pred) none

/-- `assertVersioning(definition)`. -/
def assertVersioning (definition : JobDefinition) : Except Thrown Unit :=
  let version := payloadVersion definition
  if !version.isInteger || version.lt 1 then
    .error (plainError ("jubs: the job \"" ++ definition.name ++
      "\" declares the payload version " ++ Value.numberText version ++
      " — a payload version is a whole number of 1 or more") none)
  else
    let stray := (definition.migrations.map Prod.fst).find? fun key =>
      let from_ := Number.ofText key
      !from_.isInteger || from_.lt 1 || version.le from_
    match stray with
    | some key => if key = "" then .ok () else .error (strayMigration definition.name key version)
    | none => .ok ()

/-- `assertTimeout(definition)`. -/
def assertTimeout (definition : JobDefinition) : Except Thrown Unit :=
  match definition.timeoutMs with
  | none => .ok ()
  | some timeoutMs =>
      if timeoutMs.isFinite && Number.lt 0 timeoutMs then .ok ()
      else .error (plainError ("jubs: the job \"" ++ definition.name ++
        "\" declares the `timeoutMs` " ++ Value.numberText timeoutMs ++
        " — a timeout is a number of milliseconds above 0, so give it one or drop `timeoutMs` " ++
        "to let the handler run for as long as it takes") none)

/-- Whether a delivery policy is an object that declares `unique`.  A policy written as a function
is not read. -/
def declaresUnique : Option DeliveryPolicy → Bool
  | some (.static overrides) => overrides.unique.isSome
  | _ => false

/-- The first separator a slot name holds. -/
def straySeparator (slot : String) : Option Char :=
  [':', flowIdMarker].find? fun c => c ∈ slot.toList

/-- Refuses the first slot whose name holds a separator. -/
def assertSlots (name : String) : List (Slot JobDefinition) → Except Thrown Unit
  | [] => .ok ()
  | slot :: slots =>
      match straySeparator slot.name with
      | some stray => .error (plainError ("jubs: the job \"" ++ name ++ "\" waits on the slot \"" ++
          slot.name ++ "\", whose name holds \"" ++ String.ofList [stray] ++
          "\" — a child is stored under an id built from the slot it fills, which that " ++
          "character breaks, so rename the slot") none)
      | none => assertSlots name slots

/-- `assertAwaits(input)`. -/
def assertAwaits (input : JobDefinition) : Except Thrown Unit :=
  if input.awaits = [] then .ok ()
  else if declaresUnique input.delivery then
    .error (plainError ("jubs: the job \"" ++ input.name ++ "\" declares `unique` and `awaits` " ++
      "— uniqueness does not apply inside a flow, at any position, and a job that waits on " ++
      "children is a flow, so drop `unique` from its delivery or drop `awaits` from that " ++
      "definition") none)
  else if input.idempotencyKey.isSome then
    .error (plainError ("jubs: the job \"" ++ input.name ++ "\" declares `idempotencyKey` and " ++
      "`awaits` — a key derived from the payload alone would replay the result of an earlier " ++
      "flow that ran different children, so drop `idempotencyKey` from that definition or give " ++
      "the key to the jobs it waits on instead") none)
  else if input.schedule then
    .error (plainError ("jubs: the job \"" ++ input.name ++ "\" declares `schedule` and " ++
      "`awaits` — a recurrence enqueues this job on its own, with nothing to fill its slots, " ++
      "every tick would run over children it never had — drop `schedule` from that definition " ++
      "and give it to a job that waits on nothing, which enqueues this flow with jobs.enqueue")
        none)
  else assertSlots input.name input.awaits

/-- `defineJob(input)`.  The fields it drops are those that hold nothing. -/
def defineJob (input : JobDefinition) : Except Thrown JobDefinition := do
  assertVersioning input
  assertTimeout input
  assertAwaits input
  return input

/-! ### What an accepted definition satisfies -/

theorem straySeparator_eq_none {slot : String} (h : straySeparator slot = none) :
    ':' ∉ slot.toList ∧ flowIdMarker ∉ slot.toList := by
  simpa [straySeparator] using h

theorem assertSlots_ok {name : String} {slots : List (Slot JobDefinition)}
    (h : assertSlots name slots = .ok ()) :
    ∀ slot ∈ slots, ':' ∉ slot.name.toList ∧ flowIdMarker ∉ slot.name.toList := by
  induction slots with
  | nil => simp
  | cons slot slots ih =>
      rw [assertSlots] at h
      split at h
      · cases h
      · rename_i hslot
        intro s hs
        rcases List.mem_cons.1 hs with rfl | hs
        · exact straySeparator_eq_none hslot
        · exact ih h s hs

theorem defineJob_eq {input definition : JobDefinition} (h : defineJob input = .ok definition) :
    definition = input ∧ assertAwaits input = .ok () := by
  obtain ⟨_, -, h⟩ := bind_eq_ok.1 h
  obtain ⟨_, -, h⟩ := bind_eq_ok.1 h
  obtain ⟨_, ha, h⟩ := bind_eq_ok.1 h
  exact ⟨(Except.ok.inj h).symm, ha⟩

/-- **A slot of an accepted definition holds neither separator.** -/
theorem defineJob_slot_name {input definition : JobDefinition}
    (h : defineJob input = .ok definition) :
    ∀ slot ∈ slotsOf definition,
      ':' ∉ slot.name.toList ∧ flowIdMarker ∉ slot.name.toList := by
  obtain ⟨rfl, ha⟩ := defineJob_eq h
  unfold assertAwaits at ha
  split at ha
  · rename_i hnil
    simp [slotsOf, hnil]
  · repeat' split at ha
    all_goals first | cases ha | exact assertSlots_ok ha

/-- A definition that declares no version, no migration and no timeout is accepted with its
slots. -/
theorem defineJob_unversioned {input : JobDefinition} (hversion : input.version = none)
    (hmigrations : input.migrations = []) (htimeout : input.timeoutMs = none)
    (hawaits : assertAwaits input = .ok ()) : defineJob input = .ok input := by
  have hone : Number.lt (1 : Number) 1 = false := by
    show decide (Decimal.toRat 1 < Decimal.toRat 1) = false
    simp
  have hwhole : Number.isInteger (1 : Number) = true := rfl
  simp [defineJob, assertVersioning, payloadVersion, defaultPayloadVersion, hversion, hone, hwhole,
    hmigrations, assertTimeout, htimeout, hawaits, bind, Except.bind, pure, Except.pure]

/-- One that declares no slot either is accepted. -/
theorem defineJob_plain {input : JobDefinition} (hversion : input.version = none)
    (hmigrations : input.migrations = []) (htimeout : input.timeoutMs = none)
    (hawaits : input.awaits = []) : defineJob input = .ok input :=
  defineJob_unversioned hversion hmigrations htimeout (by rw [assertAwaits, if_pos hawaits])

/-! ### A plain definition -/

/-- A schema that accepts everything. -/
def anySchema : Schema := ⟨fun value => .ok (.value value)⟩

/-- A job that waits on nothing. -/
def lineJob : JobDefinition where
  name := "invoice.line"
  queue := "mail"
  payload := anySchema
  result := none
  awaits := []
  version := none
  migrations := []
  delivery := none
  schedule := false
  idempotencyKey := none
  timeoutMs := none

end Jubs
