/-
**What a dead queue keeps of a buried job, and how it is read back.**

A burial is stored as JSON and every field of it is checked when it is read.  What the runtime
writes into it comes from an error that any code may have thrown: the name, the message and the
stack of an error are copied as they are, while a value that is no error is converted to text.

Main definitions:

* `Jubs.DeadEntry.toValue`, `Jubs.DeadEntry.stored` — a burial as an object, and what is stored of
  it;
* `Jubs.readSnapshot`, `Jubs.readError`, `Jubs.Dead.readChildren`, `Jubs.readDeadEntry` — the
  reader;
* `Jubs.listDead` — the listing of a dead queue, which leaves out what it cannot read;
* `Jubs.buriedEntry` — the burial of a delivery that ended with an error;
* `Jubs.Thrown.isText` — an error whose copied properties are texts.

Main results:

* `Jubs.readEnvelope_toValue` — what is read of a written envelope;
* `Jubs.readEnvelope_stored` — a readable envelope survives its storage;
* `Jubs.report_buries` — what a report buries;
* `Jubs.burial_survives_iff` — **a burial survives its storage exactly when the copied properties of
  its error are texts**;
* `Jubs.burial_lost` — one that does not.
-/

import Jubs.FlowStore
import Jubs.Reports
import Jubs.Stored

set_option autoImplicit false

namespace Jubs

/-! ### Writing -/

/-- The text a reason is stored as. -/
def Burial.reason : Burial → String
  | .attemptsExhausted => "attempts_exhausted"
  | .unrecoverable => "unrecoverable"
  | .versionAhead => "version_ahead"
  | .cancelled => "cancelled"
  | .childDead _ => "child_dead"
  | .childrenShort => "children_short"

/-- The properties of a snapshot. -/
def ErrorSnapshot.fields (s : ErrorSnapshot) : List (String × Value) :=
  [("name", s.name), ("message", s.message)] ++ (s.stack.map fun stack => ("stack", stack)).toList

/-- The object a serialized error is. -/
def SerializedError.toValue (e : SerializedError) : Value :=
  .obj (e.fields ++ (e.cause.map fun cause => ("cause", .obj cause.fields)).toList)

/-- The object one result of a child is. -/
def ChildResult.toValue (child : ChildResult) : Value :=
  .obj [("slot", .str child.slot), ("value", child.value)]

/-- The properties a reason carries with it. -/
def Burial.fields : Burial → List (String × Value)
  | .childDead children =>
      [("reason", .str "child_dead"), ("children", .arr (children.map ChildResult.toValue))]
  | burial => [("reason", .str burial.reason)]

/-- The object a burial is. -/
def DeadEntry.toValue (entry : DeadEntry) : Value :=
  .obj ([("jobId", .str entry.jobId), ("envelope", entry.envelope.toValue),
    ("error", entry.error.toValue)] ++ entry.burial.fields)

/-- What a burial is stored as, and read back as.  `none` when `JSON.stringify` throws. -/
def DeadEntry.stored (entry : DeadEntry) : Option Value :=
  entry.toValue.toJson.bind fun json => json.map Value.ofJson

/-! ### Reading -/

/-- `new DeadRecordError(reason)`. -/
def deadRecordError (reason : String) : Thrown :=
  newError .plain "DeadRecordError" ("jubs: the stored dead record is not a jubs burial — " ++
    reason ++ ". Nothing can replay a record of this shape; drop it with jobs.dead.discard(id).")
    none none

/-- Whether a value is an object: `typeof value === "object" && value !== null`. -/
def isObject (v : Value) : Bool :=
  match v with
  | .arr _ | .sparse _ | .obj _ | .other _ _ => true
  | _ => false

/-- `readSnapshot(stored, field)`. -/
def readSnapshot (stored : Value) (field : String) : Except Thrown ErrorSnapshot :=
  if !isObject stored then do
    let text ← jsonText stored
    throw (deadRecordError ("its " ++ field ++ " is " ++ text ++
      ", which is not a serialized error"))
  else
    match stored.get "name" with
    | .str name =>
        match stored.get "message" with
        | .str message =>
            match stored.get "stack" with
            | .undefined => .ok ⟨.str name, .str message, none⟩
            | .str stack => .ok ⟨.str name, .str message, some (.str stack)⟩
            | _ => .error (deadRecordError ("its " ++ field ++ " carries a stack that is not text"))
        | _ => .error (deadRecordError ("its " ++ field ++ " carries no error message"))
    | _ => .error (deadRecordError ("its " ++ field ++ " carries no error name"))

/-- `readError(stored)`. -/
def readError (stored : Value) : Except Thrown SerializedError := do
  let read ← readSnapshot stored "error"
  match stored.get "cause" with
  | .undefined => return { read with cause := none }
  | cause =>
      let cause ← readSnapshot cause "error cause"
      return { read with cause := some cause }

/-- One step of the loop of `readChildren`. -/
def readChild (child : Value) : Except Thrown ChildResult :=
  match child.get "slot" with
  | .str slot => .ok ⟨slot, child.get "value"⟩
  | _ => do
      let text ← jsonText child
      throw (deadRecordError ("its child " ++ text ++ " names no slot it filled"))

/-- `readChildren(stored)`. -/
def Dead.readChildren : Value → Except Thrown (List ChildResult)
  | .arr items => items.mapM readChild
  | .sparse places => places.mapM fun place => readChild (place.getD .undefined)
  | stored => do
      let text ← jsonText stored
      throw (deadRecordError ("it was buried for \"child_dead\" and its children are " ++ text ++
        ", which is not a list of what the children returned"))

/-- `DEAD_REASONS`, each as the burial it names before its children are read. -/
def deadReasons : List Burial :=
  [.attemptsExhausted, .unrecoverable, .versionAhead, .cancelled, .childDead [], .childrenShort]

/-- `isDeadReason(value)`, with what it names. -/
def isDeadReason : Value → Option Burial
  | .str reason => deadReasons.find? fun burial => burial.reason = reason
  | _ => none

/-- The end of `readDeadEntry`: the children of a burial that has some, and of no other. -/
def readBurial (children : Value) : Burial → Except Thrown Burial
  | .childDead _ => Burial.childDead <$> Dead.readChildren children
  | burial =>
      if children.isUndefined then .ok burial
      else .error (deadRecordError ("it was buried for \"" ++ burial.reason ++
        "\" and still carries children, which only a child_dead burial holds"))

/-- `readDeadEntry(stored)`. -/
def readDeadEntry (stored : Value) : Except Thrown DeadEntry :=
  if !isObject stored then
    .error (deadRecordError ("expected an object, got " ++ typeOf stored))
  else
    match stored.get "jobId" with
    | .str jobId =>
        if jobId = "" then
          .error (deadRecordError "its job id is missing, so it names no job to put back")
        else
          match isDeadReason (stored.get "reason") with
          | none => do
              let text ← jsonText (stored.get "reason")
              throw (deadRecordError ("its reason " ++ text ++ " is not one a job is buried for"))
          | some named => do
              let envelope ← readEnvelope (stored.get "envelope")
              let error ← readError (stored.get "error")
              let burial ← readBurial (stored.get "children") named
              return ⟨jobId, envelope, error, burial⟩
    | _ => .error (deadRecordError "its job id is missing, so it names no job to put back")

/-- `dead.list(queue)`: a record that cannot be read is left out. -/
def listDead (waiting : List (String × Value)) : List (String × DeadEntry) :=
  waiting.filterMap fun (id, stored) =>
    match readDeadEntry stored with
    | .ok entry => some (id, entry)
    | .error _ => none

/-! ### A readable envelope survives -/

/-- Counts that were read are whole, and none is under `__proto__`. -/
theorem assigned_of_readCounts {fields : List (String × Value)} {slots : Slots}
    (h : readCounts fields = .ok slots) :
    (∀ p ∈ slots, p.2.isInteger = true) ∧ assigned slots = slots := by
  obtain ⟨counts, -, hint, rfl⟩ := readCounts_eq_ok_iff.1 h
  exact ⟨fun p hp => hint p (List.mem_of_mem_filter hp), by simp [assigned, List.filter_filter]⟩

/-- What is known of an envelope that was read out of stored JSON. -/
structure ReadEnvelope (envelope : Envelope) : Prop where
  version : ∃ d, envelope.v = .finite d
  name : envelope.name ≠ ""
  data : envelope.data.Kept
  slots : ∀ slots ∈ envelope.slots,
    (∀ p ∈ slots, p.2.isInteger = true) ∧ assigned slots = slots

/-- The properties of a stored object are stored values, or inherited ones. -/
theorem get_ofJson (fields : List (String × Json)) (name : String) :
    (Value.ofJson (.obj fields)).get name =
      match fields.lookup name with
      | some json => .ofJson json
      | none => Value.inherited name := by
  induction fields with
  | nil => rfl
  | cons field fields ih =>
      obtain ⟨key, json⟩ := field
      cases hkey : name == key with
      | true => simp [Value.ofJson, Value.ofJsonFields, Value.get, List.lookup_cons, hkey]
      | false =>
          simpa [Value.ofJson, Value.ofJsonFields, Value.get, List.lookup_cons, hkey] using ih

/-- **When an object is read as an envelope.** -/
theorem readEnvelope_eq_ok_iff {stored : Value} (hobject : isObject stored = true)
    {envelope : Envelope} :
    readEnvelope stored = .ok envelope ↔
      stored.get "v" = .num envelope.v ∧ stored.get "name" = .str envelope.name ∧
        envelope.name ≠ "" ∧ isOrigin (stored.get "origin") = some envelope.origin ∧
        readSlots (stored.get "slots") = .ok envelope.slots ∧
          envelope.data = stored.get "data" := by
  constructor
  · intro h
    unfold readEnvelope at h
    split at h
    all_goals try cases h
    split at h
    · rename_i v name hv hname
      split at h
      · cases h
      · rename_i hne
        split at h
        · rename_i origin horigin
          obtain ⟨slots, hslots, h⟩ := bind_eq_ok.1 h
          obtain rfl := Except.ok.inj h
          exact ⟨hv, hname, hne, horigin, hslots, rfl⟩
        · obtain ⟨text, -, h⟩ := bind_eq_ok.1 h
          cases h
    · cases h
    · cases h
  · rintro ⟨hv, hname, hne, horigin, hslots, hdata⟩
    obtain ⟨v, name, data, origin, slots⟩ := envelope
    unfold readEnvelope
    cases stored <;> simp_all [isObject, bind, Except.bind, pure, Except.pure]

/-- **What an envelope read out of stored JSON is.** -/
theorem readEnvelope_ofJson {json : Json} {envelope : Envelope}
    (h : readEnvelope (.ofJson json) = .ok envelope) : ReadEnvelope envelope := by
  cases json with
  | obj fields =>
      obtain ⟨hv, -, hname, -, hslots, hdata⟩ := (readEnvelope_eq_ok_iff rfl).1 h
      refine ⟨?_, hname, ?_, ?_⟩
      · rw [get_ofJson] at hv
        cases hlookup : fields.lookup "v" with
        | none => rw [hlookup] at hv; cases hv
        | some stored =>
            rw [hlookup] at hv
            cases stored with
            | num d => exact ⟨d, (Value.num.inj hv).symm⟩
            | _ => simp [Value.ofJson] at hv
      · rw [hdata, get_ofJson]
        cases fields.lookup "data" with
        | none => exact Or.inl rfl
        | some stored => exact Or.inr ⟨stored, rfl⟩
      · intro slots hmem
        obtain hmem : envelope.slots = some slots := hmem
        rw [get_ofJson, hmem] at hslots
        cases hlookup : fields.lookup "slots" with
        | none => rw [hlookup] at hslots; cases hslots
        | some stored =>
            rw [hlookup] at hslots
            cases stored with
            | obj counts =>
                obtain ⟨counted, hcounted, hslots⟩ := bind_eq_ok.1 hslots
                obtain rfl := Option.some.inj (Except.ok.inj hslots)
                exact assigned_of_readCounts hcounted
            | _ =>
                obtain ⟨text, -, hslots⟩ := bind_eq_ok.1 hslots
                cases hslots
  | null => cases h
  | bool b => cases h
  | num d => cases h
  | str s => cases h
  | arr items => cases h

/-- The text of an origin names it. -/
@[simp] theorem isOrigin_text (origin : Origin) : isOrigin (.str origin.text) = some origin := by
  cases origin <;> rfl

/-- Counts that were read are stored as they are. -/
theorem stored_countFields {slots : Slots} (h : ∀ p ∈ slots, p.2.isInteger = true) :
    (Value.obj (countFields slots)).stored = some (.obj (countFields slots)) := by
  obtain ⟨js, hjs, hof⟩ := fieldsToJson_countFields h
  simp [Value.stored, Value.toJson, hjs, Value.ofJson, hof]

/-- **What is read of a written envelope.** -/
theorem readEnvelope_toValue {e : Envelope} {stored : Value} {d : Decimal} (hv : e.v = .finite d)
    (hname : e.name ≠ "") (hwhole : ∀ slots ∈ e.slots, ∀ p ∈ slots, p.2.isInteger = true)
    (hstored : e.toValue.stored = some stored) :
    readEnvelope stored =
      .ok { e with data := e.data.stored.getD .undefined, slots := e.slots.map assigned } := by
  obtain ⟨fields, rfl⟩ := Value.eq_obj_of_stored hstored
  obtain ⟨v, name, data, origin, slots⟩ := e
  obtain rfl : v = .finite d := hv
  refine (readEnvelope_eq_ok_iff rfl).2 ?_
  cases slots with
  | none =>
      have hget := Value.get_stored (by simp) hstored
      simp_all [List.lookup_cons, Value.inherited, Value.inheritedMethods, readSlots]
  | some slots =>
      have hcounts := stored_countFields (hwhole slots rfl)
      have hread := readSlots_counts (hwhole slots rfl)
      have hget := Value.get_stored (by simp) hstored
      simp_all [List.lookup_cons, Value.inherited, Value.inheritedMethods, readSlots]

/-- **A readable envelope survives its storage.** -/
theorem readEnvelope_stored {envelope : Envelope} (h : ReadEnvelope envelope) :
    ∃ stored, envelope.toValue.stored = some stored ∧ readEnvelope stored = .ok envelope := by
  obtain ⟨⟨d, hv⟩, hname, hdata, hslots⟩ := h
  have hstored : ∃ stored, envelope.toValue.stored = some stored := by
    obtain ⟨v, name, data, origin, slots⟩ := envelope
    obtain rfl : v = .finite d := hv
    have hpayload : data.toJson.isSome = true := hdata.toJson_isSome
    cases slots with
    | none =>
        obtain ⟨js, hjs⟩ := @Value.stored_obj [("v", .num (.finite d)), ("name", .str name),
          ("data", data), ("origin", .str origin.text)] (by simp [Value.toJson, hpayload])
        exact ⟨_, hjs⟩
    | some slots =>
        obtain ⟨counts, hcounts, -⟩ := fieldsToJson_countFields (hslots slots rfl).1
        obtain ⟨js, hjs⟩ := @Value.stored_obj [("v", .num (.finite d)), ("name", .str name),
          ("data", data), ("origin", .str origin.text), ("slots", .obj (countFields slots))]
          (by simp [Value.toJson, hpayload, hcounts])
        exact ⟨_, hjs⟩
  obtain ⟨stored, hstored⟩ := hstored
  refine ⟨stored, hstored, ?_⟩
  rw [readEnvelope_toValue hv hname (fun slots hmem => (hslots slots hmem).1) hstored,
    hdata.stored_getD]
  -- what was read holds no count that an assignment would lose
  have hassigned : envelope.slots.map assigned = envelope.slots := by
    cases hcounts : envelope.slots with
    | none => rfl
    | some slots => exact congrArg some (hslots slots hcounts).2
  rw [hassigned]

/-! ### An error survives when it is all text -/

/-- Whether a value is text. -/
def Value.isText : Value → Bool
  | .str _ => true
  | _ => false

/-- A snapshot of texts. -/
def ErrorSnapshot.isText (s : ErrorSnapshot) : Bool :=
  s.name.isText && s.message.isText && s.stack.all Value.isText

/-- A serialized error of texts. -/
def SerializedError.isText (e : SerializedError) : Bool :=
  e.toErrorSnapshot.isText && e.cause.all ErrorSnapshot.isText

theorem Value.isText_iff {v : Value} : v.isText = true ↔ ∃ s, v = .str s := by
  cases v <;> simp [isText]

/-- What is read of an error is all text. -/
theorem isText_of_readSnapshot {stored : Value} {field : String} {s : ErrorSnapshot}
    (h : readSnapshot stored field = .ok s) : s.isText = true := by
  unfold readSnapshot at h
  split at h
  · obtain ⟨text, -, h⟩ := bind_eq_ok.1 h
    cases h
  · split at h
    · split at h
      · split at h
        · obtain rfl := Except.ok.inj h
          rfl
        · obtain rfl := Except.ok.inj h
          rfl
        · cases h
      · cases h
    · cases h

theorem isText_of_readError {stored : Value} {e : SerializedError}
    (h : readError stored = .ok e) : e.isText = true := by
  obtain ⟨read, hread, h⟩ := bind_eq_ok.1 h
  have hread := isText_of_readSnapshot hread
  split at h
  · obtain rfl := Except.ok.inj h
    simpa [SerializedError.isText] using hread
  · obtain ⟨cause, hcause, h⟩ := bind_eq_ok.1 h
    obtain rfl := Except.ok.inj h
    simpa [SerializedError.isText, hread] using isText_of_readSnapshot hcause

/-- What is stored can be converted to JSON. -/
theorem toJson_isSome_of_stored {v w : Value} (h : v.stored = some w) : v.toJson.isSome = true := by
  obtain ⟨json, hjson, -⟩ := Option.bind_eq_some_iff.1 h
  simp [hjson]

/-- A snapshot of texts survives its storage, with or without a cause behind it. -/
theorem stored_snapshot {s : ErrorSnapshot} (h : s.isText = true) (cause : Option Value)
    (hcause : ∀ v ∈ cause, v.toJson.isSome = true) (field : String) :
    ∃ stored, (Value.obj (s.fields ++ (cause.map fun v => ("cause", v)).toList)).stored =
        some stored ∧
      readSnapshot stored field = .ok s ∧
      stored.get "cause" = (cause.bind Value.stored).getD .undefined := by
  obtain ⟨name, message, stack⟩ := s
  simp only [ErrorSnapshot.isText, Bool.and_eq_true] at h
  obtain ⟨⟨hname, hmessage⟩, hstack⟩ := h
  obtain ⟨name, rfl⟩ := Value.isText_iff.1 hname
  obtain ⟨message, rfl⟩ := Value.isText_iff.1 hmessage
  obtain ⟨stack, rfl⟩ : ∃ text : Option String, stack = text.map Value.str := by
    cases stack with
    | none => exact ⟨none, rfl⟩
    | some v =>
        obtain ⟨text, rfl⟩ := Value.isText_iff.1 hstack
        exact ⟨some text, rfl⟩
  have hkeys : ((ErrorSnapshot.fields ⟨.str name, .str message, stack.map Value.str⟩ ++
      (cause.map fun v => ("cause", v)).toList).map Prod.fst).Nodup := by
    cases stack <;> cases cause <;> simp [ErrorSnapshot.fields]
  have hfields : ∀ p ∈ ErrorSnapshot.fields ⟨.str name, .str message, stack.map Value.str⟩ ++
      (cause.map fun v => ("cause", v)).toList, p.2.toJson.isSome = true := by
    cases stack <;> cases cause <;> simp_all [ErrorSnapshot.fields, Value.toJson]
  obtain ⟨js, hjs⟩ := Value.stored_obj hfields
  refine ⟨_, hjs, ?_, ?_⟩
  · have hget := Value.get_stored hkeys hjs
    cases stack <;> cases cause <;>
      simp [readSnapshot, isObject, hget, ErrorSnapshot.fields, List.lookup_cons, Value.inherited,
        Value.inheritedMethods]
  · rw [Value.get_stored hkeys hjs]
    cases stack <;> cases cause <;>
      simp [ErrorSnapshot.fields, List.lookup_cons, Value.inherited, Value.inheritedMethods]

/-- A serialized error of texts survives its storage. -/
theorem readError_stored {e : SerializedError} (h : e.isText = true) :
    ∃ stored, e.toValue.stored = some stored ∧ readError stored = .ok e := by
  obtain ⟨s, cause⟩ := e
  obtain ⟨hs, hcause⟩ : s.isText = true ∧ cause.all ErrorSnapshot.isText = true := by
    simpa [SerializedError.isText] using h
  cases cause with
  | none =>
      obtain ⟨stored, hstored, hread, hget⟩ := stored_snapshot hs none (by simp) "error"
      refine ⟨stored, hstored, ?_⟩
      simp [readError, hread, hget, bind, Except.bind, pure, Except.pure]
  | some cause =>
      have hcause : cause.isText = true := by simpa using hcause
      obtain ⟨inner, hinner, hreadinner, -⟩ := stored_snapshot hcause none (by simp) "error cause"
      have hinner : (Value.obj cause.fields).stored = some inner := by simpa using hinner
      obtain ⟨stored, hstored, hread, hget⟩ := stored_snapshot hs (some (.obj cause.fields))
        (by simpa using toJson_isSome_of_stored hinner) "error"
      refine ⟨stored, hstored, ?_⟩
      have hget : stored.get "cause" = inner := by simp [hget, hinner]
      obtain ⟨fields, rfl⟩ := Value.eq_obj_of_stored hinner
      simp [readError, hread, hget, hreadinner, bind, Except.bind, pure, Except.pure]

/-! ### The children of a burial survive -/

/-- The results of children that came out of storage survive it again. -/
theorem readChild_stored {children : List ChildResult} (h : ∀ c ∈ children, c.value.Kept) :
    ∃ js, Value.itemsToJson (children.map ChildResult.toValue) = some js ∧
      (Value.ofJsonItems js).mapM readChild = .ok children := by
  induction children with
  | nil => exact ⟨[], rfl, rfl⟩
  | cons child children ih =>
      obtain ⟨hchild, hchildren⟩ := List.forall_mem_cons.1 h
      obtain ⟨js, hjs, hread⟩ := ih hchildren
      obtain ⟨slot, value⟩ := child
      have hvalue : value.Kept := hchild
      obtain ⟨fields, hfields⟩ := @Value.fieldsToJson_of_forall
        [("slot", .str slot), ("value", value)]
        (by simp [Value.toJson, hvalue.toJson_isSome])
      have hstored : (Value.obj [("slot", .str slot), ("value", value)]).stored =
          some (.ofJson (.obj fields)) := by simp [Value.stored, Value.toJson, hfields]
      have hget := Value.get_stored (by simp) hstored
      have hone : readChild (.ofJson (.obj fields)) = .ok ⟨slot, value⟩ := by
        have hvalue := hvalue.stored_getD
        simp [readChild, hget, List.lookup_cons, Value.inherited, Value.inheritedMethods, hvalue]
      refine ⟨.obj fields :: js, ?_, ?_⟩
      · simp [Value.itemsToJson, ChildResult.toValue, Value.toJson, hfields, hjs]
      · simp [Value.ofJsonItems, hone, hread, pure, Except.pure, bind, Except.bind]

/-! ### The burial of a delivery -/

/-- What `report` buries of a delivery that ended with an error, on a queue that is opted in. -/
def buriedEntry (queue : String) (envelope : Envelope) (delivery : JobDelivery) (error : Thrown) :
    Option DeadEntry := do
  let serialized ← serializeError error
  let burial ← burialFor delivery error
  return ⟨(eventOf queue envelope delivery).id, envelope, serialized, burial⟩

/-- **What a report buries.** -/
theorem report_buries {config : JobsConfig} {queue : String} {envelope : Envelope}
    {delivery : JobDelivery} {error : Thrown} {l : List Notice} {r : Except Thrown Unit}
    (h : report config envelope (eventOf queue envelope delivery) delivery error = some (l, r))
    {q : String} {entry : DeadEntry} (hentry : .bury q entry ∈ l) :
    buriedEntry queue envelope delivery error = some entry := by
  cases hserialized : serializeError error with
  | none =>
      rcases Effect.bind_eq_some_iff.1 h with ⟨e, hs, -⟩ | ⟨_, l₁, l₂, hs, -, -⟩
      · rw [hserialized] at hs
        cases hs
        cases hentry
      · rw [hserialized] at hs
        cases hs
  | some serialized =>
      obtain ⟨l', rfl, hfinish⟩ := report_eq_some hserialized h
      have hentry : Notice.bury q entry ∈ l' := by
        simpa [JobsConfig.heard] using hentry
      cases hburial : burialFor delivery error with
      | none =>
          rw [hburial] at hfinish
          cases hfinish
          cases hentry
      | some burial =>
          rw [hburial] at hfinish
          rcases Effect.bind_eq_some_iff.1 hfinish with ⟨e, hb, -⟩ | ⟨_, l₁, l₂, hb, hdead, rfl⟩
          · cases (bury_eq_some hb).1
          · obtain ⟨-, rfl⟩ := bury_eq_some hb
            obtain ⟨-, rfl⟩ := notify_eq_some config rfl hdead
            -- the hook that follows is no burial
            simp only [JobsConfig.heard, List.mem_append, List.mem_filter] at hentry
            rcases hentry with hentry | ⟨hentry, -⟩
            · split_ifs at hentry
              · obtain ⟨-, rfl⟩ := Notice.bury.inj (List.mem_singleton.1 hentry)
                simp [buriedEntry, hserialized, hburial]
              · cases hentry
            · simp at hentry

/-- What children an error carries came from a flow store. -/
def CarriesRead (error : Thrown) : Prop :=
  ∀ children, childDead error = some children → ∃ reply, children = (readFlowState reply).results

/-- A burial survives its storage. -/
def DeadEntry.Survives (entry : DeadEntry) : Prop :=
  ∃ stored, entry.toValue.stored = some stored ∧ readDeadEntry stored = .ok entry

/-- Whether the properties a snapshot copies of a thrown value are texts.  A value that is no error
is converted to text, so nothing is asked of it. -/
def Thrown.copiesText : Thrown → Bool
  | .inl e => e.name.isText && e.message.isText && (e.stack.isUndefined || e.stack.isText)
  | .inr _ => true

/-- Whether the properties that are copied of a thrown value and of its cause are texts. -/
def Thrown.isText : Thrown → Bool
  | .inl e => Thrown.copiesText (.inl e) && e.cause.all Thrown.copiesText
  | .inr _ => true

theorem isText_snapshot {t : Thrown} {s : ErrorSnapshot} (h : snapshot t = some s) :
    s.isText = t.copiesText := by
  cases t with
  | inl e =>
      obtain rfl := Option.some.inj h
      cases hstack : e.stack <;>
        simp [ErrorSnapshot.isText, Thrown.copiesText, Value.isUndefined, Value.isText, hstack]
  | inr v =>
      obtain ⟨text, -, rfl⟩ := Option.map_eq_some_iff.1 h
      rfl

/-- An error is serialized to texts exactly when its copied properties are texts. -/
theorem isText_serializeError {error : Thrown} {e : SerializedError}
    (h : serializeError error = some e) : e.isText = error.isText := by
  obtain ⟨s, hs, h⟩ := Option.bind_eq_some_iff.1 h
  have hs := isText_snapshot hs
  cases error with
  | inr v =>
      obtain rfl := Option.some.inj h
      simpa [SerializedError.isText, Thrown.isText, Thrown.copiesText] using hs
  | inl object =>
      obtain ⟨cls, name, message, stack, running, results, cause⟩ := object
      cases cause with
      | none =>
          obtain rfl := Option.some.inj h
          simpa [SerializedError.isText, Thrown.isText] using hs
      | some cause =>
          obtain ⟨c, hc, h⟩ := Option.bind_eq_some_iff.1 h
          obtain rfl := Option.some.inj h
          simp [SerializedError.isText, Thrown.isText, hs, isText_snapshot hc]

/-- The burial of an error that carries children a flow store read. -/
theorem kept_of_burialFor {delivery : JobDelivery} {error : Thrown} (h : CarriesRead error)
    {children : List ChildResult} (hburial :
      burialFor delivery error = some (.childDead children)) :
    ∀ c ∈ children, c.value.Kept := by
  have hdead : childDead error = some children := by
    unfold burialFor at hburial
    split at hburial
    · cases hburial
    split at hburial
    · cases hburial
    split at hburial
    · rename_i children' hchildren
      cases hburial
      exact hchildren
    · split_ifs at hburial <;> cases hburial
  obtain ⟨reply, rfl⟩ := h children hdead
  intro c hc
  obtain ⟨entry, -, rfl⟩ := List.mem_map.1 hc
  -- a value is what JSON makes of the stored text, or nothing
  change (childValue entry.2).Kept
  unfold childValue
  split
  · exact Value.Kept.ofJson _
  · exact Or.inl rfl

/-- What stands behind the error of a burial survives its storage. -/
theorem burial_stored {burial : Burial}
    (h : ∀ children, burial = .childDead children → ∀ c ∈ children, c.value.Kept) :
    ∃ named, (∀ p ∈ burial.fields, p.2.toJson.isSome = true) ∧
      isDeadReason (.str burial.reason) = some named ∧
      readBurial (((burial.fields.lookup "children").bind Value.stored).getD .undefined) named =
        .ok burial := by
  cases burial with
  | childDead children =>
      obtain ⟨js, hjs, hread⟩ := readChild_stored (h children rfl)
      refine ⟨.childDead [], ?_, rfl, ?_⟩
      · simp [Burial.fields, Value.toJson, hjs]
      · simp [Burial.fields, List.lookup_cons, Value.stored, Value.toJson, hjs, Value.ofJson,
          readBurial, Dead.readChildren, hread, Functor.map, Except.map]
  | attemptsExhausted => exact ⟨.attemptsExhausted, by simp [Burial.fields, Value.toJson], rfl, rfl⟩
  | unrecoverable => exact ⟨.unrecoverable, by simp [Burial.fields, Value.toJson], rfl, rfl⟩
  | versionAhead => exact ⟨.versionAhead, by simp [Burial.fields, Value.toJson], rfl, rfl⟩
  | cancelled => exact ⟨.cancelled, by simp [Burial.fields, Value.toJson], rfl, rfl⟩
  | childrenShort => exact ⟨.childrenShort, by simp [Burial.fields, Value.toJson], rfl, rfl⟩

theorem lookup_reason (burial : Burial) :
    burial.fields.lookup "reason" = some (.str burial.reason) := by
  cases burial <;> rfl

/-- The error of a burial that was read was read out of its record. -/
theorem readError_of_readDeadEntry {stored : Value} {entry : DeadEntry}
    (h : readDeadEntry stored = .ok entry) : readError (stored.get "error") = .ok entry.error := by
  unfold readDeadEntry at h
  split at h
  · cases h
  split at h
  · split at h
    · cases h
    split at h
    · obtain ⟨text, -, h⟩ := bind_eq_ok.1 h
      cases h
    · obtain ⟨envelope, -, h⟩ := bind_eq_ok.1 h
      obtain ⟨error, herror, h⟩ := bind_eq_ok.1 h
      obtain ⟨burial, -, h⟩ := bind_eq_ok.1 h
      obtain rfl := Except.ok.inj h
      exact herror
  · cases h

/-- A record is read when each part of it is. -/
theorem readDeadEntry_of_parts {fields : List (String × Value)} {jobId : String} (hid : jobId ≠ "")
    {envelope : Envelope} {error : SerializedError} {burial : Burial} (named : Burial)
    (hjobId : (Value.obj fields).get "jobId" = .str jobId)
    (hnamed : isDeadReason ((Value.obj fields).get "reason") = some named)
    (henvelope : readEnvelope ((Value.obj fields).get "envelope") = .ok envelope)
    (herror : readError ((Value.obj fields).get "error") = .ok error)
    (hburial : readBurial ((Value.obj fields).get "children") named = .ok burial) :
    readDeadEntry (.obj fields) = .ok ⟨jobId, envelope, error, burial⟩ := by
  simp [readDeadEntry, isObject, hjobId, hid, hnamed, henvelope, herror, hburial, bind, Except.bind,
    pure, Except.pure]

/-- **A burial survives its storage exactly when the copied properties of its error are texts.**
For every delivery, every envelope a worker read, and every error it ended with that buries its
job, the stored record reads back as the very burial if and only if the name, the message and the
stack of the error, and those of its cause, are texts. -/
theorem burial_survives_iff {queue : String} {envelope : Envelope} {delivery : JobDelivery}
    {error : Thrown} {entry : DeadEntry} {json : Json}
    (henvelope : readEnvelope (.ofJson json) = .ok envelope) (hchildren : CarriesRead error)
    (hentry : buriedEntry queue envelope delivery error = some entry) :
    entry.Survives ↔ error.isText = true := by
  obtain ⟨serialized, hserialized, hentry⟩ := Option.bind_eq_some_iff.1 hentry
  obtain ⟨burial, hburial, hentry⟩ := Option.bind_eq_some_iff.1 hentry
  obtain rfl := Option.some.inj hentry
  rw [← isText_serializeError hserialized]
  constructor
  · rintro ⟨stored, -, hread⟩
    -- the reader gives back texts only, so what it gave back was all text
    exact isText_of_readError (readError_of_readDeadEntry hread)
  · intro htext
    obtain ⟨storedEnvelope, hstoredEnvelope, hreadEnvelope⟩ :=
      readEnvelope_stored (readEnvelope_ofJson henvelope)
    obtain ⟨storedError, hstoredError, hreadError⟩ := readError_stored htext
    obtain ⟨named, hfields, hnamed, hreadBurial⟩ := @burial_stored burial
      fun children hc => kept_of_burialFor hchildren (hc ▸ hburial)
    have hid : (eventOf queue envelope delivery).id ≠ "" := by
      simp [eventOf, composeJobId, Cut.join]
    have hall : ∀ p ∈ [("jobId", .str (eventOf queue envelope delivery).id),
        ("envelope", envelope.toValue), ("error", serialized.toValue)] ++ burial.fields,
        p.2.toJson.isSome = true := by
      intro p hp
      rcases List.mem_append.1 hp with hp | hp
      · simp only [List.mem_cons, List.not_mem_nil, or_false] at hp
        rcases hp with rfl | rfl | rfl
        · rfl
        · exact toJson_isSome_of_stored hstoredEnvelope
        · exact toJson_isSome_of_stored hstoredError
      · exact hfields p hp
    have hkeys : (([("jobId", .str (eventOf queue envelope delivery).id),
        ("envelope", envelope.toValue), ("error", serialized.toValue)] ++ burial.fields).map
          Prod.fst).Nodup := by
      cases burial <;> simp [Burial.fields]
    obtain ⟨js, hjs⟩ := Value.stored_obj hall
    have hget := Value.get_stored hkeys hjs
    -- each part is read from what is stored of it
    refine ⟨_, hjs, readDeadEntry_of_parts hid named ?_ ?_ ?_ ?_ ?_⟩
    · simp [hget]
    · simpa [hget, List.lookup_cons, lookup_reason] using hnamed
    · simpa [hget, List.lookup_cons, hstoredEnvelope] using hreadEnvelope
    · simpa [hget, List.lookup_cons, hstoredError] using hreadError
    · simpa [hget, List.lookup_cons, Value.inherited, Value.inheritedMethods] using hreadBurial

/-! ### A burial that is lost -/

/-- The delivery of a job that is allowed one attempt. -/
def lastDelivery : JobDelivery where
  id := "7"
  attemptsStarted := 1
  attempt := 1
  maxAttempts := 1
  envelope := .undefined

/-- An error with the given message, which its thrower may set to anything. -/
def declined (message : Value) : Thrown :=
  .inl ⟨.plain, .str "Error", message, .str "Error", none, [], none⟩

/-- The record of a job that died of such an error. -/
def declinedEntry (message : Value) : DeadEntry :=
  ⟨"mail:7", lineEnvelope, ⟨⟨.str "Error", message, some (.str "Error")⟩, none⟩, .attemptsExhausted⟩

theorem buriedEntry_declined (message : Value) :
    buriedEntry "mail" lineEnvelope lastDelivery (declined message) =
      some (declinedEntry message) := by
  have hlast : Number.le (1 : Number) 1 = true := by
    show decide (Decimal.toRat 1 ≤ Decimal.toRat 1) = true
    simp
  have hburial : burialFor lastDelivery (declined message) = some .attemptsExhausted := by
    simp [burialFor, declined, lastDelivery, hlast, Thrown.cls, childDead, raised,
      ErrorClass.isUnrecoverable, Thrown.isUnrecoverable]
  simp only [buriedEntry, hburial]
  rfl

/-- The record of an error with a text for its message is buried, and survives. -/
theorem burial_survives_example : ∃ l entry,
    report mailConfig lineEnvelope (eventOf "mail" lineEnvelope lastDelivery) lastDelivery
      (declined (.str "declined")) = some (l, .ok ()) ∧
    .bury "mail" entry ∈ l ∧ entry.Survives := by
  have henvelope : readEnvelope (.ofJson (.obj [("v", .num 1), ("name", .str "invoice.line"),
      ("data", .null), ("origin", .str "direct")])) = .ok lineEnvelope := rfl
  have hchildren : CarriesRead (declined (.str "declined")) := by
    intro children h
    cases h
  have hretry : willRetry lastDelivery (declined (.str "declined")) = false := by
    have hlast : Number.le (1 : Number) 1 = true := (Number.le_natCast 1 1).trans (by decide)
    simp [willRetry, lastDelivery, hlast]
  let serialized : SerializedError := (declinedEntry (.str "declined")).error
  have hserialized : serializeError (declined (.str "declined")) = some serialized := rfl
  obtain ⟨l, hreport⟩ := @report_settles mailConfig answers_mailConfig lineEnvelope
    (eventOf "mail" lineEnvelope lastDelivery) lastDelivery _ _ hserialized
  obtain ⟨-, burial, rfl⟩ := report_finished hserialized hretry hreport
  have hmem : .bury "mail" ⟨"mail:7", lineEnvelope, serialized, burial⟩ ∈ finalNotices mailConfig
      lineEnvelope (eventOf "mail" lineEnvelope lastDelivery) serialized burial := by
    simp [finalNotices, mailConfig, eventOf, lastDelivery, composeJobId, Cut.join]
  exact ⟨_, _, hreport, hmem,
    (burial_survives_iff henvelope hchildren (report_buries hreport hmem)).2 rfl⟩

/-- **A burial is lost** when the message of its error is an object. -/
theorem burial_lost :
    buriedEntry "mail" lineEnvelope lastDelivery (declined (.obj [("code", .str "402")])) =
      some (declinedEntry (.obj [("code", .str "402")])) ∧
    ∃ stored, (declinedEntry (.obj [("code", .str "402")])).toValue.stored = some stored ∧
      readDeadEntry stored = .error (deadRecordError "its error carries no error message") :=
  ⟨buriedEntry_declined _, _, rfl, rfl⟩

end Jubs
