/-
**What is stored of an object, property by property.**

A job's data is stored as JSON and parsed again when it is read.  Of an object this keeps every
property that JSON keeps, and a property that was left out reads as one that was never there.

Main definitions:

* `Jubs.Value.stored` — what a value is stored as, and read back as;
* `Jubs.Value.Kept` — a value that came out of storage, or a property that was left out.

Main results:

* `Jubs.Value.stored_obj` — an object is stored when each of its properties can be;
* `Jubs.Value.get_stored` — **each property of a stored object reads as what is stored of it**.
-/

import Jubs.Value

set_option autoImplicit false

namespace Jubs.Value

/-- `JSON.parse(JSON.stringify(value))`: nothing when `JSON.stringify` throws, or leaves the value
out. -/
def stored (v : Value) : Option Value := v.toJson.bind fun json => json.map ofJson

@[simp] theorem stored_undefined : stored .undefined = none := rfl

@[simp] theorem stored_str (s : String) : stored (.str s) = some (.str s) := rfl

@[simp] theorem stored_num (d : Decimal) : stored (.num (.finite d)) = some (.num (.finite d)) :=
  rfl

/-- What was stored is stored as itself. -/
@[simp] theorem stored_ofJson (j : Json) : stored (ofJson j) = some (ofJson j) := by
  simp [stored, toJson_ofJson]

/-- Fields that can each be stored can be stored together. -/
theorem fieldsToJson_of_forall {fields : List (String × Value)}
    (h : ∀ p ∈ fields, p.2.toJson.isSome = true) : ∃ js, fieldsToJson fields = some js := by
  induction fields with
  | nil => exact ⟨[], rfl⟩
  | cons field fields ih =>
      obtain ⟨key, v⟩ := field
      obtain ⟨hv, hfields⟩ := List.forall_mem_cons.1 h
      obtain ⟨j, hj⟩ := Option.isSome_iff_exists.1 hv
      obtain ⟨js, hjs⟩ := ih hfields
      exact ⟨_, by simp only [fieldsToJson, hj, hjs, Option.bind_eq_bind, Option.bind_some]; rfl⟩

/-- An object is stored when each of its properties can be. -/
theorem stored_obj {fields : List (String × Value)} (h : ∀ p ∈ fields, p.2.toJson.isSome = true) :
    ∃ js, (Value.obj fields).stored = some (.obj (ofJsonFields js)) := by
  obtain ⟨js, hjs⟩ := fieldsToJson_of_forall h
  exact ⟨js, by simp [stored, toJson, hjs, ofJson]⟩

/-- What is stored of an object is an object. -/
theorem eq_obj_of_stored {fields : List (String × Value)} {v : Value}
    (h : (Value.obj fields).stored = some v) : ∃ fields', v = .obj fields' := by
  obtain ⟨json, hjson, h⟩ := Option.bind_eq_some_iff.1 h
  obtain ⟨js, -, rfl⟩ := Option.map_eq_some_iff.1 hjson
  exact ⟨_, (Option.some.inj h).symm⟩

/-- One field of an object, among the fields that are kept. -/
theorem lookup_fieldsToJson {fields : List (String × Value)} {js : List (String × Json)}
    (hkeys : (fields.map Prod.fst).Nodup) (h : fieldsToJson fields = some js) (name : String) :
    (ofJsonFields js).lookup name = (fields.lookup name).bind stored := by
  induction fields generalizing js with
  | nil =>
      obtain rfl := Option.some.inj h
      rfl
  | cons field fields ih =>
      obtain ⟨key, v⟩ := field
      obtain ⟨j, hj, h⟩ := Option.bind_eq_some_iff.1 h
      obtain ⟨js', hjs', h⟩ := Option.bind_eq_some_iff.1 h
      obtain rfl := Option.some.inj h
      obtain ⟨hnew, hkeys⟩ := List.nodup_cons.1 hkeys
      have ih := ih hkeys hjs'
      by_cases hname : name = key
      · subst hname
        -- no later field has the name, so a field that is left out is found nowhere
        have hrest : fields.lookup name = none := by
          rw [List.lookup_eq_none_iff]
          intro p hp
          have hne : name ≠ p.1 := fun heq => hnew (List.mem_map.2 ⟨p, hp, heq.symm⟩)
          simpa using hne
        rw [hrest] at ih
        cases j with
        | none => simpa [stored, hj] using ih
        | some json => simp [ofJsonFields, stored, hj]
      · have hbeq : (name == key) = false := by simpa using hname
        cases j with
        | none => simpa [List.lookup_cons, hbeq] using ih
        | some json => simpa [ofJsonFields, List.lookup_cons, hbeq] using ih

/-- **Each property of a stored object reads as what is stored of it**, and a property that was left
out as an inherited one. -/
theorem get_stored {fields : List (String × Value)} {v : Value}
    (hkeys : (fields.map Prod.fst).Nodup) (h : (Value.obj fields).stored = some v) (name : String) :
    v.get name = ((fields.lookup name).bind stored).getD (inherited name) := by
  obtain ⟨json, hjson, h⟩ := Option.bind_eq_some_iff.1 h
  obtain ⟨js, hjs, rfl⟩ := Option.map_eq_some_iff.1 hjson
  obtain rfl := Option.some.inj h
  rw [ofJson, get, lookup_fieldsToJson hkeys hjs]

/-! ### Values that came out of storage -/

/-- A value that came out of storage, or what a property reads as that was left out. -/
def Kept (v : Value) : Prop := v = .undefined ∨ ∃ json, v = .ofJson json

theorem Kept.ofJson (j : Json) : Kept (.ofJson j) := Or.inr ⟨j, rfl⟩

/-- A property that came out of storage can be stored again. -/
theorem Kept.toJson_isSome {v : Value} (h : v.Kept) : v.toJson.isSome = true := by
  rcases h with rfl | ⟨json, rfl⟩
  · rfl
  · simp [toJson_ofJson]

/-- A property that came out of storage is read as it was, when it is stored again. -/
theorem Kept.stored_getD {v : Value} (h : v.Kept) : v.stored.getD .undefined = v := by
  rcases h with rfl | ⟨json, rfl⟩
  · rfl
  · simp

end Jubs.Value
