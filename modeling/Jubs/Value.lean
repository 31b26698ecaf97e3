/-
**JavaScript values, as this library sees them.**

Payloads, results and thrown values are `unknown` to the library.  It looks at them in four ways:
it reads their properties, it asks whether they are arrays or records, it converts them to text,
and it lets `JSON.stringify` project them.  A value is kept here in the detail these four need.

Main definitions:

* `Jubs.Value` — values;
* `Jubs.Value.get` — property reading, inherited properties included;
* `Jubs.Value.toText` — `String(value)`;
* `Jubs.Value.toJson`, `Jubs.Value.ofJson` — what `JSON.stringify` keeps of a value, and the value
  `JSON.parse` builds.

Main results:

* `Jubs.Value.toJson_ofJson` — what `JSON.parse` built is projected to itself.
-/

import Jubs.Number

set_option autoImplicit false

namespace Jubs

/-- A JavaScript value.  An `obj` is a plain object: its own properties in order, and the methods
every plain object inherits.  A `sparse` is an array some of whose places were never set.
Everything else that is not listed (a function, a symbol, a `BigInt`, a `Date`, an object of a
class, an object with no prototype, one that holds a `toString`, `valueOf` or `toJSON` that can be
called) is an `other`, known by what `String(value)` gives, `none` when it throws, and by what
`JSON.stringify` makes of it, `none` when it throws and `some none` when it leaves the value
out. -/
inductive Value where
  | undefined
  | null
  | bool (b : Bool)
  | num (n : Number)
  | str (s : String)
  | arr (items : List Value)
  | sparse (places : List (Option Value))
  | obj (fields : List (String × Value))
  | other (text : Option String) (json : Option (Option Json))

namespace Value

/-! ### Properties -/

/-- The methods a plain object inherits. -/
def inheritedMethods : List String :=
  ["constructor", "hasOwnProperty", "isPrototypeOf", "propertyIsEnumerable", "toLocaleString",
    "toString", "valueOf", "__defineGetter__", "__defineSetter__", "__lookupGetter__",
    "__lookupSetter__"]

/-- A function, which `JSON.stringify` leaves out. -/
def function (name : String) : Value := .other (some ("function " ++ name)) (some none)

/-- What a plain object answers for a name it does not hold itself.  `__proto__` answers with the
prototype, which reads as an object with no property of its own. -/
def inherited (name : String) : Value :=
  if name = "__proto__" then .obj []
  else if name ∈ inheritedMethods then function name
  else .undefined

/-- `value[name]`, for a value that is a plain object. -/
def get (v : Value) (name : String) : Value :=
  match v with
  | .obj fields => (fields.lookup name).getD (inherited name)
  | _ => .undefined

/-- The places of an array, each with the value it was set to, if it was. -/
def places : Value → Option (List (Option Value))
  | .arr items => some (items.map some)
  | .sparse places => some places
  | _ => none

/-- `Array.isArray`. -/
def isArray (v : Value) : Bool := v.places.isSome

/-- Whether a value is `undefined`. -/
def isUndefined : Value → Bool
  | .undefined => true
  | _ => false

/-! ### Text -/

/-- `String(n)`. -/
def numberText : Number → String
  | .finite d => String.ofList d.print
  | .nan => "NaN"
  | .infinity true => "-Infinity"
  | .infinity false => "Infinity"

mutual

/-- `String(value)`, and `none` when it throws. -/
def toText : Value → Option String
  | .undefined => some "undefined"
  | .null => some "null"
  | .bool b => some (if b then "true" else "false")
  | .num n => some (numberText n)
  | .str s => some s
  | .arr items => (itemTexts items).map (String.intercalate ",")
  | .sparse places => (placeTexts places).map (String.intercalate ",")
  -- a `toString` that cannot be called leaves the conversion to `valueOf`, which gives the object
  | .obj fields => if (fields.lookup "toString").isSome then none else some "[object Object]"
  | .other text _ => text

/-- The texts of the items of an array: `undefined` and `null` are empty. -/
def itemTexts : List Value → Option (List String)
  | [] => some []
  | .undefined :: vs => (itemTexts vs).map fun ts => "" :: ts
  | .null :: vs => (itemTexts vs).map fun ts => "" :: ts
  | v :: vs => do
      let t ← toText v
      let ts ← itemTexts vs
      return t :: ts

/-- The texts of the places of an array: one that was never set is empty. -/
def placeTexts : List (Option Value) → Option (List String)
  | [] => some []
  | none :: ps => (placeTexts ps).map fun ts => "" :: ts
  | some .undefined :: ps => (placeTexts ps).map fun ts => "" :: ts
  | some .null :: ps => (placeTexts ps).map fun ts => "" :: ts
  | some v :: ps => do
      let t ← toText v
      let ts ← placeTexts ps
      return t :: ts

end

/-! ### JSON -/

mutual

/-- What `JSON.stringify` keeps of a value: `none` when it throws, `some none` when the value is
left out. -/
def toJson : Value → Option (Option Json)
  | .undefined => some none
  | .null => some (some .null)
  | .bool b => some (some (.bool b))
  | .num (.finite d) => some (some (.num d))
  | .num _ => some (some .null)
  | .str s => some (some (.str s))
  | .arr items => (itemsToJson items).map fun js => some (.arr js)
  | .sparse places => (placesToJson places).map fun js => some (.arr js)
  | .obj fields => (fieldsToJson fields).map fun js => some (.obj js)
  | .other _ json => json

/-- The items of an array: one that is left out becomes `null`. -/
def itemsToJson : List Value → Option (List Json)
  | [] => some []
  | v :: vs => do
      let j ← toJson v
      let js ← itemsToJson vs
      return j.getD .null :: js

/-- The places of an array: one that was never set becomes `null`. -/
def placesToJson : List (Option Value) → Option (List Json)
  | [] => some []
  | none :: ps => (placesToJson ps).map fun js => .null :: js
  | some v :: ps => do
      let j ← toJson v
      let js ← placesToJson ps
      return j.getD .null :: js

/-- The fields of an object: one that is left out is dropped. -/
def fieldsToJson : List (String × Value) → Option (List (String × Json))
  | [] => some []
  | (k, v) :: fs => do
      let j ← toJson v
      let js ← fieldsToJson fs
      return (j.map fun j => (k, j)).toList ++ js

end

mutual

/-- The value `JSON.parse` builds. -/
def ofJson : Json → Value
  | .null => .null
  | .bool b => .bool b
  | .num d => .num (.finite d)
  | .str s => .str s
  | .arr items => .arr (ofJsonItems items)
  | .obj fields => .obj (ofJsonFields fields)

/-- The items of an array. -/
def ofJsonItems : List Json → List Value
  | [] => []
  | j :: js => ofJson j :: ofJsonItems js

/-- The fields of an object. -/
def ofJsonFields : List (String × Json) → List (String × Value)
  | [] => []
  | (k, j) :: fs => (k, ofJson j) :: ofJsonFields fs

end

mutual

/-- **What `JSON.parse` built is projected to itself.** -/
theorem toJson_ofJson (j : Json) : toJson (ofJson j) = some (some j) := by
  match j with
  | .null => rfl
  | .bool _ => rfl
  | .num _ => rfl
  | .str _ => rfl
  | .arr items => simp [ofJson, toJson, itemsToJson_ofJson items]
  | .obj fields => simp [ofJson, toJson, fieldsToJson_ofJson fields]

theorem itemsToJson_ofJson (js : List Json) : itemsToJson (ofJsonItems js) = some js := by
  match js with
  | [] => rfl
  | j :: js => simp [ofJsonItems, itemsToJson, toJson_ofJson j, itemsToJson_ofJson js]

theorem fieldsToJson_ofJson (fs : List (String × Json)) :
    fieldsToJson (ofJsonFields fs) = some fs := by
  match fs with
  | [] => rfl
  | (k, j) :: fs => simp [ofJsonFields, fieldsToJson, toJson_ofJson j, fieldsToJson_ofJson fs]

end

end Value

/-- `JSON.stringify(value)`: `none` when it throws, `some none` when it gives `undefined`. -/
def stringify (v : Value) : Option (Option String) := v.toJson.map fun j => j.map Json.stringify

end Jubs
