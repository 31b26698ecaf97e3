/-
**What a Redis script answers with.**

A reply is a nil, a number, a text, or an array of replies.  Its reader knows it as `unknown`, and
takes it apart with `Array.isArray`, `typeof` and `String`.

Main definitions:

* `Jubs.Reply` — replies;
* `Jubs.Reply.items`, `Jubs.Reply.text` — reading one as an array, and as a text.
-/

import Mathlib.Data.List.Basic
import Mathlib.Data.Nat.Notation

set_option autoImplicit false

namespace Jubs

/-- A reply of Redis. -/
inductive Reply where
  | nil
  | int (n : ℕ)
  | bulk (text : String)
  | array (items : List Reply)

namespace Reply

/-- `Array.isArray(reply) ? reply : []`. -/
def items : Reply → List Reply
  | .array items => items
  | _ => []

/-- `typeof reply === "number" ? reply : 0`. -/
def count : Reply → ℕ
  | .int n => n
  | _ => 0

mutual

/-- `String(reply)`. -/
def text : Reply → String
  | .nil => "null"
  | .int n => toString n
  | .bulk text => text
  | .array items => String.intercalate "," (texts items)

/-- The texts of the items of an array: a nil is empty. -/
def texts : List Reply → List String
  | [] => []
  | .nil :: replies => "" :: texts replies
  | reply :: replies => reply.text :: texts replies

end

end Reply

end Jubs
