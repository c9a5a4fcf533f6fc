import Mathlib.Algebra.Group.Int.Defs
import Mathlib.Data.List.Basic
import Mathlib.Tactic.Common

/-!
# JSON values

The values of JSON documents and how they are read: `field?` looks a member up by its key, the other
accessors give the content of a value of one kind, and all of them fail on a value of another kind.
A number is kept as it is spelled, so that a reader may choose its own numbers; `int64?` reads
integers.
-/

/-- A JSON value. Members keep their order, and a key may occur twice. -/
inductive Json
  | null
  | bool (b : Bool)
  | num (lit : List Char)
  | str (s : List Char)
  | arr (elems : List Json)
  | obj (members : List (List Char × Json))

namespace Json

/-- The value of the first member with the key. -/
def field? (key : String) : Json → Option Json
  | .obj members => members.lookup key.toList
  | _ => none

/-- The object that a value is, if it is one. -/
def obj? : Json → Option Json
  | .obj members => some (.obj members)
  | _ => none

/-- The elements of an array. -/
def arr? : Json → Option (List Json)
  | .arr elems => some elems
  | _ => none

/-- The characters of a string. -/
def str? : Json → Option (List Char)
  | .str s => some s
  | _ => none

/-- The value of a boolean. -/
def bool? : Json → Option Bool
  | .bool b => some b
  | _ => none

/-- The literal of a number. -/
def num? : Json → Option (List Char)
  | .num lit => some lit
  | _ => none

/-- The value that the keys lead to, from the outermost object in. -/
def path? : List String → Json → Option Json
  | [], j => some j
  | key :: keys, j => (j.field? key).bind (path? keys)

/-! ## Integers -/

/-- The number that a list of decimal digits spells. -/
def nat? (ds : List Char) : Option ℕ :=
  if ds ≠ [] ∧ ds.all Char.isDigit then some (Nat.ofDigitChars 10 ds 0) else none

/-- The integer that a literal spells, if it has no fraction and no exponent. -/
def int? : List Char → Option Int
  | '-' :: ds => (nat? ds).map fun n => -(n : Int)
  | ds => (nat? ds).map fun n => (n : Int)

/-- The integer of a value, if it is one and fits 64 bits. -/
def int64? (j : Json) : Option Int64 :=
  (j.num?.bind int?).bind fun n =>
    if -2 ^ 63 ≤ n ∧ n < 2 ^ 63 then some (.ofInt n) else none

@[simp] theorem field?_obj (key : String) (members : List (List Char × Json)) :
    field? key (.obj members) = members.lookup key.toList := rfl

@[simp] theorem arr?_arr (elems : List Json) : arr? (.arr elems) = some elems := rfl

@[simp] theorem str?_str (s : List Char) : str? (.str s) = some s := rfl

@[simp] theorem path?_nil (j : Json) : path? [] j = some j := rfl

@[simp] theorem path?_cons (key : String) (keys : List String) (j : Json) :
    path? (key :: keys) j = (j.field? key).bind (path? keys) := rfl

/-- A value has a string if it is one. -/
theorem bind_str?_eq_some {v : Option Json} {s : List Char} :
    v.bind str? = some s ↔ v = some (.str s) := by
  cases v with
  | none => simp
  | some v => cases v <;> simp [str?]

/-- Only an object has members. -/
@[simp] theorem obj?_bind_field? (key : String) (j : Json) :
    (obj? j).bind (field? key) = field? key j := by
  cases j <;> rfl

/-- A member of a member, with a check for an object between the two. -/
theorem bind_obj?_bind_field? (key key' : String) (j : Json) :
    ((j.field? key).bind obj?).bind (field? key') = j.path? [key, key'] := by
  rw [path?_cons]
  cases j.field? key with
  | none => rfl
  | some v =>
    rw [Option.bind_some, Option.bind_some, obj?_bind_field?, path?_cons]
    cases v.field? key' <;> rfl

/-- What has a member is an object. -/
theorem obj?_of_field? {key : String} {j v : Json} (h : j.field? key = some v) :
    j.obj? = some j := by
  cases j with
  | obj => rfl
  | null | bool | num | str | arr => cases h

end Json
