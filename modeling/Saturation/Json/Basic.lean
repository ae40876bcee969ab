import Saturation.Number.Binary64
import Saturation.Text.Basic

/-!
# JSON values

The values of a JSON document.  The fields of an object keep their order, because a document that
is read and written again keeps it too.
-/

namespace Saturation

inductive Json
  | null
  | bool (b : Bool)
  | int (n : Int)
  | real (x : Binary64)
  | string (t : Text)
  | array (items : List Json)
  | object (fields : List (Text × Json))
deriving Inhabited

namespace Json

/-- What a value means where a yes or no is asked for: nothing, zero and what is empty mean no. -/
def isTruthy : Json → Bool
  | null => false
  | bool b => b
  | int n => n != 0
  | real x => x.isTruthy
  | string t => !t.isEmpty
  | array items => !items.isEmpty
  | object fields => !fields.isEmpty

/-- The value as an integer, if it counts as one; the truth values count as one and zero. -/
def int? : Json → Option Int
  | int n => some n
  | bool b => some (if b then 1 else 0)
  | _ => none

/-- The number after the value, if it counts as one. -/
def succ? : Json → Option Json
  | real x => some (real x.succ)
  | v => v.int?.map fun n => int (n + 1)

/-- Whether the value is not less than an integer, if it counts as a number. -/
def atLeast? (least : Int) : Json → Option Bool
  | real x => some (x.atLeast least)
  | v => v.int?.map fun n => least ≤ n

/-- How many things the value holds, if it is a collection. -/
def length? : Json → Option Nat
  | string t => some t.length
  | array items => some items.length
  | object fields => some fields.length
  | _ => none

/-- What the value yields when it is gone through item by item: the items of an array, the
code points of a string, the keys of an object. -/
def elements? : Json → Option (List Json)
  | array items => some items
  | string t => some (t.map fun p => string [p])
  | object fields => some (fields.map fun field => string field.1)
  | _ => none

/-! ## Fields of objects -/

def lookup (key : Text) : List (Text × Json) → Option Json
  | [] => none
  | (k, v) :: fields => if k = key then some v else lookup key fields

/-- Sets a field: in its old place if there is one, at the end otherwise. -/
def put (key : Text) (value : Json) : List (Text × Json) → List (Text × Json)
  | [] => [(key, value)]
  | (k, v) :: fields => if k = key then (k, value) :: fields else (k, v) :: put key value fields

/-- The field that was set is found, and the others are as before. -/
@[simp]
theorem lookup_put (key other : Text) (value : Json) (fields : List (Text × Json)) :
    lookup other (put key value fields) =
      if key = other then some value else lookup other fields := by
  induction fields with
  | nil => simp [put, lookup]
  | cons field fields ih =>
      obtain ⟨k, v⟩ := field
      by_cases hk : k = key
      · subst hk
        by_cases ho : k = other <;> simp [put, lookup, ho]
      · by_cases ho : k = other
        · subst ho
          simp [put, lookup, hk, Ne.symm hk]
        · simp [put, lookup, hk, ho, ih]

def get? (key : Text) : Json → Option Json
  | object fields => lookup key fields
  | _ => none

end Json

end Saturation
