import Saturation.Json.Basic
import Saturation.Number.Shortest
import Saturation.Text.Integer
import Saturation.Text.Quoted

/-!
# Values inside messages

How a message shows a value: words for the constants, strings in quotes, and collections in
brackets with a blank after each comma.  Alone on its place, as in `shown`, a string stands
without quotes.
-/

namespace Saturation.Json

mutual

/-- A value as a message quotes it. -/
def display : Json → String
  | null => "None"
  | bool b => if b then "True" else "False"
  | int n => toString n
  | real x => x.textWith "inf" "nan"
  | string t => Text.quoted t
  | array items => "[" ++ ", ".intercalate (displayItems items) ++ "]"
  | object fields => "\x7b" ++ ", ".intercalate (displayFields fields) ++ "\x7d"
termination_by structural v => v

def displayItems : List Json → List String
  | [] => []
  | v :: items => display v :: displayItems items
termination_by structural items => items

/-- A field of an object: the quoted name, a colon and the value. -/
def displayField : Text × Json → String
  | (key, v) => Text.quoted key ++ ": " ++ display v
termination_by structural field => field

def displayFields : List (Text × Json) → List String
  | [] => []
  | field :: fields => displayField field :: displayFields fields
termination_by structural fields => fields

end

/-- Whether the value is no integer of too many digits to be shown. -/
def isPlain : Json → Bool
  | int n => Text.isWritable n
  | _ => true

/-- A value as running text shows it: a string is itself. -/
def shown : Json → Text
  | string t => t
  | v => display v

end Saturation.Json
