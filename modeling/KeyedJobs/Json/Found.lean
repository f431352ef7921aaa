import KeyedJobs.Json.Number
import KeyedJobs.Text.Quoted

/-! # Naming a value that was not expected

Where a value of another kind stands than was asked for, the value is read as far as its name needs:
a word, a number or a string to its end, a list or an object not beyond its bracket.
-/

namespace KeyedJobs.Json

open Text (isDigit)

inductive Found where
  | null
  | boolean (value : Bool)
  | number (value : Number)
  | string (content : String)
  | list
  | object
  deriving Repr, DecidableEq

namespace Found

def text : Found → String
  | null => "null"
  | boolean value => s!"boolean `{value}`"
  | number (.natural n) => s!"integer `{n}`"
  | number (.negative distance) => s!"integer `-{distance}`"
  | number value => s!"floating point `{value.text}`"
  | string content => s!"string {Text.quoted content}"
  | list => "sequence"
  | object => "map"

/-- Reads what stands in front of a text. -/
def read (s : List Char) : Except Malformed Found :=
  match s with
  | 'n' :: s => (readWord "ull".toList s).map fun _ => null
  | 't' :: s => (readWord "rue".toList s).map fun _ => boolean true
  | 'f' :: s => (readWord "alse".toList s).map fun _ => boolean false
  | '-' :: s => (Number.read true s).map fun (value, _) => number value
  | '"' :: s => (readString s).map fun (content, _) => string (String.ofList content)
  | '[' :: _ => .ok list
  | '{' :: _ => .ok object
  | c :: s =>
      if isDigit c then (Number.read false (c :: s)).map fun (value, _) => number value
      else .error .expectedValue
  | [] => .error .expectedValue

end Found

end KeyedJobs.Json
