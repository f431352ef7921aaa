import KeyedJobs.Text.Quoted

/-! # Descriptions of records

A record is described by its name and its fields, either on one line or as a block with one field
a line. The field values are given as finished texts.
-/

namespace KeyedJobs.Text

/-- A record as a name and the texts of its fields, in order. -/
structure Record where
  name : String
  fields : List (String × String)
  deriving Repr, DecidableEq

namespace Record

/-- The description on one line. -/
def inline (r : Record) : String :=
  let shown := r.fields.map fun (field, value) => field ++ ": " ++ value
  r.name ++ " \x7b " ++ joined ", " shown ++ " \x7d"

/-- The description as a block: four blanks before each field and a comma after it. -/
def block (r : Record) : String :=
  let shown := r.fields.map fun (field, value) => "    " ++ field ++ ": " ++ value ++ ",\n"
  r.name ++ " \x7b\n" ++ String.join shown ++ "\x7d"

end Record

/-- The text of a truth value. -/
def ofBool (b : Bool) : String :=
  if b then "true" else "false"

end KeyedJobs.Text
