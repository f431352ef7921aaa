import KeyedJobs.Text.Unprintable

/-! # Quoted text

The form in which descriptions of values show a string: between double quotes, with the quote, the
backslash and the common control characters escaped and every other unprintable character given by
its number. Single quotes stay as they are.
-/

namespace KeyedJobs.Text

/-- Lower-case hexadecimal digits, without leading zeros. -/
def hexDigits (n : Nat) : String :=
  String.ofList (Nat.toDigits 16 n)

/-- The spelling of one character between quotes. -/
def escaped (c : Char) : String :=
  if c = '"' then "\\\""
  else if c = '\\' then "\\\\"
  else if c = '\n' then "\\n"
  else if c = '\r' then "\\r"
  else if c = '\t' then "\\t"
  else if c = '\x00' then "\\0"
  else if isUnprintable c then "\\u\x7b" ++ hexDigits c.toNat ++ "\x7d"
  else c.toString

/-- The quoted form of a text. -/
def quoted (s : String) : String :=
  "\"" ++ String.join (s.toList.map escaped) ++ "\""

/-- Joins texts with a separator between neighbours. -/
def joined (separator : String) (parts : List String) : String :=
  separator.intercalate parts

theorem joined_singleton (separator part : String) : joined separator [part] = part := rfl

end KeyedJobs.Text
