import KeyedJobs.Json.Numeral

/-! # Reading past a value

A value whose content does not matter still has to be well formed. It is read past with a stack of
the brackets that are open, so that values may nest to any depth. The range of its numbers is not
asked for.
-/

namespace KeyedJobs.Json

open Text (isDigit)

/-- What an open bracket encloses. -/
inductive Bracket where
  | list
  | object
  deriving Repr, DecidableEq

namespace Bracket

def closing : Bracket → Char
  | list => ']'
  | object => '}'

/-- The fault of a text that ends inside the brackets. -/
def atEnd : Bracket → Malformed
  | list => .endInList
  | object => .endInObject

/-- The fault of a text in which an item is followed neither by another one nor by the closing
bracket. -/
def afterItem : Bracket → Malformed
  | list => .expectedCommaOrBracket
  | object => .expectedCommaOrBrace

end Bracket

/-- What was just read of a value. -/
inductive Passed where
  /-- A bracket that opens a list or an object. -/
  | opening (bracket : Bracket)
  /-- The whole value. -/
  | whole
  deriving Repr, DecidableEq

/-- Reads past a number, after its sign. -/
def skipNumber (s : List Char) : Except Malformed (Left s) :=
  (Numeral.read .invalidNumber s).map (·.2)

/-- Reads past the beginning of a value: its bracket, or all of it if it has none. -/
def skipBeginning (s : List Char) : Except Malformed (Passed × Left s) :=
  match s with
  | [] => .error .endInValue
  | 'n' :: s => (readWordAfter 'n' "ull".toList s).map (.whole, ·)
  | 't' :: s => (readWordAfter 't' "rue".toList s).map (.whole, ·)
  | 'f' :: s => (readWordAfter 'f' "alse".toList s).map (.whole, ·)
  | '-' :: s => (skipNumber s).map fun left => (.whole, left.cons '-')
  | '"' :: s => (skipString s).map fun left => (.whole, left.cons '"')
  | '[' :: s => .ok (.opening .list, .behind '[' s)
  | '{' :: s => .ok (.opening .object, .behind '{' s)
  | c :: s =>
      if isDigit c then (skipNumber (c :: s)).map (.whole, ·) else .error .expectedValue

/-- Reads past a colon in front, between the name and the value of a member. -/
def readColon (s : List Char) : Except Malformed (Left s) :=
  match s with
  | [] => .error .endInObject
  | c :: s => if c = ':' then .ok (.behind c s) else .error .expectedColon

/-- Reads past the name of a member and the colon after it. -/
def skipName (s : List Char) : Except Malformed (Left s) :=
  match s with
  | [] => .error .endInObject
  | '"' :: s =>
      match skipString s with
      | .error e => .error e
      | .ok left =>
          (readColon (skipBlank left.rest)).map fun colon =>
            (left.after colon.afterBlank).cons '"'
  | _ => .error .keyNotString

/-- Reads past the beginning of an item, with its name if it is a member of an object. -/
def skipItem (bracket : Bracket) (s : List Char) : Except Malformed (Passed × Left s) :=
  match bracket with
  | .list => (skipBeginning (skipBlank s)).map fun (passed, left) => (passed, left.afterBlank)
  | .object =>
      match skipName (skipBlank s) with
      | .error e => .error e
      | .ok name =>
          (skipBeginning (skipBlank name.rest)).map fun (passed, left) =>
            (passed, name.afterBlank.after left.afterBlank)

/-- Reads on to the end of a value, inside of the brackets that are open, the innermost first. -/
def skipRest (passed : Passed) (stack : List Bracket) (s : List Char) :
    Except Malformed (List Char) :=
  match passed, stack with
  | .whole, [] => .ok s
  | .whole, bracket :: outer =>
      match h : skipBlank s with
      | [] => .error bracket.atEnd
      | c :: rest =>
          have := length_lt_of_skipBlank_eq_cons h
          if c = ',' then
            match skipItem bracket rest with
            | .error e => .error e
            | .ok (passed, left) =>
                have := left.shorter
                skipRest passed (bracket :: outer) left.rest
          else if c = bracket.closing then skipRest .whole outer rest
          else .error bracket.afterItem
  | .opening bracket, outer =>
      match h : skipBlank s with
      | [] => .error bracket.atEnd
      | c :: rest =>
          have := length_lt_of_skipBlank_eq_cons h
          if c = bracket.closing then skipRest .whole outer rest
          else
            match skipItem bracket (c :: rest) with
            | .error e => .error e
            | .ok (passed, left) =>
                have := left.shorter
                skipRest passed (bracket :: outer) left.rest
termination_by s.length
decreasing_by all_goals grind

theorem length_skipRest_le {passed : Passed} {stack : List Bracket} {s rest : List Char}
    (h : skipRest passed stack s = .ok rest) : rest.length ≤ s.length := by
  fun_induction skipRest passed stack s <;> grind

/-- Reads past a value. -/
def skipValue (s : List Char) : Except Malformed (Left s) :=
  match skipBeginning (skipBlank s) with
  | .error e => .error e
  | .ok (passed, left) =>
      match h : skipRest passed [] left.rest with
      | .error e => .error e
      | .ok rest => .ok ⟨rest, Nat.lt_of_le_of_lt (length_skipRest_le h) left.afterBlank.shorter⟩

end KeyedJobs.Json
