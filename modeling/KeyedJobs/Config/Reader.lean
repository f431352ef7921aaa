import KeyedJobs.Config.Settings
import KeyedJobs.Json.Found
import KeyedJobs.Json.Skip

/-! # Reading settings from a text

Settings are read from a JSON object, or from a list of their values in order. What is missing keeps
its default. Members of an object that are no settings are read past. Reading stops at the first
fault, in the order of the text, so a value of the wrong kind is told before a bracket that is
missing after it. Only when the whole text has been read are the settings checked.
-/

namespace KeyedJobs

/-- What kind of value is asked for. -/
inductive Expected where
  | workerCount
  | milliseconds
  | nothing
  | settings
  deriving Repr, DecidableEq

def Expected.text : Expected → String
  | workerCount => "usize"
  | milliseconds => "u64"
  | nothing => "unit"
  | settings => "struct CoordinatorConfig"

/-- Why no settings can be read from a text. -/
inductive ReadError where
  | malformed (fault : Json.Malformed)
  | wrongType (found : Json.Found) (expected : Expected)
  | belowZero (distance : Nat) (expected : Expected)
  | unknownPolicy (word : String)
  | repeated (setting : Setting)
  | refused (fault : ConfigFault)
  deriving Repr, DecidableEq

def ReadError.text : ReadError → String
  | malformed fault => fault.text
  | wrongType found expected => s!"invalid type: {found.text}, expected {expected.text}"
  | belowZero distance expected =>
      s!"invalid value: integer `-{distance}`, expected {expected.text}"
  | unknownPolicy word => s!"unknown variant `{word}`, expected `drain` or `discard`"
  | repeated setting => s!"duplicate field `{setting.key}`"
  | refused fault => fault.text

namespace Settings

open Json
open Text (isDigit)

/-- A fault of the text, as an error of reading settings from it. -/
def orMalformed {α : Type} (result : Except Malformed α) : Except ReadError α :=
  result.mapError .malformed

def fault {α : Type} (fault : Malformed) : Except ReadError α :=
  .error (.malformed fault)

/-- Refuses the value in front of a text for its kind. -/
def wrongType {α : Type} (expected : Expected) (s : List Char) : Except ReadError α := do
  throw (.wrongType (← orMalformed (Found.read s)) expected)

/-- The 64-bit word that a number is. -/
def wordOf (expected : Expected) : Number → Except ReadError UInt64
  | .natural n => .ok n
  | .negative distance => .error (.belowZero distance expected)
  | number => .error (.wrongType (.number number) expected)

/-- Reads a 64-bit word. -/
def readWhole (expected : Expected) (s : List Char) : Except ReadError (UInt64 × Left s) :=
  match s with
  | [] => fault .endInValue
  | '-' :: s => do
      let (number, left) ← orMalformed (Number.read true s)
      return (← wordOf expected number, left.cons '-')
  | c :: s =>
      if isDigit c then do
        let (number, left) ← orMalformed (Number.read false (c :: s))
        return (← wordOf expected number, left)
      else wrongType expected (c :: s)

/-- Reads a time limit, which may be none. -/
def readLimit (s : List Char) : Except ReadError (Option UInt64 × Left s) :=
  match s with
  | 'n' :: s => (orMalformed (readWordAfter 'n' "ull".toList s)).map (none, ·)
  | s => (readWhole .milliseconds s).map fun (ms, left) => (some ms, left)

/-- Reads a value that says nothing. -/
def readNothing (s : List Char) : Except ReadError (Left s) :=
  match s with
  | [] => fault .endInValue
  | 'n' :: s => orMalformed (readWordAfter 'n' "ull".toList s)
  | s => wrongType .nothing s

/-- Reads a string up to its closing quote, after the opening one, as the name of a policy. -/
def readPolicyName (s : List Char) : Except ReadError (ShutdownPolicy × Left s) := do
  let (content, left) ← orMalformed (readString s)
  let word := String.ofList content
  match ShutdownPolicy.ofKeyword? word with
  | some policy => return (policy, left)
  | none => throw (.unknownPolicy word)

/-- Reads the closing bracket of an object that has no more members. -/
def readClosing (s : List Char) : Except ReadError (Left s) :=
  match s with
  | [] => fault .endInObject
  | '}' :: s => .ok (.behind '}' s)
  | _ => fault .expectedValue

/-- Reads a policy that stands as the only name in an object, after the opening bracket. -/
def readTaggedPolicy (s : List Char) : Except ReadError (ShutdownPolicy × Left s) :=
  match s with
  | [] => fault .endInObject
  | '"' :: s => do
      let (policy, name) ← readPolicyName s
      let colon ← orMalformed (readColon (skipBlank name.rest))
      let value ← readNothing (skipBlank colon.rest)
      let closing ← readClosing (skipBlank value.rest)
      return (policy, (name.after (colon.afterBlank.after
        (value.afterBlank.after closing.afterBlank))).cons '"')
  | '}' :: _ => fault .expectedValue
  | _ => fault .keyNotString

def readPolicy (s : List Char) : Except ReadError (ShutdownPolicy × Left s) :=
  match s with
  | [] => fault .endInValue
  | '"' :: s => (readPolicyName s).map fun (policy, left) => (policy, left.cons '"')
  | '{' :: s =>
      (readTaggedPolicy (skipBlank s)).map fun (policy, left) => (policy, left.afterBlank.cons '{')
  | _ => fault .expectedValue

/-- Reads the value of a setting. -/
def readValue (setting : Setting) (settings : Settings) (s : List Char) :
    Except ReadError (Settings × Left s) :=
  match setting with
  | .workers => do
      let (n, left) ← readWhole .workerCount s
      return ({ settings with workers := some n }, left)
  | .completionTimeout => do
      let (limit, left) ← readLimit s
      return ({ settings with completionTimeoutMs := some limit }, left)
  | .retryBackoff => do
      let (ms, left) ← readWhole .milliseconds s
      return ({ settings with retryBackoffMs := some ms }, left)
  | .shutdownPolicy => do
      let (policy, left) ← readPolicy s
      return ({ settings with shutdownPolicy := some policy }, left)

/-- Reads the value of a member by its name. A setting is refused the second time before its value
is read. -/
def readNamed (name : List Char) (settings : Settings) (s : List Char) :
    Except ReadError (Settings × Left s) :=
  match Setting.ofKey? (String.ofList name) with
  | none => do
      let colon ← orMalformed (readColon (skipBlank s))
      let value ← orMalformed (skipValue colon.rest)
      return (settings, colon.afterBlank.after value)
  | some setting =>
      if settings.gives setting then .error (.repeated setting)
      else do
        let colon ← orMalformed (readColon (skipBlank s))
        let (settings, value) ← readValue setting settings (skipBlank colon.rest)
        return (settings, colon.afterBlank.after value.afterBlank)

/-- Reads a member of the object. -/
def readMember (settings : Settings) (s : List Char) : Except ReadError (Settings × Left s) :=
  match s with
  | [] => fault .endInValue
  | '"' :: s => do
      let (name, left) ← orMalformed (readString s)
      let (settings, value) ← readNamed name settings left.rest
      return (settings, (left.after value).cons '"')
  | '}' :: _ => fault .trailingComma
  | _ => fault .keyNotString

/-- Reads the next member of the object, after a comma unless it is the first. There is none if the
bracket is closed. -/
def readNextMember (first : Bool) (settings : Settings) (s : List Char) :
    Except ReadError (Option Settings × Left s) :=
  match s with
  | [] => fault .endInObject
  | '}' :: s => .ok (none, .behind '}' s)
  | c :: s =>
      if first then (readMember settings (c :: s)).map fun (settings, left) => (some settings, left)
      else if c = ',' then
        (readMember settings (skipBlank s)).map fun (settings, left) =>
          (some settings, left.afterBlank.cons c)
      else fault .expectedCommaOrBrace

/-- Reads the members of the object up to the closing bracket. -/
def readMembers (first : Bool) (settings : Settings) (s : List Char) :
    Except ReadError (Settings × List Char) :=
  match readNextMember first settings (skipBlank s) with
  | .error e => .error e
  | .ok (none, left) => .ok (settings, left.rest)
  | .ok (some settings, left) =>
      have := left.afterBlank.shorter
      readMembers false settings left.rest
termination_by s.length

/-- Reads the closing bracket of a list that has an item for every setting. -/
def readListEnd (s : List Char) : Except ReadError (List Char) :=
  match skipBlank s with
  | [] => fault .endInList
  | ']' :: s => .ok s
  | ',' :: s =>
      if (skipBlank s).head? = some ']' then fault .trailingComma
      else fault .trailingCharacters
  | _ => fault .trailingCharacters

/-- Reads an item of the list. -/
def readItem (setting : Setting) (settings : Settings) (s : List Char) :
    Except ReadError (Settings × List Char) :=
  match s with
  | [] => fault .endInValue
  | ']' :: _ => fault .trailingComma
  | s => (readValue setting settings s).map fun (settings, left) => (settings, left.rest)

/-- Reads the items of the list, one for each setting at most. -/
def readItems (first : Bool) : List Setting → Settings → List Char →
    Except ReadError (Settings × List Char)
  | [], settings, s => (readListEnd s).map (settings, ·)
  | setting :: others, settings, s =>
      match skipBlank s with
      | [] => fault .endInList
      | ']' :: s => .ok (settings, s)
      | c :: s => do
          if first then
            let (settings, s) ← readItem setting settings (c :: s)
            readItems false others settings s
          else if c = ',' then
            let (settings, s) ← readItem setting settings (skipBlank s)
            readItems false others settings s
          else fault .expectedCommaOrBracket

/-- Reads the settings that a text gives, up to the end of the text. -/
def read (text : String) : Except ReadError Settings := do
  let (settings, s) ← match skipBlank text.toList with
    | [] => fault .endInValue
    | '{' :: s => readMembers true {} s
    | '[' :: s => readItems true Setting.all {} s
    | s => wrongType .settings s
  if skipBlank s = [] then return settings else fault .trailingCharacters

end Settings

/-- Reads all settings from a text, and checks them. What the text does not give is as by default on
this machine. -/
def Config.read (machine : Machine) (text : String) : Except ReadError Config := do
  let config := (← Settings.read text).onTopOf (.default machine)
  match config.validate with
  | .ok () => return config
  | .error fault => throw (.refused fault)

end KeyedJobs
