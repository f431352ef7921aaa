/-! # Text without control sequences

What is left of a text when it is shown where no terminal obeys it: control sequences are left out,
and so is every control character that is no white space. A sequence is told by its form alone; what
it would ask of a terminal plays no part.
-/

namespace KeyedJobs.Text

/-- A control sequence that is not finished, by what may come next in it. -/
inductive ControlSequence where
  /-- Behind the escape character. -/
  | escape
  /-- Behind the escape character and marks: one more character ends it. -/
  | marked
  /-- Behind the opening bracket: a letter ends it. -/
  | bracketed
  /-- The head of a device string, with no parameter read. -/
  | device
  /-- The head of a device string, in its parameters. -/
  | deviceParameters
  /-- The head of a device string, in the marks behind its parameters. -/
  | deviceMarks
  /-- A string that its terminator ends. -/
  | hidden
  /-- A command to the terminal that a bell ends. -/
  | command
  deriving Repr, DecidableEq

/-- White space among the control characters. -/
def isBlankControl (c : Char) : Bool :=
  c = '\t' || c = '\n' || c = '\x0c' || c = '\r'

/-- Whether the byte that terminates a string is among the bytes of the character. -/
def terminatesString (c : Char) : Bool :=
  (String.utf8EncodeChar c).contains 0x9c

namespace ControlSequence

/-- Whether white space breaks the sequence off and is shown. -/
def isBreakable : ControlSequence → Bool
  | escape | marked | bracketed => true
  | device | deviceParameters | deviceMarks | hidden | command => false

/-- Reads one character of the sequence; nothing is left when it ends the sequence. Characters that
have no place in the sequence change nothing. -/
def next (s : ControlSequence) (c : Char) : Option ControlSequence :=
  let mark := ' ' ≤ c && c ≤ '/'
  let parameter := '0' ≤ c && c ≤ '?'
  let final := '@' ≤ c && c ≤ '~'
  match s with
  | escape =>
      if c = '[' then some bracketed
      else if c = ']' then some command
      else if c = 'P' then some device
      else if c = 'X' || c = '^' || c = '_' then some hidden
      else if mark then some marked
      else if parameter || final then none
      else some escape
  | marked => if parameter || final then none else some marked
  | bracketed => if final then none else some bracketed
  | device =>
      if mark then some deviceMarks
      else if parameter then some deviceParameters
      else if final then some hidden
      else some device
  | deviceParameters =>
      if mark then some deviceMarks
      else if '<' ≤ c && c ≤ '~' then some hidden
      else some deviceParameters
  | deviceMarks => if parameter || final then some hidden else some deviceMarks
  | hidden => if terminatesString c then none else some hidden
  | command => if c = '\x07' then none else some command

end ControlSequence

/-- Where the rest of a text stands. -/
inductive Place where
  /-- In shown text, which white space inside a sequence may have `broken` off. -/
  | text (broken : Option ControlSequence)
  | inside (sequence : ControlSequence)
  deriving Repr, DecidableEq

namespace Place

/-- Reads one character, and tells whether it is shown. The escape character begins a sequence
anywhere, and two others cancel one. Text that broke a sequence off ends at the next control
character, behind which the sequence goes on. -/
def read (place : Place) (c : Char) : Place × Bool :=
  if c = '\x1b' then (inside .escape, false)
  else if c = '\x18' || c = '\x1a' then (text none, false)
  else match place with
    | inside s =>
        if s.isBreakable && isBlankControl c then (text (some s), true)
        else match s.next c with
          | some s => (inside s, false)
          | none => (text none, false)
    | text broken =>
        if isBlankControl c || ' ' ≤ c && c ≤ '~' then (text broken, true)
        else if '\x7f' < c then (text none, true)
        else match broken with
          | some s => (inside s, false)
          | none => (text none, false)

/-- The shown characters of the rest of a text. -/
def shown (place : Place) : List Char → List Char
  | [] => []
  | c :: rest =>
      let (place, visible) := place.read c
      if visible then c :: place.shown rest else place.shown rest

/-- Printable basic characters are shown and leave the text where it stands. -/
theorem read_text {c : Char} (low : ' ' ≤ c) (high : c ≤ '~') (broken : Option ControlSequence) :
    (text broken).read c = (text broken, true) := by
  have ne (d : Char) (hd : d < ' ') : c ≠ d := by
    rintro rfl
    exact absurd low (Char.not_le.2 hd)
  simp [read, ne '\x1b' (by decide), ne '\x18' (by decide), ne '\x1a' (by decide), low, high]

/-- Outside sequences, printable basic characters are shown as they are. -/
theorem shown_text {s : List Char} (h : ∀ c ∈ s, ' ' ≤ c ∧ c ≤ '~')
    (broken : Option ControlSequence) : (text broken).shown s = s := by
  induction s with
  | nil => rfl
  | cons c rest ih =>
      have hc := h c List.mem_cons_self
      simp [shown, read_text hc.1 hc.2, ih fun d hd => h d (List.mem_cons_of_mem _ hd)]

end Place

/-- The text as it is shown where no terminal obeys it. -/
def withoutSequences (s : String) : String :=
  String.ofList ((Place.text none).shown s.toList)

end KeyedJobs.Text
