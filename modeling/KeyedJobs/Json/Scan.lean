import KeyedJobs.Json.Malformed

/-! # Reading the parts of a JSON text

Blanks, words and strings, read from the front of a list of characters. Each reader hands back what
is left of the text, which is shorter than before, so reading on comes to an end. A string is read
in two ways: for its content, and past it when the content does not matter. Reading past a string
asks less, for it does not look at how surrogates pair.
-/

namespace KeyedJobs.Json

/-- What is left of a text after something was read from its front. -/
structure Left (s : List Char) where
  rest : List Char
  shorter : rest.length < s.length

namespace Left

/-- What is left behind the first character. -/
def behind (c : Char) (s : List Char) : Left (c :: s) :=
  ⟨s, Nat.lt_succ_self _⟩

/-- What is left of a longer text, if reading went on from its second character. -/
def cons {s : List Char} (c : Char) (left : Left s) : Left (c :: s) :=
  ⟨left.rest, Nat.lt_succ_of_lt left.shorter⟩

/-- What is left of a longer text, if reading went on from a suffix. -/
def widen {s t : List Char} (left : Left s) (h : s.length ≤ t.length) : Left t :=
  ⟨left.rest, Nat.lt_of_lt_of_le left.shorter h⟩

end Left

/-- Blanks between the parts of a text. -/
def isBlank (c : Char) : Bool :=
  c = ' ' || c = '\n' || c = '\t' || c = '\r'

/-- The text from its first character on that is no blank. -/
def skipBlank (s : List Char) : List Char :=
  s.dropWhile isBlank

theorem length_skipBlank_le (s : List Char) : (skipBlank s).length ≤ s.length :=
  (List.dropWhile_suffix isBlank).length_le

theorem length_lt_of_skipBlank_eq_cons {s rest : List Char} {c : Char}
    (h : skipBlank s = c :: rest) : rest.length < s.length := by
  have := length_skipBlank_le s
  simp only [h, List.length_cons] at this
  omega

/-- What is left of a text, if reading went on from its first character that is no blank. -/
def Left.afterBlank {s : List Char} (left : Left (skipBlank s)) : Left s :=
  left.widen (length_skipBlank_le s)

/-- What is left of a text, if reading went on from what another part had left of it. -/
def Left.after {s : List Char} (first : Left s) (second : Left first.rest) : Left s :=
  second.widen (Nat.le_of_lt first.shorter)

/-- Reads the rest of a word whose first letter has been read. -/
def readWord : List Char → List Char → Except Malformed (List Char)
  | [], s => .ok s
  | _ :: _, [] => .error .endInValue
  | c :: word, d :: s => if c = d then readWord word s else .error .expectedWord

theorem length_readWord_le {word s rest : List Char} (h : readWord word s = .ok rest) :
    rest.length ≤ s.length := by
  induction word generalizing s with
  | nil => simp_all [readWord]
  | cons c word ih =>
    cases s with
    | nil => simp [readWord] at h
    | cons d s =>
      simp only [readWord] at h
      split at h
      · exact Nat.le_succ_of_le (ih h)
      · simp at h

/-- Reads a word whose first letter stands in front. -/
def readWordAfter (c : Char) (word s : List Char) : Except Malformed (Left (c :: s)) :=
  match h : readWord word s with
  | .ok rest => .ok ⟨rest, Nat.lt_succ_of_le (length_readWord_le h)⟩
  | .error e => .error e

def hexDigit? (c : Char) : Option Nat :=
  if '0' ≤ c ∧ c ≤ '9' then some (c.toNat - '0'.toNat)
  else if 'a' ≤ c ∧ c ≤ 'f' then some (c.toNat - 'a'.toNat + 10)
  else if 'A' ≤ c ∧ c ≤ 'F' then some (c.toNat - 'A'.toNat + 10)
  else none

/-- The number of bytes that a text takes. -/
def byteCount (s : List Char) : Nat :=
  s.foldl (fun count c => count + c.utf8Size) 0

/-- The value of four hexadecimal digits. -/
def hexValue? (a b c d : Char) : Option Nat := do
  return (((← hexDigit? a) * 16 + (← hexDigit? b)) * 16 + (← hexDigit? c)) * 16 + (← hexDigit? d)

/-- Reads four hexadecimal digits. They are missing, not wrong, only if less than four bytes are
left. -/
def readHex (s : List Char) : Except Malformed (Nat × Left s) :=
  match s with
  | a :: b :: c :: d :: rest =>
      match hexValue? a b c d with
      | some n => .ok (n, ⟨rest, by simp only [List.length_cons]; omega⟩)
      | none => .error .invalidEscape
  | short => if byteCount short < 4 then .error .endInString else .error .invalidEscape

/-- What a letter after a backslash stands for, other than by number. -/
def simpleEscape? : Char → Option Char
  | '"' => some '"'
  | '\\' => some '\\'
  | '/' => some '/'
  | 'b' => some '\x08'
  | 'f' => some '\x0c'
  | 'n' => some '\n'
  | 'r' => some '\r'
  | 't' => some '\t'
  | _ => none

def isHighSurrogate (n : Nat) : Bool :=
  0xd800 ≤ n && n ≤ 0xdbff

def isLowSurrogate (n : Nat) : Bool :=
  0xdc00 ≤ n && n ≤ 0xdfff

/-- Reads the second half of a pair of numbers that stands for one character. -/
def readLowHalf (high : Nat) (s : List Char) : Except Malformed (Char × Left s) :=
  match s with
  | [] => .error .endInString
  | '\\' :: [] => .error .endInString
  | '\\' :: 'u' :: s =>
      match readHex s with
      | .error e => .error e
      | .ok (low, left) =>
          if isLowSurrogate low then
            .ok (Char.ofNat (0x10000 + (high - 0xd800) * 0x400 + (low - 0xdc00)),
              (left.cons 'u').cons '\\')
          else .error .loneSurrogate
  | _ => .error .unfinishedPair

/-- Reads a character given by number, after its backslash and letter. -/
def readNumbered (s : List Char) : Except Malformed (Char × Left s) :=
  match readHex s with
  | .error e => .error e
  | .ok (n, left) =>
      if isLowSurrogate n then .error .loneSurrogate
      else if isHighSurrogate n then
        (readLowHalf n left.rest).map fun (c, low) => (c, low.widen (Nat.le_of_lt left.shorter))
      else .ok (Char.ofNat n, left)

/-- Reads an escaped character, after its backslash. -/
def readEscape (s : List Char) : Except Malformed (Char × Left s) :=
  match s with
  | [] => .error .endInString
  | c :: s =>
      match simpleEscape? c with
      | some meant => .ok (meant, .behind c s)
      | none =>
          if c = 'u' then (readNumbered s).map fun (meant, left) => (meant, left.cons c)
          else .error .invalidEscape

/-- Reads a string up to its closing quote, after the opening one. -/
def readString (s : List Char) : Except Malformed (List Char × Left s) :=
  match s with
  | [] => .error .endInString
  | c :: s =>
      if c = '"' then .ok ([], .behind c s)
      else if c = '\\' then
        match readEscape s with
        | .error e => .error e
        | .ok (meant, left) =>
            have := left.shorter
            (readString left.rest).map fun (content, after) =>
              (meant :: content, (after.widen (Nat.le_of_lt left.shorter)).cons c)
      else if c.toNat < 0x20 then .error .controlCharacter
      else (readString s).map fun (content, after) => (c :: content, after.cons c)
termination_by s.length

/-- Reads past an escaped character, after its backslash. -/
def skipEscape (s : List Char) : Except Malformed (Left s) :=
  match s with
  | [] => .error .endInString
  | c :: s =>
      match simpleEscape? c with
      | some _ => .ok (.behind c s)
      | none =>
          if c = 'u' then (readHex s).map fun (_, left) => left.cons c
          else .error .invalidEscape

/-- Reads past a string up to its closing quote, after the opening one. -/
def skipString (s : List Char) : Except Malformed (Left s) :=
  match s with
  | [] => .error .endInString
  | c :: s =>
      if c = '"' then .ok (.behind c s)
      else if c = '\\' then
        match skipEscape s with
        | .error e => .error e
        | .ok left =>
            have := left.shorter
            (skipString left.rest).map fun after =>
              (after.widen (Nat.le_of_lt left.shorter)).cons c
      else if c.toNat < 0x20 then .error .controlCharacter
      else (skipString s).map fun after => after.cons c
termination_by s.length

end KeyedJobs.Json
