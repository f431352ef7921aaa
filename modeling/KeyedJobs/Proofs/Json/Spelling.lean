import KeyedJobs.Json.Numeral

/-! # How the parts of a JSON text are spelled

Blanks, strings and numerals, told by what they look like and not by how they are read. One string can
be spelled in many ways, for a character may stand for itself, or be escaped by a letter or by number.
Whatever the spelling, the readers find the content and stop right behind it.
-/

namespace KeyedJobs.Json

open Text (isDigit)

/-- Nothing but blanks. -/
def Blank (s : List Char) : Prop :=
  ∀ c ∈ s, c ∈ [' ', '\n', '\t', '\r']

/-- The text ends here, or with a blank, a comma or a closing bracket a value does. -/
def Ends (s : List Char) : Prop :=
  ∀ c ∈ s.head?, c ∈ [' ', '\n', '\t', '\r', ',', ']', '}']

/-- A hexadecimal digit, in lower or upper case, by its value. -/
inductive HexDigit : Nat → Char → Prop where
  | lower {value} (small : value < 16) : HexDigit value value.digitChar
  | upper {value} (small : value < 16) : HexDigit value value.digitChar.toUpper

/-- Four hexadecimal digits, by their value. -/
inductive HexNumber : Nat → List Char → Prop where
  | digits {a b c d w x y z} (first : HexDigit a w) (second : HexDigit b x) (third : HexDigit c y)
      (fourth : HexDigit d z) : HexNumber (((a * 16 + b) * 16 + c) * 16 + d) [w, x, y, z]

/-- The letters that stand for a character behind a backslash. -/
def shortEscapes : List (Char × Char) :=
  [('"', '"'), ('\\', '\\'), ('/', '/'), ('b', '\x08'), ('f', '\x0c'), ('n', '\n'), ('r', '\r'),
    ('t', '\t')]

/-- A character that may stand for itself in a string. -/
def Plain (c : Char) : Prop :=
  0x20 ≤ c.toNat ∧ c ≠ '"' ∧ c ≠ '\\'

/-- A way to spell a character in a string. -/
inductive SpellsChar : Char → List Char → Prop where
  | plain {c} (plain : Plain c) : SpellsChar c [c]
  | short {letter c} (escape : (letter, c) ∈ shortEscapes) : SpellsChar c ['\\', letter]
  | number {c digits} (number : HexNumber c.toNat digits) : SpellsChar c ('\\' :: 'u' :: digits)
  /-- A character beyond 16 bits, as a pair of surrogates. -/
  | pair {c high low first second} (upper : HexNumber high first) (lower : HexNumber low second)
      (isHigh : 0xd800 ≤ high ∧ high < 0xdc00) (isLow : 0xdc00 ≤ low ∧ low < 0xe000)
      (meant : c.toNat = 0x10000 + (high - 0xd800) * 0x400 + (low - 0xdc00)) :
      SpellsChar c ('\\' :: 'u' :: first ++ '\\' :: 'u' :: second)

/-- A way to spell a string between its quotes. -/
inductive SpellsString : List Char → List Char → Prop where
  | nil : SpellsString [] []
  | cons {c content here body} (char : SpellsChar c here) (others : SpellsString content body) :
      SpellsString (c :: content) (here ++ body)

/-- What stands between the quotes of a well-formed string, whether or not its surrogates pair. -/
inductive StringBody : List Char → Prop where
  | nil : StringBody []
  | plain {c body} (plain : Plain c) (others : StringBody body) : StringBody (c :: body)
  | short {letter c body} (escape : (letter, c) ∈ shortEscapes) (others : StringBody body) :
      StringBody ('\\' :: letter :: body)
  | number {n digits body} (number : HexNumber n digits) (others : StringBody body) :
      StringBody ('\\' :: 'u' :: digits ++ body)

/-- Decimal digits. -/
def Digits (s : List Char) : Prop :=
  ∀ c ∈ s, '0' ≤ c ∧ c ≤ '9'

/-- The whole part of a numeral has no leading zero. -/
inductive WholePart : List Char → Prop where
  | zero : WholePart ['0']
  | digits {c others} (nonzero : c ≠ '0') (digits : Digits (c :: others)) : WholePart (c :: others)

/-- How the digits of a fraction are spelled, if there are any. -/
inductive SpellsFraction : List Char → List Char → Prop where
  | none : SpellsFraction [] []
  | digits {c others} (digits : Digits (c :: others)) : SpellsFraction (c :: others) ('.' :: c :: others)

/-- How an exponent is spelled, by whether it is below zero and its digits. -/
inductive SpellsExponent : Option (Bool × List Char) → List Char → Prop where
  | none : SpellsExponent none []
  | digits {letter below sign c others} (marked : letter ∈ ['e', 'E'])
      (signed : (below, sign) ∈ [(true, ['-']), (false, ['+']), (false, [])])
      (digits : Digits (c :: others)) :
      SpellsExponent (some (below, c :: others)) (letter :: sign ++ c :: others)

/-- How a numeral is spelled. -/
inductive SpellsNumeral : Numeral → List Char → Prop where
  | parts {whole fraction exponent pointed powered} (digits : WholePart whole)
      (fractional : SpellsFraction fraction pointed) (scaled : SpellsExponent exponent powered) :
      SpellsNumeral ⟨whole, fraction, exponent⟩ (whole ++ pointed ++ powered)

/-! ## Blanks -/

variable {s rest blanks body content digits : List Char} {c : Char} {n : Nat}

theorem isBlank_iff : isBlank c = true ↔ c ∈ [' ', '\n', '\t', '\r'] := by
  simp [isBlank, or_assoc]

theorem Blank.nil : Blank [] :=
  fun _ member => by cases member

theorem skipBlank_append (blank : Blank blanks) (s : List Char) :
    skipBlank (blanks ++ s) = skipBlank s := by
  induction blanks with
  | nil => rfl
  | cons c others ih =>
      obtain ⟨first, blank⟩ := List.forall_mem_cons.mp blank
      rw [skipBlank, List.cons_append, List.dropWhile_cons_of_pos (isBlank_iff.mpr first)]
      exact ih blank

theorem skipBlank_cons (filled : isBlank c = false) (s : List Char) : skipBlank (c :: s) = c :: s := by
  rw [skipBlank, List.dropWhile_cons_of_neg (by simp [filled])]

theorem skipBlank_front (blank : Blank blanks) (filled : isBlank c = false) (s : List Char) :
    skipBlank (blanks ++ c :: s) = c :: s := by
  rw [skipBlank_append blank, skipBlank_cons filled]

theorem Ends.of_blank (blank : Blank blanks) (ends : Ends s) : Ends (blanks ++ s) := by
  cases blanks with
  | nil => exact ends
  | cons c others =>
      intro first here
      obtain rfl : c = first := by simpa using here
      exact List.mem_append_left [',', ']', '}'] (blank c List.mem_cons_self)

/-! ## Characters and strings -/

/-- The reader has found this and stands in front of the rest. -/
def Reads {ε α : Type} {s : List Char} (result : Except ε (α × Left s)) (found : α)
    (rest : List Char) : Prop :=
  ∃ left, result = .ok (found, left) ∧ left.rest = rest

/-- The reader has come so far, and stands in front of the rest. -/
def Passes {ε : Type} {s : List Char} (result : Except ε (Left s)) (rest : List Char) : Prop :=
  ∃ left, result = .ok left ∧ left.rest = rest

theorem HexDigit.read (digit : HexDigit n c) : hexDigit? c = some n := by
  have lower : ∀ value < 16, hexDigit? (Nat.digitChar value) = some value := by decide
  have upper : ∀ value < 16, hexDigit? (Nat.digitChar value).toUpper = some value := by decide
  cases digit with
  | lower small => exact lower n small
  | upper small => exact upper n small

theorem HexNumber.read (number : HexNumber n digits) (rest : List Char) :
    Reads (readHex (digits ++ rest)) n rest := by
  cases number with
  | digits first second third fourth =>
      simp [Reads, readHex, hexValue?, first.read, second.read, third.read, fourth.read]

theorem simpleEscape?_of_mem {letter : Char} (escape : (letter, c) ∈ shortEscapes) :
    simpleEscape? letter = some c := by
  have all : ∀ pair ∈ shortEscapes, simpleEscape? pair.1 = some pair.2 := by decide
  exact all (letter, c) escape

theorem not_surrogate (c : Char) :
    isLowSurrogate c.toNat = false ∧ isHighSurrogate c.toNat = false := by
  have valid : c.toNat < 0xd800 ∨ 0xdfff < c.toNat ∧ c.toNat < 0x110000 := c.valid
  simp only [isLowSurrogate, isHighSurrogate, Bool.and_eq_false_iff, decide_eq_false_iff_not]
  omega

theorem readNumbered_of_number (number : HexNumber c.toNat digits) (rest : List Char) :
    Reads (readNumbered (digits ++ rest)) c rest := by
  obtain ⟨left, reads, behind⟩ := number.read rest
  obtain ⟨notLow, notHigh⟩ := not_surrogate c
  refine ⟨left, ?_, behind⟩
  simp [readNumbered, reads, notLow, notHigh]

theorem readLowHalf_of_number {high low : Nat} (number : HexNumber low digits)
    (isLow : 0xdc00 ≤ low ∧ low < 0xe000)
    (meant : c.toNat = 0x10000 + (high - 0xd800) * 0x400 + (low - 0xdc00)) (rest : List Char) :
    Reads (readLowHalf high ('\\' :: 'u' :: digits ++ rest)) c rest := by
  obtain ⟨left, reads, behind⟩ := number.read rest
  have lower : isLowSurrogate low = true := by
    simp only [isLowSurrogate, Bool.and_eq_true, decide_eq_true_eq]
    omega
  refine ⟨(left.cons 'u').cons '\\', ?_, behind⟩
  simp only [List.cons_append, readLowHalf, reads, lower, if_true]
  rw [← meant, Char.ofNat_toNat]

theorem readNumbered_of_pair {high low : Nat} {first second : List Char}
    (upper : HexNumber high first) (lower : HexNumber low second)
    (isHigh : 0xd800 ≤ high ∧ high < 0xdc00) (isLow : 0xdc00 ≤ low ∧ low < 0xe000)
    (meant : c.toNat = 0x10000 + (high - 0xd800) * 0x400 + (low - 0xdc00)) (rest : List Char) :
    Reads (readNumbered (first ++ ('\\' :: 'u' :: second ++ rest))) c rest := by
  obtain ⟨⟨after, shorter⟩, reads, rfl⟩ := upper.read ('\\' :: 'u' :: second ++ rest)
  obtain ⟨left, completes, behind⟩ := readLowHalf_of_number lower isLow meant rest
  have notLow : isLowSurrogate high = false := by
    simp only [isLowSurrogate, Bool.and_eq_false_iff, decide_eq_false_iff_not]
    omega
  have high : isHighSurrogate high = true := by
    simp only [isHighSurrogate, Bool.and_eq_true, decide_eq_true_eq]
    omega
  refine ⟨left.widen (Nat.le_of_lt shorter), ?_, behind⟩
  simp only [readNumbered, reads, notLow, high, completes, Except.map]
  simp

theorem readEscape_of_number (reads : Reads (readNumbered s) c rest) :
    Reads (readEscape ('u' :: s)) c rest := by
  obtain ⟨left, reads, behind⟩ := reads
  exact ⟨left.cons 'u', by simp [readEscape, simpleEscape?, reads, Except.map], behind⟩

theorem SpellsChar.read {here : List Char} (char : SpellsChar c here)
    (reads : Reads (readString s) content rest) : Reads (readString (here ++ s)) (c :: content) rest := by
  obtain ⟨after, reads, behind⟩ := reads
  have escaped : ∀ {t}, Reads (readEscape t) c s → Reads (readString ('\\' :: t)) (c :: content) rest := by
    rintro t ⟨⟨_, shorter⟩, escape, rfl⟩
    refine ⟨(after.widen (Nat.le_of_lt shorter)).cons '\\', ?_, behind⟩
    rw [readString]
    simp [escape, reads, Except.map]
  cases char with
  | plain plain =>
      obtain ⟨printable, noQuote, noBackslash⟩ := plain
      rw [List.singleton_append]
      refine ⟨after.cons c, ?_, behind⟩
      rw [readString]
      simp [noQuote, noBackslash, Nat.not_lt.mpr printable, reads, Except.map]
  | @short letter _ escape =>
      exact escaped ⟨.behind letter s, by simp [readEscape, simpleEscape?_of_mem escape], rfl⟩
  | number number => exact escaped (readEscape_of_number (readNumbered_of_number number s))
  | @pair _ high low first second upper lower isHigh isLow meant =>
      rw [List.append_assoc]
      exact escaped (readEscape_of_number (readNumbered_of_pair upper lower isHigh isLow meant s))

/-- However a string is spelled, reading it up to its closing quote finds its content. -/
theorem SpellsString.read (spells : SpellsString content body) (rest : List Char) :
    Reads (readString (body ++ '"' :: rest)) content rest := by
  induction spells with
  | nil => exact ⟨.behind '"' rest, by simp [readString], rfl⟩
  | cons char _ ih =>
      rw [List.append_assoc]
      exact char.read ih

theorem SpellsString.of_plain (plain : ∀ c ∈ content, Plain c) : SpellsString content content := by
  induction content with
  | nil => exact .nil
  | cons c content ih =>
      obtain ⟨first, others⟩ := List.forall_mem_cons.mp plain
      exact .cons (.plain first) (ih others)

theorem skipEscape_of_number (number : HexNumber n digits) (rest : List Char) :
    Passes (skipEscape ('u' :: digits ++ rest)) rest := by
  obtain ⟨left, reads, behind⟩ := number.read rest
  exact ⟨left.cons 'u', by simp [skipEscape, simpleEscape?, reads, Except.map], behind⟩

theorem StringBody.skip (formed : StringBody body) (rest : List Char) :
    Passes (skipString (body ++ '"' :: rest)) rest := by
  have escaped : ∀ {s t}, Passes (skipEscape t) s → Passes (skipString s) rest →
      Passes (skipString ('\\' :: t)) rest := by
    rintro s t ⟨⟨_, shorter⟩, escape, rfl⟩ ⟨after, skips, behind⟩
    refine ⟨(after.widen (Nat.le_of_lt shorter)).cons '\\', ?_, behind⟩
    rw [skipString]
    simp [escape, skips, Except.map]
  induction formed with
  | nil => exact ⟨.behind '"' rest, by simp [skipString], rfl⟩
  | @plain c body plain _ ih =>
      obtain ⟨printable, noQuote, noBackslash⟩ := plain
      obtain ⟨after, skips, behind⟩ := ih
      rw [List.cons_append]
      refine ⟨after.cons c, ?_, behind⟩
      rw [skipString]
      simp [noQuote, noBackslash, Nat.not_lt.mpr printable, skips, Except.map]
  | @short letter c body escape _ ih =>
      exact escaped ⟨.behind letter _, by simp [skipEscape, simpleEscape?_of_mem escape], rfl⟩ ih
  | number number _ ih =>
      rw [List.append_assoc]
      exact escaped (skipEscape_of_number number _) ih

/-! ## Numerals -/

/-- The reader of a part that may be empty has found this and stands in front of the rest. -/
def Takes {ε α : Type} {s : List Char} (result : Except ε (α × Rest s)) (found : α)
    (rest : List Char) : Prop :=
  ∃ left, result = .ok (found, left) ∧ left.val = rest

variable {others whole fraction pointed powered : List Char}
  {exponent : Option (Bool × List Char)} {numeral : Numeral}

theorem Digits.isDigit (digits : Digits s) : ∀ c ∈ s, isDigit c = true := by
  intro c member
  simpa [Text.isDigit] using digits c member

theorem Ends.stops (ends : Ends s) :
    ∀ c ∈ s.head?, isDigit c = false ∧ c ≠ '.' ∧ ¬ (c = 'e' ∨ c = 'E') := by
  have all : ∀ c ∈ [' ', '\n', '\t', '\r', ',', ']', '}'],
      isDigit c = false ∧ c ≠ '.' ∧ ¬ (c = 'e' ∨ c = 'E') := by simp [Text.isDigit]
  exact fun c first => all c (ends c first)

theorem takeDigits_of_digits (digits : Digits s) (stops : ∀ c ∈ rest.head?, isDigit c = false) :
    ∃ left, takeDigits (s ++ rest) = (s, left) ∧ left.val = rest := by
  have all := digits.isDigit
  have none : rest.takeWhile isDigit = [] ∧ rest.dropWhile isDigit = rest := by
    cases rest with
    | nil => exact ⟨rfl, rfl⟩
    | cons c others => simp [stops c rfl]
  refine ⟨⟨rest, by simp⟩, ?_, rfl⟩
  simp [takeDigits, List.takeWhile_append_of_pos all, List.dropWhile_append_of_pos all, none]

theorem takeSomeDigits_of_digits (atEnd : Malformed) (digits : Digits (c :: others))
    (stops : ∀ c ∈ rest.head?, isDigit c = false) :
    Takes (takeSomeDigits atEnd (c :: (others ++ rest))) (c :: others) rest := by
  obtain ⟨left, takes, behind⟩ := takeDigits_of_digits digits stops
  have first := digits.isDigit c List.mem_cons_self
  refine ⟨left, ?_, behind⟩
  rw [takeSomeDigits, if_pos first]
  exact congrArg Except.ok takes

theorem WholePart.read (atEnd : Malformed) (part : WholePart whole) (stops : ∀ c ∈ rest.head?, isDigit c = false) :
    Reads (readWhole atEnd (whole ++ rest)) whole rest := by
  cases part with
  | zero =>
      refine ⟨.behind '0' rest, ?_, rfl⟩
      have single : rest.head?.any isDigit = false := by
        cases rest with
        | nil => rfl
        | cons c others => simpa using stops c rfl
      simp [readWhole, single]
  | @digits c others nonzero digits =>
      have further : Digits others := fun c member => digits c (List.mem_cons_of_mem _ member)
      obtain ⟨left, takes, behind⟩ := takeDigits_of_digits further stops
      have first := digits.isDigit c List.mem_cons_self
      refine ⟨⟨left.val, Nat.lt_succ_of_le left.property⟩, ?_, behind⟩
      simp [readWhole, first, takes]

theorem SpellsFraction.read (atEnd : Malformed) (spells : SpellsFraction fraction pointed)
    (stops : ∀ c ∈ rest.head?, isDigit c = false ∧ c ≠ '.') :
    Takes (readFraction atEnd (pointed ++ rest)) fraction rest := by
  cases spells with
  | none =>
      refine ⟨⟨rest, Nat.le_refl _⟩, ?_, rfl⟩
      cases rest with
      | nil => rfl
      | cons c others => simp [readFraction, (stops c rfl).2]
  | @digits c others digits =>
      obtain ⟨left, takes, behind⟩ :=
        takeSomeDigits_of_digits atEnd digits fun c first => (stops c first).1
      refine ⟨⟨left.val, Nat.le_succ_of_le left.property⟩, ?_, behind⟩
      simp [readFraction, takes, Except.map]

theorem SpellsExponent.read (atEnd : Malformed) (spells : SpellsExponent exponent powered) (ends : Ends rest) :
    Takes (readExponent atEnd (powered ++ rest)) exponent rest := by
  cases spells with
  | none =>
      refine ⟨⟨rest, Nat.le_refl _⟩, ?_, rfl⟩
      cases rest with
      | nil => rfl
      | cons c others => simp [readExponent, (ends.stops c rfl).2.2]
  | @digits letter below sign c others marked signed digits =>
      have marked : letter = 'e' ∨ letter = 'E' := by simpa using marked
      have unsigned : c ≠ '-' ∧ c ≠ '+' := by
        constructor <;> rintro rfl <;> exact absurd (digits.isDigit _ List.mem_cons_self) (by decide)
      obtain ⟨left, takes, behind⟩ :=
        takeSomeDigits_of_digits atEnd digits fun c first => (ends.stops c first).1
      have splits : ∃ after, readSign (sign ++ c :: (others ++ rest)) = (below, after) ∧
          after.val = c :: (others ++ rest) := by
        simp only [List.mem_cons, Prod.mk.injEq, List.not_mem_nil, or_false] at signed
        rcases signed with ⟨rfl, rfl⟩ | ⟨rfl, rfl⟩ | ⟨rfl, rfl⟩
        · exact ⟨_, rfl, rfl⟩
        · exact ⟨_, rfl, rfl⟩
        · exact ⟨⟨c :: (others ++ rest), Nat.le_refl _⟩, by simp [readSign, unsigned], rfl⟩
      obtain ⟨⟨_, shorter⟩, splits, rfl⟩ := splits
      rw [List.append_assoc, List.cons_append, List.cons_append]
      refine ⟨⟨left.val, Nat.le_succ_of_le (Nat.le_trans left.property shorter)⟩, ?_, behind⟩
      rw [readExponent, if_pos marked, splits]
      simp [takes, Except.map]

theorem SpellsExponent.stops (spells : SpellsExponent exponent powered) (ends : Ends rest) :
    ∀ c ∈ (powered ++ rest).head?, isDigit c = false ∧ c ≠ '.' := by
  cases spells with
  | none => exact fun c first => ⟨(ends.stops c first).1, (ends.stops c first).2.1⟩
  | digits marked =>
      have all : ∀ c ∈ ['e', 'E'], isDigit c = false ∧ c ≠ '.' := by simp [Text.isDigit]
      intro c first
      obtain rfl := Option.some.inj first
      exact all _ marked

theorem SpellsFraction.stops (spells : SpellsFraction fraction pointed)
    (stops : ∀ c ∈ rest.head?, isDigit c = false ∧ c ≠ '.') :
    ∀ c ∈ (pointed ++ rest).head?, isDigit c = false := by
  cases spells with
  | none => exact fun c first => (stops c first).1
  | digits =>
      rintro c ⟨⟩
      rfl

theorem SpellsNumeral.read (atEnd : Malformed) (spells : SpellsNumeral numeral s) (ends : Ends rest) :
    Reads (Numeral.read atEnd (s ++ rest)) numeral rest := by
  cases spells with
  | @parts whole fraction exponent pointed powered digits fractional scaled =>
      have scaledStops := scaled.stops ends
      rw [List.append_assoc, List.append_assoc]
      obtain ⟨⟨_, shorter⟩, reads, rfl⟩ := digits.read atEnd (fractional.stops scaledStops)
      obtain ⟨⟨_, further⟩, points, rfl⟩ := fractional.read atEnd scaledStops
      obtain ⟨left, powers, behind⟩ := scaled.read atEnd ends
      refine ⟨⟨left.val, Nat.lt_of_le_of_lt (Nat.le_trans left.property further) shorter⟩, ?_, behind⟩
      simp [Numeral.read, reads, points, powers, Except.map]

end KeyedJobs.Json
