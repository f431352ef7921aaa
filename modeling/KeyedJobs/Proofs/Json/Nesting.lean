import KeyedJobs.Json.Skip
import KeyedJobs.Proofs.Json.Spelling

/-! # Well-formed values of any nesting

A value is a word, a number, a string, or brackets around items that are values again. Every well-formed
value is read past, however deep it nests, and the reader stops right behind it.
-/

namespace KeyedJobs.Json

open Text (isDigit)

def Bracket.opening : Bracket → Char
  | list => '['
  | object => '{'

/-- The parts of a value: all of it, an item within brackets, or what follows an item up to the closing
bracket. -/
inductive Part where
  | value
  | item (bracket : Bracket)
  | tail (bracket : Bracket)

/-- The text of a part, apart from blanks around it. -/
inductive WellFormed : Part → List Char → Prop where
  | word {word} (known : word ∈ ["null", "true", "false"]) : WellFormed .value word.toList
  | number {numeral s} (spells : SpellsNumeral numeral s) : WellFormed .value s
  | negative {numeral s} (spells : SpellsNumeral numeral s) : WellFormed .value ('-' :: s)
  | string {body} (formed : StringBody body) : WellFormed .value ('"' :: (body ++ ['"']))
  | empty {blanks} (bracket : Bracket) (blank : Blank blanks) :
      WellFormed .value (bracket.opening :: (blanks ++ [bracket.closing]))
  | full {bracket blanks item tail} (blank : Blank blanks) (first : WellFormed (.item bracket) item)
      (others : WellFormed (.tail bracket) tail) :
      WellFormed .value (bracket.opening :: (blanks ++ (item ++ tail)))
  | element {value} (formed : WellFormed .value value) : WellFormed (.item .list) value
  | member {name value before after} (named : StringBody name) (blankBefore : Blank before)
      (blankAfter : Blank after) (formed : WellFormed .value value) :
      WellFormed (.item .object) ('"' :: (name ++ '"' :: (before ++ ':' :: (after ++ value))))
  | close {bracket blanks} (blank : Blank blanks) :
      WellFormed (.tail bracket) (blanks ++ [bracket.closing])
  | next {bracket before after item tail} (blankBefore : Blank before) (blankAfter : Blank after)
      (first : WellFormed (.item bracket) item) (others : WellFormed (.tail bracket) tail) :
      WellFormed (.tail bracket) (before ++ ',' :: (after ++ (item ++ tail)))

variable {s rest left blanks : List Char} {c : Char} {bracket : Bracket} {passed : Passed}
  {outer : List Bracket}

/-- A value has begun, and reading on from here leads past it. -/
def Begins {s : List Char} (result : Except Malformed (Passed × Left s)) (rest : List Char) : Prop :=
  ∃ passed left, result = .ok (passed, left) ∧
    ∀ outer, skipRest passed outer left.rest = skipRest .whole outer rest

/-- The reader comes past the part, whatever follows it. -/
def Skips : Part → List Char → Prop
  | .value, s => ∀ rest, Ends rest → Begins (skipBeginning (s ++ rest)) rest
  | .item bracket, s => ∀ blanks rest, Blank blanks → Ends rest →
      Begins (skipItem bracket (blanks ++ (s ++ rest))) rest
  | .tail bracket, s => ∀ outer rest,
      skipRest .whole (bracket :: outer) (s ++ rest) = skipRest .whole outer rest

/-- Values and items do not look like blanks or like the end of what they stand in. -/
def Starts : Part → List Char → Prop
  | .value, s => ∃ c others, s = c :: others ∧ isBlank c = false ∧ c ≠ ']'
  | .item bracket, s => ∃ c others, s = c :: others ∧ isBlank c = false ∧ c ≠ bracket.closing
  | .tail _, s => ∀ rest, Ends (s ++ rest)

theorem SpellsNumeral.starts {numeral : Numeral} (spells : SpellsNumeral numeral s) :
    ∃ c others, s = c :: others ∧ isDigit c = true := by
  cases spells with
  | parts digits =>
      cases digits with
      | zero => exact ⟨'0', _, rfl, rfl⟩
      | digits nonzero digits => exact ⟨_, _, rfl, digits.isDigit _ List.mem_cons_self⟩

theorem closing_filled (bracket : Bracket) :
    isBlank bracket.closing = false ∧ bracket.closing ≠ ',' := by
  cases bracket <;> decide

/-! ## Steps through brackets -/

/-- After a part, the first character that is not blank decides what comes next. -/
theorem skipRest_whole (front : skipBlank s = c :: left) (outer : List Bracket) :
    skipRest .whole (bracket :: outer) s =
      if c = ',' then
        (skipItem bracket left).bind fun (passed, after) =>
          skipRest passed (bracket :: outer) after.rest
      else if c = bracket.closing then skipRest .whole outer left
      else .error bracket.afterItem := by
  rw [skipRest]
  split
  · rename_i nothing
    cases front.symm.trans nothing
  · rename_i here
    obtain ⟨rfl, rfl⟩ := List.cons.inj (front.symm.trans here)
    cases skipItem bracket left <;> rfl

/-- At the start, the first character that is not blank closes the bracket or begins an item. -/
theorem skipRest_opening (front : skipBlank s = c :: left) (outer : List Bracket) :
    skipRest (.opening bracket) outer s =
      if c = bracket.closing then skipRest .whole outer left
      else (skipItem bracket (c :: left)).bind fun (passed, after) =>
        skipRest passed (bracket :: outer) after.rest := by
  rw [skipRest]
  split
  · rename_i nothing
    cases front.symm.trans nothing
  · rename_i here
    obtain ⟨rfl, rfl⟩ := List.cons.inj (front.symm.trans here)
    cases skipItem bracket (c :: left) <;> rfl

theorem skipRest_of_close (blank : Blank blanks) (outer : List Bracket) (rest : List Char) :
    skipRest .whole (bracket :: outer) (blanks ++ bracket.closing :: rest) =
      skipRest .whole outer rest := by
  obtain ⟨filled, apart⟩ := closing_filled bracket
  rw [skipRest_whole (skipBlank_front blank filled rest), if_neg apart, if_pos rfl]

theorem skipRest_of_next {after : List Char} (blank : Blank blanks)
    (begins : Begins (skipItem bracket after) rest) (outer : List Bracket) :
    skipRest .whole (bracket :: outer) (blanks ++ ',' :: after) =
      skipRest .whole (bracket :: outer) rest := by
  obtain ⟨passed, left, item, others⟩ := begins
  have front := skipBlank_front blank (by decide : isBlank ',' = false) after
  rw [skipRest_whole front, if_pos rfl, item]
  exact others (bracket :: outer)

theorem skipRest_of_empty (blank : Blank blanks) (outer : List Bracket) (rest : List Char) :
    skipRest (.opening bracket) outer (blanks ++ bracket.closing :: rest) =
      skipRest .whole outer rest := by
  have front := skipBlank_front blank (closing_filled bracket).1 rest
  rw [skipRest_opening front, if_pos rfl]

theorem skipRest_of_first (blank : Blank blanks) (filled : isBlank c = false)
    (inside : c ≠ bracket.closing) (begins : Begins (skipItem bracket (c :: s)) rest)
    (outer : List Bracket) :
    skipRest (.opening bracket) outer (blanks ++ c :: s) = skipRest .whole (bracket :: outer) rest := by
  obtain ⟨passed, left, item, others⟩ := begins
  have front := skipBlank_front blank filled s
  rw [skipRest_opening front, if_neg inside, item]
  exact others (bracket :: outer)

/-! ## Beginnings -/

theorem readWord_append (word rest : List Char) : readWord word (word ++ rest) = .ok rest := by
  induction word with
  | nil => rfl
  | cons c word ih => simpa [readWord] using ih

theorem readWordAfter_append (c : Char) (word rest : List Char) :
    Passes (readWordAfter c word (word ++ rest)) rest := by
  unfold readWordAfter
  split
  · rename_i left here
    obtain rfl : rest = left := by simpa [readWord_append] using here
    exact ⟨_, rfl, rfl⟩
  · rename_i here
    simp [readWord_append] at here

theorem Begins.of_passes {result : Except Malformed (Left s)} (passes : Passes result rest) :
    Begins (result.map (Passed.whole, ·)) rest := by
  obtain ⟨left, rfl, rfl⟩ := passes
  exact ⟨.whole, left, rfl, fun _ => rfl⟩

theorem skipNumber_of_spells {numeral : Numeral} (spells : SpellsNumeral numeral s) (ends : Ends rest) :
    Passes (skipNumber (s ++ rest)) rest := by
  obtain ⟨left, reads, behind⟩ := spells.read .invalidNumber ends
  exact ⟨left, by simp [skipNumber, reads, Except.map], behind⟩

theorem of_isDigit (digit : isDigit c = true) :
    isBlank c = false ∧ c ≠ ']' ∧ c ≠ 'n' ∧ c ≠ 't' ∧ c ≠ 'f' ∧ c ≠ '-' ∧ c ≠ '"' ∧ c ≠ '[' ∧ c ≠ '{' := by
  refine ⟨?_, ?_, ?_, ?_, ?_, ?_, ?_, ?_, ?_⟩
  · rw [← Bool.not_eq_true, isBlank_iff]
    have all : ∀ c ∈ [' ', '\n', '\t', '\r'], isDigit c = false := by simp [isDigit]
    intro blank
    simp [all c blank] at digit
  all_goals
    rintro rfl
    revert digit
    decide

theorem skipBeginning_of_digit (digit : isDigit c = true) (s : List Char) :
    skipBeginning (c :: s) = (skipNumber (c :: s)).map (Passed.whole, ·) := by
  obtain ⟨-, -, _, _, _, _, _, _, _⟩ := of_isDigit digit
  simp [skipBeginning, digit]

theorem WellFormed.starts {part : Part} (formed : WellFormed part s) : Starts part s := by
  induction formed with
  | word known =>
      simp only [List.mem_cons, List.not_mem_nil, or_false] at known
      rcases known with rfl | rfl | rfl <;> exact ⟨_, _, rfl, by decide, by decide⟩
  | number spells =>
      obtain ⟨c, others, rfl, digit⟩ := spells.starts
      obtain ⟨filled, apart, -⟩ := of_isDigit digit
      exact ⟨c, others, rfl, filled, apart⟩
  | negative | string => exact ⟨_, _, rfl, by decide, by decide⟩
  | empty bracket | @full bracket =>
      refine ⟨_, _, rfl, ?_⟩
      cases bracket <;> decide
  | element _ ih => exact ih
  | member => exact ⟨_, _, rfl, by decide, by decide⟩
  | @close bracket blanks blank =>
      intro rest
      rw [List.append_assoc]
      refine Ends.of_blank blank ?_
      rintro c ⟨⟩
      cases bracket <;> decide
  | next blank =>
      intro rest
      rw [List.append_assoc]
      refine Ends.of_blank blank ?_
      rintro c ⟨⟩
      decide

theorem skipBeginning_of_word {word : String} (known : word ∈ ["null", "true", "false"])
    (rest : List Char) : Begins (skipBeginning (word.toList ++ rest)) rest := by
  simp only [List.mem_cons, List.not_mem_nil, or_false] at known
  rcases known with rfl | rfl | rfl
  · exact .of_passes (readWordAfter_append 'n' "ull".toList rest)
  · exact .of_passes (readWordAfter_append 't' "rue".toList rest)
  · exact .of_passes (readWordAfter_append 'f' "alse".toList rest)

theorem skipBeginning_of_opening (bracket : Bracket) (s : List Char) :
    ∃ left, skipBeginning (bracket.opening :: s) = .ok (.opening bracket, left) ∧ left.rest = s := by
  cases bracket <;> exact ⟨_, rfl, rfl⟩

theorem Begins.of_opening {bracket : Bracket} {s : List Char}
    (others : ∀ outer, skipRest (.opening bracket) outer s = skipRest .whole outer rest) :
    Begins (skipBeginning (bracket.opening :: s)) rest := by
  obtain ⟨left, begins, behind⟩ := skipBeginning_of_opening bracket s
  refine ⟨.opening bracket, left, begins, ?_⟩
  rw [behind]
  exact others

theorem Begins.of_negative (passes : Passes (skipNumber s) rest) :
    Begins (skipBeginning ('-' :: s)) rest := by
  obtain ⟨left, skips, rfl⟩ := passes
  exact ⟨.whole, left.cons '-', by simp [skipBeginning, skips, Except.map], fun _ => rfl⟩

theorem Begins.of_string (passes : Passes (skipString s) rest) :
    Begins (skipBeginning ('"' :: s)) rest := by
  obtain ⟨left, skips, rfl⟩ := passes
  exact ⟨.whole, left.cons '"', by simp [skipBeginning, skips, Except.map], fun _ => rfl⟩

/-! ## Items -/

theorem Begins.element (begins : Begins (skipBeginning (skipBlank s)) rest) :
    Begins (skipItem .list s) rest := by
  obtain ⟨passed, left, begins, others⟩ := begins
  exact ⟨passed, left.afterBlank, by simp [skipItem, begins, Except.map], others⟩

theorem readColon_of_front (front : skipBlank s = ':' :: rest) : Passes (readColon (skipBlank s)) rest := by
  rw [front]
  exact ⟨.behind ':' rest, rfl, rfl⟩

theorem skipName_of_body {name before : List Char} (named : StringBody name) (blank : Blank before)
    (rest : List Char) : Passes (skipName ('"' :: (name ++ '"' :: (before ++ ':' :: rest)))) rest := by
  obtain ⟨⟨_, shorter⟩, skips, rfl⟩ := named.skip (before ++ ':' :: rest)
  have front := skipBlank_front blank (by decide : isBlank ':' = false) rest
  obtain ⟨colon, reads, behind⟩ := readColon_of_front front
  exact ⟨_, by simp [skipName, skips, reads, Except.map]; rfl, behind⟩

theorem Begins.member {after : List Char} (passes : Passes (skipName (skipBlank s)) after)
    (begins : Begins (skipBeginning (skipBlank after)) rest) : Begins (skipItem .object s) rest := by
  obtain ⟨name, skips, rfl⟩ := passes
  obtain ⟨passed, left, begins, others⟩ := begins
  exact ⟨passed, _, by simp [skipItem, skips, begins, Except.map]; rfl, others⟩

theorem WellFormed.skips {part : Part} (formed : WellFormed part s) : Skips part s := by
  induction formed with
  | word known => exact fun rest _ => skipBeginning_of_word known rest
  | number spells =>
      intro rest ends
      obtain ⟨c, others, rfl, digit⟩ := spells.starts
      rw [List.cons_append, skipBeginning_of_digit digit]
      exact .of_passes (skipNumber_of_spells spells ends)
  | negative spells => exact fun rest ends => .of_negative (skipNumber_of_spells spells ends)
  | string formed =>
      intro rest _
      rw [List.cons_append, List.append_assoc]
      exact .of_string (formed.skip rest)
  | empty bracket blank =>
      intro rest _
      rw [List.cons_append, List.append_assoc]
      exact .of_opening fun outer => skipRest_of_empty blank outer rest
  | @full bracket blanks item tail blank first others skipsFirst skipsOthers =>
      intro rest _
      obtain ⟨c, further, rfl, filled, inside⟩ := first.starts
      have begins := skipsFirst [] (tail ++ rest) .nil (others.starts rest)
      rw [List.cons_append, List.append_assoc, List.append_assoc]
      refine .of_opening fun outer => ?_
      exact (skipRest_of_first blank filled inside begins outer).trans (skipsOthers outer rest)
  | @element value formed ih =>
      intro blanks rest blank ends
      obtain ⟨c, further, rfl, filled, -⟩ := formed.starts
      refine .element ?_
      rw [List.cons_append, skipBlank_front blank filled]
      exact ih rest ends
  | @member name value before after named blankBefore blankAfter formed ih =>
      intro blanks rest blank ends
      obtain ⟨c, further, rfl, filled, -⟩ := formed.starts
      have text : '"' :: (name ++ '"' :: (before ++ ':' :: (after ++ c :: further))) ++ rest =
          '"' :: (name ++ '"' :: (before ++ ':' :: (after ++ (c :: further ++ rest)))) := by simp
      have begins := ih rest ends
      rw [text]
      refine .member (?_ : Passes _ (after ++ (c :: further ++ rest))) ?_
      · rw [skipBlank_front blank (by decide)]
        exact skipName_of_body named blankBefore _
      · rw [List.cons_append, skipBlank_front blankAfter filled]
        exact begins
  | close blank =>
      intro outer rest
      rw [List.append_assoc]
      exact skipRest_of_close blank outer rest
  | @next bracket before after item tail blankBefore blankAfter first others skipsFirst skipsOthers =>
      intro outer rest
      have begins := skipsFirst after (tail ++ rest) blankAfter (others.starts rest)
      rw [List.append_assoc, List.cons_append, List.append_assoc, List.append_assoc]
      exact (skipRest_of_next blankBefore begins outer).trans (skipsOthers outer rest)

theorem skipValue_of_begins (begins : Begins (skipBeginning (skipBlank s)) rest) :
    Passes (skipValue s) rest := by
  obtain ⟨passed, left, begins, others⟩ := begins
  have through : skipRest passed [] left.rest = .ok rest := by
    rw [others, skipRest]
  unfold skipValue
  rw [begins]
  dsimp only
  split
  · rename_i here
    simp [through] at here
  · rename_i here
    obtain rfl : rest = _ := by simpa [through] using here
    exact ⟨_, rfl, rfl⟩

theorem WellFormed.skip {value : List Char} (formed : WellFormed .value value) (blank : Blank blanks)
    (ends : Ends rest) : Passes (skipValue (blanks ++ (value ++ rest))) rest := by
  obtain ⟨c, others, rfl, filled, -⟩ := formed.starts
  apply skipValue_of_begins
  rw [List.cons_append, skipBlank_front blank filled]
  exact formed.skips rest ends

end KeyedJobs.Json
