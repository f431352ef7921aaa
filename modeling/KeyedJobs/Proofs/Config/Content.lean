import Mathlib.Data.List.Nodup
import KeyedJobs.Config.Reader
import KeyedJobs.Proofs.Json.Nesting

/-! # Settings are read by content

A text gives settings as the members of an object or as the items of a list. What is read from it
depends on which settings it gives with which values, and on nothing else: not on the order of the
members, on blanks, on how names are spelled, or on members that are no settings.
-/

namespace KeyedJobs

open Json

/-- A setting with its value. -/
inductive Assignment where
  | workers (n : UInt64)
  | completionTimeout (limit : Option UInt64)
  | retryBackoff (ms : UInt64)
  | shutdownPolicy (policy : ShutdownPolicy)
  deriving Repr, DecidableEq

namespace Assignment

def setting : Assignment → Setting
  | .workers _ => .workers
  | .completionTimeout _ => .completionTimeout
  | .retryBackoff _ => .retryBackoff
  | .shutdownPolicy _ => .shutdownPolicy

/-- The settings with this one among them. -/
def give (settings : Settings) : Assignment → Settings
  | .workers n => { settings with workers := some n }
  | .completionTimeout limit => { settings with completionTimeoutMs := some limit }
  | .retryBackoff ms => { settings with retryBackoffMs := some ms }
  | .shutdownPolicy policy => { settings with shutdownPolicy := some policy }

end Assignment

/-- What is given, setting by setting, in the order in which settings are listed. -/
def Settings.assignments (given : Settings) : List Assignment :=
  (given.workers.map Assignment.workers).toList ++
    (given.completionTimeoutMs.map Assignment.completionTimeout).toList ++
      (given.retryBackoffMs.map Assignment.retryBackoff).toList ++
        (given.shutdownPolicy.map Assignment.shutdownPolicy).toList

/-- A whole number in full, without a sign or a leading zero. -/
def decimal (n : UInt64) : List Char :=
  Nat.toDigits 10 n.toNat

/-- The text of the value of a setting. -/
inductive SpellsValue : Assignment → List Char → Prop where
  | workers (n : UInt64) : SpellsValue (.workers n) (decimal n)
  | noTimeout : SpellsValue (.completionTimeout none) "null".toList
  | timeout (ms : UInt64) : SpellsValue (.completionTimeout (some ms)) (decimal ms)
  | backoff (ms : UInt64) : SpellsValue (.retryBackoff ms) (decimal ms)
  | policy {policy body} (spells : SpellsString policy.keyword.toList body) :
      SpellsValue (.shutdownPolicy policy) ('"' :: (body ++ ['"']))

/-- A member of the object: a setting with its value, or one that is no setting. -/
inductive Member where
  | known (assignment : Assignment)
  | unknown

def Member.assignment? : Member → Option Assignment
  | .known assignment => some assignment
  | .unknown => none

/-- The text of a member. -/
inductive SpellsMember : Member → List Char → Prop where
  | known {assignment name before after value}
      (named : SpellsString assignment.setting.key.toList name) (blankBefore : Blank before)
      (blankAfter : Blank after) (spells : SpellsValue assignment value) :
      SpellsMember (.known assignment) ('"' :: (name ++ '"' :: (before ++ ':' :: (after ++ value))))
  | unknown {content name before after value} (other : ∀ setting : Setting, setting.key.toList ≠ content)
      (named : SpellsString content name) (blankBefore : Blank before) (blankAfter : Blank after)
      (formed : WellFormed .value value) :
      SpellsMember .unknown ('"' :: (name ++ '"' :: (before ++ ':' :: (after ++ value))))

section

variable {α : Type} (item : α → List Char → Prop) (closing : Char)

/-- The text behind an item: commas with more items, and the closing bracket. -/
inductive Others : List α → List Char → Prop where
  | close {blanks} (blank : Blank blanks) : Others [] (blanks ++ [closing])
  | next {before after a text as others} (blankBefore : Blank before) (blankAfter : Blank after)
      (here : item a text) (rest : Others as others) :
      Others (a :: as) (before ++ ',' :: (after ++ (text ++ others)))

/-- The text behind an opening bracket: items with commas between them, and the closing bracket. -/
inductive Enclosed : List α → List Char → Prop where
  | empty {blanks} (blank : Blank blanks) : Enclosed [] (blanks ++ [closing])
  | full {before a text as others} (blank : Blank before) (here : item a text)
      (rest : Others item closing as others) : Enclosed (a :: as) (before ++ (text ++ others))

end

/-- The text of an object with these members. -/
inductive SpellsObject (members : List Member) : String → Prop where
  | text {before body after} (blankBefore : Blank before) (blankAfter : Blank after)
      (enclosed : Enclosed SpellsMember '}' members body) :
      SpellsObject members (String.ofList (before ++ '{' :: (body ++ after)))

/-- The text of a list with the values of these settings. -/
inductive SpellsList (values : List Assignment) : String → Prop where
  | text {before body after} (blankBefore : Blank before) (blankAfter : Blank after)
      (enclosed : Enclosed SpellsValue ']' values body) :
      SpellsList values (String.ofList (before ++ '[' :: (body ++ after)))

/-- What settings come to that stand on top of the defaults of a machine. -/
def Settings.verdict (given : Settings) (machine : Machine) : Except ReadError Config :=
  match (given.onTopOf (.default machine)).validate with
  | .ok () => .ok (given.onTopOf (.default machine))
  | .error fault => .error (.refused fault)

/-! ## Values -/

section

variable {s rest : List Char} {n : UInt64} {expected : Expected} {settings : Settings}
  {assignment : Assignment} {value : List Char}

theorem digits_toDigits (n : Nat) : Digits (Nat.toDigits 10 n) := by
  intro c member
  have digit := Nat.isDigit_of_mem_toDigits (by decide) (by decide) member
  simpa [Char.isDigit, Char.le_def] using digit

theorem head_toDigits (n : Nat) (positive : 0 < n) : (Nat.toDigits 10 n).head? ≠ some '0' := by
  induction n using Nat.strongRecOn with
  | ind n ih =>
      by_cases small : n < 10
      · rw [Nat.toDigits_of_lt_base small]
        have all : ∀ n < 10, 0 < n → [Nat.digitChar n].head? ≠ some '0' := by decide
        exact all n small positive
      · rw [Nat.toDigits_of_base_le (by decide) (Nat.le_of_not_lt small)]
        have front := ih (n / 10) (by omega) (by omega)
        obtain ⟨c, others, spelled⟩ := List.exists_cons_of_ne_nil (Nat.toDigits_ne_nil (b := 10))
        rw [spelled] at front ⊢
        simpa using front

theorem wholePart_toDigits (n : Nat) : WholePart (Nat.toDigits 10 n) := by
  have digits := digits_toDigits n
  cases n with
  | zero => exact .zero
  | succ n =>
      have front := head_toDigits (n + 1) (Nat.succ_pos n)
      cases spelled : Nat.toDigits 10 (n + 1) with
      | nil => exact absurd spelled Nat.toDigits_ne_nil
      | cons c others =>
          rw [spelled] at digits front
          exact .digits (by simpa using front) digits

theorem spells_decimal (n : UInt64) : SpellsNumeral ⟨decimal n, [], none⟩ (decimal n) := by
  have parts := SpellsNumeral.parts (wholePart_toDigits n.toNat) .none .none
  simpa [decimal] using parts

theorem ofNumeral_decimal (n : UInt64) :
    Number.ofNumeral false ⟨decimal n, [], none⟩ = .ok (.natural n) := by
  have value : Text.ofDigits (decimal n) = n.toNat := Nat.ofDigitChars_ten_toDigits
  have bound : n.toNat < UInt64.size := n.toNat_lt_size
  simp [Number.ofNumeral, value, bound, Nat.toUInt64]

namespace Settings

theorem readWhole_decimal (n : UInt64) (expected : Expected) (ends : Ends rest) :
    Reads (readWhole expected (decimal n ++ rest)) n rest := by
  have spells := spells_decimal n
  have value := ofNumeral_decimal n
  obtain ⟨c, others, same, digit⟩ := spells.starts
  obtain ⟨-, -, -, -, -, _, -⟩ := of_isDigit digit
  rw [same] at spells value ⊢
  have reads : Reads (Numeral.read .endInValue (c :: (others ++ rest))) _ rest :=
    spells.read .endInValue ends
  obtain ⟨left, reads, behind⟩ := reads
  refine ⟨left, ?_, behind⟩
  simp [readWhole, digit, Number.read, reads, value, orMalformed, wordOf, Except.map, Except.mapError,
    bind, Except.bind, pure, Except.pure]

theorem readLimit_of_ne {c : Char} (apart : c ≠ 'n') (s : List Char) : readLimit (c :: s) =
    (readWhole .milliseconds (c :: s)).map fun (ms, left) => (some ms, left) := by
  rw [readLimit]
  intro others same
  exact apart (List.cons.inj same).1

theorem readLimit_decimal (ms : UInt64) (ends : Ends rest) :
    Reads (readLimit (decimal ms ++ rest)) (some ms) rest := by
  obtain ⟨c, others, same, digit⟩ := (spells_decimal ms).starts
  obtain ⟨-, -, apart, -⟩ := of_isDigit digit
  have reads := readWhole_decimal ms .milliseconds ends
  rw [same, List.cons_append] at reads ⊢
  obtain ⟨left, reads, behind⟩ := reads
  exact ⟨left, by simp [readLimit_of_ne apart, reads, Except.map], behind⟩

theorem readLimit_null (rest : List Char) : Reads (readLimit ("null".toList ++ rest)) none rest := by
  obtain ⟨left, reads, behind⟩ := readWordAfter_append 'n' "ull".toList rest
  refine ⟨left, ?_, behind⟩
  exact congrArg (fun found => (orMalformed found).map (none, ·)) reads

theorem readPolicy_of_spells {policy : ShutdownPolicy} {body : List Char}
    (spells : SpellsString policy.keyword.toList body) (rest : List Char) :
    Reads (readPolicy ('"' :: (body ++ '"' :: rest))) policy rest := by
  obtain ⟨left, reads, behind⟩ := spells.read rest
  refine ⟨left.cons '"', ?_, behind⟩
  simp [readPolicy, readPolicyName, reads, orMalformed, ShutdownPolicy.ofKeyword?_keyword, Except.map,
    Except.mapError, bind, Except.bind, pure, Except.pure]

end Settings

theorem Json.Reads.yield {α β : Type} {found : α} {result : Except ReadError (α × Left s)}
    (reads : Reads result found rest) (f : α → β) :
    Reads (do let (found, left) ← result; return (f found, left)) (f found) rest := by
  obtain ⟨left, rfl, behind⟩ := reads
  exact ⟨left, rfl, behind⟩

theorem SpellsValue.read (spells : SpellsValue assignment value) (settings : Settings)
    (ends : Ends rest) : Reads (Settings.readValue assignment.setting settings (value ++ rest))
      (assignment.give settings) rest := by
  cases spells with
  | workers n =>
      exact (Settings.readWhole_decimal n .workerCount ends).yield fun n =>
        Assignment.give settings (.workers n)
  | noTimeout =>
      exact (Settings.readLimit_null rest).yield fun limit =>
        Assignment.give settings (.completionTimeout limit)
  | timeout ms =>
      exact (Settings.readLimit_decimal ms ends).yield fun limit =>
        Assignment.give settings (.completionTimeout limit)
  | backoff ms =>
      exact (Settings.readWhole_decimal ms .milliseconds ends).yield fun ms =>
        Assignment.give settings (.retryBackoff ms)
  | policy spells =>
      rw [List.cons_append, List.append_assoc]
      exact (Settings.readPolicy_of_spells spells rest).yield fun policy =>
        Assignment.give settings (.shutdownPolicy policy)

theorem SpellsValue.starts (spells : SpellsValue assignment value) :
    ∃ c others, value = c :: others ∧ isBlank c = false ∧ c ≠ ']' := by
  have starts : ∀ n, ∃ c others, decimal n = c :: others ∧ isBlank c = false ∧ c ≠ ']' := by
    intro n
    obtain ⟨c, others, same, digit⟩ := (spells_decimal n).starts
    obtain ⟨filled, apart, -⟩ := of_isDigit digit
    exact ⟨c, others, same, filled, apart⟩
  cases spells with
  | workers n | timeout n | backoff n => exact starts n
  | noTimeout | policy => exact ⟨_, _, rfl, by decide, by decide⟩

theorem SpellsValue.skipBlank (spells : SpellsValue assignment value) {blanks : List Char}
    (blank : Blank blanks) (rest : List Char) : Json.skipBlank (blanks ++ (value ++ rest)) = value ++ rest := by
  obtain ⟨c, others, rfl, filled, -⟩ := spells.starts
  exact skipBlank_front blank filled _

/-! ## Members -/

/-- The settings together with a member. A setting that is given already is refused. -/
def Member.join (settings : Settings) : Member → Except Setting Settings
  | .known assignment =>
      if settings.gives assignment.setting then .error assignment.setting
      else .ok (assignment.give settings)
  | .unknown => .ok settings

/-- The reader finds the settings that a member leads to, or refuses it. -/
def Joins {β : Type} {s : List Char} (result : Except ReadError (β × Left s))
    (joined : Except Setting β) (rest : List Char) : Prop :=
  match joined with
  | .ok given => Reads result given rest
  | .error setting => result = .error (.repeated setting)

theorem SpellsMember.starts {member : Member} {text : List Char} (spells : SpellsMember member text) :
    ∃ others, text = '"' :: others := by
  cases spells <;> exact ⟨_, rfl⟩

theorem SpellsMember.skipBlank {member : Member} {text blanks : List Char}
    (spells : SpellsMember member text) (blank : Blank blanks) (rest : List Char) :
    Json.skipBlank (blanks ++ (text ++ rest)) = text ++ rest := by
  obtain ⟨others, rfl⟩ := spells.starts
  exact skipBlank_front blank (by decide : isBlank '"' = false) _

theorem Others.ends {α : Type} {item : α → List Char → Prop} {closing : Char} {as : List α}
    {text : List Char} (others : Others item closing as text) (closes : closing ∈ [']', '}'])
    (rest : List Char) : Ends (text ++ rest) := by
  cases others with
  | close blank =>
      rw [List.append_assoc]
      refine Ends.of_blank blank ?_
      intro c first
      obtain rfl := Option.some.inj first
      exact List.mem_append_right [' ', '\n', '\t', '\r', ','] closes
  | next blank =>
      rw [List.append_assoc]
      refine Ends.of_blank blank ?_
      rintro c ⟨⟩
      decide

namespace Settings

variable {content name before after t : List Char} {given : Settings} {member : Member}
  {joined : Except Setting Settings} {error : ReadError}

theorem readNamed_of_unknown (other : ∀ setting : Setting, setting.key.toList ≠ content)
    (colon : Passes (readColon (skipBlank s)) t) (passes : Passes (skipValue t) rest) :
    Reads (readNamed content settings s) settings rest := by
  have unknown : Setting.ofKey? (String.ofList content) = none := by
    refine List.find?_eq_none.mpr fun setting _ => ?_
    rw [decide_eq_true_iff]
    intro same
    exact other setting (by rw [same, String.toList_ofList])
  obtain ⟨left, reads, rfl⟩ := colon
  obtain ⟨value, skips, behind⟩ := passes
  refine ⟨left.afterBlank.after value, ?_, behind⟩
  simp [readNamed, unknown, reads, skips, orMalformed, Except.mapError, bind, Except.bind, pure,
    Except.pure]

theorem readNamed_of_known {assignment : Assignment}
    (fresh : settings.gives assignment.setting = false)
    (colon : Passes (readColon (skipBlank s)) t)
    (reads : Reads (readValue assignment.setting settings (skipBlank t)) given rest) :
    Reads (readNamed assignment.setting.key.toList settings s) given rest := by
  obtain ⟨left, passes, rfl⟩ := colon
  obtain ⟨value, reads, behind⟩ := reads
  refine ⟨left.afterBlank.after value.afterBlank, ?_, behind⟩
  simp [readNamed, Setting.ofKey?_key, fresh, passes, reads, orMalformed, Except.mapError, bind,
    Except.bind, pure, Except.pure]

theorem readNamed_of_given {setting : Setting} (again : settings.gives setting = true)
    (s : List Char) : readNamed setting.key.toList settings s = .error (.repeated setting) := by
  simp [readNamed, Setting.ofKey?_key, again]

theorem readMember_of_named (named : Reads (readString s) content t)
    (joins : Joins (readNamed content settings t) joined rest) :
    Joins (readMember settings ('"' :: s)) joined rest := by
  obtain ⟨left, reads, rfl⟩ := named
  cases joined with
  | ok given =>
      obtain ⟨value, joins, behind⟩ := joins
      refine ⟨(left.after value).cons '"', ?_, behind⟩
      simp [readMember, reads, joins, orMalformed, Except.mapError, bind, Except.bind, pure, Except.pure]
  | error setting =>
      have joins : readNamed content settings left.rest = .error (.repeated setting) := joins
      simp [Joins, readMember, reads, joins, orMalformed, Except.mapError, bind, Except.bind]

theorem readMember_of_spells (settings : Settings) {text : List Char}
    (spells : SpellsMember member text) (ends : Ends rest) :
    Joins (readMember settings (text ++ rest)) (member.join settings) rest := by
  have text : ∀ {name before after value : List Char},
      '"' :: (name ++ '"' :: (before ++ ':' :: (after ++ value))) ++ rest =
        '"' :: (name ++ '"' :: (before ++ ':' :: (after ++ (value ++ rest)))) := by simp
  cases spells with
  | @unknown content name before after value other named blankBefore blankAfter formed =>
      have colon := readColon_of_front
        (skipBlank_front blankBefore (by decide : isBlank ':' = false) (after ++ (value ++ rest)))
      rw [text]
      exact readMember_of_named (named.read _)
        (readNamed_of_unknown other colon (formed.skip blankAfter ends))
  | @known assignment name before after value named blankBefore blankAfter spells =>
      have colon := readColon_of_front
        (skipBlank_front blankBefore (by decide : isBlank ':' = false) (after ++ (value ++ rest)))
      have reads := spells.read settings ends
      rw [text]
      refine readMember_of_named (named.read _) ?_
      cases again : settings.gives assignment.setting with
      | true =>
          simp only [Member.join, again, if_true]
          exact readNamed_of_given again _
      | false =>
          simp only [Member.join, again]
          refine readNamed_of_known again colon ?_
          rw [spells.skipBlank blankAfter]
          exact reads

theorem readNextMember_of_first (joins : Joins (readMember settings ('"' :: s)) joined rest) :
    Joins (readNextMember true settings ('"' :: s)) (joined.map some) rest := by
  cases joined with
  | ok given =>
      obtain ⟨left, joins, behind⟩ := joins
      exact ⟨left, by simp [readNextMember, joins, Except.map], behind⟩
  | error setting =>
      have joins : readMember settings ('"' :: s) = .error (.repeated setting) := joins
      simp [Joins, readNextMember, joins, Except.map]

theorem readNextMember_of_next (joins : Joins (readMember settings (skipBlank s)) joined rest) :
    Joins (readNextMember false settings (',' :: s)) (joined.map some) rest := by
  cases joined with
  | ok given =>
      obtain ⟨left, joins, behind⟩ := joins
      exact ⟨left.afterBlank.cons ',', by simp [readNextMember, joins, Except.map], behind⟩
  | error setting =>
      have joins : readMember settings (skipBlank s) = .error (.repeated setting) := joins
      simp [Joins, readNextMember, joins, Except.map]

theorem readMembers_of_joins {first : Bool}
    (joins : Joins (readNextMember first settings (skipBlank s)) (joined.map some) rest) :
    readMembers first settings s =
      (joined.mapError ReadError.repeated).bind fun given => readMembers false given rest := by
  cases joined with
  | ok given =>
      obtain ⟨left, joins, rfl⟩ := joins
      rw [readMembers]
      simp [joins, Except.mapError, Except.bind]
  | error setting =>
      have joins : readNextMember first settings (skipBlank s) = .error (.repeated setting) := joins
      rw [readMembers]
      simp [joins, Except.mapError, Except.bind]

theorem readMembers_of_end {first : Bool} (front : skipBlank s = '}' :: rest) :
    readMembers first settings s = .ok (settings, rest) := by
  have ends : Reads (readNextMember first settings (skipBlank s)) none rest := by
    rw [front]
    exact ⟨.behind '}' rest, by simp [readNextMember], rfl⟩
  obtain ⟨left, ends, rfl⟩ := ends
  rw [readMembers]
  simp [ends]

/-- What members come to, one joined after the other. -/
def gathered (settings : Settings) (members : List Member) : Except ReadError Settings :=
  (members.foldlM Member.join settings).mapError .repeated

theorem gathered_cons (settings : Settings) (member : Member) (members : List Member) :
    gathered settings (member :: members) =
      ((member.join settings).mapError ReadError.repeated).bind (gathered · members) := by
  cases joined : member.join settings <;>
    simp [gathered, joined, Except.mapError, bind, Except.bind]

theorem readMembers_of_others {members : List Member} {text : List Char}
    (others : Others SpellsMember '}' members text) (settings : Settings) (rest : List Char) :
    readMembers false settings (text ++ rest) = (gathered settings members).map (·, rest) := by
  induction others generalizing settings with
  | @close blanks blank =>
      rw [List.append_assoc]
      exact readMembers_of_end (skipBlank_front blank (by decide : isBlank '}' = false) rest)
  | @next before after member text members others blankBefore blankAfter here further ih =>
      have joins := readMember_of_spells settings here (further.ends (by decide) rest)
      have text : before ++ ',' :: (after ++ (text ++ others)) ++ rest =
          before ++ ',' :: (after ++ (text ++ (others ++ rest))) := by simp
      rw [← here.skipBlank blankAfter] at joins
      have next := readNextMember_of_next joins
      rw [← skipBlank_front blankBefore (by decide : isBlank ',' = false)] at next
      rw [text, readMembers_of_joins next, gathered_cons]
      cases member.join settings with
      | error => rfl
      | ok given => exact ih given

theorem readMembers_of_enclosed {members : List Member} {text : List Char}
    (enclosed : Enclosed SpellsMember '}' members text) (settings : Settings) (rest : List Char) :
    readMembers true settings (text ++ rest) = (gathered settings members).map (·, rest) := by
  cases enclosed with
  | @empty blanks blank =>
      rw [List.append_assoc]
      exact readMembers_of_end (skipBlank_front blank (by decide : isBlank '}' = false) rest)
  | @full before member text members others blank here further =>
      have joins := readMember_of_spells settings here (further.ends (by decide) rest)
      have text : before ++ (text ++ others) ++ rest = before ++ (text ++ (others ++ rest)) := by simp
      obtain ⟨name, rfl⟩ := here.starts
      have first : Joins (readNextMember true settings ('"' :: name ++ (others ++ rest))) _ _ :=
        readNextMember_of_first joins
      rw [← here.skipBlank blank] at first
      rw [text, readMembers_of_joins first, gathered_cons]
      cases member.join settings with
      | error => rfl
      | ok given => exact readMembers_of_others further given rest

/-! ## Items -/

theorem readItem_of_ne {c : Char} (apart : c ≠ ']') (setting : Setting) (settings : Settings)
    (s : List Char) : readItem setting settings (c :: s) =
      (readValue setting settings (c :: s)).map fun (settings, left) => (settings, left.rest) := by
  rw [readItem]
  · simp
  · intro others same
    exact apart (List.cons.inj same).1

theorem readItem_of_spells (spells : SpellsValue assignment value) (settings : Settings)
    (ends : Ends rest) :
    readItem assignment.setting settings (value ++ rest) = .ok (assignment.give settings, rest) := by
  obtain ⟨c, others, rfl, -, apart⟩ := spells.starts
  have reads := spells.read settings ends
  rw [List.cons_append] at reads ⊢
  obtain ⟨left, reads, behind⟩ := reads
  simp [readItem_of_ne apart, reads, behind, Except.map]

theorem readItems_of_others {values : List Assignment} {text : List Char}
    (others : Others SpellsValue ']' values text) (settings : Settings) (rest : List Char)
    {asked : List Setting} (order : values.map (·.setting) <+: asked) :
    readItems false asked settings (text ++ rest) = .ok (values.foldl Assignment.give settings, rest) := by
  induction others generalizing settings asked with
  | @close blanks blank =>
      have front := skipBlank_front blank (by decide : isBlank ']' = false) rest
      rw [List.append_assoc]
      cases asked <;> simp [readItems, readListEnd, front, Except.map]
  | @next before after assignment text values others blankBefore blankAfter here further ih =>
      cases asked with
      | nil => simp at order
      | cons setting asked =>
          obtain ⟨rfl, tail⟩ := List.cons_prefix_cons.mp order
          have front := skipBlank_front blankBefore (by decide : isBlank ',' = false)
            (after ++ (text ++ (others ++ rest)))
          have item := readItem_of_spells here settings (further.ends (by decide) rest)
          have text : before ++ ',' :: (after ++ (text ++ others)) ++ rest =
              before ++ ',' :: (after ++ (text ++ (others ++ rest))) := by simp
          rw [text]
          simp [readItems, front, here.skipBlank blankAfter, item, ih _ tail, bind, Except.bind]

theorem readItems_of_enclosed {values : List Assignment} {text : List Char}
    (enclosed : Enclosed SpellsValue ']' values text) (settings : Settings) (rest : List Char)
    {asked : List Setting} (order : values.map (·.setting) <+: asked) :
    readItems true asked settings (text ++ rest) = .ok (values.foldl Assignment.give settings, rest) := by
  cases enclosed with
  | @empty blanks blank =>
      have front := skipBlank_front blank (by decide : isBlank ']' = false) rest
      rw [List.append_assoc]
      cases asked <;> simp [readItems, readListEnd, front, Except.map]
  | @full before assignment text values others blank here further =>
      cases asked with
      | nil => simp at order
      | cons setting asked =>
          obtain ⟨rfl, tail⟩ := List.cons_prefix_cons.mp order
          have item := readItem_of_spells here settings (further.ends (by decide) rest)
          have front := here.skipBlank blank (others ++ rest)
          obtain ⟨c, name, rfl, -, apart⟩ := here.starts
          rw [List.cons_append] at item front
          have text : before ++ (c :: name ++ others) ++ rest =
              before ++ c :: (name ++ (others ++ rest)) := by simp
          rw [text]
          simp [readItems, front, item, readItems_of_others further _ rest tail, bind, Except.bind]

/-! ## Whole texts -/

theorem skipBlank_eq_nil {blanks : List Char} (blank : Blank blanks) : skipBlank blanks = [] := by
  simpa [skipBlank] using skipBlank_append blank []

theorem read_of_object {members : List Member} {text : String} (spells : SpellsObject members text) :
    Settings.read text = gathered {} members := by
  cases spells with
  | @text before body after blankBefore blankAfter enclosed =>
      have front := skipBlank_front blankBefore (by decide : isBlank '{' = false) (body ++ after)
      simp only [Settings.read, String.toList_ofList, front, readMembers_of_enclosed enclosed]
      cases gathered {} members with
      | error => rfl
      | ok given => simp [Except.map, bind, Except.bind, pure, Except.pure, skipBlank_eq_nil blankAfter]

theorem read_of_list {values : List Assignment} {text : String} (spells : SpellsList values text)
    (order : values.map (·.setting) <+: Setting.all) :
    Settings.read text = .ok (values.foldl Assignment.give {}) := by
  cases spells with
  | @text before body after blankBefore blankAfter enclosed =>
      have front := skipBlank_front blankBefore (by decide : isBlank '[' = false) (body ++ after)
      simp [Settings.read, front, readItems_of_enclosed enclosed {} after order, bind, Except.bind,
        pure, Except.pure, skipBlank_eq_nil blankAfter]

end Settings

end

/-! ## What is given -/

section

variable {a b : Assignment} {settings given : Settings} {members before after : List Member}

theorem gives_give (settings : Settings) (a : Assignment) (setting : Setting) :
    (a.give settings).gives setting = (settings.gives setting || a.setting = setting) := by
  cases a <;> cases setting <;> simp [Assignment.give, Assignment.setting, Settings.gives]

theorem give_comm (apart : a.setting ≠ b.setting) (settings : Settings) :
    b.give (a.give settings) = a.give (b.give settings) := by
  cases a <;> cases b <;> first | rfl | exact absurd rfl apart

theorem gives_foldl (as : List Assignment) (settings : Settings) (setting : Setting) :
    (as.foldl Assignment.give settings).gives setting =
      (settings.gives setting || setting ∈ as.map (·.setting)) := by
  induction as generalizing settings with
  | nil => simp
  | cons a as ih => simp [ih, gives_give, Bool.or_assoc, eq_comm]

theorem foldl_give_of_perm {as bs : List Assignment} (perm : as.Perm bs)
    (distinct : (as.map (·.setting)).Nodup) (settings : Settings) :
    as.foldl Assignment.give settings = bs.foldl Assignment.give settings := by
  refine perm.foldl_eq' ?_ settings
  intro a memberA b memberB settings
  by_cases same : a = b
  · rw [same]
  · refine give_comm ?_ settings
    intro setting
    exact same (List.inj_on_of_nodup_map distinct memberA memberB setting)

theorem foldl_assignments (given : Settings) :
    given.assignments.foldl Assignment.give {} = given := by
  obtain ⟨workers, timeout, backoff, policy⟩ := given
  cases workers <;> cases timeout <;> cases backoff <;> cases policy <;> rfl

theorem nodup_assignments (given : Settings) : (given.assignments.map (·.setting)).Nodup := by
  obtain ⟨workers, timeout, backoff, policy⟩ := given
  cases workers <;> cases timeout <;> cases backoff <;> cases policy <;>
    simp [Settings.assignments, Assignment.setting]

/-- The settings among the members, in order. -/
def knownSettings (members : List Member) : List Setting :=
  (members.filterMap Member.assignment?).map (·.setting)

theorem gathered_of_distinct (settings : Settings) (distinct : (knownSettings members).Nodup)
    (fresh : ∀ setting ∈ knownSettings members, settings.gives setting = false) :
    settings.gathered members =
      .ok ((members.filterMap Member.assignment?).foldl Assignment.give settings) := by
  induction members generalizing settings with
  | nil => rfl
  | cons member members ih =>
      rw [Settings.gathered_cons]
      cases member with
      | unknown => exact ih settings distinct fresh
      | known a =>
          obtain ⟨apart, distinct⟩ := List.nodup_cons.mp distinct
          obtain ⟨new, fresh⟩ := List.forall_mem_cons.mp fresh
          have further := ih (a.give settings) distinct fun setting member => by
            have other : a.setting ≠ setting := fun same => apart (by rwa [← same] at member)
            simp [gives_give, fresh setting member, other]
          have joined : Member.join settings (.known a) = .ok (a.give settings) := by
            simp [Member.join, new]
          rw [joined]
          exact further

theorem gathered_append (settings : Settings) (before after : List Member) :
    settings.gathered (before ++ after) =
      (settings.gathered before).bind (Settings.gathered · after) := by
  induction before generalizing settings with
  | nil => rfl
  | cons member before ih =>
      rw [List.cons_append, Settings.gathered_cons, Settings.gathered_cons]
      cases member.join settings with
      | error => rfl
      | ok given => exact ih given

theorem gives_nothing (setting : Setting) : Settings.gives {} setting = false := by
  cases setting <;> rfl

theorem gathered_of_repeated (distinct : (knownSettings before).Nodup)
    (again : a.setting ∈ knownSettings before) (after : List Member) :
    Settings.gathered {} (before ++ .known a :: after) = .error (.repeated a.setting) := by
  have first := gathered_of_distinct {} distinct fun setting _ => gives_nothing setting
  have given : Settings.gives _ a.setting = (_ || decide (a.setting ∈ knownSettings before)) :=
    gives_foldl (before.filterMap Member.assignment?) {} a.setting
  rw [decide_eq_true again, Bool.or_true] at given
  rw [gathered_append, first]
  simp [Except.bind, Settings.gathered_cons, Member.join, given, Except.mapError]

theorem exists_repeated (before : List Member) (distinct : (knownSettings before).Nodup)
    (repeated : ¬ (knownSettings (before ++ members)).Nodup) :
    ∃ front a after, before ++ members = front ++ .known a :: after ∧
      (knownSettings front).Nodup ∧ a.setting ∈ knownSettings front := by
  induction members generalizing before with
  | nil => simp [distinct] at repeated
  | cons member members ih =>
      have moved := List.append_cons before member members
      cases member with
      | unknown =>
          have same : knownSettings (before ++ [.unknown]) = knownSettings before := by
            simp [knownSettings, Member.assignment?]
          rw [moved] at repeated ⊢
          exact ih _ (same ▸ distinct) repeated
      | known a =>
          by_cases again : a.setting ∈ knownSettings before
          · exact ⟨before, a, members, rfl, distinct, again⟩
          · have more : knownSettings (before ++ [.known a]) = knownSettings before ++ [a.setting] := by
              simp [knownSettings, Member.assignment?]
            rw [moved] at repeated ⊢
            refine ih _ ?_ repeated
            rw [more]
            exact distinct.append (List.nodup_singleton _) (by simpa using again)

end

theorem Config.read_of_settings {machine : Machine} {text : String} {given : Settings}
    (reads : Settings.read text = .ok given) :
    Config.read machine text = given.verdict machine := by
  unfold Config.read Settings.verdict
  rw [reads]
  simp only [bind, Except.bind]
  cases (given.onTopOf (.default machine)).validate <;> rfl

theorem Config.read_of_error {machine : Machine} {text : String} {error : ReadError}
    (reads : Settings.read text = .error error) : Config.read machine text = .error error := by
  unfold Config.read
  rw [reads]
  rfl

theorem Config.read_of_object {machine : Machine} {text : String} {members : List Member}
    {given : Settings}
    (spells : SpellsObject members text)
    (perm : (members.filterMap Member.assignment?).Perm given.assignments) :
    Config.read machine text = given.verdict machine := by
  have distinct : (knownSettings members).Nodup :=
    (perm.map Assignment.setting).nodup_iff.mpr (nodup_assignments given)
  apply Config.read_of_settings
  rw [Settings.read_of_object spells,
    gathered_of_distinct {} distinct fun setting _ => gives_nothing setting,
    foldl_give_of_perm perm distinct, foldl_assignments]

/-- What a text comes to on a machine is settled by the settings that it gives. -/
structure ReadByContent (machine : Machine) (text : String) : Prop where
  /-- An object that gives each setting at most once, in whatever order and among whatever other members,
  comes to these settings on top of the defaults, if they pass the check. -/
  object : ∀ (given : Settings) members, SpellsObject members text →
    (members.filterMap Member.assignment?).Perm given.assignments →
      Config.read machine text = given.verdict machine
  /-- A list of the first values in order comes to the same as an object that gives them. -/
  list : ∀ given : Settings, SpellsList given.assignments text →
    given.assignments.map (·.setting) <+: Setting.all →
      Config.read machine text = given.verdict machine
  /-- An object that gives a setting more than once is refused at the first member that repeats one. -/
  repeated : ∀ members, SpellsObject members text → ¬ (knownSettings members).Nodup →
    ∃ before a after, members = before ++ .known a :: after ∧ (knownSettings before).Nodup ∧
      a.setting ∈ knownSettings before ∧ Config.read machine text = .error (.repeated a.setting)

/-- Every text is read by content. -/
theorem reads_by_content (machine : Machine) (text : String) : ReadByContent machine text where
  object given members spells perm := Config.read_of_object spells perm
  list given spells order := by
    apply Config.read_of_settings
    rw [Settings.read_of_list spells order, foldl_assignments]
  repeated members spells twice := by
    obtain ⟨before, a, after, split, distinct, again⟩ := exists_repeated [] List.nodup_nil twice
    rw [List.nil_append] at split
    refine ⟨before, a, after, split, distinct, again, Config.read_of_error ?_⟩
    rw [Settings.read_of_object spells, split, gathered_of_repeated distinct again]

/-- A member that is no setting has brackets within brackets, and a letter in the name of a setting is
given by number. Where nothing is given, the machine tells the number of workers, if it can. -/
theorem reads_by_content_of_escaped_name :
    Config.read .single "\x7b\"a\":[\x7b\x7d],\"w\\u006frkers\": 3\x7d" =
        .ok ⟨3, none, 0, .drain⟩ ∧
      Config.read .single "\x7b\x7d" = .ok ⟨1, none, 0, .drain⟩ ∧
      Config.read ⟨none⟩ "\x7b\x7d" = .ok ⟨4, none, 0, .drain⟩ := by
  have letter : HexNumber 'o'.toNat ['0', '0', '6', 'f'] :=
    .digits (.lower (by decide : 0 < 16)) (.lower (by decide : 0 < 16)) (.lower (by decide : 6 < 16))
      (.lower (by decide : 15 < 16))
  have rest : SpellsString ['r', 'k', 'e', 'r', 's'] _ := .of_plain (by simp [Plain])
  have name : SpellsString ['w', 'o', 'r', 'k', 'e', 'r', 's'] _ :=
    .cons (.plain (by simp [Plain])) (.cons (.number letter) rest)
  have key : (Assignment.workers 3).setting.key.toList = ['w', 'o', 'r', 'k', 'e', 'r', 's'] := by
    simp [Assignment.setting, Setting.key]
  have known := SpellsMember.known (key ▸ name) .nil (by simp [Blank] : Blank [' ']) (.workers 3)
  have other : ∀ setting : Setting, setting.key.toList ≠ ['a'] := by
    intro setting
    cases setting <;> simp [Setting.key]
  have value := WellFormed.full .nil (.element (.empty .object .nil)) (.close .nil)
  have unknown := SpellsMember.unknown other (.of_plain (by simp [Plain])) .nil .nil value
  have enclosed : Enclosed SpellsMember '}' _ _ :=
    .full .nil unknown (.next .nil .nil known (.close .nil))
  have read := (reads_by_content .single _).object ⟨some 3, none, none, none⟩ _
    (.text .nil .nil enclosed) (.refl _)
  have nothing : SpellsObject [] "\x7b\x7d" := .text .nil .nil (.empty .nil)
  exact ⟨read, (reads_by_content .single _).object {} [] nothing (.refl _),
    (reads_by_content ⟨none⟩ _).object {} [] nothing (.refl _)⟩

end KeyedJobs
