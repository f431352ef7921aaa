import KeyedJobs.Proofs.Completion.Chains
import KeyedJobs.Proofs.Completion.Collecting

/-! # The life of completions

Completions are made and chained, results are sent to them, time passes, and they are waited for one by
one and together, looked at and let go. Whatever the order, what is once known of a completion stays
true of it for everybody who holds it, nothing is known of it before somebody has polled it, and waiting
in vain does it no harm.
-/

namespace KeyedJobs

open Completions (poisonedPanic)

/-- Whether a completion can come to the result by itself. Running out of time and panics are only noted
by those who wait. -/
def CompletionResult.isOwn : CompletionResult → Bool
  | .success | .failure (.failed _) | .failure .dropped => true
  | .failure (.timedOut _) | .failure (.panicked _) => false

/-- One thing that is done with completions, and what comes of it. -/
inductive Deed where
  | made (write : Write) (id : CompletionId)
  | chained (source id : CompletionId)
  | sent (gate : String) (result : CompletionResult)
  | passed (now : Instant)
  /-- One poll. -/
  | waited (id : CompletionId) (yielded : Poll)
  | peeked (id : CompletionId) (shown : Except Panic (Option CompletionResult))
  | described (id : CompletionId) (text : Except Panic Text.Record)
  | aggregated (limit : Option Duration) (ids : List CompletionId) (visits : List (Nat × Visit))
      (outcome : Outcome)
  | keptOnly (held : List CompletionId)

/-- What is done leads from one session to the other. Only completions that were made are waited for,
and only results that are a completion's own are sent. -/
inductive Does (s : CompletionSession) : Deed → CompletionSession → Prop where
  | make {write id completions} (made : s.completions.start write = (id, completions)) :
      Does s (.made write id) { s with completions }
  | chain {source id completions} (there : source < s.completions.entries.size)
      (chained : s.completions.addChained source = (id, completions)) :
      Does s (.chained source id) { s with completions }
  | send {gate result completions} (own : result.isOwn = true)
      (sent : s.completions.resolve? gate result = some completions) :
      Does s (.sent gate result) { s with completions }
  | pass {now} (later : s.now ≤ now) : Does s (.passed now) { s with now }
  | wait {id yielded s'} (there : id < s.completions.entries.size)
      (polled : s.wait id = (yielded, s')) : Does s (.waited id yielded) s'
  | peek {id shown} (peeked : s.completions.peek id = shown) : Does s (.peeked id shown) s
  | describe {id text} (described : s.completions.describe id = text) :
      Does s (.described id text) s
  | aggregate {s' limit ids waiting visits outcome}
      (there : ∀ id ∈ ids, id < s.completions.entries.size)
      (aggregated : s.aggregate? limit ids = some (outcome, s'))
      (collects : Collects Eq s.now s.completions limit ids s'.now s'.completions waiting visits)
      (complete : waiting.isComplete = true) (same : waiting.outcome = outcome) :
      Does s (.aggregated limit ids visits outcome) s'
  | keepOnly (held : List CompletionId) : Does s (.keptOnly held) (s.keepOnly held)

namespace Deed

/-- The deed shows that the completion has ended with the result. An aggregation names its failures; a
completion that it names as a failure less often than it was asked for has succeeded. -/
inductive Shows : Deed → CompletionId → CompletionResult → Prop where
  | waited {id result} : Shows (.waited id (.ready result)) id result
  | peeked {id result} : Shows (.peeked id (.ok (some result))) id result
  | failed {limit ids visits outcome id error} (named : ⟨id, error⟩ ∈ outcome.failures)
      (own : (CompletionResult.failure error).isOwn = true) :
      Shows (.aggregated limit ids visits outcome) id (.failure error)
  | succeeded {limit ids visits} {outcome : Outcome} {id : CompletionId}
      (fewer : outcome.failures.countP (·.completion = id) < ids.count id) :
      Shows (.aggregated limit ids visits outcome) id .success

/-- Somebody has waited for the completion in vain: with one poll, or up to a limit. -/
inductive InVain : Deed → CompletionId → Prop where
  | waited {id} : InVain (.waited id .pending) id
  | timedOut {limit ids visits outcome id span} (named : ⟨id, .timedOut span⟩ ∈ outcome.failures) :
      InVain (.aggregated limit ids visits outcome) id

/-- If the deed is to wait for the completion or to look at it, this is what it comes to. -/
structure Meets (deed : Deed) (id : CompletionId) (yielded : Poll)
    (shown : Except Panic (Option CompletionResult)) : Prop where
  waited : ∀ found, deed = .waited id found → found = yielded
  peeked : ∀ found, deed = .peeked id found → found = shown
  described : ∀ text, deed = .described id text → text = shown.map fun result =>
    ⟨"PendingCompletion", [("state", Text.quoted (Completions.stateText result))]⟩

end Deed

/-- A deed with the sessions before and after it. -/
structure Moment where
  before : CompletionSession
  deed : Deed
  after : CompletionSession

namespace Moment

/-- The polls of the moment, with what they found. -/
def visits (moment : Moment) : List Visit :=
  match moment.deed with
  | .waited id _ => [⟨id, moment.before.now, moment.before.completions⟩]
  | .aggregated _ _ visits _ => visits.map (·.2)
  | _ => []

/-- A poll of the completion, or of one that follows it, has met this. -/
def Met (moment : Moment) (id : CompletionId) (yielded : Poll) : Prop :=
  ∃ visit ∈ moment.visits, visit.found.Follows visit.completion id ∧
    (visit.found.poll visit.instant id).1 = yielded

end Moment

/-- Completions live from an empty session on through these moments. -/
inductive Lived : List Moment → CompletionSession → Prop where
  | begin : Lived [] .empty
  | act {past s deed s'} (lived : Lived past s) (does : Does s deed s') :
      Lived (past ++ [⟨s, deed, s'⟩]) s'

/-- What lasts through a life. -/
structure Lasting (past : List Moment) : Prop where
  /-- What has been shown of a completion is met ever after. -/
  shown : past.Pairwise fun earlier later => ∀ id result, earlier.deed.Shows id result →
    later.deed.Meets id (.ready result) (.ok (some result))
  /-- After a poll that has raised the panic of a completion, it is poisoned. -/
  poisoned : past.Pairwise fun earlier later => ∀ id panic, earlier.Met id (.raised panic) →
    later.deed.Meets id (.raised poisonedPanic) (.error poisonedPanic)
  /-- A peek shows only a result that a poll has found before. -/
  found : ∀ before moment after id result, past = before ++ moment :: after →
    moment.deed = .peeked id (.ok (some result)) → ∃ earlier ∈ before, earlier.Met id (.ready result)
  /-- Waiting in vain leaves a completion pending, and open to its own result. -/
  inVain : ∀ moment ∈ past, ∀ id, moment.deed.InVain id →
    moment.after.completions.peek id = .ok none ∧
      (moment.after.completions.poll moment.after.now id).1 = .pending ∧
        moment.after.completions.Open moment.after.now id

def Origin.isOwn : Origin → Bool
  | .known result | .manual (some result) => result.isOwn
  | .manual none | .task .. => true

def Completion.isOwn : Completion → Bool
  | .unresolved origin => origin.isOwn
  | .resolved result => result.isOwn
  | .chained _ | .poisoned => true

def Poll.isOwn : Poll → Bool
  | .ready result => result.isOwn
  | .pending | .raised _ => true

theorem Origin.isOwn_poll {origin : Origin} (own : origin.isOwn = true) (now : Instant) :
    (origin.poll now).1.isOwn = true ∧ (origin.poll now).2.isOwn = true := by
  cases origin with
  | known result => exact ⟨own, own⟩
  | manual sent =>
      cases sent with
      | none => exact ⟨rfl, rfl⟩
      | some result => exact ⟨own, own⟩
  | task sleep wakeAt ending =>
      have ended : ending.poll.isOwn = true := by cases ending <;> rfl
      cases sleep with
      | none => exact ⟨ended, rfl⟩
      | some sleep =>
          cases wakes : wakeAt.or (now.wakeUp? sleep) with
          | none =>
              rw [Origin.poll_of_endless wakes]
              exact ⟨rfl, rfl⟩
          | some due =>
              rw [Origin.poll_of_due wakes]
              refine ⟨?_, rfl⟩
              dsimp only
              split
              · exact ended
              · rfl

theorem Poll.isOwn_carriedOver (yielded : Poll) : yielded.carriedOver.isOwn = true := by
  cases yielded with
  | pending | raised => rfl
  | ready result => cases result <;> rfl

namespace Completions

variable {cs cs' : Completions} {id : CompletionId} {now : Instant} {completion : Completion}
  {result : CompletionResult}

/-- Chains lead to older completions, and all results are those of the completions themselves. -/
structure Sound (cs : Completions) : Prop where
  linked : cs.Linked
  own : ∀ (id : CompletionId) completion, cs.entries[id]? = some completion →
    completion.isOwn = true

theorem Sound.empty : Completions.empty.Sound where
  linked _ _ entry := by cases entry
  own _ _ entry := by cases entry

theorem Sound.put (sound : cs.Sound) (own : completion.isOwn = true)
    (older : ∀ source, completion = .chained source → source < id) : (cs.put id completion).Sound where
  linked other source entry := by
    by_cases same : id = other
    · subst same
      rw [Completions.put, Array.getElem?_setIfInBounds_self] at entry
      split at entry
      · exact older source (Option.some.inj entry)
      · cases entry
    · exact sound.linked other source (by simpa [Completions.put, same] using entry)
  own other present entry := by
    by_cases same : id = other
    · subst same
      rw [Completions.put, Array.getElem?_setIfInBounds_self] at entry
      split at entry
      · exact Option.some.inj entry ▸ own
      · cases entry
    · exact sound.own other present (by simpa [Completions.put, same] using entry)

theorem Sound.conclude (sound : cs.Sound) {yielded : Poll} (own : yielded.isOwn = true)
    (id : CompletionId) : (cs.conclude id yielded).Sound := by
  cases yielded with
  | pending => exact sound
  | ready result => exact sound.put own (by simp)
  | raised => exact sound.put rfl (by simp)

theorem Sound.poll (sound : cs.Sound) (now : Instant) (id : CompletionId) :
    (cs.poll now id).1.isOwn = true ∧ (cs.poll now id).2.Sound := by
  fun_induction Completions.poll now cs id with
  | case1 | case3 | case6 => exact ⟨rfl, sound⟩
  | case2 id result entry => exact ⟨sound.own id _ entry, sound⟩
  | case4 id origin entry yielded after polled =>
      have own := Origin.isOwn_poll (sound.own id _ entry) now
      rw [polled] at own
      have kept : (cs.put id (.unresolved after)).Sound := sound.put own.2 (by simp)
      exact ⟨own.1, kept.conclude own.1 id⟩
  | case5 id source entry older yielded after polled ih =>
      rw [polled] at ih
      exact ⟨yielded.isOwn_carriedOver, ih.2.conclude yielded.isOwn_carriedOver id⟩

theorem Sound.add (sound : cs.Sound) (own : completion.isOwn = true)
    (older : ∀ source, completion = .chained source → source < cs.entries.size) :
    (cs.add completion).2.Sound where
  linked id source entry := by
    rw [Completions.add, Array.getElem?_push] at entry
    split at entry
    · rename_i new
      exact new ▸ older source (Option.some.inj entry)
    · exact sound.linked id source entry
  own id present entry := by
    rw [Completions.add, Array.getElem?_push] at entry
    split at entry
    · exact Option.some.inj entry ▸ own
    · exact sound.own id present entry

theorem Sound.of_entries (sound : cs.Sound) (same : cs'.entries = cs.entries) : cs'.Sound := by
  constructor
  · rw [Linked, same]
    exact sound.linked
  · rw [same]
    exact sound.own

theorem Sound.send (sound : cs.Sound) (own : result.isOwn = true) (id : CompletionId) :
    (cs.send id result).Sound := by
  unfold Completions.send
  split
  · exact sound.put own (by simp)
  · exact sound

theorem Sound.resolve {name : String} (sound : cs.Sound) (own : result.isOwn = true)
    (resolved : cs.resolve? name result = some cs') : cs'.Sound := by
  obtain ⟨id, -, rfl⟩ := Option.map_eq_some_iff.mp resolved
  exact (sound.send own id).of_entries rfl

theorem Sound.start (sound : cs.Sound) (write : Write) : (cs.start write).2.Sound := by
  cases write with
  | existing => exact sound
  | succeeded | failed | dropped | never | task => exact sound.add rfl (by simp)
  | gate name =>
      have dropped : ((cs.resolve? name (.failure .dropped)).getD cs).Sound := by
        cases resolved : cs.resolve? name (.failure .dropped) with
        | none => exact sound
        | some cs' => exact sound.resolve rfl resolved
      exact (dropped.add rfl (by simp)).of_entries rfl

theorem final_of_add {added : Completion} (fluid : ¬ added.Final) (final : completion.Final)
    (entry : (cs.add added).2.entries[id]? = some completion) : cs.entries[id]? = some completion := by
  rw [add, Array.getElem?_push] at entry
  split at entry
  · exact absurd (Option.some.inj entry ▸ final) fluid
  · exact entry

theorem final_of_send {sent : CompletionResult} {target : CompletionId} (final : completion.Final)
    (entry : (cs.send target sent).entries[id]? = some completion) :
    cs.entries[id]? = some completion := by
  unfold send at entry
  split at entry
  · by_cases same : target = id
    · subst same
      rw [Completions.put, Array.getElem?_setIfInBounds_self] at entry
      split at entry
      · cases Option.some.inj entry
        cases final
      · cases entry
    · simpa [Completions.put, same] using entry
  · exact entry

theorem final_of_resolve {name : String} {sent : CompletionResult} (final : completion.Final)
    (resolved : cs.resolve? name sent = some cs') (entry : cs'.entries[id]? = some completion) :
    cs.entries[id]? = some completion := by
  obtain ⟨target, -, rfl⟩ := Option.map_eq_some_iff.mp resolved
  exact final_of_send final entry

theorem final_of_start {write : Write} (final : completion.Final)
    (entry : (cs.start write).2.entries[id]? = some completion) :
    cs.entries[id]? = some completion := by
  have fluid : ∀ origin, ¬ (Completion.unresolved origin).Final := nofun
  cases write with
  | existing => exact entry
  | succeeded | failed | dropped | never | task => exact final_of_add (fluid _) final entry
  | gate name =>
      have before := final_of_add (fluid _) final entry
      cases resolved : cs.resolve? name (.failure .dropped) with
      | none => simpa [resolved] using before
      | some cs' =>
          rw [resolved] at before
          exact final_of_resolve final resolved before

end Completions

open Completions (Sound)

section

variable {begun now : Instant} {limit : Option Duration} {ids : List CompletionId} {id : CompletionId}
  {origin cs : Completions} {waiting : Aggregation} {visits : List (Nat × Visit)}

theorem Slot.completions_poll {slot : Slot} (undecided : slot.result = none) (now : Instant)
    (limit : Option TimeLimit) (cs : Completions) :
    (slot.poll now limit cs).2 = (cs.poll now slot.completion).2 := by
  simp only [Slot.poll, undecided]

theorem Collects.keeps {P : Completions → Prop}
    (polls : ∀ {cs} now id, P cs → P (cs.poll now id).2) (holds : P origin)
    (collects : Collects Eq begun origin limit ids now cs waiting visits) : P cs := by
  induction collects with
  | begin => exact holds
  | pass _ _ same ih => exact same ▸ ih
  | visit position _ found undecided ih =>
      rw [Slot.completions_poll undecided]
      exact polls _ _ ih

theorem Collects.upholds (collects : Collects Eq begun origin limit ids now cs waiting visits) :
    ∀ entry ∈ visits, (entry.2.found.poll entry.2.instant entry.2.completion).2.Upholds cs := by
  induction collects with
  | begin => simp
  | pass _ _ same ih => exact same ▸ ih
  | visit position _ found undecided ih =>
      intro entry member
      rw [Slot.completions_poll undecided]
      rcases List.mem_append.mp member with before | here
      · exact (ih entry before).trans (Completions.upholds_poll _ _ _)
      · obtain rfl := List.mem_singleton.mp here
        exact .refl _

theorem Collects.met (collects : Collects Eq begun origin limit ids now cs waiting visits)
    {result : CompletionResult} (entry : cs.entries[id]? = some (.resolved result)) :
    origin.entries[id]? = some (.resolved result) ∨
      ∃ visit ∈ visits.map (·.2), visit.found.Follows visit.completion id ∧
        (visit.found.poll visit.instant id).1 = .ready result := by
  induction collects with
  | begin => exact .inl entry
  | pass _ _ same ih => exact ih (same ▸ entry)
  | @visit now cs waiting visits slot position _ found undecided ih =>
      rw [Slot.completions_poll undecided] at entry
      rcases Completions.follows_of_resolved entry with before | met
      · rcases ih before with before | ⟨visit, member, met⟩
        · exact .inl before
        · exact .inr ⟨visit, by simp [member], met⟩
      · exact .inr ⟨⟨slot.completion, now, cs⟩, by simp, met⟩

end

/-- If the position has run out of time, it has done so now, and polling its completion now is in
vain. -/
def Slot.Late (now : Instant) (limit : Option TimeLimit) (cs : Completions) (slot : Slot) : Prop :=
  ∀ span, slot.result = some (.failure (.timedOut span)) →
    limit.any (·.isOver now) = true ∧ cs.Still now slot.completion

section

variable {now : Instant} {limit : Option TimeLimit} {cs : Completions} {slot : Slot}

theorem Slot.Late.poll (late : slot.Late now limit cs) (id : CompletionId) :
    slot.Late now limit (cs.poll now id).2 := by
  intro span timedOut
  obtain ⟨expired, still⟩ := late span timedOut
  exact ⟨expired, still.poll id⟩

theorem Slot.late_poll (sound : cs.Sound) (there : slot.completion < cs.entries.size)
    (undecided : slot.result = none) :
    (slot.poll now limit cs).1.Late now limit (slot.poll now limit cs).2 := by
  intro span timedOut
  rw [Slot.completion_poll, Slot.completions_poll undecided]
  have own := (sound.poll now slot.completion).1
  simp only [Slot.poll, undecided] at timedOut
  cases yielded : (cs.poll now slot.completion).1 with
  | ready result =>
      rw [yielded] at own timedOut
      obtain rfl := Option.some.inj timedOut
      cases own
  | raised panic =>
      rw [yielded] at timedOut
      cases timedOut
  | pending =>
      refine ⟨?_, sound.linked.still there yielded⟩
      rw [yielded] at timedOut
      cases limit with
      | none => cases timedOut
      | some limit =>
          by_cases expired : limit.isOver now = true
          · exact expired
          · simp [Poll.result?, expired] at timedOut

theorem Aggregation.isSome_pollSlots (expired : limit.any (·.isOver now) = true) (slots : List Slot) :
    ∀ slot ∈ (pollSlots now limit cs slots).1, slot.result.isSome = true := by
  induction slots generalizing cs with
  | nil => simp [pollSlots]
  | cons slot rest ih =>
      rw [pollSlots, List.forall_mem_cons]
      refine ⟨?_, ih⟩
      cases limit with
      | none => cases expired
      | some limit =>
          have expired : limit.isOver now = true := expired
          unfold Slot.poll
          split
          · rename_i known
            simp [known]
          · dsimp only
            cases (cs.poll now slot.completion).1 <;> simp [Poll.result?, expired]

theorem Aggregation.isComplete_pollFrom {waiting : Aggregation}
    (expired : waiting.limit.any (·.isOver now) = true) (first : List Nat) :
    (waiting.pollFrom now cs first).1.isComplete = true :=
  List.all_eq_true.mpr (isSome_pollSlots expired _)

/-- Before a round of polls nothing has run out of time, unless it has done so now. -/
structure Aggregation.Timely (now : Instant) (cs : Completions) (waiting : Aggregation) : Prop where
  sound : cs.Sound
  there : ∀ slot ∈ waiting.slots, slot.completion < cs.entries.size
  late : ∀ slot ∈ waiting.slots, slot.Late now waiting.limit cs

theorem Aggregation.Timely.pollFrom {waiting : Aggregation} (timely : waiting.Timely now cs)
    (first : List Nat) :
    (waiting.pollFrom now cs first).1.Timely now (waiting.pollFrom now cs first).2 := by
  refine Aggregation.visits_pollFrom
    (P := fun cs slots => Aggregation.Timely now cs ⟨waiting.limit, slots⟩) ?_ first timely
  intro cs slots slot position found undecided ⟨sound, there, late⟩
  have member := List.mem_of_getElem? found
  have polled : (slot.poll now waiting.limit cs).1.Late now waiting.limit _ :=
    Slot.late_poll sound (there slot member) undecided
  constructor
  · rw [Slot.completions_poll undecided]
    exact (sound.poll now slot.completion).2
  · intro other among
    rw [Slot.completions_poll undecided, Completions.size_poll]
    rcases List.mem_or_eq_of_mem_set among with before | rfl
    · exact there other before
    · rw [Slot.completion_poll]
      exact there slot member
  · intro other among
    rcases List.mem_or_eq_of_mem_set among with before | rfl
    · rw [Slot.completions_poll undecided]
      exact (late other before).poll slot.completion
    · exact polled

end

theorem CompletionSession.still_of_run {s s' : CompletionSession} {waiting : Aggregation}
    {outcome : Outcome} {fuel : Nat} (timely : waiting.Timely s.now s.completions)
    (ran : s.run waiting fuel = some (outcome, s')) {id : CompletionId} {span : Duration}
    (named : ⟨id, .timedOut span⟩ ∈ outcome.failures) : s'.completions.Still s'.now id := by
  induction fuel generalizing s waiting with
  | zero => cases ran
  | succ fuel ih =>
      unfold CompletionSession.run at ran
      dsimp only at ran
      have polled := timely.pollFrom (if waiting.isLarge then s.leaders waiting else [])
      split at ran
      · cases ran
        obtain ⟨slot, member, failed⟩ := List.mem_filterMap.mp named
        obtain ⟨same, timedOut⟩ := Slot.of_failure? failed
        obtain ⟨-, still⟩ := polled.late slot member span timedOut
        obtain rfl : id = slot.completion := same
        exact still
      · rename_i incomplete
        obtain ⟨due, -, ran⟩ := Option.bind_eq_some_iff.mp ran
        refine ih ⟨polled.sound, polled.there, ?_⟩ ran
        intro slot member span timedOut
        have expired : waiting.limit.any (·.isOver s.now) = true :=
          (polled.late slot member span timedOut).1
        exact absurd (Aggregation.isComplete_pollFrom expired _) incomplete

namespace Collection

variable {timeLimit : Option TimeLimit} {ids : List CompletionId} {cs : Completions} {outcome : Outcome}
  {visits : List (Nat × Visit)} {results : List CompletionResult} {id : CompletionId}

theorem resolved_of_mem (collection : Collection timeLimit ids cs outcome visits results)
    {result : CompletionResult} (member : (id, result) ∈ ids.zip results) (own : result.isOwn = true) :
    cs.entries[id]? = some (.resolved result) := by
  obtain ⟨position, found⟩ := List.mem_iff_getElem?.mp member
  obtain ⟨atIds, atResults⟩ := List.getElem?_zip_eq_some.mp found
  obtain ⟨visit, rfl, -, verdict⟩ := collection.decided position id result atIds atResults
  cases verdict with
  | own _ _ entry => exact entry
  | timedOut | raised | poisoned => cases own

theorem resolved_of_failure (collection : Collection timeLimit ids cs outcome visits results)
    {error : CompletionError} (named : ⟨id, error⟩ ∈ outcome.failures)
    (own : (CompletionResult.failure error).isOwn = true) :
    cs.entries[id]? = some (.resolved (.failure error)) := by
  rw [collection.failures] at named
  obtain ⟨⟨id, result⟩, member, failed⟩ := List.mem_filterMap.mp named
  cases result with
  | success => cases failed
  | failure error =>
      cases failed
      exact collection.resolved_of_mem member own

theorem countP_failures (pairs : List (CompletionId × CompletionResult))
    (unsuccessful : (id, .success) ∉ pairs) :
    (pairs.filterMap fun (id, result) => result.error?.map (Failure.mk id)).countP
      (·.completion = id) = (pairs.map (·.1)).count id := by
  induction pairs with
  | nil => rfl
  | cons pair rest ih =>
      obtain ⟨other, result⟩ := pair
      obtain ⟨apart, others⟩ := List.ne_and_not_mem_of_not_mem_cons unsuccessful
      cases result with
      | success =>
          have apart : other ≠ id := by
            rintro rfl
            exact apart rfl
          simpa [CompletionResult.error?, apart] using ih others
      | failure error =>
          have counted := ih others
          simp only [CompletionResult.error?] at counted ⊢
          simp [List.countP_cons, List.count_cons, counted]

theorem resolved_of_fewer (collection : Collection timeLimit ids cs outcome visits results)
    (fewer : outcome.failures.countP (·.completion = id) < ids.count id) :
    cs.entries[id]? = some (.resolved .success) := by
  by_cases successful : (id, .success) ∈ ids.zip results
  · exact collection.resolved_of_mem successful rfl
  · have counted := countP_failures (ids.zip results) successful
    rw [← collection.failures, List.map_fst_zip (Nat.le_of_eq collection.length.symm)] at counted
    exact absurd counted (Nat.ne_of_lt fewer)

end Collection

namespace Does

variable {s s' : CompletionSession} {deed : Deed} {id : CompletionId} {result : CompletionResult}
  {panic : Panic}

theorem of_aggregate? {limit : Option Duration} {ids : List CompletionId} {outcome : Outcome}
    (there : ∀ id ∈ ids, id < s.completions.entries.size)
    (aggregated : s.aggregate? limit ids = some (outcome, s')) :
    ∃ visits, Does s (.aggregated limit ids visits outcome) s' := by
  obtain ⟨waiting, visits, collects, complete, same⟩ :=
    CompletionSession.collects_of_aggregate? aggregated
  exact ⟨visits, .aggregate there aggregated collects complete same⟩

theorem upholds (does : Does s deed s') : s.completions.Upholds s'.completions := by
  cases does with
  | @make write id completions made =>
      obtain ⟨-, rfl⟩ := Prod.mk.inj made
      exact Completions.upholds_start s.completions write
  | @chain source id completions there chained =>
      obtain ⟨-, rfl⟩ := Prod.mk.inj chained
      exact Completions.upholds_add s.completions (.chained source)
  | @send gate result completions own sent =>
      have upholds := Completions.upholds_resolve s.completions gate result
      rwa [sent] at upholds
  | pass | peek | describe | keepOnly => exact .refl _
  | @wait id yielded s' there polled =>
      obtain ⟨-, rfl⟩ := Prod.mk.inj polled
      exact Completions.upholds_poll s.now s.completions id
  | aggregate _ _ collects =>
      refine collects.keeps (P := s.completions.Upholds) ?_ (.refl _)
      intro cs now id before
      exact before.trans (Completions.upholds_poll now cs id)

theorem sound (does : Does s deed s') (sound : s.completions.Sound) : s'.completions.Sound := by
  cases does with
  | @make write id completions made =>
      obtain ⟨-, rfl⟩ := Prod.mk.inj made
      exact sound.start write
  | chain there chained =>
      obtain ⟨-, rfl⟩ := Prod.mk.inj chained
      refine sound.add rfl ?_
      rintro source ⟨⟩
      exact there
  | send own sent => exact sound.resolve own sent
  | pass | peek | describe | keepOnly => exact sound
  | @wait id yielded s' there polled =>
      obtain ⟨-, rfl⟩ := Prod.mk.inj polled
      exact (sound.poll s.now id).2
  | aggregate _ _ collects =>
      exact collects.keeps (fun now id sound => (sound.poll now id).2) sound

theorem shown (does : Does s deed s') (shows : deed.Shows id result) :
    s'.completions.entries[id]? = some (.resolved result) := by
  cases shows with
  | waited =>
      cases does with
      | wait there polled =>
          obtain ⟨yields, rfl⟩ := Prod.mk.inj polled
          have left := Completions.entry_poll s.now s.completions id
          rw [yields] at left
          exact left (by simp)
  | peeked =>
      cases does with
      | peek peeked =>
          unfold Completions.peek at peeked
          split at peeked <;> simp_all
  | failed named own =>
      cases does with
      | aggregate _ _ collects complete same =>
          subst same
          obtain ⟨results, collection⟩ :=
            (collects.collected Completions.Upholds.of_eq).collection complete
          exact collection.resolved_of_failure named own
  | succeeded fewer =>
      cases does with
      | aggregate _ _ collects complete same =>
          subst same
          obtain ⟨results, collection⟩ :=
            (collects.collected Completions.Upholds.of_eq).collection complete
          exact collection.resolved_of_fewer fewer

theorem poisoned (does : Does s deed s') (met : Moment.Met ⟨s, deed, s'⟩ id (.raised panic)) :
    s'.completions.entries[id]? = some .poisoned := by
  obtain ⟨visit, member, follows, raised⟩ := met
  have left := follows.entry_poll (by rw [raised]; simp)
  rw [raised] at left
  cases does with
  | make | chain | send | pass | peek | describe | keepOnly => cases member
  | wait there polled =>
      obtain ⟨-, rfl⟩ := Prod.mk.inj polled
      obtain rfl := List.mem_singleton.mp member
      exact left
  | aggregate _ _ collects =>
      obtain ⟨entry, among, rfl⟩ := List.mem_map.mp member
      exact collects.upholds entry among id .poisoned .poisoned left

theorem met (does : Does s deed s') (entry : s'.completions.entries[id]? = some (.resolved result)) :
    s.completions.entries[id]? = some (.resolved result) ∨
      Moment.Met ⟨s, deed, s'⟩ id (.ready result) := by
  cases does with
  | pass | peek | describe | keepOnly => exact .inl entry
  | make made =>
      obtain ⟨-, rfl⟩ := Prod.mk.inj made
      exact .inl (Completions.final_of_start (.resolved result) entry)
  | @chain source _ _ there chained =>
      obtain ⟨-, rfl⟩ := Prod.mk.inj chained
      have fluid : ¬ (Completion.chained source).Final := nofun
      exact .inl (Completions.final_of_add fluid (.resolved result) entry)
  | send own sent => exact .inl (Completions.final_of_resolve (.resolved result) sent entry)
  | wait there polled =>
      obtain ⟨-, rfl⟩ := Prod.mk.inj polled
      rcases Completions.follows_of_resolved entry with before | ready
      · exact .inl before
      · exact .inr ⟨_, List.mem_singleton_self _, ready⟩
  | aggregate _ _ collects => exact collects.met entry

theorem meets (does : Does s deed s') {yielded : Poll} {shown : Except Panic (Option CompletionResult)}
    (polled : (s.completions.poll s.now id).1 = yielded) (peeked : s.completions.peek id = shown) :
    deed.Meets id yielded shown := by
  constructor
  · rintro found rfl
    cases does with
    | wait _ here =>
        rw [← polled]
        exact (Prod.mk.inj here).1.symm
  · rintro found rfl
    cases does with
    | peek here => rw [← peeked, here]
  · rintro text rfl
    cases does with
    | describe here => rw [← here, Completions.describe, peeked]

theorem still (does : Does s deed s') (sound : s.completions.Sound) (vain : deed.InVain id) :
    s'.completions.Still s'.now id := by
  cases vain with
  | waited =>
      cases does with
      | wait there polled =>
          obtain ⟨pending, rfl⟩ := Prod.mk.inj polled
          exact sound.linked.still there pending
  | timedOut named =>
      cases does with
      | aggregate there aggregated =>
          refine CompletionSession.still_of_run ⟨sound, ?_, ?_⟩ aggregated named
          · intro slot member
            obtain ⟨id, asked, rfl⟩ := List.mem_map.mp member
            exact there id asked
          · intro slot member span timedOut
            obtain ⟨id, -, rfl⟩ := List.mem_map.mp member
            cases timedOut

end Does

/-- What the store says of the moments that have passed. -/
structure Remembers (past : List Moment) (s : CompletionSession) : Prop where
  sound : s.completions.Sound
  shown : ∀ moment ∈ past, ∀ id result, moment.deed.Shows id result →
    s.completions.entries[id]? = some (.resolved result)
  poisoned : ∀ moment ∈ past, ∀ id panic, moment.Met id (.raised panic) →
    s.completions.entries[id]? = some .poisoned
  found : ∀ id result, s.completions.entries[id]? = some (.resolved result) →
    ∃ moment ∈ past, moment.Met id (.ready result)

variable {past : List Moment} {s s' : CompletionSession} {deed : Deed}

theorem Remembers.begin : Remembers [] .empty where
  sound := .empty
  shown _ member := by cases member
  poisoned _ member := by cases member
  found _ _ entry := by cases entry

theorem Remembers.act (remembers : Remembers past s) (does : Does s deed s') :
    Remembers (past ++ [⟨s, deed, s'⟩]) s' where
  sound := does.sound remembers.sound
  shown moment member id result shows := by
    rcases List.mem_append.mp member with before | now
    · exact does.upholds id _ (.resolved result) (remembers.shown moment before id result shows)
    · obtain rfl := List.mem_singleton.mp now
      exact does.shown shows
  poisoned moment member id panic met := by
    rcases List.mem_append.mp member with before | now
    · exact does.upholds id _ .poisoned (remembers.poisoned moment before id panic met)
    · obtain rfl := List.mem_singleton.mp now
      exact does.poisoned met
  found id result entry := by
    rcases does.met entry with before | met
    · obtain ⟨moment, member, met⟩ := remembers.found id result before
      exact ⟨moment, List.mem_append_left _ member, met⟩
    · exact ⟨_, List.mem_append_right _ (List.mem_singleton_self _), met⟩

theorem Lasting.begin : Lasting [] where
  shown := .nil
  poisoned := .nil
  found before moment after id result split := by simp at split
  inVain _ member := by cases member

theorem Lasting.act (lasting : Lasting past) (remembers : Remembers past s) (does : Does s deed s') :
    Lasting (past ++ [⟨s, deed, s'⟩]) where
  shown := by
    refine List.pairwise_append.mpr ⟨lasting.shown, List.pairwise_singleton .., ?_⟩
    intro earlier member later here id result shows
    obtain rfl := List.mem_singleton.mp here
    have entry := remembers.shown earlier member id result shows
    apply does.meets
    · rw [Completions.poll, entry]
    · rw [Completions.peek, entry]
  poisoned := by
    refine List.pairwise_append.mpr ⟨lasting.poisoned, List.pairwise_singleton .., ?_⟩
    intro earlier member later here id panic met
    obtain rfl := List.mem_singleton.mp here
    have entry := remembers.poisoned earlier member id panic met
    apply does.meets
    · rw [Completions.poll, entry]
    · rw [Completions.peek, entry]
  found before moment after id result split peeked := by
    rcases append_singleton_eq_split split with ⟨rfl, rfl, -⟩ | ⟨rest, -, split⟩
    · cases peeked
      cases does with
      | peek peeked => exact remembers.found id result ((Does.peek peeked).shown .peeked)
    · exact lasting.found before moment rest id result split peeked
  inVain moment member id vain := by
    rcases List.mem_append.mp member with before | now
    · exact lasting.inVain moment before id vain
    · obtain rfl := List.mem_singleton.mp now
      have still := does.still remembers.sound vain
      exact ⟨still.peek, still.pending, still.open⟩

/-- Whatever is done with completions from an empty session on, what is known of them lasts. -/
theorem lasting_of_lived (lived : Lived past s) : Lasting past := by
  suffices Remembers past s ∧ Lasting past from this.2
  induction lived with
  | begin => exact ⟨.begin, .begin⟩
  | act _ does ih => exact ⟨ih.1.act does, ih.2.act ih.1 does⟩

/-- A completion that carries over the result of another runs out of time, and later both are found to
have succeeded, the older one only after the younger one was polled. A task panics, and its completion
is poisoned. -/
theorem lasting_of_chain_and_panic : ∃ visits past s, Lived past s ∧ Lasting past ∧
    past.map (·.deed) = [.made (.gate "g") 0, .chained 0 1,
      .aggregated (some ⟨5⟩) [1] visits ⟨1, [⟨1, .timedOut ⟨5⟩⟩]⟩, .sent "g" .success,
      .peeked 0 (.ok none), .waited 1 (.ready .success), .peeked 0 (.ok (some .success)),
      .made (.task none (.panics (.text "boom"))) 2, .waited 2 (.raised (.text "boom")),
      .described 2 (.error poisonedPanic)] := by
  let waiting : Completions := ⟨#[.unresolved (.manual none), .chained 0], [("g", 0)]⟩
  let ready : Completions := ⟨#[.unresolved (.manual (some .success)), .chained 0], []⟩
  let task : Write := .task none (.panics (.text "boom"))
  let due := Instant.start.after ⟨5⟩
  let succeeded := (ready.poll due 1).2
  let started := (succeeded.start task).2
  have answer : (CompletionSession.aggregate? ⟨.start, waiting, .empty⟩ (some ⟨5⟩) [1]).map
      (fun (outcome, s) => (outcome, s.now, s.completions)) =
        some (⟨1, [⟨1, .timedOut ⟨5⟩⟩]⟩, due, waiting) := by decide +kernel
  obtain ⟨⟨outcome, now, completions, audience⟩, aggregated, same⟩ := Option.map_eq_some_iff.mp answer
  obtain ⟨rfl, rfl, rfl⟩ : outcome = _ ∧ now = _ ∧ completions = _ := by simpa using same
  obtain ⟨visits, timedOut⟩ := Does.of_aggregate? (by decide +kernel) aggregated
  have lived := Lived.act .begin (.make (rfl : Completions.empty.start (.gate "g") = (0, _)))
  have lived := lived.act (.chain (by decide +kernel : 0 < _) rfl)
  have lived := lived.act timedOut
  have resolved : waiting.resolve? "g" .success = some ready := by decide +kernel
  have lived := lived.act (.send rfl resolved)
  have unseen : ready.peek 0 = .ok none := by decide +kernel
  have lived := lived.act (.peek unseen)
  have yields : (ready.poll due 1).1 = .ready .success := by decide +kernel
  have lived := lived.act (.wait (by decide +kernel : 1 < ready.entries.size) (Prod.ext yields rfl))
  have seen : succeeded.peek 0 = .ok (some .success) := by decide +kernel
  have lived := lived.act (.peek seen)
  have makes : succeeded.start task = (2, started) := by decide +kernel
  have lived := lived.act (.make makes)
  have raised : (started.poll due 2).1 = .raised (.text "boom") := by decide +kernel
  have lived := lived.act (.wait (by decide +kernel : 2 < started.entries.size) (Prod.ext raised rfl))
  have poisoned : (started.poll due 2).2.describe 2 = .error poisonedPanic := by decide +kernel
  have lived := lived.act (.describe poisoned)
  exact ⟨visits, _, _, lived, lasting_of_lived lived, rfl⟩

end KeyedJobs
