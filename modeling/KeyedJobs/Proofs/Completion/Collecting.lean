import KeyedJobs.Completion.Session
import KeyedJobs.Proofs.Completion.Permanence
import KeyedJobs.Proofs.Tally

/-! # What an aggregation collects

An aggregation visits the completions of its positions until each position is decided. Whatever goes
on in between and in whatever order it visits them, in the end every position has a result of its own:
that of its completion, that its time has run out, or a panic. Of the positions that wait for clones of
one completion, only the first that meets its panic reports it by its text.
-/

namespace KeyedJobs

open Completions (poisonedPanic)

/-- What the completion comes to by itself, whoever polls it: its result, the end of its task, or what
the completion comes to whose result it carries over. -/
inductive Completions.Own (cs : Completions) : CompletionId → Poll → Prop where
  | resolved {id result} (entry : cs.entries[id]? = some (.resolved result)) : Own cs id (.ready result)
  | known {id result} (entry : cs.entries[id]? = some (.unresolved (.known result))) :
      Own cs id (.ready result)
  | sent {id result} (entry : cs.entries[id]? = some (.unresolved (.manual (some result)))) :
      Own cs id (.ready result)
  | task {id sleep wakeAt} {ending : TaskEnding}
      (entry : cs.entries[id]? = some (.unresolved (.task sleep wakeAt ending))) :
      Own cs id ending.poll
  | carried {id source yielded} (entry : cs.entries[id]? = some (.chained source))
      (older : source < id) (own : Own cs source yielded) : Own cs id yielded.carriedOver
  | poisoned {id source} (entry : cs.entries[id]? = some (.chained source)) (older : source < id)
      (poisoned : cs.entries[source]? = some .poisoned) : Own cs id (.raised poisonedPanic)

/-- A poll finds the completion pending, or it yields what the completion comes to by itself, unless
another poll has poisoned the completion before. -/
theorem Completions.own_of_poll (now : Instant) (cs : Completions) (id : CompletionId) :
    (cs.poll now id).1 = .pending ∨
      cs.entries[id]? = some .poisoned ∧ (cs.poll now id).1 = .raised poisonedPanic ∨
      cs.Own id (cs.poll now id).1 := by
  fun_induction Completions.poll now cs id with
  | case1 | case6 => exact .inl rfl
  | case2 id result entry => exact .inr (.inr (.resolved entry))
  | case3 id entry => exact .inr (.inl ⟨entry, rfl⟩)
  | case4 id origin entry yielded after polled =>
      cases origin with
      | known result =>
          cases polled
          exact .inr (.inr (.known entry))
      | manual sent =>
          cases sent with
          | none =>
              cases polled
              exact .inl rfl
          | some result =>
              cases polled
              exact .inr (.inr (.sent entry))
      | task sleep wakeAt ending =>
          cases sleep with
          | none =>
              cases polled
              exact .inr (.inr (.task entry))
          | some sleep =>
              cases wakes : wakeAt.or (now.wakeUp? sleep) with
              | none =>
                  rw [Origin.poll_of_endless wakes] at polled
                  cases polled
                  exact .inl rfl
              | some due =>
                  rw [Origin.poll_of_due wakes] at polled
                  cases polled
                  dsimp only
                  split
                  · exact .inr (.inr (.task entry))
                  · exact .inl rfl
  | case5 id source entry older yielded after polled ih =>
      rw [polled] at ih
      rcases ih with pending | ⟨poisoned, raised⟩ | own
      · dsimp only at pending ⊢
        rw [pending]
        exact .inl rfl
      · dsimp only at raised ⊢
        rw [raised]
        exact .inr (.inr (.poisoned entry older poisoned))
      · exact .inr (.inr (.carried entry older own))

/-- A poll of a completion, with the instant and the completions that it found. -/
structure Visit where
  completion : CompletionId
  instant : Instant
  found : Completions

namespace Visit

/-- What the poll yields. -/
def yielded (visit : Visit) : Poll :=
  (visit.found.poll visit.instant visit.completion).1

/-- The result of a position that makes the visit, if the visit decides it. -/
def result? (visit : Visit) (limit : Option TimeLimit) : Option CompletionResult :=
  visit.yielded.result? visit.instant limit

end Visit

/-- The aggregation has begun, has made these visits, and stands like this now. Between two visits time
may pass, and the completions may change in ways that `around` allows. -/
inductive Collects (around : Completions → Completions → Prop) (begun : Instant)
    (origin : Completions) (limit : Option Duration) (ids : List CompletionId) :
    Instant → Completions → Aggregation → List (Nat × Visit) → Prop where
  | begin : Collects around begun origin limit ids begun origin (.begin begun limit ids) []
  | pass {now now' cs cs' waiting visits}
      (collects : Collects around begun origin limit ids now cs waiting visits) (later : now ≤ now') (changes : around cs cs') :
      Collects around begun origin limit ids now' cs' waiting visits
  | visit {now cs waiting visits slot} (position : Nat)
      (collects : Collects around begun origin limit ids now cs waiting visits)
      (found : waiting.slots[position]? = some slot) (undecided : slot.result = none) :
      Collects around begun origin limit ids now (slot.poll now waiting.limit cs).2
        { waiting with slots := waiting.slots.set position (slot.poll now waiting.limit cs).1 }
        (visits ++ [(position, ⟨slot.completion, now, cs⟩)])

/-- How a visit decides a position, with what can be seen of the completion now. -/
inductive Verdict (limit : Option TimeLimit) (cs : Completions) (visit : Visit) :
    CompletionResult → Prop where
  /-- The completion was ready. -/
  | own {result} (own : visit.found.Own visit.completion (.ready result))
      (yields : visit.yielded = .ready result)
      (entry : cs.entries[visit.completion]? = some (.resolved result)) :
      Verdict limit cs visit result
  /-- The limit had run out and the completion was not ready. -/
  | timedOut {timeLimit} (limited : limit = some timeLimit) (expired : timeLimit.expiresAt ≤ visit.instant)
      (pending : visit.yielded = .pending) :
      Verdict limit cs visit (.failure (.timedOut timeLimit.span))
  /-- The visit met the panic of the completion. -/
  | raised {panic} (own : visit.found.Own visit.completion (.raised panic))
      (yields : visit.yielded = .raised panic)
      (entry : cs.entries[visit.completion]? = some .poisoned) :
      Verdict limit cs visit (.failure (.panicked panic.message))
  /-- The completion had been poisoned by another poll. -/
  | poisoned (before : visit.found.entries[visit.completion]? = some .poisoned) :
      Verdict limit cs visit (.failure (.panicked "inner future panicked during poll"))

/-- What the visit has met is left in the store. -/
def Visit.Shown (visit : Visit) (cs : Completions) : Prop :=
  visit.yielded ≠ .pending → cs.entries[visit.completion]? = visit.yielded.remains

theorem Visit.Shown.of_upholds {visit : Visit} {cs cs' : Completions} (shown : visit.Shown cs)
    (upholds : cs.Upholds cs') : visit.Shown cs' := by
  intro met
  have entry := shown met
  cases yielded : visit.yielded with
  | pending => exact absurd yielded met
  | ready result =>
      rw [yielded] at entry
      exact upholds _ _ (.resolved result) entry
  | raised panic =>
      rw [yielded] at entry
      exact upholds _ _ .poisoned entry

theorem Visit.Shown.verdict {visit : Visit} {cs : Completions} {limit : Option TimeLimit}
    {result : CompletionResult} (shown : visit.Shown cs) (decides : visit.result? limit = some result) :
    Verdict limit cs visit result := by
  have own : visit.yielded = .pending ∨ visit.found.entries[visit.completion]? = some .poisoned ∧
      visit.yielded = .raised poisonedPanic ∨ visit.found.Own visit.completion visit.yielded :=
    Completions.own_of_poll visit.instant visit.found visit.completion
  unfold Visit.result? at decides
  unfold Visit.Shown at shown
  cases yielded : visit.yielded with
  | pending =>
      rw [yielded] at decides
      cases limit with
      | none => cases decides
      | some limit =>
          by_cases expired : limit.isOver visit.instant
          · simp only [Poll.result?, expired, if_true, Option.some.injEq] at decides
            subst decides
            exact .timedOut rfl (of_decide_eq_true expired) yielded
          · simp [Poll.result?, expired] at decides
  | ready result =>
      rw [yielded] at decides shown own
      obtain rfl := Option.some.inj decides
      rcases own with pending | ⟨-, raised⟩ | own
      · cases pending
      · cases raised
      · exact .own own yielded (shown (by simp))
  | raised panic =>
      rw [yielded] at decides shown own
      obtain rfl := Option.some.inj decides
      rcases own with pending | ⟨poisoned, raised⟩ | own
      · cases pending
      · cases raised
        exact .poisoned poisoned
      · exact .raised own yielded (shown (by simp))

/-- The visits of the position up to the last one, which decides it. -/
inductive Decides (limit : Option TimeLimit) (visits : List (Nat × Visit)) (position : Nat)
    (result : CompletionResult) (visit : Visit) : Prop where
  | intro {before after : List (Nat × Visit)} (split : visits = before ++ (position, visit) :: after)
      (vain : ∀ earlier, (position, earlier) ∈ before → earlier.result? limit = none)
      (last : ∀ later, (position, later) ∉ after) (decides : visit.result? limit = some result)

section

variable {timeLimit : Option TimeLimit} {visits : List (Nat × Visit)} {position : Nat}
  {result : CompletionResult} {visit : Visit}

theorem Decides.mem (decides : Decides timeLimit visits position result visit) :
    (position, visit) ∈ visits := by
  obtain ⟨rfl, -⟩ := decides
  exact List.mem_append_right _ List.mem_cons_self

theorem Decides.decided (decides : Decides timeLimit visits position result visit) :
    visit.result? timeLimit = some result := by
  obtain ⟨-, -, -, decides⟩ := decides
  exact decides

theorem Decides.append (decides : Decides timeLimit visits position result visit) {other : Nat}
    (apart : other ≠ position) (more : Visit) :
    Decides timeLimit (visits ++ [(other, more)]) position result visit := by
  obtain ⟨rfl, vain, last, decides⟩ := decides
  refine .intro (List.append_assoc ..) vain ?_ decides
  intro later member
  rcases List.mem_append.mp member with before | here
  · exact last later before
  · cases List.mem_singleton.mp here
    exact apart rfl

end

variable {around : Completions → Completions → Prop} {begun now : Instant} {limit : Option Duration}
  {ids : List CompletionId} {origin cs : Completions} {waiting : Aggregation}
  {visits : List (Nat × Visit)}

/-- What the visits have to do with the positions. -/
structure Collected (timeLimit : Option TimeLimit) (ids : List CompletionId) (cs : Completions)
    (waiting : Aggregation) (visits : List (Nat × Visit)) : Prop where
  limited : waiting.limit = timeLimit
  completions : waiting.slots.map (·.completion) = ids
  vain : ∀ position slot, waiting.slots[position]? = some slot → slot.result = none →
    ∀ visit, (position, visit) ∈ visits → visit.result? timeLimit = none
  decided : ∀ position slot result, waiting.slots[position]? = some slot →
    slot.result = some result →
      ∃ visit, visit.completion = slot.completion ∧ Decides timeLimit visits position result visit
  shown : ∀ entry ∈ visits, entry.2.Shown cs
  agree : visits.Pairwise fun earlier later =>
    earlier.2.completion = later.2.completion → earlier.2.Shown later.2.found

theorem Collected.begin (begun : Instant) (limit : Option Duration) (ids : List CompletionId)
    (cs : Completions) :
    Collected (limit.map (TimeLimit.begin begun)) ids cs (.begin begun limit ids) [] where
  limited := rfl
  completions := by simp [Aggregation.begin, Function.comp_def]
  vain _ _ _ _ _ member := by cases member
  decided position slot result found known := by
    obtain ⟨id, -, rfl⟩ := List.mem_map.mp (List.mem_of_getElem? found)
    cases known
  shown _ member := by cases member
  agree := .nil

theorem Collected.of_upholds {timeLimit : Option TimeLimit} {cs' : Completions}
    (collected : Collected timeLimit ids cs waiting visits) (upholds : cs.Upholds cs') :
    Collected timeLimit ids cs' waiting visits :=
  { collected with shown := fun entry member => (collected.shown entry member).of_upholds upholds }

theorem Collected.visit {timeLimit : Option TimeLimit} {position : Nat} {slot : Slot}
    (collected : Collected timeLimit ids cs waiting visits)
    (found : waiting.slots[position]? = some slot) (undecided : slot.result = none) :
    Collected timeLimit ids (slot.poll now waiting.limit cs).2
      { waiting with slots := waiting.slots.set position (slot.poll now waiting.limit cs).1 }
      (visits ++ [(position, ⟨slot.completion, now, cs⟩)]) := by
  obtain ⟨rfl, completions, vain, decided, shown, agree⟩ := collected
  have inside : position < waiting.slots.length := (List.getElem?_eq_some_iff.mp found).1
  have polled : (slot.poll now waiting.limit cs).1 =
      { slot with result := Visit.result? ⟨slot.completion, now, cs⟩ waiting.limit } := by
    simp only [Slot.poll, undecided]
    rfl
  have upholds := Slot.upholds_poll now waiting.limit cs slot
  have met : Visit.Shown ⟨slot.completion, now, cs⟩ (slot.poll now waiting.limit cs).2 := by
    intro ready
    simp only [Slot.poll, undecided]
    exact Completions.entry_poll now cs slot.completion ready
  have others : ∀ other new, other ≠ position →
      (waiting.slots.set position (slot.poll now waiting.limit cs).1)[other]? = some new →
        waiting.slots[other]? = some new := by
    intro other new apart there
    rwa [List.getElem?_set_ne (Ne.symm apart)] at there
  have same : ∀ new, (waiting.slots.set position (slot.poll now waiting.limit cs).1)[position]? =
      some new → (slot.poll now waiting.limit cs).1 = new := by
    intro new there
    rwa [List.getElem?_set_self inside, Option.some.injEq] at there
  refine ⟨rfl, ?_, ?_, ?_, ?_, ?_⟩
  · obtain ⟨before, after, split, -, set⟩ := exists_split found
    rw [set, ← completions, split]
    simp [polled]
  · intro other new there still visit member
    by_cases apart : other = position
    · subst apart
      obtain rfl := same new there
      rw [polled] at still
      rcases List.mem_append.mp member with before | here
      · exact vain other slot found undecided visit before
      · cases List.mem_singleton.mp here
        exact still
    · rcases List.mem_append.mp member with before | here
      · exact vain other new (others other new apart there) still visit before
      · cases List.mem_singleton.mp here
        exact absurd rfl apart
  · intro other new result there known
    by_cases apart : other = position
    · subst apart
      obtain rfl := same new there
      rw [polled] at known
      refine ⟨_, by rw [polled], .intro rfl ?_ (by simp) known⟩
      intro earlier member
      exact vain other slot found undecided earlier member
    · obtain ⟨visit, made, decides⟩ := decided other new result (others other new apart there) known
      exact ⟨visit, made, decides.append (Ne.symm apart) _⟩
  · intro entry member
    rcases List.mem_append.mp member with before | here
    · exact (shown entry before).of_upholds upholds
    · obtain rfl := List.mem_singleton.mp here
      exact met
  · rw [List.pairwise_append]
    refine ⟨agree, List.pairwise_singleton .., ?_⟩
    intro earlier member later here _
    obtain rfl := List.mem_singleton.mp here
    exact shown earlier member

/-- The aggregation collects, whatever is done around it with completions that are not final. -/
theorem Collects.collected (collects : Collects around begun origin limit ids now cs waiting visits)
    (upholds : ∀ {cs cs'}, around cs cs' → cs.Upholds cs') :
    Collected (limit.map (TimeLimit.begin begun)) ids cs waiting visits := by
  induction collects with
  | begin => exact .begin begun limit ids origin
  | pass _ _ changes ih => exact ih.of_upholds (upholds changes)
  | visit position _ found undecided ih => exact ih.visit found undecided

/-- The error of a result that is no success. -/
def CompletionResult.error? : CompletionResult → Option CompletionError
  | .success => none
  | .failure error => some error

/-- What has been collected when every position is decided: the results of all positions, each with the
visit that decided it. -/
structure Collection (timeLimit : Option TimeLimit) (ids : List CompletionId) (cs : Completions)
    (outcome : Outcome) (visits : List (Nat × Visit)) (results : List CompletionResult) : Prop where
  total : outcome.total = ids.length
  length : results.length = ids.length
  failures : outcome.failures =
    (ids.zip results).filterMap fun (id, result) => result.error?.map (Failure.mk id)
  success : outcome.isSuccess = true ↔ ∀ result ∈ results, result = .success
  decided : ∀ position id result, ids[position]? = some id → results[position]? = some result →
    ∃ visit, visit.completion = id ∧ Decides timeLimit visits position result visit ∧
      Verdict timeLimit cs visit result
  /-- What a visit has met, all later visits of the completion find. -/
  agree : visits.Pairwise fun earlier later =>
    earlier.2.completion = later.2.completion → earlier.2.Shown later.2.found

theorem failures_eq (slots : List Slot) (complete : ∀ slot ∈ slots, slot.result.isSome = true) :
    slots.filterMap Slot.failure? =
      ((slots.map (·.completion)).zip (slots.filterMap (·.result))).filterMap
        fun (id, result) => result.error?.map (Failure.mk id) := by
  induction slots with
  | nil => rfl
  | cons slot rest ih =>
      obtain ⟨here, others⟩ := List.forall_mem_cons.mp complete
      obtain ⟨result, known⟩ := Option.isSome_iff_exists.mp here
      rw [List.filterMap_cons, List.map_cons, List.filterMap_cons, known, List.zip_cons_cons,
        List.filterMap_cons, ih others, Slot.failure?, known]
      cases result <;> rfl

theorem results_eq {slots : List Slot} (complete : ∀ slot ∈ slots, slot.result.isSome = true) :
    slots.map (·.result) = (slots.filterMap (·.result)).map some := by
  induction slots with
  | nil => rfl
  | cons slot rest ih =>
      obtain ⟨here, others⟩ := List.forall_mem_cons.mp complete
      obtain ⟨result, known⟩ := Option.isSome_iff_exists.mp here
      rw [List.map_cons, List.filterMap_cons, known, List.map_cons, ih others]

theorem Collected.collection {timeLimit : Option TimeLimit}
    (collected : Collected timeLimit ids cs waiting visits) (complete : waiting.isComplete = true) :
    ∃ results, Collection timeLimit ids cs waiting.outcome visits results := by
  obtain ⟨limited, rfl, vain, decided, shown, agree⟩ := collected
  have complete : ∀ slot ∈ waiting.slots, slot.result.isSome = true := by
    simpa [Aggregation.isComplete] using complete
  have results := results_eq complete
  refine ⟨waiting.slots.filterMap (·.result), ?_⟩
  constructor
  case agree => exact agree
  case failures => exact failures_eq waiting.slots complete
  case total => simp [Aggregation.outcome]
  case length => simpa using (congrArg List.length results).symm
  case success =>
    rw [Outcome.isSuccess, List.isEmpty_iff, Aggregation.outcome, List.filterMap_eq_nil_iff,
      List.forall_mem_filterMap]
    refine forall₂_congr fun slot member => ?_
    obtain ⟨result, known⟩ := Option.isSome_iff_exists.mp (complete slot member)
    cases result <;> simp [Slot.failure?, known]
  case decided =>
    intro position id result atIds atResults
    rw [List.getElem?_map, Option.map_eq_some_iff] at atIds
    obtain ⟨slot, found, rfl⟩ := atIds
    have known : slot.result = some result := by
      have same := congrArg (·[position]?) results
      simpa [found, atResults] using same
    obtain ⟨visit, made, decides⟩ := decided position slot result found known
    refine ⟨visit, made, decides, ?_⟩
    have member : (position, visit) ∈ visits := decides.mem
    exact (shown _ member).verdict decides.decided

namespace Aggregation

section

variable {timeLimit : Option TimeLimit} {slot : Slot} {rest : List Slot}
  {P : Completions → List Slot → Prop}
  (visit : ∀ {cs slots slot} (position : Nat), slots[position]? = some slot → slot.result = none →
    P cs slots → P (slot.poll now timeLimit cs).2 (slots.set position (slot.poll now timeLimit cs).1))

include visit

theorem visits_pollSlot (done : List Slot) (holds : P cs (done ++ slot :: rest)) :
    P (slot.poll now timeLimit cs).2 (done ++ (slot.poll now timeLimit cs).1 :: rest) := by
  cases known : slot.result with
  | some result =>
      simp only [Slot.poll, known]
      exact holds
  | none =>
      have visited := visit done.length (by simp) known holds
      simpa only [List.set_append_right _ _ (Nat.le_refl _), Nat.sub_self, List.set_cons_zero]
        using visited

theorem visits_pollSlots (done : List Slot) (holds : P cs (done ++ rest)) :
    P (pollSlots now timeLimit cs rest).2 (done ++ (pollSlots now timeLimit cs rest).1) := by
  induction rest generalizing cs done with
  | nil => exact holds
  | cons slot rest ih =>
      have first := visits_pollSlot visit done holds
      rw [List.append_cons] at first
      have all := ih _ first
      rwa [← List.append_cons] at all

theorem visits_pollPicked (picked : List Nat) (index : Nat) (done : List Slot)
    (holds : P cs (done ++ rest)) :
    P (pollPicked now timeLimit picked cs index rest).2
      (done ++ (pollPicked now timeLimit picked cs index rest).1) := by
  induction rest generalizing cs done index with
  | nil => exact holds
  | cons slot rest ih =>
      by_cases picks : index ∈ picked
      · simp only [pollPicked, picks, if_true]
        have first := visits_pollSlot visit done holds
        rw [List.append_cons] at first
        have all := ih (index + 1) _ first
        rwa [← List.append_cons] at all
      · simp only [pollPicked, picks, if_false]
        rw [List.append_cons] at holds
        have all := ih (index + 1) _ holds
        rwa [← List.append_cons] at all

end

theorem visits_pollFrom {P : Completions → List Slot → Prop}
    (visit : ∀ {cs slots slot} (position : Nat), slots[position]? = some slot → slot.result = none →
      P cs slots → P (slot.poll now waiting.limit cs).2
        (slots.set position (slot.poll now waiting.limit cs).1))
    (first : List Nat) (holds : P cs waiting.slots) :
    P (waiting.pollFrom now cs first).2 (waiting.pollFrom now cs first).1.slots := by
  have picked := visits_pollPicked visit first 0 [] holds
  exact visits_pollSlots visit [] picked

end Aggregation

namespace Collects

theorem mono {around' : Completions → Completions → Prop}
    (collects : Collects around begun origin limit ids now cs waiting visits)
    (wider : ∀ {cs cs'}, around cs cs' → around' cs cs') :
    Collects around' begun origin limit ids now cs waiting visits := by
  induction collects with
  | begin => exact .begin
  | pass _ later changes ih => exact ih.pass later (wider changes)
  | visit position _ found undecided ih => exact ih.visit position found undecided

theorem pollFrom (collects : Collects around begun origin limit ids now cs waiting visits)
    (first : List Nat) :
    ∃ visits, Collects around begun origin limit ids now (waiting.pollFrom now cs first).2
      (waiting.pollFrom now cs first).1 visits := by
  refine Aggregation.visits_pollFrom (P := fun cs slots => ∃ visits,
    Collects around begun origin limit ids now cs ⟨waiting.limit, slots⟩ visits) ?_ first
    ⟨visits, collects⟩
  rintro cs slots slot position found undecided ⟨visits, collects⟩
  exact ⟨_, collects.visit position found undecided⟩

end Collects

theorem CompletionSession.collects_of_run {s s' : CompletionSession} {outcome : Outcome} {fuel : Nat}
    (collects : Collects Eq begun origin limit ids s.now s.completions waiting visits)
    (ran : s.run waiting fuel = some (outcome, s')) :
    ∃ waiting visits, Collects Eq begun origin limit ids s'.now s'.completions waiting visits ∧
      waiting.isComplete = true ∧ waiting.outcome = outcome := by
  induction fuel generalizing s waiting visits with
  | zero => cases ran
  | succ fuel ih =>
      unfold CompletionSession.run at ran
      dsimp only at ran
      obtain ⟨visits, polled⟩ := collects.pollFrom (if waiting.isLarge then s.leaders waiting else [])
      split at ran
      · rename_i complete
        cases ran
        exact ⟨_, visits, polled, complete, rfl⟩
      · obtain ⟨due, -, ran⟩ := Option.bind_eq_some_iff.mp ran
        exact ih (polled.pass (Nat.le_max_left s.now due) rfl) ran

theorem CompletionSession.collects_of_aggregate? {s s' : CompletionSession} {outcome : Outcome}
    (aggregated : s.aggregate? limit ids = some (outcome, s')) :
    ∃ waiting visits, Collects Eq s.now s.completions limit ids s'.now s'.completions waiting visits ∧
      waiting.isComplete = true ∧ waiting.outcome = outcome :=
  collects_of_run .begin aggregated

/-- An aggregation that is complete has collected a result for every position, whatever has been done
around it and in whatever order it has visited its positions. -/
theorem collection_of_complete :
    (∀ begun origin limit ids now cs waiting visits,
      Collects Completions.Upholds begun origin limit ids now cs waiting visits →
        waiting.isComplete = true → ∃ results,
          Collection (limit.map (TimeLimit.begin begun)) ids cs waiting.outcome visits results) ∧
      ∀ (s s' : CompletionSession) limit ids outcome, s.aggregate? limit ids = some (outcome, s') →
        ∃ visits results,
          Collection (limit.map (TimeLimit.begin s.now)) ids s'.completions outcome visits results := by
  constructor
  · intro begun origin limit ids now cs waiting visits collects complete
    exact (collects.collected id).collection complete
  · intro s s' limit ids outcome aggregated
    obtain ⟨waiting, visits, collects, complete, rfl⟩ :=
      CompletionSession.collects_of_aggregate? aggregated
    exact ⟨visits, (collects.collected Completions.Upholds.of_eq).collection complete⟩

/-- Of two positions with clones of a task that panics, the first one reports its text. A third position
fails and the last one runs out of time. -/
theorem collection_of_four_positions :
    let cs : Completions := ⟨#[.unresolved (.task none none (.panics (.text "boom"))),
      .unresolved (.known (.failure (.failed ⟨["no"]⟩))), .unresolved (.manual none)], []⟩
    let s : CompletionSession := ⟨.start, cs, .empty⟩
    let ids := [0, 0, 1, 2]
    let limit : Duration := ⟨5⟩
    ∃ outcome s', s.aggregate? (some limit) ids = some (outcome, s') ∧
      outcome.failures = [⟨0, .panicked "boom"⟩, ⟨0, .panicked "inner future panicked during poll"⟩,
        ⟨1, .failed ⟨["no"]⟩⟩, ⟨2, .timedOut limit⟩] ∧
      (∃ visits results,
        Collection (some (.begin s.now limit)) ids s'.completions outcome visits results) ∧
      ∃ waiting visits,
        Collects Completions.Upholds s.now cs (some limit) ids s'.now s'.completions waiting visits ∧
        waiting.isComplete = true ∧ ∃ results,
        Collection (some (.begin s.now limit)) ids s'.completions waiting.outcome visits results := by
  intro cs s ids limit
  have shown : (s.aggregate? (some limit) ids).map (·.1.failures) = some [⟨0, .panicked "boom"⟩,
      ⟨0, .panicked "inner future panicked during poll"⟩, ⟨1, .failed ⟨["no"]⟩⟩,
      ⟨2, .timedOut limit⟩] := by decide +kernel
  obtain ⟨⟨outcome, s'⟩, aggregated, failures⟩ := Option.map_eq_some_iff.mp shown
  obtain ⟨always, alone⟩ := collection_of_complete
  obtain ⟨waiting, visits, collects, complete, -⟩ := CompletionSession.collects_of_aggregate? aggregated
  have collects := collects.mono Completions.Upholds.of_eq
  exact ⟨outcome, s', aggregated, failures, alone s s' _ ids outcome aggregated, waiting, visits,
    collects, complete, always _ _ _ _ _ _ _ _ collects complete⟩

end KeyedJobs
