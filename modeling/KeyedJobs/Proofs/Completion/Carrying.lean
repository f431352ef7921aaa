import KeyedJobs.Proofs.Completion.Lifetimes

/-! # Results along chains

Completions are chained one to another, each to carry over the result of the one before it. However
long the chain is and whatever is done in between, one wait for the last completion brings the result
of the first one through the whole chain as soon as it is there, with the text of its error. Until
somebody polls, nothing is seen of it anywhere along the chain.
-/

namespace KeyedJobs

namespace Completions

variable {cs cs' : Completions} {id other source last : CompletionId} {ids : List CompletionId}
  {now : Instant} {result carried : CompletionResult} {yielded : Poll}

theorem entry_poll_of_unfollowed (now : Instant) (unfollowed : ¬ cs.Follows other id) :
    (cs.poll now other).2.entries[id]? = cs.entries[id]? := by
  fun_induction poll now cs other with
  | case1 | case2 | case3 | case6 => rfl
  | case4 other origin entry yielded after polled =>
      have apart : other ≠ id := by
        rintro rfl
        exact unfollowed (.here other)
      rw [conclude_of_ne apart]
      simp [put, apart]
  | case5 other source entry older yielded after polled ih =>
      have apart : other ≠ id := by
        rintro rfl
        exact unfollowed (.here other)
      rw [polled] at ih
      rw [conclude_of_ne apart]
      exact ih fun follows => unfollowed (.through entry older follows)

theorem Follows.trans (first : cs.Follows other id) (second : cs.Follows id last) :
    cs.Follows other last := by
  induction first with
  | here => exact second
  | through entry older _ ih => exact .through entry older (ih second)

theorem poll_of_chained (entry : cs.entries[id]? = some (.chained source)) (older : source < id)
    (now : Instant) : (cs.poll now id).1 = (cs.poll now source).1.carriedOver := by
  rw [poll, entry]
  simp [older]

theorem Follows.entry_poll_of_pending (follows : cs.Follows other id)
    (entry : cs.entries[id]? = some (.chained source)) (pending : (cs.poll now id).1 = .pending) :
    (cs.poll now other).2.entries[id]? = some (.chained source) := by
  induction follows with
  | here id =>
      by_cases older : source < id
      · rw [poll_of_chained entry older] at pending
        rw [poll, entry]
        simp only [older, if_true, pending]
        exact (entry_poll_of_lt now cs older).trans entry
      · rw [poll, entry]
        simpa [older] using entry
  | through present older follows ih =>
      rw [poll, present]
      simp only [older, if_true]
      rw [conclude_of_ne (Nat.ne_of_gt (Nat.lt_of_le_of_lt follows.le older))]
      exact ih entry pending

/-- The younger completion carries over the result of the older one, or has done so already. -/
inductive Joined (cs : Completions) (source id : CompletionId) : Prop where
  | waits (entry : cs.entries[id]? = some (.chained source)) (older : source < id)
  | ended {yielded : Poll} (ready : yielded ≠ .pending)
      (before : cs.entries[source]? = yielded.remains)
      (entry : cs.entries[id]? = yielded.carriedOver.remains)

theorem Joined.of_ended (ready : yielded ≠ .pending)
    (before : cs.entries[source]? = yielded.remains)
    (entry : cs.entries[id]? = yielded.carriedOver.remains) (upholds : cs.Upholds cs') :
    cs'.Joined source id := by
  refine .ended ready ?_ ?_
  · cases yielded with
    | pending => exact absurd rfl ready
    | ready result => exact upholds source _ (.resolved result) before
    | raised => exact upholds source _ .poisoned before
  · cases yielded with
    | pending => exact absurd rfl ready
    | ready result => cases result <;> exact upholds id _ (.resolved _) entry
    | raised => exact upholds id _ .poisoned entry

theorem Joined.of_upholds (joined : cs.Joined source id) (upholds : cs.Upholds cs')
    (chained : cs.entries[id]? = some (.chained source) → cs'.entries[id]? = some (.chained source)) :
    cs'.Joined source id := by
  cases joined with
  | waits entry older => exact .waits (chained entry) older
  | ended ready before entry => exact .of_ended ready before entry upholds

theorem Joined.poll (joined : cs.Joined source id) (now : Instant) (other : CompletionId) :
    (cs.poll now other).2.Joined source id := by
  cases joined with
  | ended ready before entry => exact .of_ended ready before entry (upholds_poll now cs other)
  | waits entry older =>
      by_cases follows : cs.Follows other id
      · by_cases pending : (cs.poll now id).1 = .pending
        · exact .waits (follows.entry_poll_of_pending entry pending) older
        · have further := follows.trans (.through entry older (.here source))
          have yields := poll_of_chained entry older now
          have ready : (cs.poll now source).1 ≠ .pending := by
            intro vain
            rw [yields, vain] at pending
            exact pending rfl
          refine .ended ready (further.entry_poll ready) ?_
          rw [follows.entry_poll pending, yields]
      · exact .waits ((entry_poll_of_unfollowed now follows).trans entry) older

theorem Joined.yields (joined : cs.Joined source id)
    (ready : (cs.poll now source).1 = .ready result) :
    (cs.poll now id).1 = (Poll.ready result).carriedOver := by
  cases joined with
  | waits entry older => rw [poll_of_chained entry older, ready]
  | @ended yielded _ before entry =>
      cases yielded with
      | pending => contradiction
      | raised =>
          have raises : (cs.poll now source).1 = .raised poisonedPanic := by
            rw [Completions.poll, before, Poll.remains]
          simp [raises] at ready
      | ready before' =>
          have yields : (cs.poll now source).1 = .ready before' := by
            rw [Completions.poll, before, Poll.remains]
          obtain rfl : before' = result := by simpa [yields] using ready
          rw [Completions.poll, entry]
          cases before' <;> rfl

theorem yields_of_joined (joined : (source :: ids).IsChain cs.Joined)
    (ready : (cs.poll now source).1 = .ready result) :
    ∀ id ∈ ids, (cs.poll now id).1 = (Poll.ready result).carriedOver := by
  induction ids generalizing source result with
  | nil => simp
  | cons link rest ih =>
      obtain ⟨first, others⟩ := List.isChain_cons_cons.mp joined
      have here := first.yields ready
      refine List.forall_mem_cons.mpr ⟨here, ?_⟩
      cases result with
      | success => exact ih others here
      | failure error =>
          intro id member
          rw [ih others here id member]
          exact Poll.carriedOver_carriedOver (.ready (.failure error))

theorem resolved_of_joined (joined : ids.IsChain cs.Joined) (final : ids.getLast? = some last)
    (entry : cs.entries[last]? = some (.resolved carried)) :
    ∀ id ∈ ids, ∃ result, cs.entries[id]? = some (.resolved result) := by
  induction ids with
  | nil => cases final
  | cons first rest ih =>
      cases rest with
      | nil =>
          obtain rfl : first = last := by simpa using final
          simpa using ⟨carried, entry⟩
      | cons link rest =>
          obtain ⟨here, others⟩ := List.isChain_cons_cons.mp joined
          have resolved := ih others (by simpa using final)
          refine List.forall_mem_cons.mpr ⟨?_, resolved⟩
          obtain ⟨result, after⟩ := resolved link List.mem_cons_self
          cases here with
          | waits entry => simp [entry] at after
          | @ended yielded ready before entry =>
              cases yielded with
              | pending => exact absurd rfl ready
              | raised => simp [entry, Poll.carriedOver, Poll.remains] at after
              | ready result => exact ⟨result, before⟩

theorem result_of_resolved (ready : (cs.poll now id).1 = .ready result)
    (entry : (cs.poll now other).2.entries[id]? = some (.resolved carried)) : carried = result := by
  rcases follows_of_resolved entry with before | ⟨-, yields⟩
  · rw [poll, before] at ready
    exact Poll.ready.inj ready
  · exact Poll.ready.inj (yields.symm.trans ready)

theorem peek_of_resolved (entry : cs.entries[id]? = some (.resolved result)) :
    cs.peek id = .ok (some result) := by
  rw [peek, entry]

theorem peek_eq_none_iff :
    cs.peek id = .ok none ↔ ∀ completion, completion.Final → cs.entries[id]? ≠ some completion := by
  unfold peek
  constructor
  · intro unseen completion final entry
    cases final <;> simp [entry] at unseen
  · intro fluid
    split
    · rename_i result entry
      exact absurd entry (fluid _ (.resolved result))
    · rename_i entry
      exact absurd entry (fluid _ .poisoned)
    · rfl

theorem unseen_of_joined (joined : (source :: ids).IsChain cs.Joined)
    (unseen : cs.peek source = .ok none) : ∀ id ∈ source :: ids, cs.peek id = .ok none := by
  induction ids generalizing source with
  | nil => simpa using unseen
  | cons link rest ih =>
      obtain ⟨here, others⟩ := List.isChain_cons_cons.mp joined
      refine List.forall_mem_cons.mpr ⟨unseen, ih others ?_⟩
      cases here with
      | waits entry => rw [peek, entry]
      | @ended yielded ready before entry =>
          have fluid := peek_eq_none_iff.mp unseen
          cases yielded with
          | pending => exact absurd rfl ready
          | ready result => exact absurd before (fluid _ (.resolved result))
          | raised => exact absurd before (fluid _ .poisoned)

theorem chained_start (entry : cs.entries[id]? = some (.chained source)) (write : Write) :
    (cs.start write).2.entries[id]? = some (.chained source) := by
  cases write with
  | existing => exact entry
  | succeeded | failed | dropped | never | task => exact entry_add entry _
  | gate name =>
      exact entry_add (entry_resolve_of_ne entry (by simp) (.failure .dropped)) _

end Completions

open Completions (Joined)

/-- Completions live on from the first session through these moments. -/
inductive LivedOn (first : CompletionSession) : List Moment → CompletionSession → Prop where
  | begin : LivedOn first [] first
  | act {past s deed s'} (lived : LivedOn first past s) (does : Does s deed s') :
      LivedOn first (past ++ [⟨s, deed, s'⟩]) s'

/-- Nobody has polled the completion or one that follows it. -/
def Unpolled (past : List Moment) (id : CompletionId) : Prop :=
  ∀ moment ∈ past, ∀ visit ∈ moment.visits, ¬ visit.found.Follows visit.completion id

/-- Each of the completions was chained to the one before it. -/
def Chained (past : List Moment) (ids : List CompletionId) : Prop :=
  ids.IsChain fun source id => ∃ moment ∈ past, moment.deed = .chained source id

/-- A chain turns the first result into the second one: a success stays one, and an error becomes a
failure with the same text. -/
inductive CompletionResult.Reaches : CompletionResult → CompletionResult → Prop where
  | success : Reaches .success .success
  | failure {error : CompletionError} {chain : ErrorChain}
      (same : (CompletionError.failed chain).text = error.text) :
      Reaches (.failure error) (.failure (.failed chain))

theorem CompletionResult.reaches_of_carriedOver {result : CompletionResult} :
    ∃ carried, (Poll.ready result).carriedOver = .ready carried ∧ result.Reaches carried := by
  cases result with
  | success => exact ⟨.success, rfl, .success⟩
  | failure error => exact ⟨.failure error.carriedOver, rfl, .failure error.text_carriedOver⟩

/-- What a chain of completions comes to. -/
structure Carries (first : CompletionSession) (past : List Moment) (s : CompletionSession)
    (source : CompletionId) (links : List CompletionId) (last : CompletionId) : Prop where
  /-- Before anybody has polled the first completion or one that follows it, all of them are seen
  pending. -/
  unseen : first.completions.peek source = .ok none → Unpolled past source →
    ∀ id ∈ source :: links, s.completions.peek id = .ok none
  /-- When the first completion is ready, one wait for the last one yields its result, and shows it at
  the first one and at all others. -/
  delivered : ∀ result, (s.completions.poll s.now source).1 = .ready result →
    ∃ carried s', s.wait last = (.ready carried, s') ∧ result.Reaches carried ∧
      s'.completions.peek source = .ok (some result) ∧
      ∀ id ∈ links, s'.completions.peek id = .ok (some carried)

section

variable {begun now : Instant} {limit : Option Duration} {ids : List CompletionId} {id : CompletionId}
  {origin cs : Completions} {waiting : Aggregation} {visits : List (Nat × Visit)}

theorem Collects.entry_of_unfollowed
    (collects : Collects Eq begun origin limit ids now cs waiting visits)
    (unfollowed : ∀ visit ∈ visits.map (·.2), ¬ visit.found.Follows visit.completion id) :
    cs.entries[id]? = origin.entries[id]? := by
  induction collects with
  | begin => rfl
  | pass _ _ same ih => exact same ▸ ih unfollowed
  | @visit now cs waiting visits slot position _ found undecided ih =>
      have before : ∀ visit ∈ visits.map (·.2), ¬ visit.found.Follows visit.completion id :=
        fun visit member => unfollowed visit (by simp [List.mem_map.mp member])
      have here : ¬ cs.Follows slot.completion id := unfollowed ⟨slot.completion, now, cs⟩ (by simp)
      rw [Slot.completions_poll undecided]
      exact (Completions.entry_poll_of_unfollowed now here).trans (ih before)

end

namespace Does

variable {s s' : CompletionSession} {deed : Deed} {source id : CompletionId}

theorem joined (does : Does s deed s') (joined : s.completions.Joined source id) :
    s'.completions.Joined source id := by
  cases does with
  | pass | peek | describe | keepOnly => exact joined
  | @make write made completions makes =>
      obtain ⟨-, rfl⟩ := Prod.mk.inj makes
      exact joined.of_upholds (Completions.upholds_start s.completions write)
        fun entry => Completions.chained_start entry write
  | @chain other link completions there chained =>
      obtain ⟨-, rfl⟩ := Prod.mk.inj chained
      exact joined.of_upholds (Completions.upholds_add s.completions _)
        fun entry => Completions.entry_add entry _
  | @send gate result completions own sent =>
      have upholds := Completions.upholds_resolve s.completions gate result
      rw [sent] at upholds
      refine joined.of_upholds upholds fun entry => ?_
      have kept : ((s.completions.resolve? gate result).getD s.completions).entries[id]? = _ :=
        Completions.entry_resolve_of_ne entry (by simp) result
      rwa [sent] at kept
  | wait there polled =>
      obtain ⟨-, rfl⟩ := Prod.mk.inj polled
      exact joined.poll s.now _
  | aggregate _ _ collects =>
      refine collects.keeps (P := fun cs => cs.Joined source id) ?_ joined
      exact fun now other joined => joined.poll now other

theorem unseen (does : Does s deed s') (unseen : s.completions.peek id = .ok none)
    (unpolled : ∀ visit ∈ (Moment.mk s deed s').visits, ¬ visit.found.Follows visit.completion id) :
    s'.completions.peek id = .ok none := by
  have fluid := Completions.peek_eq_none_iff.mp unseen
  refine Completions.peek_eq_none_iff.mpr fun completion final entry => fluid completion final ?_
  cases does with
  | pass | peek | describe | keepOnly => exact entry
  | make made =>
      obtain ⟨-, rfl⟩ := Prod.mk.inj made
      exact Completions.final_of_start final entry
  | @chain source link _ there chained =>
      obtain ⟨-, rfl⟩ := Prod.mk.inj chained
      have fluid : ¬ (Completion.chained source).Final := nofun
      exact Completions.final_of_add fluid final entry
  | send own sent => exact Completions.final_of_resolve final sent entry
  | wait there polled =>
      obtain ⟨-, rfl⟩ := Prod.mk.inj polled
      have unfollowed := unpolled _ (List.mem_singleton_self _)
      exact (Completions.entry_poll_of_unfollowed s.now unfollowed).symm.trans entry
  | aggregate _ _ collects => exact (collects.entry_of_unfollowed unpolled).symm.trans entry

theorem joined_of_chained (does : Does s (.chained source id) s') :
    s'.completions.Joined source id := by
  cases does with
  | chain there chained =>
      obtain ⟨rfl, rfl⟩ := Prod.mk.inj chained
      exact .waits (by simp) there

end Does

variable {first s : CompletionSession} {past : List Moment} {source id last : CompletionId}
  {links : List CompletionId}

theorem LivedOn.joined (lived : LivedOn first past s) {moment : Moment} (member : moment ∈ past)
    (chains : moment.deed = .chained source id) : s.completions.Joined source id := by
  induction lived with
  | begin => cases member
  | act lived does ih =>
      rcases List.mem_append.mp member with before | here
      · exact does.joined (ih before)
      · obtain rfl := List.mem_singleton.mp here
        cases chains
        exact does.joined_of_chained

theorem LivedOn.unseen (lived : LivedOn first past s) (unseen : first.completions.peek id = .ok none)
    (unpolled : Unpolled past id) : s.completions.peek id = .ok none := by
  induction lived with
  | begin => exact unseen
  | act lived does ih =>
      have before := ih fun moment member => unpolled moment (List.mem_append_left _ member)
      exact does.unseen before (unpolled _ (List.mem_append_right _ (List.mem_singleton_self _)))

/-- However long a chain is and whatever is done before, it carries the result of its source through
to its last completion. -/
theorem carries_of_chained (lived : LivedOn first past s) (chained : Chained past (source :: links))
    (final : links.getLast? = some last) : Carries first past s source links last := by
  have joined : (source :: links).IsChain s.completions.Joined :=
    chained.imp fun source id ⟨moment, member, chains⟩ => lived.joined member chains
  constructor
  · intro unseen unpolled
    exact Completions.unseen_of_joined joined (lived.unseen unseen unpolled)
  · intro result ready
    obtain ⟨carried, carries, reaches⟩ := result.reaches_of_carriedOver
    have yields := Completions.yields_of_joined joined ready
    rw [carries] at yields
    have yieldsLast := yields last (List.mem_of_getLast? final)
    refine ⟨carried, (s.wait last).2, Prod.ext yieldsLast rfl, reaches, ?_⟩
    -- The last completion is resolved now, so the whole chain is.
    have entry := Completions.entry_poll s.now s.completions last (by simp [yieldsLast])
    rw [yieldsLast] at entry
    have after := joined.imp fun source id joined => joined.poll s.now last
    have finalAfter : (source :: links).getLast? = some last := by simp [List.getLast?_cons, final]
    have resolved := Completions.resolved_of_joined after finalAfter entry
    have shown : ∀ id ∈ source :: links, ∀ result, (s.completions.poll s.now id).1 = .ready result →
        (s.wait last).2.completions.peek id = .ok (some result) := by
      intro id member result ready
      obtain ⟨found, entry⟩ := resolved id member
      obtain rfl := Completions.result_of_resolved ready entry
      exact Completions.peek_of_resolved entry
    exact ⟨shown source List.mem_cons_self result ready,
      fun id member => shown id (List.mem_cons_of_mem _ member) carried (yields id member)⟩

/-- Two links carry over the error of a call that has panicked. -/
theorem carries_of_panicked_call : ∃ first past s, LivedOn first past s ∧
    past.map (·.deed) = [.chained 0 1, .chained 1 2] ∧ Chained past [0, 1, 2] ∧
    first.completions.peek 0 = .ok none ∧ Unpolled past 0 ∧
    (s.completions.poll s.now 0).1 = .ready (.failure (.panicked "boom")) ∧
    Carries first past s 0 [1, 2] 2 := by
  let call : Completion := .unresolved (.known (.failure (.panicked "boom")))
  let first : CompletionSession := ⟨.start, ⟨#[call], []⟩, .empty⟩
  let second : CompletionSession := ⟨.start, (first.completions.addChained 0).2, .empty⟩
  let third : CompletionSession := ⟨.start, (second.completions.addChained 1).2, .empty⟩
  let past : List Moment := [⟨first, .chained 0 1, second⟩, ⟨second, .chained 1 2, third⟩]
  have begun : LivedOn first [⟨first, .chained 0 1, second⟩] second :=
    .act .begin (.chain (by decide : 0 < _) rfl)
  have lived : LivedOn first past third := begun.act (.chain (by decide : 1 < _) rfl)
  have chained : Chained past [0, 1, 2] :=
    .cons_cons ⟨_, List.mem_cons_self, rfl⟩
      (.cons_cons ⟨_, List.mem_cons_of_mem _ List.mem_cons_self, rfl⟩ (.singleton 2))
  exact ⟨first, past, third, lived, rfl, chained, rfl, by simp [Unpolled, past, Moment.visits],
    by decide +kernel, carries_of_chained lived chained rfl⟩

end KeyedJobs
