import KeyedJobs.Proofs.Completion.Permanence

/-! # Chains of completions

A completion that carries over the result of another one follows it, and so on down to a completion
that is not chained. A poll of a completion resolves what it follows, and nothing else. As long as the
root of a chain is neither sent a result nor done with its sleep, polls at the same instant change
nothing along the chain.
-/

namespace KeyedJobs

namespace Poll

/-- Only the text of an error is carried over, and a text stays what it is. -/
theorem carriedOver_carriedOver (yielded : Poll) :
    yielded.carriedOver.carriedOver = yielded.carriedOver := by
  cases yielded with
  | pending | raised => rfl
  | ready result =>
      cases result with
      | success => rfl
      | failure error =>
          have same : error.carriedOver.carriedOver = error.carriedOver := by
            rw [CompletionError.carriedOver, CompletionError.text_carriedOver,
              CompletionError.carriedOver]
          rw [carriedOver, carriedOver, same]

end Poll

theorem Origin.poll_poll_of_pending {now : Instant} {origin : Origin}
    (pending : (origin.poll now).1 = .pending) :
    (origin.poll now).2.poll now = (.pending, (origin.poll now).2) := by
  cases origin with
  | known result => cases pending
  | manual sent =>
      cases sent with
      | none => rfl
      | some result => cases pending
  | task sleep wakeAt ending =>
      cases sleep with
      | none => cases ending <;> cases pending
      | some sleep =>
          cases wakes : wakeAt.or (now.wakeUp? sleep) with
          | none =>
              rw [Origin.poll_of_endless wakes]
              exact Origin.poll_of_endless wakes
          | some due =>
              rw [Origin.poll_of_due wakes] at pending ⊢
              dsimp only at pending ⊢
              rw [Origin.poll_of_due Option.some_or, pending]

namespace Completions

variable {cs cs' : Completions} {id other last source : CompletionId} {now later : Instant}
  {result : CompletionResult}

/-- The completion carries over the result of the other one in the end, or is that one. -/
inductive Follows (cs : Completions) : CompletionId → CompletionId → Prop where
  | here (id : CompletionId) : Follows cs id id
  | through {id source last : CompletionId}
      (entry : cs.entries[id]? = some (.chained source)) (older : source < id)
      (follows : Follows cs source last) : Follows cs id last

theorem Follows.le (follows : cs.Follows id last) : last ≤ id := by
  induction follows with
  | here => exact Nat.le_refl _
  | through _ older _ ih => exact Nat.le_trans ih (Nat.le_of_lt older)

theorem entry_poll_of_lt (now : Instant) (cs : Completions) (younger : id < other) :
    (cs.poll now id).2.entries[other]? = cs.entries[other]? := by
  fun_induction poll now cs id with
  | case1 | case2 | case3 | case6 => rfl
  | case4 id origin entry yielded after polled =>
      rw [conclude_of_ne (Nat.ne_of_lt younger)]
      simp [put, Nat.ne_of_lt younger]
  | case5 id source entry older yielded after polled ih =>
      rw [polled] at ih
      rw [conclude_of_ne (Nat.ne_of_lt younger)]
      exact ih (Nat.lt_trans older younger)

theorem Follows.entry_poll (follows : cs.Follows id last) (ready : (cs.poll now last).1 ≠ .pending) :
    (cs.poll now id).2.entries[last]? = (cs.poll now last).1.remains := by
  induction follows with
  | here id => exact Completions.entry_poll now cs id ready
  | through entry older follows ih =>
      rw [poll, entry]
      simp only [older, if_true]
      rw [conclude_of_ne (Nat.ne_of_gt (Nat.lt_of_le_of_lt follows.le older))]
      exact ih ready

theorem follows_of_resolved
    (entry : (cs.poll now other).2.entries[id]? = some (.resolved result)) :
    cs.entries[id]? = some (.resolved result) ∨
      cs.Follows other id ∧ (cs.poll now id).1 = .ready result := by
  fun_induction poll now cs other with
  | case1 | case2 | case3 | case6 => exact .inl entry
  | case4 other origin present yielded after polled =>
      by_cases same : other = id
      · subst same
        have inside := (Array.getElem?_eq_some_iff.mp present).1
        have yields : (cs.poll now other).1 = yielded := by rw [poll, present]; simp [polled]
        right
        refine ⟨.here other, ?_⟩
        rw [yields]
        cases yielded with
        | pending => simp [conclude, entry_put inside] at entry
        | raised => simp [conclude, put, inside] at entry
        | ready => simpa [conclude, put, inside] using entry
      · rw [conclude_of_ne same] at entry
        left
        simpa [put, same] using entry
  | case5 other source present older yielded after polled ih =>
      rw [polled] at ih
      by_cases same : other = id
      · subst same
        have inside : other < after.entries.size := by
          have size := size_poll now cs source
          rw [polled] at size
          rw [size]
          exact (Array.getElem?_eq_some_iff.mp present).1
        have untouched : after.entries[other]? = some (.chained source) := by
          have spared := entry_poll_of_lt now cs older
          rw [polled] at spared
          exact spared.trans present
        have yields : (cs.poll now other).1 = yielded.carriedOver := by
          rw [poll, present]
          simp [older, polled]
        right
        refine ⟨.here other, ?_⟩
        rw [yields]
        cases carried : yielded.carriedOver with
        | pending => simp [carried, conclude, untouched] at entry
        | raised => simp [carried, conclude, put, inside] at entry
        | ready => simpa [carried, conclude, put, inside] using entry
      · rw [conclude_of_ne same] at entry
        rcases ih entry with before | ⟨follows, ready⟩
        · exact .inl before
        · exact .inr ⟨.through present older follows, ready⟩

/-- Polling the completion now is in vain and changes nothing: it waits, along its chain, for a result
that has to be sent or for the end of a sleep that has begun. -/
inductive Still (now : Instant) (cs : Completions) : CompletionId → Prop where
  | unresolved {id : CompletionId} {origin} (entry : cs.entries[id]? = some (.unresolved origin))
      (pending : origin.poll now = (.pending, origin)) : Still now cs id
  | chained {id source : CompletionId} (entry : cs.entries[id]? = some (.chained source))
      (older : source < id) (still : Still now cs source) : Still now cs id

theorem Still.pending (still : cs.Still now id) : (cs.poll now id).1 = .pending := by
  induction still with
  | unresolved entry pending =>
      rw [Completions.poll, entry]
      simp [pending]
  | chained entry older _ ih =>
      rw [Completions.poll, entry]
      simp [older, ih, Poll.carriedOver]

theorem Still.fluid (still : cs.Still now id) {completion : Completion}
    (entry : cs.entries[id]? = some completion) : ¬ completion.Final := by
  intro final
  cases still with
  | unresolved present | chained present =>
      rw [entry] at present
      cases final <;> cases present

theorem Still.of_entries (still : cs.Still now id)
    (same : ∀ id, cs.Still now id → cs'.entries[id]? = cs.entries[id]?) : cs'.Still now id := by
  induction still with
  | unresolved entry pending =>
      exact .unresolved ((same _ (.unresolved entry pending)).trans entry) pending
  | chained entry older still ih =>
      exact .chained ((same _ (.chained entry older still)).trans entry) older ih

theorem Still.poll (still : cs.Still now id) (other : CompletionId) :
    (cs.poll now other).2.Still now id := by
  fun_induction Completions.poll now cs other with
  | case1 | case2 | case3 | case6 => exact still
  | case4 other origin present yielded after polled =>
      apply still.of_entries
      intro id still
      by_cases same : other = id
      · subst same
        cases still with
        | chained entry => simp [present] at entry
        | unresolved entry pending =>
            rw [present, Option.some.injEq, Completion.unresolved.injEq] at entry
            subst entry
            obtain ⟨rfl, rfl⟩ := Prod.mk.inj (polled.symm.trans pending)
            rw [present]
            exact entry_put (Array.getElem?_eq_some_iff.mp present).1 _
      · rw [conclude_of_ne same]
        simp [put, same]
  | case5 other source present older yielded after polled ih =>
      rw [polled] at ih
      apply ih.of_entries
      intro id still
      by_cases pending : yielded = .pending
      · rw [pending]
        rfl
      · apply conclude_of_ne
        rintro rfl
        -- The source has been decided, so what carries over its result is not still.
        have spared := entry_poll_of_lt now cs older
        have met := Completions.entry_poll now cs source
        rw [polled] at spared met
        cases still with
        | unresolved entry => simp [spared, present] at entry
        | chained entry _ still =>
            obtain rfl : source = _ := by simpa [spared, present] using entry
            obtain ⟨completion, left⟩ : ∃ completion, yielded.remains = some completion := by
              cases yielded <;> simp_all [Poll.remains]
            exact still.fluid ((met pending).trans left) (Poll.final_of_remains left)

/-- Every completion that carries over a result is younger than the one that it gets it from. -/
def Linked (cs : Completions) : Prop :=
  ∀ (id source : CompletionId), cs.entries[id]? = some (.chained source) → source < id

theorem Linked.still (linked : cs.Linked) (there : id < cs.entries.size)
    (pending : (cs.poll now id).1 = .pending) : (cs.poll now id).2.Still now id := by
  fun_induction Completions.poll now cs id with
  | case1 id entry => exact absurd there (Nat.not_lt.mpr (Array.getElem?_eq_none_iff.mp entry))
  | case2 | case3 => cases pending
  | case6 id source entry younger => exact absurd (linked id source entry) younger
  | case4 id origin entry yielded after polled =>
      have vain : (origin.poll now).1 = .pending := by rw [polled]; exact pending
      have fixed := Origin.poll_poll_of_pending vain
      rw [polled] at fixed
      obtain rfl : yielded = .pending := pending
      exact .unresolved (entry_put there _) fixed
  | case5 id source entry older yielded after polled ih =>
      rw [polled] at ih
      have spared := entry_poll_of_lt now cs older
      rw [polled] at spared
      have vain := Poll.carriedOver_eq_pending_iff.mp pending
      subst vain
      exact .chained (spared.trans entry) older (ih (Nat.lt_trans older there) rfl)

/-- What the completion yields when its root yields this. -/
def carried (cs : Completions) (id : CompletionId) (yielded : Poll) : Poll :=
  if cs.root id = id then yielded else yielded.carriedOver

theorem root_le (cs : Completions) (id : CompletionId) : cs.root id ≤ id := by
  fun_induction root cs id with
  | case1 id source entry older ih => exact Nat.le_trans ih (Nat.le_of_lt older)
  | case2 | case3 => exact Nat.le_refl _

theorem poll_eq_carried (now : Instant) (cs : Completions) (id : CompletionId) :
    (cs.poll now id).1 = cs.carried id (cs.poll now (cs.root id)).1 := by
  unfold carried
  fun_induction root cs id with
  | case2 | case3 => simp
  | case1 id source entry older ih =>
      have apart : cs.root source ≠ id := Nat.ne_of_lt (Nat.lt_of_le_of_lt (cs.root_le source) older)
      rw [if_neg apart]
      have yields : (cs.poll now id).1 = (cs.poll now source).1.carriedOver := by
        rw [poll, entry]
        simp [older]
      rw [yields, ih]
      split
      · rfl
      · exact Poll.carriedOver_carriedOver _

theorem root_congr (same : ∀ id source : CompletionId, cs'.entries[id]? = some (.chained source) ↔
    cs.entries[id]? = some (.chained source)) (id : CompletionId) : cs'.root id = cs.root id := by
  fun_induction root cs id with
  | case1 id source entry older ih => rw [root, (same id source).mpr entry]; simp [older, ih]
  | case2 id source entry younger => rw [root, (same id source).mpr entry]; simp [younger]
  | case3 id unchained =>
      rw [root]
      split
      · rename_i source entry
        exact absurd ((same id source).mp entry) (unchained source)
      · rfl

theorem Still.root (still : cs.Still now id) : ∃ origin,
    cs.entries[cs.root id]? = some (.unresolved origin) ∧ origin.poll now = (.pending, origin) := by
  induction still with
  | unresolved entry pending =>
      rw [Completions.root, entry]
      exact ⟨_, entry, pending⟩
  | chained entry older _ ih =>
      rw [Completions.root, entry]
      simpa [older] using ih

theorem Still.peek (still : cs.Still now id) : cs.peek id = .ok none := by
  cases still with
  | unresolved entry | chained entry => rw [Completions.peek, entry]

/-- The completion can still come to its own result: the one that is yet to be sent to its root, or the
end of the task of its root. A task that sleeps for good has none. -/
inductive Open (now : Instant) (cs : Completions) (id : CompletionId) : Prop where
  | awaits (entry : cs.entries[cs.root id]? = some (.unresolved (.manual none)))
      (sent : ∀ result later,
        ((cs.send (cs.root id) result).poll later id).1 = cs.carried id (.ready result))
      (named : ∀ name result, cs.senders.lookup name = some (cs.root id) →
        ∃ cs', cs.resolve? name result = some cs' ∧
          ∀ later, (cs'.poll later id).1 = cs.carried id (.ready result))
  | sleeps {sleep due ending}
      (entry : cs.entries[cs.root id]? = some (.unresolved (.task (some sleep) (some due) ending)))
      (early : now < due)
      (wakes : ∀ later, due ≤ later → (cs.poll later id).1 = cs.carried id ending.poll)
  | endless {sleep ending}
      (entry : cs.entries[cs.root id]? = some (.unresolved (.task (some sleep) none ending)))
      (never : sleep.ends = false) (stays : ∀ later, (cs.poll later id).1 = .pending)

theorem poll_of_sent (entry : cs.entries[cs.root id]? = some (.unresolved (.manual none)))
    (sent : cs'.entries = (cs.send (cs.root id) result).entries) :
    (cs'.poll later id).1 = cs.carried id (.ready result) := by
  have inside : cs.root id < cs.entries.size := (Array.getElem?_eq_some_iff.mp entry).1
  have entries : cs'.entries =
      cs.entries.setIfInBounds (cs.root id) (.unresolved (.manual (some result))) := by
    rw [sent, send, entry]
    rfl
  have same : cs'.root id = cs.root id := by
    apply root_congr
    intro other source
    by_cases here : cs.root id = other
    · rw [entries, ← here, entry, Array.getElem?_setIfInBounds_self_of_lt inside]
      simp
    · simp [entries, here]
  have arrived : (cs'.poll later (cs.root id)).1 = .ready result := by
    have present : cs'.entries[cs.root id]? = some (.unresolved (.manual (some result))) := by
      simp [entries, inside]
    rw [poll, present]
    rfl
  rw [poll_eq_carried, same, arrived, carried, carried, same]

theorem Still.open (still : cs.Still now id) : cs.Open now id := by
  obtain ⟨origin, entry, pending⟩ := still.root
  cases origin with
  | known result => cases pending
  | manual result =>
      cases result with
      | some result => cases pending
      | none =>
          refine .awaits entry (fun result later => poll_of_sent entry rfl) ?_
          intro name result sender
          unfold resolve?
          rw [sender]
          exact ⟨_, rfl, fun later => poll_of_sent entry rfl⟩
  | task sleep wakeAt ending =>
      cases sleep with
      | none => cases ending <;> cases pending
      | some sleep =>
          cases wakes : wakeAt.or (now.wakeUp? sleep) with
          | none =>
              obtain ⟨rfl, endless⟩ := Option.or_eq_none_iff.mp wakes
              have never : sleep.ends = false := Instant.wakeUp?_eq_none_iff.mp endless
              refine .endless entry never fun later => ?_
              have still : (none : Option Instant).or (later.wakeUp? sleep) = none :=
                Instant.wakeUp?_eq_none_iff.mpr never
              rw [poll_eq_carried, Completions.poll, entry]
              simp [Origin.poll_of_endless still, carried, Poll.carriedOver]
          | some due =>
              rw [Origin.poll_of_due wakes] at pending
              obtain ⟨vain, begun⟩ := Prod.mk.inj pending
              obtain rfl : some due = wakeAt := by simpa using begun
              have early : now < due := by
                apply Nat.lt_of_not_le
                intro expired
                simp only [expired, if_true] at vain
                cases ending <;> cases vain
              refine .sleeps entry early ?_
              intro later expired
              rw [poll_eq_carried, Completions.poll, entry]
              simp [Origin.poll_of_due Option.some_or, expired]

end Completions

end KeyedJobs
