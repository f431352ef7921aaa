import Mathlib.Data.List.Nodup
import KeyedJobs.Completion.Write

/-! # What completions will yield

A completion yields one result, whoever polls it and whenever: the write that made it says which, or
the plan by which results are sent under names. Polling one completion and starting writes leave
every other completion as it is, but for the one whose sender is replaced.
-/

namespace KeyedJobs

/-- The result that is sent under each name. -/
abbrev Plan := String → CompletionResult

/-- What is left in the store of a completion that has yielded this. -/
def Poll.remains : Poll → Option Completion
  | .pending => none
  | .ready result => some (.resolved result)
  | .raised _ => some .poisoned

/-- What the completion of a write yields when `rest` is started after it in the same call. -/
def Write.promise (plan : Plan) (rest : List Write) : Write → Poll
  | .succeeded => .ready .success
  | .failed error => .ready (.failure (.failed error))
  | .dropped => .ready (.failure .dropped)
  | .never | .existing _ => .pending
  | .gate name => if .gate name ∈ rest then .ready (.failure .dropped) else .ready (plan name)
  | .task _ ending => ending.poll

/-- What the completions of the writes of one call yield. -/
def promises (plan : Plan) : List Write → List Poll
  | [] => []
  | write :: rest => write.promise plan rest :: promises plan rest

namespace Completions

variable {plan : Plan} {cs cs' cs'' : Completions} {id other : CompletionId} {now : Instant}
  {touched touched' : CompletionId → Prop} {uses uses' : String → Prop}

/-- No completion is chained, and no two senders have a name or a completion in common. -/
structure Tidy (cs : Completions) : Prop where
  names : (cs.senders.map (·.1)).Nodup
  targets : (cs.senders.map (·.2)).Nodup
  made : ∀ sender ∈ cs.senders, sender.2 < cs.entries.size
  unchained : ∀ (id source : CompletionId), cs.entries[id]? ≠ some (.chained source)

theorem Tidy.empty : Completions.empty.Tidy where
  names := List.nodup_nil
  targets := List.nodup_nil
  made _ member := by cases member
  unchained _ _ := by simp [Completions.empty]

theorem Tidy.name_eq (tidy : cs.Tidy) {gate gate' : String} (sender : (gate, id) ∈ cs.senders)
    (sender' : (gate', id) ∈ cs.senders) : gate = gate' :=
  congrArg Prod.fst (List.inj_on_of_nodup_map tidy.targets sender sender' rfl)

theorem Tidy.target_eq (tidy : cs.Tidy) {gate : String} (sender : (gate, id) ∈ cs.senders)
    (sender' : (gate, other) ∈ cs.senders) : id = other :=
  congrArg Prod.snd (List.inj_on_of_nodup_map tidy.names sender sender' rfl)

/-- The completion is the same in both stores, and so are its senders. -/
structure SameAt (cs cs' : Completions) (id : CompletionId) : Prop where
  entry : cs'.entries[id]? = cs.entries[id]?
  senders : ∀ gate, (gate, id) ∈ cs'.senders ↔ (gate, id) ∈ cs.senders

/-- A store goes over into another one in which only the touched completions have changed, those
whose senders were replaced and new ones. -/
structure Change (touched : CompletionId → Prop) (uses : String → Prop)
    (cs cs' : Completions) : Prop where
  tidy : cs'.Tidy
  grows : cs.entries.size ≤ cs'.entries.size
  spares : ∀ id, id < cs.entries.size → ¬ touched id →
    (∀ gate, uses gate → (gate, id) ∉ cs.senders) → SameAt cs cs' id
  senders : ∀ gate id, (gate, id) ∈ cs'.senders →
    (gate, id) ∈ cs.senders ∨ uses gate ∧ cs.entries.size ≤ id

theorem Change.refl (tidy : cs.Tidy) : Change touched uses cs cs :=
  ⟨tidy, Nat.le_refl _, fun _ _ _ _ => ⟨rfl, fun _ => .rfl⟩, fun _ _ => .inl⟩

theorem Change.trans (first : Change touched uses cs cs') (second : Change touched uses cs' cs'') :
    Change touched uses cs cs'' := by
  refine ⟨second.tidy, Nat.le_trans first.grows second.grows, ?_, ?_⟩
  · intro id old untouched unused
    have before := first.spares id old untouched unused
    have after := second.spares id (Nat.lt_of_lt_of_le old first.grows) untouched fun gate used =>
      fun sender => unused gate used ((before.senders gate).mp sender)
    exact ⟨after.entry.trans before.entry, fun gate =>
      (after.senders gate).trans (before.senders gate)⟩
  · intro gate id sender
    rcases second.senders gate id sender with earlier | ⟨used, new⟩
    · exact first.senders gate id earlier
    · exact .inr ⟨used, Nat.le_trans first.grows new⟩

theorem Change.widen (change : Change touched uses cs cs') (wider : ∀ id, touched id → touched' id) :
    Change touched' uses cs cs' where
  tidy := change.tidy
  grows := change.grows
  spares id old untouched := change.spares id old fun polled => untouched (wider id polled)
  senders := change.senders

theorem Change.allow (change : Change touched uses cs cs') (more : ∀ gate, uses gate → uses' gate) :
    Change touched uses' cs cs' where
  tidy := change.tidy
  grows := change.grows
  spares id old untouched unused := change.spares id old untouched fun gate used =>
    unused gate (more gate used)
  senders gate id sender := (change.senders gate id sender).imp_right (.imp_left (more gate))

theorem change_put (tidy : cs.Tidy) {completion : Completion}
    (unchained : ∀ source, completion ≠ .chained source) :
    Change (· = id) uses cs (cs.put id completion) := by
  have size : (cs.put id completion).entries.size = cs.entries.size := by simp [put]
  refine ⟨⟨tidy.names, tidy.targets, ?_, ?_⟩, Nat.le_of_eq size.symm, ?_, fun _ _ => .inl⟩
  · intro sender member
    exact size ▸ tidy.made sender member
  · intro other source chained
    simp only [put, Array.getElem?_setIfInBounds] at chained
    split at chained
    · split at chained
      · exact unchained source (Option.some.inj chained)
      · cases chained
    · exact tidy.unchained other source chained
  · intro other _ apart _
    refine ⟨?_, fun _ => .rfl⟩
    simp [put, Ne.symm apart]

theorem change_conclude (tidy : cs.Tidy) (yielded : Poll) :
    Change (· = id) uses cs (cs.conclude id yielded) := by
  cases yielded with
  | pending => exact .refl tidy
  | ready result => exact change_put tidy (by simp)
  | raised panic => exact change_put tidy (by simp)

theorem change_poll (tidy : cs.Tidy) (now : Instant) (id : CompletionId) :
    Change (· = id) uses cs (cs.poll now id).2 := by
  rw [poll]
  cases entry : cs.entries[id]? with
  | none => exact .refl tidy
  | some completion =>
      cases completion with
      | resolved | poisoned => exact .refl tidy
      | chained source => exact absurd entry (tidy.unchained id source)
      | unresolved origin =>
          have kept : Change (· = id) uses cs (cs.put id (.unresolved (origin.poll now).2)) :=
            change_put tidy (by simp)
          exact kept.trans (change_conclude kept.tidy (origin.poll now).1)

theorem change_add (tidy : cs.Tidy) {completion : Completion}
    (unchained : ∀ source, completion ≠ .chained source) :
    Change touched uses cs (cs.add completion).2 := by
  have size : (cs.add completion).2.entries.size = cs.entries.size + 1 := by simp [add]
  refine ⟨⟨tidy.names, tidy.targets, ?_, ?_⟩, by omega, ?_, fun _ _ => .inl⟩
  · intro sender member
    exact Nat.lt_of_lt_of_le (tidy.made sender member) (by omega)
  · intro other source chained
    simp only [add, Array.getElem?_push] at chained
    split at chained
    · exact unchained source (Option.some.inj chained)
    · exact tidy.unchained other source chained
  · intro other old _ _
    refine ⟨?_, fun _ => .rfl⟩
    simp [add, Array.getElem?_push, Nat.ne_of_lt old]

/-- What the completion yields once it is ready, if what is sent keeps to the plan. -/
inductive Yields (plan : Plan) (cs : Completions) (id : CompletionId) : Poll → Prop where
  | known {result} (entry : cs.entries[id]? = some (.unresolved (.known result))) :
      Yields plan cs id (.ready result)
  | sent {result} (entry : cs.entries[id]? = some (.unresolved (.manual (some result)))) :
      Yields plan cs id (.ready result)
  | planned {gate} (entry : cs.entries[id]? = some (.unresolved (.manual none)))
      (sender : (gate, id) ∈ cs.senders) : Yields plan cs id (.ready (plan gate))
  | never (entry : cs.entries[id]? = some (.unresolved (.manual none)))
      (unsent : ∀ gate, (gate, id) ∉ cs.senders) : Yields plan cs id .pending
  | task {sleep wakeAt} {ending : TaskEnding}
      (entry : cs.entries[id]? = some (.unresolved (.task sleep wakeAt ending))) :
      Yields plan cs id ending.poll

variable {yielded : Poll}

theorem Yields.inside (yields : Yields plan cs id yielded) : id < cs.entries.size := by
  cases yields <;> exact (Array.getElem?_eq_some_iff.mp ‹_›).1

theorem Yields.same (yields : Yields plan cs id yielded) (same : SameAt cs cs' id) :
    Yields plan cs' id yielded := by
  cases yields with
  | known entry => exact .known (same.entry.trans entry)
  | sent entry => exact .sent (same.entry.trans entry)
  | planned entry sender => exact .planned (same.entry.trans entry) ((same.senders _).mpr sender)
  | never entry unsent =>
      exact .never (same.entry.trans entry) fun gate sender =>
        unsent gate ((same.senders gate).mp sender)
  | task entry => exact .task (same.entry.trans entry)

theorem entry_put (inside : id < cs.entries.size) (completion : Completion) :
    (cs.put id completion).entries[id]? = some completion := by
  simp [put, inside]

/-- A poll yields what the completion is to yield, and what it leaves is fixed; or it finds the
completion pending, and then the completion is still to yield the same. -/
theorem Yields.poll (yields : Yields plan cs id yielded) (now : Instant) :
    (cs.poll now id).1 = .pending ∧ Yields plan (cs.poll now id).2 id yielded ∨
      (cs.poll now id).1 = yielded ∧ yielded ≠ .pending ∧
        (cs.poll now id).2.entries[id]? = yielded.remains := by
  have inside := yields.inside
  have inside' : ∀ completion, id < (cs.put id completion).entries.size := by
    intro completion
    simpa [put] using inside
  cases yields with
  | known entry | sent entry =>
      rw [Completions.poll, entry]
      exact .inr ⟨rfl, by simp, entry_put (inside' _) _⟩
  | planned entry sender =>
      rw [Completions.poll, entry]
      exact .inl ⟨rfl, .planned (entry_put inside _) sender⟩
  | never entry unsent =>
      rw [Completions.poll, entry]
      exact .inl ⟨rfl, .never (entry_put inside _) unsent⟩
  | @task sleep wakeAt ending entry =>
      have fixed : ∀ completion, ((cs.put id completion).conclude id ending.poll).entries[id]? =
          ending.poll.remains := by
        intro completion
        cases ending <;> exact entry_put (inside' _) _
      have ready : ending.poll ≠ .pending := by cases ending <;> simp [TaskEnding.poll]
      rw [Completions.poll, entry]
      cases sleep with
      | none => exact .inr ⟨rfl, ready, fixed _⟩
      | some sleep =>
          simp only [Origin.poll]
          cases wakeAt.or (now.wakeUp? sleep) with
          | none => exact .inl ⟨rfl, .task (entry_put inside _)⟩
          | some due =>
              dsimp only
              split
              · exact .inr ⟨rfl, ready, fixed _⟩
              · exact .inl ⟨rfl, .task (entry_put inside _)⟩

theorem mem_of_lookup {name : String} {senders : List (String × CompletionId)}
    (found : senders.lookup name = some id) : (name, id) ∈ senders := by
  obtain ⟨before, after, split, -⟩ := List.lookup_eq_some_iff.mp found
  simp [split]

theorem change_resolve (tidy : cs.Tidy) (name : String) (result : CompletionResult) :
    Change touched (· = name) cs ((cs.resolve? name result).getD cs) := by
  unfold resolve?
  cases found : cs.senders.lookup name with
  | none => exact .refl tidy
  | some target =>
      have sent : Change (· = target) (fun _ => False) cs (cs.send target result) := by
        unfold send
        split
        · exact change_put tidy (by simp)
        · exact .refl tidy
      simp only [Option.map_some, Option.getD_some]
      have fewer := List.filter_sublist (p := fun sender => decide (sender.1 ≠ name))
        (l := cs.senders)
      refine ⟨⟨?_, ?_, ?_, sent.tidy.unchained⟩, sent.grows, ?_, ?_⟩
      · exact (fewer.map _).nodup tidy.names
      · exact (fewer.map _).nodup tidy.targets
      · intro sender member
        exact Nat.lt_of_lt_of_le (tidy.made sender (List.mem_of_mem_filter member)) sent.grows
      · intro id old _ unused
        have apart : id ≠ target := by
          rintro rfl
          exact unused name rfl (mem_of_lookup found)
        refine ⟨(sent.spares id old apart fun _ => False.elim).entry, ?_⟩
        intro gate
        simp only [List.mem_filter, decide_eq_true_eq]
        apply and_iff_left_of_imp
        rintro sender rfl
        exact unused _ rfl sender
      · intro gate id sender
        exact .inl (List.mem_of_mem_filter sender)

theorem tidy_resolve (tidy : cs.Tidy) (name : String) (result : CompletionResult) :
    ((cs.resolve? name result).getD cs).Tidy :=
  have change : Change (fun _ => False) _ cs _ := change_resolve tidy name result
  change.tidy

theorem unsent_resolve (cs : Completions) (name : String) (result : CompletionResult) :
    (name, id) ∉ ((cs.resolve? name result).getD cs).senders := by
  unfold resolve?
  cases found : cs.senders.lookup name with
  | none =>
      intro sender
      have absent := List.lookup_eq_none_iff.mp found _ sender
      simp at absent
  | some target => simp

theorem entry_resolve {name : String} (sender : (name, id) ∈ cs.senders)
    (entry : cs.entries[id]? = some (.unresolved (.manual none))) (tidy : cs.Tidy)
    (result : CompletionResult) :
    ((cs.resolve? name result).getD cs).entries[id]? =
      some (.unresolved (.manual (some result))) := by
  unfold resolve?
  cases found : cs.senders.lookup name with
  | none =>
      have absent := List.lookup_eq_none_iff.mp found _ sender
      simp at absent
  | some target =>
      obtain rfl := tidy.target_eq sender (mem_of_lookup found)
      simp only [Option.map_some, Option.getD_some, send, entry]
      exact entry_put (Array.getElem?_eq_some_iff.mp entry).1 _

theorem entry_resolve_of_ne {name : String} {completion : Completion}
    (entry : cs.entries[id]? = some completion) (settled : completion ≠ .unresolved (.manual none))
    (result : CompletionResult) :
    ((cs.resolve? name result).getD cs).entries[id]? = some completion := by
  unfold resolve?
  cases found : cs.senders.lookup name with
  | none => exact entry
  | some target =>
      simp only [Option.map_some, Option.getD_some, send]
      split
      · rename_i waits
        have apart : target ≠ id := by
          rintro rfl
          exact settled (Option.some.inj (entry.symm.trans waits))
        simp [put, apart, entry]
      · exact entry

theorem Yields.resolve (yields : Yields plan cs id yielded) (tidy : cs.Tidy) (gate : String) :
    Yields plan ((cs.resolve? gate (plan gate)).getD cs) id yielded := by
  by_cases sender : (gate, id) ∈ cs.senders
  · cases yields with
    | known entry => exact .known (entry_resolve_of_ne entry (by simp) _)
    | sent entry => exact .sent (entry_resolve_of_ne entry (by simp) _)
    | task entry => exact .task (entry_resolve_of_ne entry (by simp) _)
    | never entry unsent => exact absurd sender (unsent gate)
    | planned entry sender' =>
        obtain rfl := tidy.name_eq sender sender'
        exact .sent (entry_resolve sender entry tidy _)
  · have change : Change (fun _ => False) _ cs _ := change_resolve tidy gate (plan gate)
    refine yields.same (change.spares id yields.inside not_false ?_)
    rintro _ rfl
    exact sender

theorem change_offer (tidy : cs.Tidy) {name : String} (vacant : ∀ id, (name, id) ∉ cs.senders) :
    Change touched (· = name) cs { (cs.add (.unresolved (.manual none))).2 with
      senders := cs.senders ++ [(name, cs.entries.size)] } := by
  have added : Change touched (· = name) cs (cs.add (.unresolved (.manual none))).2 :=
    change_add tidy (by simp)
  refine ⟨⟨?_, ?_, ?_, added.tidy.unchained⟩, added.grows, ?_, ?_⟩
  · rw [List.map_append, List.nodup_append]
    refine ⟨tidy.names, List.nodup_singleton _, ?_⟩
    rintro present member other same rfl
    rw [List.mem_singleton.mp same] at member
    obtain ⟨⟨_, id⟩, sender, rfl⟩ := List.mem_map.mp member
    exact vacant id sender
  · rw [List.map_append, List.nodup_append]
    refine ⟨tidy.targets, List.nodup_singleton _, ?_⟩
    rintro present member other same rfl
    rw [List.mem_singleton.mp same] at member
    obtain ⟨sender, member, here⟩ := List.mem_map.mp member
    exact absurd here (Nat.ne_of_lt (tidy.made sender member))
  · intro sender member
    rcases List.mem_append.mp member with earlier | now
    · exact added.tidy.made sender earlier
    · rw [List.mem_singleton.mp now]
      simp [add]
  · intro id old untouched unused
    refine ⟨(added.spares id old untouched unused).entry, ?_⟩
    intro gate
    rw [List.mem_append, List.mem_singleton]
    apply or_iff_left
    intro same
    exact Nat.ne_of_lt old (congrArg Prod.snd same)
  · intro gate id sender
    rcases List.mem_append.mp sender with earlier | now
    · exact .inl earlier
    · obtain ⟨rfl, rfl⟩ := Prod.mk.inj (List.mem_singleton.mp now)
      exact .inr ⟨rfl, Nat.le_refl _⟩

theorem change_start (tidy : cs.Tidy) (write : Write) :
    Change touched (write = .gate ·) cs (cs.start write).2 := by
  cases write with
  | existing => exact .refl tidy
  | succeeded | failed | dropped | never | task => exact change_add tidy (by simp)
  | gate name =>
      have freed : Change touched _ cs _ := change_resolve tidy name (.failure .dropped)
      have offered : Change touched _ _ _ := change_offer freed.tidy fun id =>
        unsent_resolve cs name (.failure .dropped)
      exact (freed.trans offered).allow fun gate same => congrArg _ same.symm

theorem change_startEach (tidy : cs.Tidy) (writes : List Write) :
    Change touched (.gate · ∈ writes) cs (cs.startEach writes).2 := by
  induction writes generalizing cs with
  | nil => exact .refl tidy
  | cons write rest ih =>
      have first : Change touched _ cs _ := change_start tidy write
      have others := ih first.tidy
      refine (first.allow ?_).trans (others.allow ?_)
      · rintro gate rfl
        exact List.mem_cons_self
      · exact fun gate => List.mem_cons_of_mem write

theorem startEach_cons (cs : Completions) (write : Write) (rest : List Write) :
    cs.startEach (write :: rest) = ((cs.start write).1 :: ((cs.start write).2.startEach rest).1,
      ((cs.start write).2.startEach rest).2) := rfl

theorem start_new (tidy : cs.Tidy) {write : Write} (made : ∀ id, write ≠ .existing id) :
    cs.entries.size ≤ (cs.start write).1 ∧
      (cs.start write).1 < (cs.start write).2.entries.size := by
  cases write with
  | existing id => exact absurd rfl (made id)
  | succeeded | failed | dropped | never | task => simp [start, add]
  | gate name =>
      have freed : Change (fun _ => False) _ cs _ := change_resolve tidy name (.failure .dropped)
      have grown := freed.grows
      simp [start, addNamed, add, grown]

theorem sender_start (tidy : cs.Tidy) {write : Write} (made : ∀ id, write ≠ .existing id)
    {gate : String} (sender : (gate, (cs.start write).1) ∈ (cs.start write).2.senders) :
    write = .gate gate := by
  have change : Change (fun _ => False) _ cs _ := change_start tidy write
  rcases change.senders gate _ sender with earlier | ⟨same, -⟩
  · exact absurd (tidy.made _ earlier) (Nat.not_lt.mpr (start_new tidy made).1)
  · exact same

theorem start_gate (cs : Completions) (name : String) :
    (cs.start (.gate name)).2.entries[(cs.start (.gate name)).1]? =
        some (.unresolved (.manual none)) ∧
      (name, (cs.start (.gate name)).1) ∈ (cs.start (.gate name)).2.senders := by
  simp [start, addNamed, add]

theorem start_yields (tidy : cs.Tidy) {write : Write} (made : ∀ id, write ≠ .existing id) :
    Yields plan (cs.start write).2 (cs.start write).1 (write.promise plan []) := by
  cases write with
  | existing id => exact absurd rfl (made id)
  | succeeded | failed => exact .known (by simp [start, add])
  | dropped => exact .sent (by simp [start, add])
  | task sleep ending =>
      have entry : (cs.start (.task sleep ending)).2.entries[(cs.start (.task sleep ending)).1]? =
          some (.unresolved (.task sleep none ending)) := by simp [start, add]
      exact .task entry
  | never =>
      refine .never (by simp [start, add]) ?_
      intro gate sender
      cases sender_start tidy made sender
  | gate name =>
      obtain ⟨entry, sender⟩ := start_gate cs name
      exact .planned entry sender

theorem entry_startEach (tidy : cs.Tidy) {name : String} (sender : (name, id) ∈ cs.senders)
    (entry : cs.entries[id]? = some (.unresolved (.manual none))) {writes : List Write}
    (replaced : .gate name ∈ writes) :
    (cs.startEach writes).2.entries[id]? =
      some (.unresolved (.manual (some (.failure .dropped)))) := by
  have inside := tidy.made _ sender
  induction writes generalizing cs with
  | nil => cases replaced
  | cons write rest ih =>
      have change : Change (fun _ => False) _ cs _ := change_start tidy write
      rw [startEach_cons]
      by_cases here : write = .gate name
      · subst here
        have dropped : (cs.start (.gate name)).2.entries[id]? =
            some (.unresolved (.manual (some (.failure .dropped)))) := by
          have sent := entry_resolve sender entry tidy (.failure .dropped)
          have inside' := (Array.getElem?_eq_some_iff.mp sent).1
          simpa [start, addNamed, add, Array.getElem?_push, Nat.ne_of_lt inside'] using sent
        have others : Change (fun _ => False) _ _ _ := change_startEach change.tidy rest
        refine (others.spares id (Nat.lt_of_lt_of_le inside change.grows) not_false ?_).entry.trans
          dropped
        -- The name has gone over to the new completion, and no other name was left to this one.
        intro gate _ still
        rcases change.senders gate id still with earlier | ⟨-, new⟩
        · obtain rfl := tidy.name_eq sender earlier
          have same := change.tidy.target_eq still (start_gate cs name).2
          have made : ∀ id, Write.gate name ≠ .existing id := by simp
          have new := (start_new tidy made).1
          exact absurd inside (Nat.not_lt.mpr (same ▸ new))
        · exact absurd inside (Nat.not_lt.mpr new)
      · have same := change.spares id inside not_false fun gate starts other =>
          here (starts.trans (congrArg _ (tidy.name_eq other sender)))
        exact ih change.tidy ((same.senders name).mpr sender) (same.entry.trans entry)
          ((List.mem_cons.mp replaced).resolve_left (Ne.symm here))
          (Nat.lt_of_lt_of_le inside change.grows)

theorem promise_of_kept {write : Write} {rest : List Write}
    (kept : ∀ gate, write = .gate gate → .gate gate ∉ rest) :
    write.promise plan rest = write.promise plan [] := by
  cases write with
  | gate name => simp [Write.promise, kept name rfl]
  | _ => rfl

theorem mem_startEach (tidy : cs.Tidy) {writes : List Write}
    (member : id ∈ (cs.startEach writes).1) : .existing id ∈ writes ∨
      cs.entries.size ≤ id ∧ id < (cs.startEach writes).2.entries.size := by
  induction writes generalizing cs with
  | nil => cases member
  | cons write rest ih =>
      have first : Change (fun _ => False) _ cs _ := change_start tidy write
      have others : Change (fun _ => False) _ _ _ := change_startEach first.tidy rest
      rw [startEach_cons] at member ⊢
      rcases List.mem_cons.mp member with rfl | further
      · by_cases made : ∀ id, write ≠ .existing id
        · obtain ⟨new, inside⟩ := start_new tidy made
          exact .inr ⟨new, Nat.lt_of_lt_of_le inside others.grows⟩
        · push Not at made
          obtain ⟨id, rfl⟩ := made
          exact .inl List.mem_cons_self
      · rcases ih first.tidy further with held | ⟨new, inside⟩
        · exact .inl (List.mem_cons_of_mem write held)
        · exact .inr ⟨Nat.le_trans first.grows new, inside⟩

theorem startEach_yields (tidy : cs.Tidy) {writes : List Write}
    (made : ∀ id, .existing id ∉ writes) :
    List.Forall₂ (Yields plan (cs.startEach writes).2) (cs.startEach writes).1
        (promises plan writes) ∧
      (cs.startEach writes).1.Nodup := by
  induction writes generalizing cs with
  | nil => exact ⟨.nil, List.nodup_nil⟩
  | cons write rest ih =>
      have alone : ∀ id, write ≠ .existing id := by
        rintro id rfl
        exact made id List.mem_cons_self
      have inside := (start_new tidy alone).2
      have first : Change (fun _ => False) _ cs _ := change_start tidy write
      have others : Change (fun _ => False) _ _ _ := change_startEach first.tidy rest
      have others_made : ∀ id, .existing id ∉ rest := fun id member =>
        made id (List.mem_cons_of_mem write member)
      obtain ⟨yields, distinct⟩ := ih first.tidy others_made
      rw [startEach_cons]
      refine ⟨.cons ?_ yields, List.nodup_cons.mpr ⟨?_, distinct⟩⟩
      · by_cases kept : ∀ gate, write = .gate gate → .gate gate ∉ rest
        · rw [promise_of_kept kept]
          refine (start_yields tidy alone).same (others.spares _ inside not_false ?_)
          exact fun gate starts sender => kept gate (sender_start tidy alone sender) starts
        · push Not at kept
          obtain ⟨gate, rfl, replaced⟩ := kept
          obtain ⟨entry, sender⟩ := start_gate cs gate
          rw [Write.promise, if_pos replaced]
          exact .sent (entry_startEach first.tidy sender entry replaced)
      · intro member
        obtain ⟨later, -⟩ := (mem_startEach first.tidy member).resolve_left (others_made _)
        exact absurd inside (Nat.not_lt.mpr later)

end Completions

end KeyedJobs
