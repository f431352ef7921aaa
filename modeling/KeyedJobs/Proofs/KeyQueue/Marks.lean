import KeyedJobs.Proofs.KeyQueue.Lines

/-! # What the operations do to a key

A queue is well formed if it has one line for each key at most and no line that is neither active
nor holds a job. A key is marked while its line is active, and it idles while its jobs wait and none
is handed out. What each operation does to the marks, to the idle keys and to the waiting jobs.
-/

namespace KeyedJobs.KeyQueue

variable {α : Type} {q q' : KeyQueue α} {key other : String} {job : α}

/-- One line for each key at most, and each line active or with a waiting job. -/
structure WellFormed (q : KeyQueue α) : Prop where
  distinct : (q.lines.map (·.1)).Nodup
  inhabited : ∀ entry ∈ q.lines, entry.2.active = true ∨ entry.2.waiting ≠ []

theorem WellFormed.setLine (formed : q.WellFormed) {line : KeyLine α}
    (inhabited : line.active = true ∨ line.waiting ≠ []) :
    WellFormed { q with lines := setLine key line q.lines } where
  distinct := by
    simp only [keys_setLine]
    split
    · exact formed.distinct
    · rename_i absent
      refine List.nodup_append.mpr ⟨formed.distinct, by simp, ?_⟩
      intro other member added same
      simp only [List.mem_singleton] at same
      intro equal
      exact absent (same ▸ equal ▸ member)
  inhabited := by
    intro entry member
    rcases mem_setLine member with rfl | member
    · exact inhabited
    · exact formed.inhabited entry member

/-- One if the line of the key is active, and otherwise zero. -/
def mark (q : KeyQueue α) (key : String) : Nat :=
  if (q.line? key).any (·.active) then 1 else 0

/-- A job of the key waits and none is handed out. -/
def Idles (q : KeyQueue α) (key : String) : Prop :=
  ∃ line, q.line? key = some line ∧ line.active = false ∧ line.waiting ≠ []

theorem line?_setLine (q : KeyQueue α) (key other : String) (line : KeyLine α) :
    line? { q with lines := setLine key line q.lines } other =
      if other = key then some line else q.line? other :=
  lookup_setLine key other line q.lines

theorem line?_dropLine (q : KeyQueue α) (key other : String) :
    line? { q with lines := dropLine key q.lines } other =
      if other = key then none else q.line? other :=
  lookup_dropLine key other q.lines

theorem mark_setLine (q : KeyQueue α) (key other : String) (line : KeyLine α) :
    mark { q with lines := setLine key line q.lines } other =
      if other = key then (if line.active then 1 else 0) else q.mark other := by
  simp only [mark, line?_setLine]
  split <;> simp

theorem idles_setLine {line : KeyLine α}
    (idles : Idles { q with lines := setLine key line q.lines } other) :
    (other = key ∧ line.active = false ∧ line.waiting ≠ []) ∨ (other ≠ key ∧ q.Idles other) := by
  obtain ⟨found, at_, rest⟩ := idles
  rw [line?_setLine] at at_
  split at at_
  · cases at_
    exact .inl ⟨‹_›, rest⟩
  · exact .inr ⟨‹_›, found, at_, rest⟩

theorem mark_of_line? {line : KeyLine α} (found : q.line? key = some line) :
    q.mark key = if line.active then 1 else 0 := by
  simp [mark, found]

theorem mark_le_one (q : KeyQueue α) (key : String) : q.mark key ≤ 1 := by
  unfold mark
  split <;> omega

theorem line?_of_mark (marked : 0 < q.mark key) :
    ∃ waiting, q.line? key = some ⟨waiting, true⟩ := by
  cases found : q.line? key with
  | none => simp [mark, found] at marked
  | some line =>
      obtain ⟨waiting, active⟩ := line
      cases active with
      | false => simp [mark, found] at marked
      | true => exact ⟨waiting, rfl⟩

/-! ## Pushing -/

theorem push_eq_ok (pushed : q.push key job = .ok q') :
    q.closed = false ∧ ∃ line : KeyLine α, line = (q.line? key).getD ⟨[], false⟩ ∧
      q' = { q with lines := setLine key ⟨line.waiting ++ [job], line.active⟩ q.lines } := by
  unfold push at pushed
  split at pushed
  · cases pushed
  · rename_i opened
    cases pushed
    exact ⟨by simpa using opened, _, rfl, rfl⟩

theorem push_eq_error {back : α} (refused : q.push key job = .error back) :
    q.closed = true ∧ back = job := by
  unfold push at refused
  split at refused
  · rename_i closed
    cases refused
    exact ⟨closed, rfl⟩
  · cases refused

theorem closed_push (pushed : q.push key job = .ok q') : q'.closed = q.closed := by
  obtain ⟨-, line, -, rfl⟩ := push_eq_ok pushed
  rfl

theorem WellFormed.push (formed : q.WellFormed) (pushed : q.push key job = .ok q') :
    q'.WellFormed := by
  obtain ⟨-, line, -, rfl⟩ := push_eq_ok pushed
  exact formed.setLine (.inr (by simp))

theorem mark_push (pushed : q.push key job = .ok q') : q'.mark other = q.mark other := by
  obtain ⟨-, line, rfl, rfl⟩ := push_eq_ok pushed
  rw [mark_setLine]
  split
  · subst other
    cases found : q.line? key <;> simp [mark, found]
  · rfl

theorem idles_push (pushed : q.push key job = .ok q') (idles : q'.Idles other) :
    other = key ∨ q.Idles other := by
  obtain ⟨-, line, -, rfl⟩ := push_eq_ok pushed
  exact (idles_setLine idles).imp And.left And.right

theorem allWaiting_push (pushed : q.push key job = .ok q') :
    q'.allWaiting.Perm ((key, job) :: q.allWaiting) := by
  obtain ⟨-, line, rfl, rfl⟩ := push_eq_ok pushed
  have moved := waitingOf_setLine key
    ⟨((q.line? key).getD ⟨[], false⟩).waiting ++ [job], ((q.line? key).getD ⟨[], false⟩).active⟩
    q.lines
  simp only [line?, List.map_append, List.map_cons, List.map_nil, List.append_assoc] at moved
  exact (List.perm_append_left_iff _).mp moved

/-! ## Handing out -/

theorem tryActivate_eq_some (taken : q.tryActivate key = (some job, q')) :
    ∃ rest, q.line? key = some ⟨job :: rest, false⟩ ∧
      q' = { q with lines := setLine key ⟨rest, true⟩ q.lines } := by
  unfold tryActivate at taken
  split at taken
  · rename_i rest found
    cases taken
    exact ⟨rest, found, rfl⟩
  · cases taken

theorem tryActivate_eq_none (idle : q.tryActivate key = (none, q')) :
    q' = q ∧ ¬ q.Idles key := by
  unfold tryActivate at idle
  split at idle
  · cases idle
  · rename_i other
    cases idle
    refine ⟨rfl, ?_⟩
    rintro ⟨⟨waiting, active⟩, found, inactive, nonempty⟩
    cases waiting with
    | nil => exact nonempty rfl
    | cons job rest => exact other job rest (by rw [found, ← inactive])

theorem release_eq_some (released : q.release key = .ok (some job, q')) :
    ∃ rest, q.line? key = some ⟨job :: rest, true⟩ ∧
      q' = { q with lines := setLine key ⟨rest, true⟩ q.lines } := by
  unfold release at released
  split at released <;> try cases released
  rename_i rest found
  exact ⟨rest, found, rfl⟩

theorem release_eq_none (released : q.release key = .ok (none, q')) :
    (q.line? key = none ∧ q' = q) ∨
      (q.line? key = some ⟨[], true⟩ ∧ q' = { q with lines := dropLine key q.lines }) := by
  unfold release at released
  split at released <;> cases released
  · rename_i absent
    exact .inl ⟨absent, rfl⟩
  · rename_i found
    exact .inr ⟨found, rfl⟩

theorem release_of_mark (marked : 0 < q.mark key) :
    ∃ next q', q.release key = .ok (next, q') := by
  obtain ⟨waiting, found⟩ := line?_of_mark marked
  cases waiting with
  | nil => exact ⟨none, _, by simp only [release, found]; rfl⟩
  | cons job rest => exact ⟨some job, _, by simp only [release, found]; rfl⟩

theorem WellFormed.tryActivate (formed : q.WellFormed)
    (taken : q.tryActivate key = (some job, q')) : q'.WellFormed := by
  obtain ⟨rest, -, rfl⟩ := tryActivate_eq_some taken
  exact formed.setLine (.inl rfl)

theorem WellFormed.release (formed : q.WellFormed) {next : Option α}
    (released : q.release key = .ok (next, q')) : q'.WellFormed := by
  cases next with
  | some job =>
      obtain ⟨rest, -, rfl⟩ := release_eq_some released
      exact formed.setLine (.inl rfl)
  | none =>
      rcases release_eq_none released with ⟨-, rfl⟩ | ⟨-, rfl⟩
      · exact formed
      · exact ⟨formed.distinct.sublist (List.filter_sublist.map _),
          fun entry member => formed.inhabited entry (List.mem_filter.mp member).1⟩

theorem mark_of_tryActivate (taken : q.tryActivate key = (some job, q')) : q.mark key = 0 := by
  obtain ⟨rest, found, rfl⟩ := tryActivate_eq_some taken
  simp [mark_of_line? found]

theorem mark_tryActivate (taken : q.tryActivate key = (some job, q')) :
    q'.mark other = if other = key then 1 else q.mark other := by
  obtain ⟨rest, found, rfl⟩ := tryActivate_eq_some taken
  simp [mark_setLine]

theorem mark_release_some (released : q.release key = .ok (some job, q')) :
    q'.mark other = q.mark other := by
  obtain ⟨rest, found, rfl⟩ := release_eq_some released
  rw [mark_setLine]
  split
  · subst other
    simp [mark_of_line? found]
  · rfl

theorem mark_release_none (released : q.release key = .ok (none, q')) :
    q'.mark other = if other = key then 0 else q.mark other := by
  rcases release_eq_none released with ⟨absent, rfl⟩ | ⟨-, rfl⟩
  · split
    · subst other
      simp [mark, absent]
    · rfl
  · simp only [mark, line?_dropLine]
    split <;> simp

theorem idles_tryActivate (taken : q.tryActivate key = (some job, q')) (idles : q'.Idles other) :
    q.Idles other := by
  obtain ⟨rest, -, rfl⟩ := tryActivate_eq_some taken
  rcases idles_setLine idles with ⟨-, inactive, -⟩ | ⟨-, idles⟩
  · cases inactive
  · exact idles

theorem idles_release {next : Option α} (released : q.release key = .ok (next, q'))
    (idles : q'.Idles other) : q.Idles other := by
  cases next with
  | some job =>
      obtain ⟨rest, -, rfl⟩ := release_eq_some released
      rcases idles_setLine idles with ⟨-, inactive, -⟩ | ⟨-, idles⟩
      · cases inactive
      · exact idles
  | none =>
      rcases release_eq_none released with ⟨-, rfl⟩ | ⟨-, rfl⟩
      · exact idles
      · obtain ⟨line, found, rest⟩ := idles
        rw [line?_dropLine] at found
        split at found
        · cases found
        · exact ⟨line, found, rest⟩

theorem allWaiting_tryActivate (taken : q.tryActivate key = (some job, q')) :
    q.allWaiting.Perm ((key, job) :: q'.allWaiting) := by
  obtain ⟨rest, found, rfl⟩ := tryActivate_eq_some taken
  exact waitingOf_cons found

theorem allWaiting_release_some (released : q.release key = .ok (some job, q')) :
    q.allWaiting.Perm ((key, job) :: q'.allWaiting) := by
  obtain ⟨rest, found, rfl⟩ := release_eq_some released
  exact waitingOf_cons found

theorem WellFormed.allWaiting_release_none (formed : q.WellFormed)
    (released : q.release key = .ok (none, q')) : q'.allWaiting = q.allWaiting := by
  rcases release_eq_none released with ⟨-, rfl⟩ | ⟨found, rfl⟩
  · rfl
  · exact waitingOf_dropLine formed.distinct found

theorem closed_tryActivate (taken : q.tryActivate key = (some job, q')) :
    q'.closed = q.closed := by
  obtain ⟨rest, -, rfl⟩ := tryActivate_eq_some taken
  rfl

theorem closed_release {next : Option α} (released : q.release key = .ok (next, q')) :
    q'.closed = q.closed := by
  cases next with
  | some job =>
      obtain ⟨rest, -, rfl⟩ := release_eq_some released
      rfl
  | none => rcases release_eq_none released with ⟨-, rfl⟩ | ⟨-, rfl⟩ <;> rfl

/-! ## Discarding -/

theorem WellFormed.line?_discardWaiting (formed : q.WellFormed) (key : String) :
    q.discardWaiting.2.line? key = if q.mark key = 1 then some ⟨[], true⟩ else none := by
  have emptied : q.discardWaiting.2.line? key =
      if (q.line? key).any (·.active) then some ⟨[], true⟩ else none :=
    lookup_emptied formed.distinct
  rw [emptied]
  unfold mark
  split <;> simp

theorem WellFormed.discardWaiting (formed : q.WellFormed) : q.discardWaiting.2.WellFormed where
  distinct := by
    simp only [KeyQueue.discardWaiting, List.map_map]
    exact formed.distinct.sublist (List.filter_sublist.map _)
  inhabited := by
    intro entry member
    simp only [KeyQueue.discardWaiting, List.mem_map] at member
    obtain ⟨-, -, rfl⟩ := member
    exact .inl rfl

theorem WellFormed.mark_discardWaiting (formed : q.WellFormed) (key : String) :
    q.discardWaiting.2.mark key = q.mark key := by
  have found := formed.line?_discardWaiting key
  rw [mark, found]
  split
  · rename_i marked
    simp [marked]
  · rename_i unmarked
    unfold mark at unmarked ⊢
    split at unmarked
    · exact absurd rfl unmarked
    · rename_i inactive
      simp [inactive]

theorem WellFormed.not_idles_discardWaiting (formed : q.WellFormed) (key : String) :
    ¬ q.discardWaiting.2.Idles key := by
  rintro ⟨line, found, inactive, -⟩
  rw [formed.line?_discardWaiting key] at found
  split at found <;> cases found
  cases inactive

theorem WellFormed.lines_eq_nil (formed : q.WellFormed) (unmarked : ∀ key, q.mark key = 0)
    (busy : ∀ key, ¬ q.Idles key) : q.lines = [] := by
  cases lines : q.lines with
  | nil => rfl
  | cons entry rest =>
      obtain ⟨key, line⟩ := entry
      have member : (key, line) ∈ q.lines := lines ▸ List.mem_cons_self
      have found : q.line? key = some line := lookup_eq_some_of_mem formed.distinct member
      have marked := mark_of_line? found
      rw [unmarked key] at marked
      have inactive : line.active = false := by
        cases active : line.active with
        | false => rfl
        | true => simp [active] at marked
      rcases formed.inhabited _ member with active | waits
      · simp [inactive] at active
      · exact absurd ⟨line, found, inactive, waits⟩ (busy key)

theorem not_idles_of_allWaiting (none_waits : q.allWaiting = []) (key : String) :
    ¬ q.Idles key := by
  rintro ⟨line, found, -, waits⟩
  obtain ⟨before, after, lines, -⟩ := List.lookup_eq_some_iff.mp found
  obtain ⟨job, member⟩ := List.exists_mem_of_ne_nil _ waits
  have waiting : (key, job) ∈ q.allWaiting :=
    List.mem_flatMap.mpr ⟨(key, line), by simp [lines], List.mem_map.mpr ⟨job, member, rfl⟩⟩
  rw [none_waits] at waiting
  cases waiting

theorem allWaiting_discardWaiting (q : KeyQueue α) : q.discardWaiting.2.allWaiting = [] := by
  simp [discardWaiting, allWaiting, List.flatMap_map]

end KeyedJobs.KeyQueue
