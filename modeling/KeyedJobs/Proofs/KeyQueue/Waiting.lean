import KeyedJobs.Proofs.KeyQueue.Marks

/-! # The line of one key

The jobs that wait under one key, in the order in which they will be handed out. A push appends to
the line, handing out takes its head, and operations on other keys leave it alone.
-/

namespace KeyedJobs.KeyQueue

variable {α : Type} {q q' : KeyQueue α} {key other : String} {job : α}

/-- The waiting jobs of the key, the next one first. -/
def waitingOn (q : KeyQueue α) (key : String) : List α :=
  ((q.line? key).map (·.waiting)).getD []

theorem waitingOn_of_line? {line : KeyLine α} (found : q.line? key = some line) :
    q.waitingOn key = line.waiting := by
  simp [waitingOn, found]

theorem waitingOn_setLine (q : KeyQueue α) (key other : String) (line : KeyLine α) :
    waitingOn { q with lines := setLine key line q.lines } other =
      if other = key then line.waiting else q.waitingOn other := by
  simp only [waitingOn, line?_setLine]
  split <;> simp

theorem waitingOn_push (pushed : q.push key job = .ok q') :
    q'.waitingOn other = if other = key then q.waitingOn key ++ [job] else q.waitingOn other := by
  obtain ⟨-, line, rfl, rfl⟩ := push_eq_ok pushed
  rw [waitingOn_setLine]
  split
  · cases found : q.line? key <;> simp [waitingOn, found]
  · rfl

theorem waitingOn_tryActivate (taken : q.tryActivate key = (some job, q')) :
    q.waitingOn key = job :: q'.waitingOn key ∧
      ∀ other, other ≠ key → q'.waitingOn other = q.waitingOn other := by
  obtain ⟨rest, found, rfl⟩ := tryActivate_eq_some taken
  refine ⟨?_, ?_⟩
  · rw [waitingOn_of_line? found, waitingOn_setLine, if_pos rfl]
  · intro other apart
    rw [waitingOn_setLine, if_neg apart]

theorem waitingOn_release_some (released : q.release key = .ok (some job, q')) :
    q.waitingOn key = job :: q'.waitingOn key ∧
      ∀ other, other ≠ key → q'.waitingOn other = q.waitingOn other := by
  obtain ⟨rest, found, rfl⟩ := release_eq_some released
  refine ⟨?_, ?_⟩
  · rw [waitingOn_of_line? found, waitingOn_setLine, if_pos rfl]
  · intro other apart
    rw [waitingOn_setLine, if_neg apart]

theorem waitingOn_release_none (released : q.release key = .ok (none, q')) :
    q.waitingOn key = [] ∧ ∀ other, q'.waitingOn other = q.waitingOn other := by
  rcases release_eq_none released with ⟨absent, rfl⟩ | ⟨found, rfl⟩
  · exact ⟨by simp [waitingOn, absent], fun _ => rfl⟩
  · refine ⟨waitingOn_of_line? found, ?_⟩
    intro other
    by_cases same : other = key
    · subst same
      simp [waitingOn, line?_dropLine, found]
    · simp [waitingOn, line?_dropLine, same]

theorem WellFormed.waitingOn_discardWaiting (formed : q.WellFormed) (key : String) :
    q.discardWaiting.2.waitingOn key = [] := by
  rw [waitingOn, formed.line?_discardWaiting key]
  split <;> rfl

theorem WellFormed.mem_waitingOn (formed : q.WellFormed) :
    job ∈ q.waitingOn key ↔ (key, job) ∈ q.allWaiting := by
  constructor
  · intro waits
    unfold waitingOn at waits
    cases found : q.line? key with
    | none => simp [found] at waits
    | some line =>
        rw [found] at waits
        obtain ⟨before, after, lines, -⟩ := List.lookup_eq_some_iff.mp found
        exact List.mem_flatMap.mpr
          ⟨(key, line), by simp [lines], List.mem_map.mpr ⟨job, waits, rfl⟩⟩
  · intro member
    obtain ⟨⟨present, line⟩, inLines, waits⟩ := List.mem_flatMap.mp member
    obtain ⟨_, waits, same⟩ := List.mem_map.mp waits
    cases same
    have found : q.line? key = some line := lookup_eq_some_of_mem formed.distinct inLines
    rwa [waitingOn_of_line? found]

theorem line?_of_waitingOn (waits : q.waitingOn key ≠ []) :
    ∃ line, q.line? key = some line ∧ line.waiting = q.waitingOn key := by
  cases found : q.line? key with
  | none => simp [waitingOn, found] at waits
  | some line => exact ⟨line, rfl, (waitingOn_of_line? found).symm⟩

theorem mark_or_idles (waits : q.waitingOn key ≠ []) : q.mark key = 1 ∨ q.Idles key := by
  obtain ⟨line, found, same⟩ := line?_of_waitingOn waits
  cases active : line.active with
  | true => exact .inl (by simp [mark_of_line? found, active])
  | false => exact .inr ⟨line, found, active, same ▸ waits⟩

end KeyedJobs.KeyQueue
