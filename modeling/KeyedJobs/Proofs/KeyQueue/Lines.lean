import KeyedJobs.KeyQueue.Basic

/-! # Lines of a queue

What putting a line in and taking one out does to the line of each key, and to the waiting jobs of
all lines together. Lines of other keys are never touched.
-/

namespace KeyedJobs

variable {α β : Type} {key : String} {job : α}

theorem lookup_cons (key other : String) (value : β) (entries : List (String × β)) :
    ((key, value) :: entries).lookup other =
      if other = key then some value else entries.lookup other := by
  by_cases same : other = key
  · rw [same, List.lookup_cons_self, if_pos rfl]
  · rw [List.lookup_cons, beq_eq_false_iff_ne.mpr same, if_neg same]

theorem lookup_filter_ne (key other : String) (entries : List (String × β)) :
    (entries.filter (·.1 ≠ key)).lookup other =
      if other = key then none else entries.lookup other := by
  induction entries with
  | nil => simp
  | cons head rest ih =>
      obtain ⟨present, old⟩ := head
      simp only [List.filter_cons, decide_eq_true_eq, lookup_cons] at ih ⊢
      split
      · rename_i kept
        rw [lookup_cons, ih]
        split
        · subst other
          rw [if_neg kept]
        · rfl
      · rename_i dropped
        rw [ih]
        split
        · rfl
        · rename_i apart
          exact (if_neg fun same => apart (same.trans (Decidable.of_not_not dropped))).symm

namespace KeyQueue

theorem lookup_setLine (key other : String) (line : KeyLine α) (lines : List (String × KeyLine α)) :
    (setLine key line lines).lookup other =
      if other = key then some line else lines.lookup other := by
  induction lines with
  | nil => simp [setLine, lookup_cons]
  | cons head rest ih =>
      obtain ⟨present, old⟩ := head
      by_cases same : present = key
      · subst present
        simp only [setLine, if_true, lookup_cons]
        split <;> rfl
      · simp only [setLine, if_neg same, lookup_cons, ih]
        split
        · subst other
          rw [if_neg same]
        · rfl

theorem lookup_dropLine (key other : String) (lines : List (String × KeyLine α)) :
    (dropLine key lines).lookup other = if other = key then none else lines.lookup other :=
  lookup_filter_ne key other lines

theorem dropLine_cons (key present : String) (old : KeyLine α) (lines : List (String × KeyLine α)) :
    dropLine key ((present, old) :: lines) =
      if present = key then dropLine key lines else (present, old) :: dropLine key lines := by
  by_cases same : present = key <;> simp [dropLine, same]

theorem dropLine_of_absent {lines : List (String × KeyLine α)} (absent : key ∉ lines.map (·.1)) :
    dropLine key lines = lines := by
  apply List.filter_eq_self.mpr
  intro entry member
  have apart : entry.1 ≠ key := fun same => absent (List.mem_map.mpr ⟨entry, member, same⟩)
  simpa using apart

theorem lookup_eq_some_of_mem {lines : List (String × KeyLine α)} {line : KeyLine α}
    (distinct : (lines.map (·.1)).Nodup) (member : (key, line) ∈ lines) :
    lines.lookup key = some line := by
  induction lines with
  | nil => simp at member
  | cons head rest ih =>
      obtain ⟨present, old⟩ := head
      obtain ⟨absent, distinct⟩ := List.nodup_cons.mp distinct
      rw [lookup_cons]
      rcases List.mem_cons.mp member with same | member
      · cases same
        simp
      · have apart : key ≠ present := fun same =>
          absent (List.mem_map.mpr ⟨_, member, same⟩)
        rw [if_neg apart]
        exact ih distinct member

theorem mem_keys_of_lookup {lines : List (String × KeyLine α)} {line : KeyLine α}
    (found : lines.lookup key = some line) : key ∈ lines.map (·.1) := by
  obtain ⟨before, after, rfl, -⟩ := List.lookup_eq_some_iff.mp found
  simp

theorem keys_setLine (key : String) (line : KeyLine α) (lines : List (String × KeyLine α)) :
    (setLine key line lines).map (·.1) =
      if key ∈ lines.map (·.1) then lines.map (·.1) else lines.map (·.1) ++ [key] := by
  induction lines with
  | nil => simp [setLine]
  | cons head rest ih =>
      obtain ⟨present, old⟩ := head
      by_cases same : present = key
      · subst present
        simp [setLine]
      · have same' : ¬ key = present := fun h => same h.symm
        simp only [setLine, if_neg same, List.map_cons, ih, List.mem_cons, same', false_or]
        split <;> rfl

theorem mem_setLine {line : KeyLine α} {lines : List (String × KeyLine α)} {entry}
    (member : entry ∈ setLine key line lines) : entry = (key, line) ∨ entry ∈ lines := by
  induction lines with
  | nil => simpa [setLine] using member
  | cons head rest ih =>
      obtain ⟨present, old⟩ := head
      simp only [setLine] at member
      split at member
      · simp only [List.mem_cons] at member ⊢
        rcases member with rfl | member
        · exact .inl rfl
        · exact .inr (.inr member)
      · simp only [List.mem_cons] at member ⊢
        rcases member with rfl | member
        · exact .inr (.inl rfl)
        · exact (ih member).imp_right .inr

/-- The waiting jobs of some lines. -/
def waitingOf (lines : List (String × KeyLine α)) : List (String × α) :=
  lines.flatMap fun (key, line) => line.waiting.map (key, ·)

theorem waitingOf_setLine (key : String) (line : KeyLine α) (lines : List (String × KeyLine α)) :
    ((((lines.lookup key).getD ⟨[], false⟩).waiting.map (key, ·)) ++
      waitingOf (setLine key line lines)).Perm
      (line.waiting.map (key, ·) ++ waitingOf lines) := by
  induction lines with
  | nil => simp [waitingOf, setLine]
  | cons head rest ih =>
      obtain ⟨present, old⟩ := head
      by_cases same : present = key
      · subst present
        simp only [setLine, if_true, lookup_cons, Option.getD_some, waitingOf, List.flatMap_cons]
        exact List.perm_append_comm_assoc ..
      · have found : ((present, old) :: rest).lookup key = rest.lookup key := by
          rw [lookup_cons, if_neg (Ne.symm same)]
        simp only [found, setLine, if_neg same, waitingOf, List.flatMap_cons] at ih ⊢
        refine (List.perm_append_comm_assoc ..).trans (.trans ?_ (List.perm_append_comm_assoc ..))
        exact ih.append_left _

theorem waitingOf_cons {lines : List (String × KeyLine α)} {rest : List α} {active active' : Bool}
    (found : lines.lookup key = some ⟨job :: rest, active⟩) :
    (waitingOf lines).Perm ((key, job) :: waitingOf (setLine key ⟨rest, active'⟩ lines)) := by
  have moved := waitingOf_setLine key ⟨rest, active'⟩ lines
  simp only [found, Option.getD_some, List.map_cons, List.cons_append] at moved
  refine ((List.perm_append_left_iff (rest.map (key, ·))).mp ?_).symm
  exact List.perm_middle.trans moved

theorem waitingOf_dropLine {lines : List (String × KeyLine α)} {active : Bool}
    (distinct : (lines.map (·.1)).Nodup) (found : lines.lookup key = some ⟨[], active⟩) :
    waitingOf (dropLine key lines) = waitingOf lines := by
  induction lines with
  | nil => simp at found
  | cons head rest ih =>
      obtain ⟨present, old⟩ := head
      obtain ⟨absent, distinct⟩ := List.nodup_cons.mp distinct
      rw [lookup_cons] at found
      rw [dropLine_cons]
      by_cases same : present = key
      · subst present
        obtain rfl : old = ⟨[], active⟩ := by simpa using found
        rw [if_pos rfl, dropLine_of_absent absent]
        rfl
      · rw [if_neg (Ne.symm same)] at found
        have below := ih distinct found
        simp only [waitingOf] at below
        simp only [if_neg same, waitingOf, List.flatMap_cons, below]

theorem lookup_emptied {lines : List (String × KeyLine α)} (distinct : (lines.map (·.1)).Nodup) :
    ((lines.filter fun (_, line) => line.active).map
        fun (key, _) => (key, (⟨[], true⟩ : KeyLine α))).lookup key =
      if (lines.lookup key).any (·.active) then some ⟨[], true⟩ else none := by
  induction lines with
  | nil => rfl
  | cons head rest ih =>
      obtain ⟨present, waiting, active⟩ := head
      obtain ⟨absent, distinct⟩ := List.nodup_cons.mp distinct
      have below := ih distinct
      rw [lookup_cons]
      cases active with
      | true =>
          simp only [List.filter_cons, if_true, List.map_cons, lookup_cons]
          split
          · simp
          · exact below
      | false =>
          simp only [List.filter_cons, Bool.false_eq_true, if_false, below]
          by_cases same : key = present
          · subst present
            cases found : rest.lookup key with
            | none => simp
            | some line => exact absurd (mem_keys_of_lookup found) absent
          · rw [if_neg same]

end KeyQueue

end KeyedJobs
