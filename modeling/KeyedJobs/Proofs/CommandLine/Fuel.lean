import KeyedJobs.CommandLine.Run

/-! # More moves make no difference

The calls of a load are given a number of moves. A call that is answered within it is answered alike
with any greater number, and so is the whole run of the program.
-/

namespace KeyedJobs

variable {fuel fuel' : Nat}

namespace Coordinator

variable {s : Coordinator} {stop : Coordinator → Bool} {patience : Option Duration}

theorem run_of_stop (stopped : stop s = true) (fuel : Nat) : s.run stop patience fuel = s := by
  cases fuel with
  | zero => rfl
  | succ fuel => rw [run, if_pos stopped]

theorem run_of_le (stopped : stop (s.run stop patience fuel) = true) (le : fuel ≤ fuel') :
    s.run stop patience fuel' = s.run stop patience fuel := by
  induction fuel generalizing s fuel' with
  | zero => exact run_of_stop stopped fuel'
  | succ fuel ih =>
      cases fuel' with
      | zero => exact absurd le (Nat.not_succ_le_zero fuel)
      | succ fuel' =>
          rw [run] at stopped
          rw [run, run]
          split
          · rfl
          · rename_i going
            rw [if_neg going] at stopped
            cases next : s.nextMove? patience with
            | none => rfl
            | some m =>
                rw [next] at stopped
                exact ih stopped (Nat.le_of_succ_le_succ le)

theorem perform?_of_le {request : Request} {result : Answer × Coordinator}
    (performed : s.perform? request fuel = some result) (le : fuel ≤ fuel') :
    s.perform? request fuel' = some result := by
  unfold perform? at performed ⊢
  obtain ⟨answer, answered, -⟩ := Option.map_eq_some_iff.mp performed
  dsimp only at answered performed ⊢
  rw [run_of_le (by rw [answered]; rfl) le]
  exact performed

end Coordinator

namespace Load.Run

variable {p : Profile} {run run' : Run}

theorem perform?_of_le {request : Request} {result : Answer × Run}
    (performed : run.perform? request fuel = some result) (le : fuel ≤ fuel') :
    run.perform? request fuel' = some result := by
  unfold perform? at performed ⊢
  obtain ⟨answered, done, -⟩ := Option.map_eq_some_iff.mp performed
  dsimp only at done performed ⊢
  rw [Coordinator.perform?_of_le done le, ← done]
  exact performed

theorem enqueue?_of_le {seq : Nat} (enqueued : run.enqueue? p fuel seq = some run')
    (le : fuel ≤ fuel') : run.enqueue? p fuel' seq = some run' := by
  unfold enqueue? at enqueued ⊢
  obtain ⟨answered, performed, -⟩ := Option.map_eq_some_iff.mp enqueued
  rw [perform?_of_le performed le, ← performed]
  exact enqueued

theorem foldlM_enqueue?_of_le {seqs : List Nat}
    (brought : seqs.foldlM (enqueue? p fuel) run = some run') (le : fuel ≤ fuel') :
    seqs.foldlM (enqueue? p fuel') run = some run' := by
  induction seqs generalizing run with
  | nil => exact brought
  | cons seq rest ih =>
      rw [List.foldlM_cons] at brought ⊢
      obtain ⟨next, enqueued, others⟩ := Option.bind_eq_some_iff.mp brought
      rw [enqueue?_of_le enqueued le]
      exact ih others

theorem load?_of_le {result : Report × Run} (loaded : run.load? p fuel = some result)
    (le : fuel ≤ fuel') : run.load? p fuel' = some result := by
  unfold load? at loaded ⊢
  obtain ⟨full, brought, waited⟩ := Option.bind_eq_some_iff.mp loaded
  obtain ⟨answered, idle, -⟩ := Option.bind_eq_some_iff.mp waited
  have brought' := foldlM_enqueue?_of_le brought le
  have idle' := perform?_of_le idle le
  simp only [bind, brought', Option.bind_some, idle']
  simpa only [bind, brought, Option.bind_some, idle] using loaded

end Load.Run

namespace CommandLine

variable {config : Config} {profile : Load.Profile} {ending : Ending}

theorem runLoad?_of_le (ended : runLoad? config profile fuel = some ending) (le : fuel ≤ fuel') :
    runLoad? config profile fuel' = some ending := by
  unfold runLoad? at ended ⊢
  dsimp only at ended ⊢
  cases started : Coordinator.start config with
  | error fault =>
      rw [started] at ended
      exact ended
  | ok coordinator =>
      rw [started] at ended
      obtain ⟨⟨report, run⟩, loaded, rest⟩ := Option.bind_eq_some_iff.mp ended
      obtain ⟨answered, finished, -⟩ := Option.bind_eq_some_iff.mp rest
      have loaded' := Load.Run.load?_of_le loaded le
      have finished' := Load.Run.perform?_of_le finished le
      simp only [bind, loaded', Option.bind_some, finished']
      simpa only [bind, loaded, Option.bind_some, finished] using ended

theorem runLoad?_unique {ending' : Ending} (ended : runLoad? config profile fuel = some ending)
    (ended' : runLoad? config profile fuel' = some ending') : ending = ending' := by
  rcases Nat.le_total fuel fuel' with le | le
  · exact Option.some.inj ((runLoad?_of_le ended le).symm.trans ended')
  · exact Option.some.inj (ended.symm.trans (runLoad?_of_le ended' le))

end CommandLine

end KeyedJobs
