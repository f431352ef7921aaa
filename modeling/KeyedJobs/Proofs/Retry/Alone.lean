import KeyedJobs.Proofs.Retry.Sharing
import KeyedJobs.Retry.Run

/-! # Driving jobs alone

A job that is driven with nothing else going on but that time passes and results are sent by the
plan, and jobs that are driven in this way one after the other. Each drive follows the plot of its
job.
-/

namespace KeyedJobs

/-- The runs that come from a run of a single drive. -/
inductive Solo (plan : Plan) (policy : RetryPolicy) (origin : SoloRun) : SoloRun → Prop where
  | begin : Solo plan policy origin origin
  | step {run : SoloRun} (solo : Solo plan policy origin run)
      (going : run.drive.resolution? = none) : Solo plan policy origin (run.step policy)
  | pass {run : SoloRun} (solo : Solo plan policy origin run) (now : Instant) :
      Solo plan policy origin { run with now }
  | resolve {run : SoloRun} (solo : Solo plan policy origin run) (gate : String) :
      Solo plan policy origin { run with
        completions := (run.completions.resolve? gate (plan gate)).getD run.completions }

/-- Jobs that are driven alone one after the other, each in the store that the one before has left,
and the calls into them. -/
inductive Alone (plan : Plan) (policy : RetryPolicy) :
    List Job → Instant → Completions → List JobCall → Prop where
  | start : Alone plan policy [] .start .empty []
  | next {jobs : List Job} {now : Instant} {completions : Completions} {made : List JobCall}
      {job : Job} {run : SoloRun} (before : Alone plan policy jobs now completions made)
      (solo : Solo plan policy (.begin now completions job) run)
      (ended : run.drive.resolution?.isSome = true) :
      Alone plan policy (jobs ++ [job]) run.now run.completions (made ++ run.made.toList)

variable {plan : Plan} {policy : RetryPolicy} {origin run : SoloRun}

theorem Solo.finish (solo : Solo plan policy origin run) (fuel : Nat) :
    Solo plan policy origin (run.finish policy fuel) := by
  apply SoloRun.finish_induction solo
  · exact fun run solo possible => solo.step (Drive.resolution?_of_canStep possible)
  · exact fun run now solo => solo.pass now

theorem solo_drive (plan : Plan) (policy : RetryPolicy) (job : Job) (fuel : Nat) :
    Solo plan policy (.begin .start .empty job) (policy.drive job fuel) :=
  Solo.begin.finish fuel

/-- What holds of a job that is driven alone. -/
structure SoloRun.Heeds (plan : Plan) (policy : RetryPolicy) (job : Job) (run : SoloRun) : Prop where
  tidy : run.completions.Tidy
  owns : Drive.Owns plan job run.drive run.completions
  traced : Traced (Drive.Heeds plan) policy job run.drive run.made.toList

theorem Solo.heeds {now : Instant} {completions : Completions} {job : Job}
    (solo : Solo plan policy (.begin now completions job) run) (tidy : completions.Tidy)
    (own : job.Private) (untimed : policy.completionTimeout = none) :
    run.Heeds plan policy job := by
  induction solo with
  | begin => exact ⟨tidy, .begin job completions, .begin⟩
  | @step run solo going ih =>
      obtain ⟨tidy, owns, traced⟩ := ih
      have step : DriveStep policy run.now run.completions run.drive _ _ _ :=
        Drive.step_driveStep going
      refine ⟨(Drive.effect_of_driveStep own traced.ofJob tidy step).change.tidy,
        owns.of_driveStep own traced.ofJob untimed tidy step, ?_⟩
      simpa [SoloRun.step] using traced.step run.now run.completions going ⟨tidy, owns.fits⟩
  | pass solo now ih => exact ⟨ih.tidy, ih.owns, ih.traced⟩
  | resolve solo gate ih =>
      refine ⟨?_, ih.owns.resolve ih.tidy gate, ih.traced⟩
      exact Completions.tidy_resolve ih.tidy gate _

/-- Each of the jobs comes to its end with the calls at its place. -/
abbrev Scripts (plan : Plan) : List Job → List (List JobCall) → Prop :=
  List.Forall₂ fun job calls => ∃ resolution, job.Ends plan resolution calls

theorem Scripts.unique {jobs : List Job} {scripts scripts' : List (List JobCall)}
    (left : Scripts plan jobs scripts) (right : Scripts plan jobs scripts') : scripts = scripts' := by
  refine List.right_unique_forall₂' ?_ left right
  rintro job calls calls' ⟨resolution, ends⟩ ⟨resolution', ends'⟩
  exact (ends.unique ends').2

theorem Alone.scripts {jobs : List Job} {now : Instant} {completions : Completions}
    {made : List JobCall} (alone : Alone plan policy jobs now completions made)
    (own : ∀ job ∈ jobs, job.Private) (untimed : policy.completionTimeout = none) :
    completions.Tidy ∧ ∃ scripts, Scripts plan jobs scripts ∧
      made.map JobCall.renumbered = scripts.flatten := by
  induction alone with
  | start => exact ⟨.empty, [], .nil, rfl⟩
  | @next jobs _ _ _ job run _ solo ended ih =>
      obtain ⟨tidy, scripts, before, same⟩ := ih fun other member =>
        own other (List.mem_append_left _ member)
      have heeds := solo.heeds tidy (own job (by simp)) untimed
      obtain ⟨resolution, ended⟩ := Option.isSome_iff_exists.mp ended
      refine ⟨heeds.tidy, scripts ++ [run.made.toList.map JobCall.renumbered], ?_, ?_⟩
      · exact List.rel_append before (.cons ⟨resolution, heeds.traced.ends ended⟩ .nil)
      · rw [List.map_append, same, List.flatten_append, List.flatten_singleton]

end KeyedJobs
