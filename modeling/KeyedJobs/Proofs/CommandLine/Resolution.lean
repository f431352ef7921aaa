import KeyedJobs.Proofs.CommandLine.Course
import KeyedJobs.Proofs.CommandLine.Fuel
import KeyedJobs.Proofs.CommandLine.Ranges
import KeyedJobs.Proofs.Config.Content

/-! # What a command line resolves to

Arguments come to one full set of settings, in which flags go before the file and the file before the
defaults, or to a failure before anything is run. With settings that hold, the program ends well.
-/

namespace KeyedJobs.CommandLine

open Load (Profile)

variable {machine : Machine} {files : Files} {args : List String} {a : Arguments} {given : Settings}

namespace Arguments

/-- The arguments themselves are refused for this. -/
inductive Faulty (a : Arguments) : ArgumentFault → Prop where
  | keys (zero : a.profile.keys = 0) : Faulty a .noKeys
  | workers (keyed : a.profile.keys ≠ 0) (zero : a.settings.workers = some 0) :
      Faulty a .noWorkers

/-- The arguments themselves are not refused. -/
def Allowed (a : Arguments) : Prop :=
  a.profile.keys ≠ 0 ∧ a.settings.workers ≠ some 0

/-- The settings that the file gives, which hold on their own. Without a file none are given. -/
inductive Reads (a : Arguments) (machine : Machine) (files : Files) : Settings → Prop where
  | nothing (fileless : a.config = none) : Reads a machine files {}
  | file {path text given} (named : a.config = some path) (readable : files.text path = .ok text)
      (wellFormed : Settings.read text = .ok given)
      (valid : (given.onTopOf (.default machine)).validate = .ok ()) : Reads a machine files given

/-- The settings that hold, each as a flag gives it, or else as the file does, or else by default. -/
def layered (a : Arguments) (machine : Machine) (file : Settings) : Config where
  workers := (a.settings.workers <|> file.workers).getD (Config.default machine).workers
  completionTimeoutMs :=
    (a.settings.completionTimeoutMs <|> file.completionTimeoutMs).getD
      (Config.default machine).completionTimeoutMs
  retryBackoffMs :=
    (a.settings.retryBackoffMs <|> file.retryBackoffMs).getD (Config.default machine).retryBackoffMs
  shutdownPolicy :=
    (a.settings.shutdownPolicy <|> file.shutdownPolicy).getD (Config.default machine).shutdownPolicy

/-- No settings result: the file is to blame, whatever the flags say, or what results from both. -/
inductive Fails (a : Arguments) (machine : Machine) (files : Files) : SettingsError → Prop where
  | unreadable {path fault} (named : a.config = some path) (unread : files.text path = .error fault) :
      Fails a machine files (.file (.unreadable path fault))
  | malformed {path text error} (named : a.config = some path) (readable : files.text path = .ok text)
      (illFormed : Settings.read text = .error error) :
      Fails a machine files (.file (.invalid path error))
  | invalid {path text given fault} (named : a.config = some path)
      (readable : files.text path = .ok text) (wellFormed : Settings.read text = .ok given)
      (refused : (given.onTopOf (.default machine)).validate = .error fault) :
      Fails a machine files (.file (.invalid path (.refused fault)))
  | merged {given fault} (reads : a.Reads machine files given)
      (refused : (a.layered machine given).validate = .error fault) :
      Fails a machine files (.refused fault)

/-- The settings come to this. -/
inductive Settles (a : Arguments) (machine : Machine) (files : Files) : Config → Prop where
  | layered {given : Settings} (reads : a.Reads machine files given)
      (valid : (a.layered machine given).validate = .ok ()) :
      Settles a machine files (a.layered machine given)

theorem Faulty.check {fault : ArgumentFault} (faulty : a.Faulty fault) :
    a.check = .error fault := by
  cases faulty with
  | keys zero => rw [Arguments.check, if_pos zero]
  | workers keyed zero => rw [Arguments.check, if_neg keyed, if_pos zero]

theorem Allowed.check (allowed : a.Allowed) : a.check = .ok () := by
  rw [Arguments.check, if_neg allowed.1, if_neg allowed.2]

theorem faulty_or_allowed (a : Arguments) : (∃ fault, a.Faulty fault) ∨ a.Allowed := by
  by_cases zero : a.profile.keys = 0
  · exact .inl ⟨_, .keys zero⟩
  · by_cases idle : a.settings.workers = some 0
    · exact .inl ⟨_, .workers zero idle⟩
    · exact .inr ⟨zero, idle⟩

theorem onTopOf_onTopOf (a : Arguments) (machine : Machine) (file : Settings) :
    a.settings.onTopOf (file.onTopOf (.default machine)) = a.layered machine file := by
  obtain ⟨-, ⟨workers, timeout, backoff, policy⟩, -⟩ := a
  cases workers <;> cases timeout <;> cases backoff <;> cases policy <;> rfl

theorem Reads.baseConfig (reads : a.Reads machine files given) :
    a.baseConfig machine files = .ok (given.onTopOf (.default machine)) := by
  cases reads with
  | nothing fileless =>
      rw [Arguments.baseConfig, fileless]
      rfl
  | file named readable wellFormed valid =>
      simp only [Arguments.baseConfig, named, Config.ofFile, readable]
      rw [Config.read_of_settings wellFormed, Settings.verdict, valid]
      rfl

theorem Reads.effectiveConfig (reads : a.Reads machine files given) :
    a.effectiveConfig machine files = match (a.layered machine given).validate with
    | .error fault => .error (.refused fault)
    | .ok () => .ok (a.layered machine given) := by
  cases valid : (a.layered machine given).validate <;>
    simp only [Arguments.effectiveConfig, reads.baseConfig, onTopOf_onTopOf, valid]

theorem Settles.effectiveConfig {config : Config} (settles : a.Settles machine files config) :
    a.effectiveConfig machine files = .ok config ∧ config.validate = .ok () := by
  obtain ⟨reads, valid⟩ := settles
  rw [reads.effectiveConfig, valid]
  exact ⟨rfl, rfl⟩

theorem Settles.unique {config config' : Config} (settles : a.Settles machine files config)
    (settles' : a.Settles machine files config') : config = config' :=
  Except.ok.inj (settles.effectiveConfig.1.symm.trans settles'.effectiveConfig.1)

theorem Fails.effectiveConfig {error : SettingsError} (fails : a.Fails machine files error) :
    a.effectiveConfig machine files = .error error := by
  cases fails with
  | unreadable named unread =>
      simp only [Arguments.effectiveConfig, baseConfig, named, Config.ofFile, unread]
  | malformed named readable illFormed =>
      simp only [Arguments.effectiveConfig, baseConfig, named, Config.ofFile, readable,
        Config.read_of_error illFormed, Except.mapError]
  | invalid named readable wellFormed refused =>
      simp only [Arguments.effectiveConfig, baseConfig, named, Config.ofFile, readable,
        Config.read_of_settings wellFormed, Settings.verdict, refused, Except.mapError]
  | merged reads refused =>
      rw [reads.effectiveConfig, refused]

theorem fails_or_settles (a : Arguments) (machine : Machine) (files : Files) :
    (∃ error, a.Fails machine files error) ∨ ∃ config, a.Settles machine files config := by
  have layers {given : Settings} (reads : a.Reads machine files given) :
      (∃ error, a.Fails machine files error) ∨ ∃ config, a.Settles machine files config := by
    cases valid : (a.layered machine given).validate with
    | error fault => exact .inl ⟨_, .merged reads valid⟩
    | ok => exact .inr ⟨_, .layered reads valid⟩
  cases named : a.config with
  | none => exact layers (.nothing named)
  | some path =>
      cases readable : files.text path with
      | error fault => exact .inl ⟨_, .unreadable named readable⟩
      | ok text =>
          cases wellFormed : Settings.read text with
          | error error => exact .inl ⟨_, .malformed named readable wellFormed⟩
          | ok given =>
              cases valid : (given.onTopOf (.default machine)).validate with
              | error fault => exact .inl ⟨_, .invalid named readable wellFormed valid⟩
              | ok => exact layers (.file named readable wellFormed valid)

end Arguments

/-! ## Complaints -/

theorem complaint_ne {text rest : String} {c : Char} (starts : text.toList.head? = some c)
    (other : c ≠ 'p') : "Error: " ++ text ++ rest ≠
      "Error: per-key ordering was violated or jobs were left unresolved" := by
  intro same
  obtain ⟨tail, split⟩ := List.head?_eq_some_iff.mp starts
  have parts : "Error: per-key ordering was violated or jobs were left unresolved" =
      "Error: " ++ "p" ++ "er-key ordering was violated or jobs were left unresolved" := rfl
  have chars := congrArg String.toList (same.trans parts)
  simp only [String.toList_append, List.append_assoc, List.append_cancel_left_eq, split] at chars
  exact other (List.cons.inj chars).1

theorem failureText_cons (text : String) (causes : List String) :
    ∃ rest, failureText (text :: causes) = "Error: " ++ text ++ rest := by
  cases causes with
  | nil => exact ⟨"", String.append_empty.symm⟩
  | cons cause others =>
      let lines := (cause :: others).flatMap (·.splitOn "\n")
      refine ⟨"\n\nCaused by:\n" ++ Text.joined "\n" (lines.map ("    " ++ ·)), ?_⟩
      rw [← String.append_assoc]
      rfl

theorem failureText_ne (error : SettingsError) : failureText error.texts ≠
    "Error: per-key ordering was violated or jobs were left unresolved" := by
  have starts : ∃ text causes c, error.texts = text :: causes ∧ text.toList.head? = some c ∧
      c ≠ 'p' := by
    cases error with
    | file error =>
        cases error with
        | unreadable path fault =>
            exact ⟨"failed to read config file " ++ path, _, 'f', rfl, by simp, by decide⟩
        | invalid path error =>
            exact ⟨"invalid config file " ++ path, _, 'i', rfl, by simp, by decide⟩
    | refused fault =>
        cases fault with
        | noWorkers => exact ⟨_, _, 'w', rfl, rfl, by decide⟩
        | zeroTimeout => exact ⟨_, _, 'c', rfl, rfl, by decide⟩
  obtain ⟨text, causes, c, split, starts, other⟩ := starts
  obtain ⟨rest, shown⟩ := failureText_cons text causes
  rw [split, shown]
  exact complaint_ne starts other

theorem argumentFault_ne (fault : ArgumentFault) : "Error: " ++ fault.text ≠
    "Error: per-key ordering was violated or jobs were left unresolved" := by
  have starts : fault.text.toList.head? = some '-' := by cases fault <;> rfl
  rw [← String.append_empty (s := "Error: " ++ fault.text)]
  exact complaint_ne starts (by decide)

/-- The program runs its load under these settings, and ends well whatever turns its threads take. -/
structure Runs (machine : Machine) (files : Files) (args : List String) (p : Profile)
    (config : Config) : Prop where
  loads : ∀ fuel, run? machine files args fuel = runLoad? config p fuel
  /-- With enough moves for each call it ends, and it ends alike with any number of moves. -/
  ends : ∃ ending : Ending, ending.Successful p config ∧
    (∃ enough, ∀ fuel ≥ enough, run? machine files args fuel = some ending) ∧
    ∀ fuel ending', run? machine files args fuel = some ending' → ending' = ending
  orderly : ∀ turns position s, Course p config turns position s →
    Orderly p config turns position s

/-- What a command line comes to that was read. -/
structure Resolved (machine : Machine) (args : List String) (a : Arguments) : Prop where
  /-- Refused arguments end the program before a file is read. -/
  refused : ∀ fault, a.Faulty fault → fileRead? args = none ∧ ∀ files fuel,
    run? machine files args fuel = some ⟨2, .nothing, [], some ("Error: " ++ fault.text)⟩
  reads : a.Allowed → fileRead? args = a.config
  fails : a.Allowed → ∀ files error, a.Fails machine files error → ∀ fuel,
    run? machine files args fuel = some ⟨1, .nothing, [], some (failureText error.texts)⟩
  runs : a.Allowed → ∀ files config, a.Settles machine files config →
    Runs machine files args a.profile config
  /-- There is no other case. -/
  settled : ∀ files, (∃ fault, a.Faulty fault) ∨
    a.Allowed ∧
      ((∃ error, a.Fails machine files error) ∨ ∃ config, a.Settles machine files config)
  single : ∀ files config config', a.Settles machine files config →
    a.Settles machine files config' → config = config'
  ordered : ∀ files fuel ending, run? machine files args fuel = some ending →
    ending.complaint ≠ some "Error: per-key ordering was violated or jobs were left unresolved"

section

variable {config : Config}

theorem run?_of_faulty {fault : ArgumentFault} (accepted : Invocation.ofArguments args = .load a)
    (faulty : a.Faulty fault) (files : Files) (fuel : Nat) :
    run? machine files args fuel = some ⟨2, .nothing, [], some ("Error: " ++ fault.text)⟩ := by
  simp only [run?, accepted, Arguments.run?, faulty.check]
  rfl

theorem run?_of_fails {error : SettingsError} (accepted : Invocation.ofArguments args = .load a)
    (allowed : a.Allowed) (fails : a.Fails machine files error) (fuel : Nat) :
    run? machine files args fuel = some ⟨1, .nothing, [], some (failureText error.texts)⟩ := by
  simp only [run?, accepted, Arguments.run?, allowed.check, fails.effectiveConfig]
  rfl

theorem run?_of_settles (accepted : Invocation.ofArguments args = .load a) (allowed : a.Allowed)
    (settles : a.Settles machine files config) (fuel : Nat) :
    run? machine files args fuel = runLoad? config a.profile fuel := by
  simp only [run?, accepted, Arguments.run?, allowed.check, settles.effectiveConfig.1]

theorem runs_of_settles (accepted : Invocation.ofArguments args = .load a) (allowed : a.Allowed)
    (settles : a.Settles machine files config) (limited : a.profile.maxRetries < maxAttempts) :
    Runs machine files args a.profile config := by
  have same := run?_of_settles accepted allowed settles
  have ends := (inRange_of_ofArguments accepted).ends
  obtain ⟨report, clean, ended⟩ := runLoad?_of_regime (Profile.limitedRegime limited) ends
    settles.effectiveConfig.2 (Nat.le_refl _)
  refine ⟨same, ⟨endingOf config report, successful_endingOf clean,
    ⟨a.profile.mostMoves config + 10, fun fuel enough => ?_⟩, fun fuel ending' ended' => ?_⟩,
    fun turns position s course => course.orderly limited ends⟩
  · rw [same]
    exact runLoad?_of_le ended enough
  · rw [same] at ended'
    exact runLoad?_unique ended' ended

/-- A command line that is read resolves to a way in which the program ends, if the retries of its
load can be counted. -/
theorem resolved_of_ofArguments (accepted : Invocation.ofArguments args = .load a)
    (limited : a.profile.maxRetries < maxAttempts) : Resolved machine args a := by
  have fileRead : fileRead? args = if a.check.toBool then a.config else none := by
    simp only [fileRead?, accepted]
  have settled (files : Files) : (∃ fault, a.Faulty fault) ∨
      a.Allowed ∧
        ((∃ error, a.Fails machine files error) ∨ ∃ config, a.Settles machine files config) :=
    a.faulty_or_allowed.imp_right fun allowed => ⟨allowed, a.fails_or_settles machine files⟩
  refine
    { refused := fun fault faulty => ⟨?_, run?_of_faulty accepted faulty⟩
      reads := fun allowed => ?_
      fails := fun allowed files error fails => run?_of_fails accepted allowed fails
      runs := fun allowed files config settles => runs_of_settles accepted allowed settles limited
      settled
      single := fun files config config' settles settles' => settles.unique settles'
      ordered := fun files fuel ending ended => ?_ }
  · rw [fileRead, faulty.check]
    rfl
  · rw [fileRead, allowed.check]
    rfl
  · rcases settled files with ⟨fault, faulty⟩ | ⟨allowed, ⟨error, fails⟩ | ⟨config, settles⟩⟩
    · obtain rfl := Option.some.inj ((run?_of_faulty accepted faulty files fuel).symm.trans ended)
      exact fun same => argumentFault_ne fault (Option.some.inj same)
    · obtain rfl := Option.some.inj ((run?_of_fails accepted allowed fails fuel).symm.trans ended)
      exact fun same => failureText_ne error (Option.some.inj same)
    · obtain ⟨ending', successful, -, alike⟩ :=
        (runs_of_settles accepted allowed settles limited).ends
      obtain rfl := alike fuel ending ended
      rw [successful.complaint]
      nofun

theorem text_of_toUTF8 {path text : String} (holds : files path = .ok text.toUTF8) :
    files.text path = .ok text := by
  have decoded : String.fromUTF8? text.toUTF8 = some text := dif_pos text.isValidUTF8
  have read : textOf text.toUTF8 = .ok text := by rw [textOf, decoded]
  rw [Files.text, holds]
  exact read

/-- The flag for the workers replaces what the file says of them. Still a file that asks for none of
them is refused. Where neither says how many there are, there are as many as the machine can run at
once, or four if that is not known. -/
theorem resolved_of_replaced_workers :
    let args := ["--config", "settings.json", "--workers=3", "--jobs", "5"]
    let a : Arguments := { config := some "settings.json", settings := { workers := some 3 },
                           profile := { jobs := 5 } }
    let files (text : String) : Files := fun _ => .ok text.toUTF8
    let eight : Machine := ⟨some ⟨8, by decide⟩⟩
    let unknown : Machine := ⟨none⟩
    (Invocation.ofArguments args = .load a ∧ a.profile.maxRetries < maxAttempts ∧
        Invocation.ofArguments [] = .load {}) ∧
      Resolved eight args a ∧
      (∀ fuel, run? eight (files "\x7b\"workers\": 0\x7d") args fuel =
        some ⟨1, .nothing, [], some (failureText ["invalid config file settings.json",
          "workers must be at least 1"])⟩) ∧
      Runs eight (files "\x7b\"workers\": 2, \"completion-timeout-ms\": 40\x7d") args a.profile
        ⟨3, some 40, 0, .drain⟩ ∧
      Runs eight (files "") [] {} ⟨8, none, 0, .drain⟩ ∧
      Runs unknown (files "") [] {} ⟨4, none, 0, .drain⟩ := by
  intro args a files eight unknown
  have accepted : Invocation.ofArguments args = .load a := by
    simp only [args, Invocation.ofArguments, Progress.readAll]
    rfl
  have limited : a.profile.maxRetries < maxAttempts := by decide
  have allowed : a.Allowed := ⟨by decide, by decide⟩
  have resolved : Resolved eight args a := resolved_of_ofArguments accepted limited
  have bare : Invocation.ofArguments [] = .load {} := by
    simp only [Invocation.ofArguments, Progress.readAll]
    rfl
  have allowed' : ({} : Arguments).Allowed := ⟨by decide, by decide⟩
  refine ⟨⟨accepted, limited, bare⟩, resolved, fun fuel => ?_, ?_, ?_, ?_⟩
  · have read : Settings.read "\x7b\"workers\": 0\x7d" = .ok { workers := some 0 } := by cbv
    exact resolved.fails allowed _ _ (.invalid rfl (text_of_toUTF8 rfl) read rfl) fuel
  · have read : Settings.read "\x7b\"workers\": 2, \"completion-timeout-ms\": 40\x7d" =
        .ok { workers := some 2, completionTimeoutMs := some (some 40) } := by cbv
    exact resolved.runs allowed _ _ (.layered (.file rfl (text_of_toUTF8 rfl) read rfl) rfl)
  · have resolved : Resolved eight [] {} := resolved_of_ofArguments bare (by decide)
    exact resolved.runs allowed' _ _ (.layered (.nothing rfl) rfl)
  · have resolved : Resolved unknown [] {} := resolved_of_ofArguments bare (by decide)
    exact resolved.runs allowed' _ _ (.layered (.nothing rfl) rfl)

end

end KeyedJobs.CommandLine
