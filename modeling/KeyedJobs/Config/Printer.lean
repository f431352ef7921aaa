import KeyedJobs.Config.Settings

/-! # Settings as a text -/

namespace KeyedJobs.Config

/-- The value of a setting as it is written. -/
def renderValue (config : Config) : Setting → String
  | .workers => toString config.workers
  | .completionTimeout =>
      match config.completionTimeoutMs with
      | some ms => toString ms
      | none => "null"
  | .retryBackoff => toString config.retryBackoffMs
  | .shutdownPolicy => "\"" ++ config.shutdownPolicy.keyword ++ "\""

/-- A member of the written object. -/
def renderMember (config : Config) (setting : Setting) : String :=
  "\"" ++ setting.key ++ "\":" ++ config.renderValue setting

/-- Writes all settings, in order and without blanks. -/
def render (config : Config) : String :=
  "\x7b" ++ ",".intercalate (Setting.all.map config.renderMember) ++ "\x7d"

end KeyedJobs.Config
