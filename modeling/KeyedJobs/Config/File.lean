import KeyedJobs.Config.Reader
import KeyedJobs.Folder

/-! # Settings in a file -/

namespace KeyedJobs

/-- Why no settings can be had from a file. -/
inductive ConfigFileError where
  | unreadable (path : String) (fault : FileFault)
  | invalid (path : String) (error : ReadError)
  deriving Repr, DecidableEq

/-- What failed, and the reason for it. -/
def ConfigFileError.texts : ConfigFileError → List String
  | unreadable path fault => [s!"failed to read config file {path}", fault.text]
  | invalid path error => [s!"invalid config file {path}", error.text]

/-- Reads all settings from a file, and checks them. -/
def Config.ofFile (machine : Machine) (files : Files) (path : String) :
    Except ConfigFileError Config :=
  match files.text path with
  | .error fault => .error (.unreadable path fault)
  | .ok text => (Config.read machine text).mapError (.invalid path)

end KeyedJobs
