import Shebang.Config.Draft
import Shebang.Detect

/-!
Detection for those who call the program as a library. They bring the languages: a table that lies
on top of the built-in ones, a configuration that has been put together before, or nothing.
-/

namespace Shebang

/-- Why a file has no language: the configuration is at fault, or detection is. -/
inductive DetectFailure where
  | config (cause : ConfigError)
  | detection (cause : DetectionError)
  deriving DecidableEq, Repr

def DetectFailure.message : DetectFailure → Text
  | .config cause => cause.message
  | .detection cause => cause.message

def detectByTable (fs : FileSystem) (data : Option Table) (path : Path) :
    Except DetectFailure Language := do
  let registry ← (Registry.ofTable? data).mapError .config
  (registry.detect fs path).outcome.mapError .detection

def detectByConfig (fs : FileSystem) (config : Config) (path : Path) :
    Except DetectFailure Language :=
  ((Registry.ofConfig config).detect fs path).outcome.mapError .detection

end Shebang
