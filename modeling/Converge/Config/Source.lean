import Converge.Config.Reader
import Converge.Files

/-!
# Where the configuration comes from

The configuration is read from a file, if there is one, and then overridden by variables of the environment.

## Main Definitions

* `Environment` — variables and the home directory.
* `ConfigError` — why there is no configuration.
* `Config.ofFile` — the configuration of a file.
* `Config.load` — the configuration of a program.
-/

namespace Converge

/-- The variables a program was started with, and the home directory of its user. -/
structure Environment where
  lookup : String → Option String
  home : String

namespace Environment

/-- A variable whose value is not blank. -/
def given? (environment : Environment) (name : String) : Option String :=
  (environment.lookup name).filter (!Chars.blank ·)

end Environment

/-- Why there is no configuration. -/
inductive ConfigError where
  | unreadable (path : String) (cause : FileError)
  | notYaml (path : String) (cause : Yaml.Error)
  | invalidDuration (variableName value : String)
  deriving Repr, DecidableEq

/-- The words for a missing configuration. -/
def ConfigError.message : ConfigError → String
  | .unreadable path cause => "failed to read config " ++ path ++ ": " ++ cause.message
  | .notYaml path cause => "failed to parse config " ++ path ++ ": " ++ cause.message
  | .invalidDuration variableName value => variableName ++ " is not a valid duration: '" ++ value ++ "'"

namespace Config

/-- The variable with the path of the file. -/
def pathVariable : String := "SETTLE_CONFIG_PATH"

/-- The variable with the timeout. -/
def timeoutVariable : String := "SETTLE_TIMEOUT"

/-- The variable with the interval. -/
def intervalVariable : String := "SETTLE_INTERVAL"

/-- The configuration of a file. -/
def ofFile (files : Files) (path : String) : Except ConfigError Config := do
  let text ← (files.read path).mapError (.unreadable path)
  (read text).mapError (.notYaml path)

/-- The path of the file: the one that is given, or the usual one below the home directory. -/
def path (environment : Environment) : String :=
  match environment.given? pathVariable with
  | some path => Path.expandHome environment.home path
  | none => Path.below environment.home ".config/settle/config.yaml"

/-- The duration in a variable, or else the given one. -/
def override (environment : Environment) (name : String) (current : Duration) :
    Except ConfigError Duration :=
  match environment.given? name with
  | none => .ok current
  | some value =>
      match Duration.ofLiteral? value with
      | some duration => .ok duration
      | none => .error (.invalidDuration name value)

/-- The configuration of a program: that of its file, if there is one, with the overriding variables. -/
def load (environment : Environment) (files : Files) : Except ConfigError Config := do
  let path := path environment
  let config ← if files.found path then ofFile files path else .ok standard
  let timeout ← override environment timeoutVariable config.timeout
  let interval ← override environment intervalVariable config.interval
  return { config with timeout := timeout, interval := interval }

end Config

end Converge
