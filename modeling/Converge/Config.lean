import Converge.Bindings
import Converge.Duration

/-!
# Configuration

What holds for every call unless the call says otherwise: bindings, and how long and how often is waited.

## Main Definitions

* `Config` — bindings, timeout and interval.
* `Config.standard` — no bindings, ten seconds, a quarter of a second.
* `Config.toDocument` — the written form.
-/

namespace Converge

/-- Bindings, timeout and interval of calls that do not give their own. -/
structure Config where
  bindings : Bindings
  timeout : Duration
  interval : Duration
  deriving DecidableEq

namespace Config

/-- No bindings, ten seconds, a quarter of a second. -/
def standard : Config := ⟨Table.empty, .tenSeconds, .quarterSecond⟩

/-- The configuration as an object, with durations as literals. -/
def toDocument (config : Config) : Document :=
  Document.ofEntries
    [("bindings", Bindings.toDocument config.bindings), ("timeout", .string config.timeout.literal),
     ("interval", .string config.interval.literal)]

end Config

end Converge
