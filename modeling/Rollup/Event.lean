import Rollup.Resolution
import Rollup.Store.Command

/-!
This module contains what the operations on counters report while they run, for metrics and for
warnings.
-/

namespace Rollup

inductive Event where
  | incremented
  | wasReset
  | queried (r : Resolution)
  -- a command failed and is about to be sent again
  | retried (verb : Store.Verb)
  -- this many fields of a hash were ignored
  | ignoredFields (n : Nat)
deriving DecidableEq

namespace Event

def warnings : Event → Nat
  | retried _ => 1
  | ignoredFields n => n
  | incremented | wasReset | queried _ => 0

/--
The counter metric that an event adds to, with its labels, for a backend of the given name.
-/
def metric? (backend : String) : Event → Option String
  | incremented => some s!"aggregate_counter_increments_total\x7bbackend={backend}\x7d"
  | wasReset => some s!"aggregate_counter_resets_total\x7bbackend={backend}\x7d"
  | queried r =>
    some s!"aggregate_counter_queries_total\x7bbackend={backend},resolution={r.name}\x7d"
  | retried verb => some s!"aggregate_counter_backend_retries_total\x7bop={verb.name}\x7d"
  | ignoredFields _ => none

end Event

end Rollup
