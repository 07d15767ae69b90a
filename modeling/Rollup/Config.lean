import Rollup.KeySpace
import Rollup.Retry.Policy
import Rollup.Text.Blank

/-!
This module contains the configuration: where counters are kept and how the store is talked to. It
is read from environment variables, each with a value for its absence, and the first variable that
cannot be read is the error.
-/

namespace Rollup

open Rollup.Time

inductive Backend where
  | redis
  | memory
deriving DecidableEq

namespace Backend

def name : Backend → String
  | redis => "redis"
  | memory => "memory"

end Backend

inductive SettingError where
  | backend (text : String)
  | millis
  | empty
deriving DecidableEq

namespace SettingError

def message : SettingError → String
  | backend text => text ++ " is not a valid backend, expected redis or memory"
  | millis => "expected a duration in milliseconds"
  | empty => "value must not be empty"

end SettingError

def Backend.parse (s : String) : Except SettingError Backend :=
  let word := Text.word s
  if word = "redis" then .ok redis
  else if word = "memory" ∨ word = "in-memory" then .ok memory
  else .error (.backend s)

def parseMillis (s : String) : Except SettingError Duration :=
  match Text.readUnsigned 64 s with
  | .ok n => .ok (Duration.ofMillis n)
  | .error _ => .error .millis

def parseNonEmpty (s : String) : Except SettingError String :=
  if s = "" then .error .empty else .ok s

structure Config where
  backend : Backend
  url : String
  keyRoot : String
  -- the longest wait for a reply, zero for no bound
  responseTimeout : Duration
  -- the longest wait for a connection, zero for no bound
  connectionTimeout : Duration
  retry : Retry.Policy
deriving DecidableEq

namespace Config

structure Unreadable where
  name : String
deriving DecidableEq

def Unreadable.message (e : Unreadable) : String :=
  "Failed to parse environment variable " ++ e.name

def read {ε α : Type} (environment : String → Option String) (name standard : String)
    (parse : String → Except ε α) : Except Unreadable α :=
  match parse ((environment name).getD standard) with
  | .ok a => .ok a
  | .error _ => .error ⟨name⟩

def ofEnvironment (environment : String → Option String) : Except Unreadable Config := do
  let text (s : String) : Except SettingError String := .ok s
  let number := Text.readUnsigned 32
  let backend ← read environment "AGGREGATE_COUNTER_BACKEND" "redis" Backend.parse
  let url ← read environment "REDIS_URL" "redis://localhost:6379/" text
  let keyRoot ← read environment "KEY_PREFIX" KeySpace.standardRoot parseNonEmpty
  let responseTimeout ← read environment "REDIS_RESPONSE_TIMEOUT_MS" "100" parseMillis
  let connectionTimeout ← read environment "REDIS_CONNECTION_TIMEOUT_MS" "5000" parseMillis
  let maxAttempts ← read environment "RETRY_MAX_ATTEMPTS" "3" number
  let coefficient ← read environment "RETRY_BACKOFF_COEFFICIENT" "2" number
  let initial ← read environment "RETRY_INITIAL_INTERVAL_MS" "1000" parseMillis
  let maximum ← read environment "RETRY_MAXIMUM_INTERVAL_MS" "1000" parseMillis
  let retry := Retry.Policy.of maxAttempts coefficient initial (some maximum)
  return { backend, url, keyRoot, responseTimeout, connectionTimeout, retry }

end Config

end Rollup
