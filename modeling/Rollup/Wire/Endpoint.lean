import Rollup.Config
import Rollup.CounterError
import Rollup.Wire.Url

/-!
This module contains what has to be known before a store can be talked to, and the checks of it.
-/

namespace Rollup.Wire

open Rollup.Store Rollup.Time

inductive Endpoint where
  | tcp (host : String) (service : Nat) (database : Int)
  | socket
deriving DecidableEq

namespace Endpoint

def standardService : Nat := 6379

def fault (description : String) : Failure :=
  .reported .invalidClientConfig description none

def database (path : String) : Except Failure Int :=
  let text := Url.inner path
  if text = "" then
    .ok 0
  else
    match Text.readSigned 64 text with
    | .ok n => .ok n
    | .error _ => .error (fault "Invalid database number")

def ofText (s : String) : Except Failure Endpoint :=
  match Url.parse? s with
  | none => .error (fault "Redis URL did not parse")
  | some url =>
    match url.transport, url.host with
    | .socket, _ => .ok socket
    | _, none => .error (fault "Missing hostname")
    | .tls, some _ =>
      .error (fault "can't connect with TLS, the feature is not enabled")
    | .tcp, some host => (database url.path).map (tcp host (url.service.getD standardService))

end Endpoint

/--
What a connection to a store is made with. A timeout that is not there is no bound.
-/
structure Settings where
  url : String
  responseTimeout : Option Duration
  connectionTimeout : Option Duration

namespace Settings

def checkTimeout (what : String) (timeout? : Option Duration) : Except Failure Unit :=
  if timeout? = some Duration.zero then
    .error (.invalidConfiguration
      s!"Redis {what} timeout cannot be Duration::ZERO - use None for no timeout")
  else
    .ok ()

def check (settings : Settings) : Except Failure Endpoint := do
  let endpoint ← Endpoint.ofText settings.url
  checkTimeout "response" settings.responseTimeout
  checkTimeout "connection" settings.connectionTimeout
  return endpoint

end Settings

inductive Backing where
  | ledger
  | store (endpoint : Endpoint) (keys : KeySpace) (policy : Retry.Policy)

/--
A configured timeout. Zero milliseconds are no bound.
-/
def timeoutOf (d : Duration) : Option Duration :=
  if d = Duration.zero then none else some d

def backing (config : Config) : Except CounterError Backing :=
  match config.backend with
  | .memory => .ok .ledger
  | .redis =>
    let settings : Settings := {
      url := config.url
      responseTimeout := timeoutOf config.responseTimeout
      connectionTimeout := timeoutOf config.connectionTimeout }
    match settings.check with
    | .ok endpoint => .ok (.store endpoint ⟨config.keyRoot⟩ config.retry)
    | .error failure => .error (.store failure)

end Rollup.Wire
