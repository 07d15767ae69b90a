/-!
This module contains the ways in which a store command can fail, their texts, and what each of them
says about sending the command again.
-/

namespace Rollup.Store

inductive FaultKind where
  | responseError
  | parseError
  | authenticationFailed
  | typeError
  | execAbortError
  | busyLoadingError
  | noScriptError
  | invalidClientConfig
  | moved
  | ask
  | tryAgain
  | clusterDown
  | crossSlot
  | masterDown
  | ioError
  | clientError
  | extensionError
  | readOnly
  | masterNameNotFoundBySentinel
  | noValidReplicasFoundBySentinel
  | emptySentinelList
  | notBusy
  | clusterConnectionNotFound
  | noSub
  | resp3NotSupported
deriving DecidableEq

namespace FaultKind

def name : FaultKind → String
  | responseError => "ResponseError"
  | parseError => "ParseError"
  | authenticationFailed => "AuthenticationFailed"
  | typeError => "TypeError"
  | execAbortError => "ExecAbortError"
  | busyLoadingError => "BusyLoadingError"
  | noScriptError => "NoScriptError"
  | invalidClientConfig => "InvalidClientConfig"
  | moved => "Moved"
  | ask => "Ask"
  | tryAgain => "TryAgain"
  | clusterDown => "ClusterDown"
  | crossSlot => "CrossSlot"
  | masterDown => "MasterDown"
  | ioError => "IoError"
  | clientError => "ClientError"
  | extensionError => "ExtensionError"
  | readOnly => "ReadOnly"
  | masterNameNotFoundBySentinel => "MasterNameNotFoundBySentinel"
  | noValidReplicasFoundBySentinel => "NoValidReplicasFoundBySentinel"
  | emptySentinelList => "EmptySentinelList"
  | notBusy => "NotBusy"
  | clusterConnectionNotFound => "ClusterConnectionNotFound"
  | noSub => "NoSub"
  | resp3NotSupported => "RESP3NotSupported"

def all : List FaultKind :=
  [responseError, parseError, authenticationFailed, typeError, execAbortError, busyLoadingError,
    noScriptError, invalidClientConfig, moved, ask, tryAgain, clusterDown, crossSlot, masterDown,
    ioError, clientError, extensionError, readOnly, masterNameNotFoundBySentinel,
    noValidReplicasFoundBySentinel, emptySentinelList, notBusy, clusterConnectionNotFound, noSub,
    resp3NotSupported]

theorem mem_all (kind : FaultKind) : kind ∈ all := by
  cases kind <;> decide

def ofName? (s : String) : Option FaultKind :=
  all.find? fun kind => kind.name == s

end FaultKind

inductive IoKind where
  | timedOut
  | wouldBlock
  | connectionRefused
  | notFound
  | connectionReset
  | connectionAborted
  | notConnected
  | brokenPipe
  | unexpectedEof
  | permissionDenied
  | unsupported
  | other
deriving DecidableEq

inductive RetryMethod where
  | noRetry
  | waitAndRetry
  | retryImmediately
  | reconnect
  | reconnectFromInitialConnections
  | movedRedirect
  | askRedirect
deriving DecidableEq

namespace RetryMethod

def name : RetryMethod → String
  | noRetry => "NoRetry"
  | waitAndRetry => "WaitAndRetry"
  | retryImmediately => "RetryImmediately"
  | reconnect => "Reconnect"
  | reconnectFromInitialConnections => "ReconnectFromInitialConnections"
  | movedRedirect => "MovedRedirect"
  | askRedirect => "AskRedirect"

end RetryMethod

/--
How to go on after a failure of the given kind that was reported with a description.
-/
def FaultKind.retryMethod : FaultKind → RetryMethod
  | moved => .movedRedirect
  | ask => .askRedirect
  | tryAgain | masterDown | clusterDown | busyLoadingError => .waitAndRetry
  | masterNameNotFoundBySentinel | noValidReplicasFoundBySentinel => .waitAndRetry
  | parseError => .reconnect
  | clusterConnectionNotFound => .reconnectFromInitialConnections
  | ioError => .retryImmediately
  | _ => .noRetry

def IoKind.retryMethod : IoKind → RetryMethod
  | connectionRefused | notFound | connectionReset | connectionAborted => .reconnect
  | notConnected | brokenPipe | unexpectedEof => .reconnect
  | permissionDenied | unsupported => .noRetry
  | timedOut | wouldBlock | other => .retryImmediately

inductive Failure where
  | notFound
  | invalidConfiguration (text : String)
  -- a stored text is not what it should be
  | parse (text : String)
  | timeout
  -- a failure with a kind, a description and perhaps a detail
  | reported (kind : FaultKind) (description : String) (detail : Option String)
  -- a failed input or output operation
  | io (kind : IoKind) (text : String)
  -- an error code that only the server knows
  | extension (code : String) (detail : String)
deriving DecidableEq

namespace Failure

/--
A failed input or output operation. One that ran out of time is a timeout.
-/
def ofIo (kind : IoKind) (text : String) : Failure :=
  match kind with
  | .timedOut | .wouldBlock => timeout
  | kind => io kind text

def message : Failure → String
  | notFound => "Not found in redis"
  | invalidConfiguration text => "Invalid configuration: " ++ text
  | parse text => "Parse error: " ++ text
  | timeout => "Timeout error"
  | reported kind description none => s!"{description}- {kind.name}"
  | reported kind description (some detail) => s!"{description} - {kind.name}: {detail}"
  | io _ text => text
  | extension code detail => s!"{code}: {detail}"

def retryMethod : Failure → RetryMethod
  | timeout => .waitAndRetry
  | reported kind _ _ => kind.retryMethod
  | io kind _ => kind.retryMethod
  | notFound | invalidConfiguration _ | parse _ | extension _ _ => .noRetry

def IsTransient (failure : Failure) : Prop :=
  failure.retryMethod ≠ .noRetry

instance : DecidablePred IsTransient :=
  fun failure => inferInstanceAs (Decidable (failure.retryMethod ≠ .noRetry))

end Failure

end Rollup.Store
