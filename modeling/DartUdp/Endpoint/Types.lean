import DartUdp.Core.Connection
import DartUdp.Udp.Retry

/-!
# What an endpoint is asked and what it keeps

An endpoint runs many connections over one socket. Its handles send it commands;
each comes with the sender of a `oneshot` channel, which is a number here: the
request the answer is for. Instants and durations are in nanoseconds.
-/

namespace DartUdp.Endpoint

open Std (TreeMap)
open DartUdp.Lib DartUdp.Udp DartUdp.Core

/-! ## Errors -/

/-- An `io::Error` of the socket: one of the system's, or a datagram that went out in part. -/
inductive IoError where
  | os (code : Nat)
  | writeZero (message : String)
deriving DecidableEq

inductive EndpointError where
  | io (error : IoError)
  | invalidConfig (error : ConnectionConfigError)
  | protocol (error : ProtocolError)
  | core (error : CoreError)
  | closed
  | invalidCapacity (field : String)
  | connectionLimit
  | acceptQueueFull
  | commandChannelClosed
  | invalidRetryConfig
  | randomnessUnavailable
deriving DecidableEq

/-- `EndpointError::from` of a `RetryError`. -/
def EndpointError.ofRetry : RetryError → EndpointError
  | .invalidConfig => .invalidRetryConfig
  | .randomnessUnavailable => .randomnessUnavailable

inductive ConnectError where
  | endpoint (error : EndpointError)
  | core (error : CoreError)
  | connectionClosed (errorCode : Nat)
  | commandChannelClosed
deriving DecidableEq

inductive StreamError where
  | core (error : CoreError)
  | connectionClosed (errorCode : Nat)
  | commandChannelClosed
  | responseChannelClosed
  | invalidState (operation : String)
deriving DecidableEq

/-! ## Configuration -/

structure RetryConfig where
  enabled : Bool := true
  cookieSecret : Option (Vector UInt8 32) := none
  cookieTtl : Nat := 10 * 10 ^ 9
  clockSkew : Nat := 5 * 10 ^ 9

/-- `RetryConfig::prepare`; `filled` is what `getrandom` fills the secret with. -/
def RetryConfig.prepare (retry : RetryConfig) (filled : Option (Vector UInt8 32)) :
    Except RetryError RetryConfig :=
  if !retry.enabled then .ok retry
  else if retry.cookieTtl < 10 ^ 9 ∨ retry.clockSkew > retry.cookieTtl then .error .invalidConfig
  else
    match retry.cookieSecret <|> filled with
    | none => .error .randomnessUnavailable
    | some secret =>
        if secret.all (· == 0) then .error .invalidConfig
        else .ok { retry with cookieSecret := some secret }

structure EndpointConfig where
  connection : ConnectionConfig := {}
  commandCapacity : Nat := 1024
  acceptCapacity : Nat := 64
  maxConnections : Nat := 1024
  maxSendBatch : Nat := 64
  retry : RetryConfig := {}

/-- `EndpointConfig::validate`. -/
def EndpointConfig.validate (config : EndpointConfig) (filled : Option (Vector UInt8 32)) :
    Except EndpointError EndpointConfig :=
  match config.connection.validate with
  | .error error => .error (.invalidConfig error)
  | .ok () =>
      match config.retry.prepare filled with
      | .error error => .error (.ofRetry error)
      | .ok retry =>
          if config.commandCapacity = 0 then .error (.invalidCapacity "command_capacity")
          else if config.acceptCapacity = 0 then .error (.invalidCapacity "accept_capacity")
          else if config.maxConnections = 0 then .error (.invalidCapacity "max_connections")
          else if config.maxSendBatch = 0 then .error (.invalidCapacity "max_send_batch")
          else .ok { config with retry := retry }

/-! ## Commands and answers -/

structure PathBinding where
  peer : SocketAddr
deriving DecidableEq

inductive Command where
  | connect (path : PathBinding) (response : Nat)
  | openStream (connectionId response : Nat)
  | acceptStream (connectionId response : Nat)
  | read (connectionId streamId maxLen response : Nat)
  | write (connectionId streamId : Nat) (data : Bytes) (fin : Bool) (response : Nat)
  | flush (connectionId response : Nat)
  | close (connectionId errorCode : Nat) (reason : Bytes) (response : Nat)
  | shutdown
deriving DecidableEq

/-- The requests a command carries the sender of. -/
def Command.responses : Command → List Nat
  | .connect _ response => [response]
  | .openStream _ response => [response]
  | .acceptStream _ response => [response]
  | .read _ _ _ response => [response]
  | .write _ _ _ _ response => [response]
  | .flush _ response => [response]
  | .close _ _ _ response => [response]
  | .shutdown => []

/-- What is sent through a `oneshot` channel. A connection is told by its id. -/
inductive Response where
  | connected (result : Except ConnectError Nat)
  | stream (result : Except StreamError Nat)
  | read (result : Except StreamError ReadResult)
  | written (result : Except StreamError Nat)
  | flushed (result : Except StreamError Unit)
  | closed (result : Except ConnectError Unit)

/-! ## A connection of the endpoint -/

structure PendingRead where
  maxLen : Nat
  response : Nat

structure PendingWrite where
  data : Bytes
  fin : Bool
  response : Nat

/-- `ConnectionRuntime`. -/
structure Runtime where
  core : Connection
  path : PathBinding
  isServer : Bool
  lastAdvancedAt : Nat
  connectWaiter : Option Nat := none
  accepted : Bool
  incomingStreams : List Nat := []
  pendingAccepts : List Nat := []
  pendingReads : TreeMap Nat PendingRead := ∅
  pendingWrites : TreeMap Nat PendingWrite := ∅
  pendingFlushes : List Nat := []

/-- A call on the core of a connection: what it answers, and the core it leaves. -/
def call {α : Type} (m : ConnM α) (core : Connection) : Except CoreError α × Connection :=
  match m core with
  | .ok a core => (.ok a, core)
  | .error e core => (.error e, core)

end DartUdp.Endpoint
