import DartUdp.Server.Rendezvous

/-!
# Handlers one after the other

The steps of a connection's task put together: it reads a message and goes on until
it listens again, and no other task goes on in between. The offerer and its accepter
then take turns, and time passes between the turns.
-/

namespace DartUdp.Server

open DartUdp.Lib DartUdp.Protocol

namespace Rendezvous

/-- The task writes all that it has to write. -/
def writeAll (s : Rendezvous) (peer : Peer) : Rendezvous :=
  s.run (List.replicate (s.tasks peer).sends.length (.goOn peer))

/-- The task goes through its next section, and writes what it has to write then. -/
def nextSection (s : Rendezvous) (peer : Peer) : Rendezvous := (s.goOn peer).writeAll peer

/-- The task handles a message from beginning to end. -/
def handle (s : Rendezvous) (peer : Peer) (message : Message) (requestId : UInt64) :
    Rendezvous :=
  ((((s.receive peer message requestId).writeAll peer).nextSection peer).nextSection
    peer).nextSection peer

end Rendezvous

/-- What the offerer does: it sends a message, or lets time pass. -/
inductive Turn where
  | say (message : Message) (requestId : UInt64)
  | wait (elapsed : Nat) (unixMillis : UInt64)

/-- The messages sent in some turns. -/
def said (turns : List Turn) : List Message :=
  turns.filterMap fun
    | .say message _ => some message
    | .wait .. => none

namespace Rendezvous

def takeTurn (offerer : Peer) (s : Rendezvous) : Turn → Rendezvous
  | .say message requestId => s.handle offerer message requestId
  | .wait elapsed unixMillis => s.step (.tick elapsed unixMillis)

/-- The message of the turn, if it is one, has been kept or forwarded. -/
def TurnRoutes (offerer : Peer) (s : Rendezvous) (turn : Turn) : Prop :=
  (s.takeTurn offerer turn).routed = s.routed ++ said [turn]

/-- The accepter asks to join between two turns of the offerer. -/
def joinBetween (s : Rendezvous) (offerer accepter : Peer) (join : Message) (requestId : UInt64)
    (before after : List Turn) : Rendezvous :=
  after.foldl (takeTurn offerer)
    ((before.foldl (takeTurn offerer) s).handle accepter join requestId)

end Rendezvous

end DartUdp.Server
