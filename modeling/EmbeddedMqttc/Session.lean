import EmbeddedMqttc.Client

/-!
# A client and its broker

A client, a connection that is reliable and in order until it is lost with all that is on it, and a
broker that answers each packet that it receives once, after any delay and in any order. Its session
is persistent: it remembers a pid of QoS 2 from the first PUBLISH to the PUBREL, and takes over a
message only when it does not remember the pid.
-/

namespace EmbeddedMqttc

variable {QUEUE BUFFER TOPIC : Nat}

/-- The answer of a broker to a packet. The return codes of a SUBACK are its choice. -/
def Packet.answer (returnCodes : List SubscribeReturnCodes) : Packet → Option Packet
  | .publish message =>
    match message.qospid with
    | .atMostOnce => none
    | .atLeastOnce pid => some (.puback pid)
    | .exactlyOnce pid => some (.pubrec pid)
  | .pubrel pid => some (.pubcomp pid)
  | .subscribe request => some (.suback ⟨request.pid, returnCodes⟩)
  | .unsubscribe request => some (.unsuback request.pid)
  | _ => none

/-- The packets that acknowledge others. -/
inductive Ack where
  | puback
  | pubrec
  | pubcomp
  | suback
  | unsuback
  deriving DecidableEq, Repr

/-- What a packet acknowledges, with its pid. -/
def Packet.acks : Packet → Option (Ack × Pid)
  | .puback pid => some (.puback, pid)
  | .pubrec pid => some (.pubrec, pid)
  | .pubcomp pid => some (.pubcomp, pid)
  | .suback response => some (.suback, response.pid)
  | .unsuback pid => some (.unsuback, pid)
  | _ => none

/-- The persistent session of a broker. `takenOver` is history: the requests whose messages it has
taken over. -/
structure BrokerSession where
  remembered : List Pid
  takenOver : List (Option UniqueID)

/-- The broker receives a packet. -/
def BrokerSession.receive (b : BrokerSession) (w : Written) : BrokerSession :=
  match w.packet with
  | .publish message =>
    match message.qospid with
    | .exactlyOnce pid =>
      if pid ∈ b.remembered then b
      else
        { remembered := pid :: b.remembered
          takenOver := b.takenOver ++ [w.request] }
    | _ => b
  | .pubrel pid => { b with remembered := b.remembered.filter (· ≠ pid) }
  | _ => b

/-- `owed` are the answers that the broker has not given yet and `toClient` the packets on their way
to the client; those on the way to the broker are `client.env.outgoing`. `received` is history: all
packets that the broker has received. -/
structure Session (QUEUE BUFFER TOPIC : Nat) where
  client : Client QUEUE BUFFER TOPIC
  owed : List Packet
  toClient : List Packet
  broker : BrokerSession
  received : List Written

namespace Session

inductive Label where
  | client (l : Client.Label)
  | clientReceive
  | brokerReceive (returnCodes : List SubscribeReturnCodes)
  | brokerAnswer (i : Nat)
  /-- The broker sends a packet of its own. -/
  | brokerSend (packet : Packet)
  | reconnect (d : Duration)

def new : Session QUEUE BUFFER TOPIC where
  client := .new
  owed := []
  toClient := []
  broker := { remembered := [], takenOver := [] }
  received := []

variable (s : Session QUEUE BUFFER TOPIC)

/-- The packets on the way to the broker are replaced. -/
def withOutgoing (outgoing : List Written) : Client QUEUE BUFFER TOPIC :=
  { s.client with env := { s.client.env with outgoing } }

/-- All packets that the client gets come over the connection. -/
def next (topicPathCapacity : Nat) : Label → Option (Session QUEUE BUFFER TOPIC)
  | .client (.receive _) => none
  | .client l => some { s with client := (s.client.outcome topicPathCapacity l).2 }
  | .clientReceive =>
    match s.toClient with
    | [] => none
    | packet :: toClient =>
      some
        { s with
          client := (s.client.outcome topicPathCapacity (.receive packet)).2
          toClient }
  | .brokerReceive returnCodes =>
    match s.client.env.outgoing with
    | [] => none
    | w :: outgoing =>
      some
        { s with
          client := s.withOutgoing outgoing
          owed := s.owed ++ (w.packet.answer returnCodes).toList
          broker := s.broker.receive w
          received := s.received ++ [w] }
  | .brokerAnswer i =>
    (s.owed[i]?).map fun packet =>
      { s with
        owed := s.owed.eraseIdx i
        toClient := s.toClient ++ [packet] }
  | .brokerSend packet =>
    match packet.acks with
    | none => some { s with toClient := s.toClient ++ [packet] }
    | some _ => none
  | .reconnect d =>
    some
      { s with
        client := { s.withOutgoing [] with env.now := s.client.env.now + d }
        owed := []
        toClient := [] }

end Session

end EmbeddedMqttc
