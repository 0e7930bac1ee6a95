import CourseNet.SocketPacket
import CourseNet.SortedMap
import CourseNet.StepSystem

/-!
# The server of the socket lab

The accept loop of `BuildServer` and the client threads that run `Recieve`, over the shared map
`clients` and the descriptor table of the process.  One step is one section under `clients_mutex`,
one `SendPacket`, one `recv`, one `accept` or one `close`; everything between two such points is
local to its thread and is done in the step before.  A schedule is a list of events, so a run is any
interleaving.

Every connection has a number of its own that is never used again, while the operating system may
give the descriptor of a closed connection to the next one.  An exception that leaves a thread
terminates the process (`crashed`), and so does the SIGPIPE of a `send` to a client that has closed
its end: nothing catches the one or ignores the other.
-/

namespace CourseNet

namespace SocketServer

/-- Where a thread stands in `Recieve`. -/
inductive Pc
  /-- Before the test of the inner loop, or waiting in `recv`. -/
  | ready
  /-- About to send `p` to its own client. -/
  | reply (p : Packet)
  /-- In the MESSAGE branch with the target parsed, before the second locked section. -/
  | locate (srcid : ℤ) (target : Bytes) (targetId : ℤ) (content : Bytes)
  /-- With `target_sock` found, before the SIGNAL is sent. -/
  | forward (targetSock : ℕ) (srcid targetId : ℤ) (content : Bytes)
  /-- In `RemoveClient`, before its locked section. -/
  | remove
  /-- In `RemoveClient`, before `close`. -/
  | closing
  /-- The thread has returned. -/
  | finished
  /-- An exception left the thread. -/
  | thrown
deriving DecidableEq

/-- A client thread. -/
structure Thread where
  sock : ℕ
  recvBuffer : Bytes
  pc : Pc
deriving DecidableEq

/-- Where the accept loop stands, with the socket and the number of the connection it accepted. -/
inductive Acceptor
  | accepting
  | accepted (sock conn : ℕ)
  | registered (sock conn : ℕ)
  | removing (sock conn : ℕ)
  | closing (sock conn : ℕ)
deriving DecidableEq

structure Server where
  clients : SortedMap ℕ ℤ
  nextClientId : ℤ
  /-- The connection each open descriptor belongs to. -/
  descriptors : SortedMap ℕ ℕ
  /-- The number of the next connection. -/
  connections : ℕ
  acceptor : Acceptor
  threads : SortedMap ℕ Thread
  crashed : Bool

/-- What an observer of a run sees. -/
inductive Obs
  | received (conn : ℕ) (chunk : Bytes)
  | extracted (conn : ℕ) (p : Packet)
  | assigned (conn : ℕ) (id : ℤ)
  /-- A packet the thread of `conn` wrote on its own socket; `peer` is the connection behind it. -/
  | replied (conn sock : ℕ) (peer : Option ℕ) (p : Packet)
  /-- A SIGNAL for the client `targetId`; `peer` is the connection behind the socket. -/
  | signalled (conn sock : ℕ) (peer : Option ℕ) (targetId : ℤ) (payload : Bytes)
  /-- A step of the thread changed the map of clients. -/
  | changed (conn : ℕ)
deriving DecidableEq

/-- The events of a schedule. -/
inductive Event
  /-- `accept` returns the descriptor `sock`. -/
  | accept (sock : ℕ)
  /-- The accept loop goes on; `created` is whether `pthread_create` succeeds. -/
  | acceptor (created : Bool)
  /-- `recv` of a waiting thread returns `chunk`; an empty chunk is the end of the stream or an
  error. -/
  | recv (conn : ℕ) (chunk : Bytes)
  /-- The next step of a client thread; `text` is what `ctime` or `gethostname` yields if asked. -/
  | act (conn : ℕ) (text : Bytes)
  /-- The `send` that a client thread comes to raises SIGPIPE: the other end has closed. -/
  | brokenPipe (conn : ℕ)

/-- `int next_client_id = 1`, no client, no thread. -/
def Server.new : Server :=
  ⟨SortedMap.empty, 1, SortedMap.empty, 0, .accepting, SortedMap.empty, false⟩

/-- `clients[sock]`: an absent key is inserted with the value 0. -/
def index (clients : SortedMap ℕ ℤ) (sock : ℕ) : ℤ × SortedMap ℕ ℤ :=
  match clients.find? sock with
  | some id => (id, clients)
  | none => (0, clients.insertNew sock 0)

/-- The first socket in the map's order whose client has the id. -/
def findTarget (clients : SortedMap ℕ ℤ) (targetId : ℤ) : Option ℕ :=
  (clients.entries.find? fun e => e.2 == targetId).map Prod.fst

/-- The payload of a LIST reply: the positive ids, separated by dollar signs. -/
def listing (clients : SortedMap ℕ ℤ) : Bytes :=
  [36].intercalate (((clients.entries.map Prod.snd).filter fun id => decide (0 < id)).map
    DecimalText.toString)

/-- `ctime` without the newline at its end. -/
def timestr (text : Bytes) : Bytes := if text.getLast? = some 10 then text.dropLast else text

/-- What the MESSAGE branch does with its payload before the second locked section; `none` is the
exception of `std::stoi`. -/
def parseMessage (srcid : ℤ) (payload : Bytes) : Option Pc :=
  match splitMessage payload with
  | none => some (.reply ⟨PacketType.invalid, ascii "Bad message format"⟩)
  | some (target, content) =>
      match DecimalText.stoi target with
      | .ok targetId => some (.locate srcid target targetId content)
      | .error _ => none

/-- One packet up to the first step after its first locked section. -/
def handle (s : Server) (conn : ℕ) (t : Thread) (p : Packet) (text : Bytes) : Server × List Obs :=
  let goOn (clients : SortedMap ℕ ℤ) (pc : Pc) : Server :=
    { s with clients := clients, threads := s.threads.assign conn { t with pc := pc } }
  let (id, clients) := index s.clients t.sock
  if p.kind = PacketType.connect then
    ({ goOn (s.clients.assign t.sock s.nextClientId)
          (.reply ⟨PacketType.connect, DecimalText.toString s.nextClientId⟩) with
        nextClientId := s.nextClientId + 1 }, [.assigned conn s.nextClientId])
  else if p.kind = PacketType.time then
    (goOn clients (.reply ⟨PacketType.time, timestr text⟩), [])
  else if p.kind = PacketType.name then
    (goOn clients (.reply ⟨PacketType.name, text⟩), [])
  else if p.kind = PacketType.list then
    (goOn clients (.reply ⟨PacketType.list, listing clients⟩), [])
  else if p.kind = PacketType.message then
    match parseMessage id p.payload with
    | some pc => (goOn clients pc, [])
    | none => ({ goOn clients .thrown with crashed := true }, [])
  else if p.kind = PacketType.disconnect then (goOn clients .remove, [])
  else (goOn s.clients (.reply ⟨PacketType.invalid, ascii "Unsupported type"⟩), [])

/-- The next step of the thread `t` of the connection `conn`. -/
def threadStep (s : Server) (conn : ℕ) (t : Thread) (text : Bytes) : Server × List Obs :=
  let goOn (pc : Pc) : Server := { s with threads := s.threads.assign conn { t with pc := pc } }
  match t.pc with
  | .ready =>
      match Framing.split? t.recvBuffer with
      | none => (s, [])
      | some (p, rest) =>
          let r := handle s conn { t with recvBuffer := rest } p text
          (r.1, .extracted conn p :: r.2)
  | .reply p => (goOn .ready, [.replied conn t.sock (s.descriptors.find? t.sock) p])
  | .locate srcid _ targetId content =>
      match findTarget s.clients targetId with
      | none => (goOn (.reply ⟨PacketType.invalid, ascii "Target not found"⟩), [])
      | some targetSock => (goOn (.forward targetSock srcid targetId content), [])
  | .forward targetSock srcid targetId content =>
      (goOn (.reply ⟨PacketType.message, ascii "Message Sending Success"⟩),
        [.signalled conn targetSock (s.descriptors.find? targetSock) targetId
          (DecimalText.toString srcid ++ 36 :: content)])
  | .remove => ({ goOn .closing with clients := s.clients.erase t.sock }, [])
  | .closing => ({ goOn .finished with descriptors := s.descriptors.erase t.sock }, [])
  | .finished | .thrown => (s, [])

/-- The next step of the accept loop after `accept`. -/
def acceptorStep (s : Server) (created : Bool) : Server :=
  match s.acceptor with
  | .accepting => s
  | .accepted sock conn =>
      { s with clients := s.clients.assign sock 0, acceptor := .registered sock conn }
  | .registered sock conn =>
      if created then
        { s with threads := s.threads.assign conn ⟨sock, [], .ready⟩, acceptor := .accepting }
      else { s with acceptor := .removing sock conn }
  | .removing sock conn =>
      { s with clients := s.clients.erase sock, acceptor := .closing sock conn }
  | .closing sock _ =>
      { s with descriptors := s.descriptors.erase sock, acceptor := .accepting }

/-- The thread waits in `recv`. -/
def Thread.Waits (t : Thread) : Prop := t.pc = .ready ∧ Framing.split? t.recvBuffer = none

instance (t : Thread) : Decidable t.Waits := inferInstanceAs (Decidable (_ ∧ _))

/-- The socket that the thread is about to send on. -/
def Thread.sendSock? (t : Thread) : Option ℕ :=
  match t.pc with
  | .reply _ => some t.sock
  | .forward targetSock _ _ _ => some targetSock
  | _ => none

/-- The thread is about to send to a connection, which a closed descriptor has none of. -/
def Server.Sends (s : Server) (t : Thread) : Prop :=
  ∃ sock ∈ t.sendSock?, (s.descriptors.find? sock).isSome = true

instance (s : Server) (t : Thread) : Decidable (s.Sends t) :=
  inferInstanceAs (Decidable (∃ sock ∈ t.sendSock?, _))

/-- The thread after its `recv` returned. -/
def Thread.afterRecv (t : Thread) (chunk : Bytes) : Thread :=
  if chunk = [] then { t with pc := .remove }
  else { t with recvBuffer := t.recvBuffer ++ chunk }

/-- What `recv` of the waiting thread `t` changes. -/
def recvStep (s : Server) (conn : ℕ) (t : Thread) (chunk : Bytes) : Server × List Obs :=
  ({ s with threads := s.threads.assign conn (t.afterRecv chunk) }, [.received conn chunk])

/-- One event.  An event that cannot happen in the state changes nothing, and nothing happens after
a crash. -/
def step (s : Server) : Event → Server × List Obs
  | .accept sock =>
      if s.crashed = false ∧ s.acceptor = .accepting ∧ s.descriptors.find? sock = none then
        ({ s with
            descriptors := s.descriptors.assign sock s.connections
            connections := s.connections + 1
            acceptor := .accepted sock s.connections }, [])
      else (s, [])
  | .acceptor created => if s.crashed then (s, []) else (acceptorStep s created, [])
  | .recv conn chunk =>
      match s.threads.find? conn with
      | none => (s, [])
      | some t => if s.crashed = false ∧ t.Waits then recvStep s conn t chunk else (s, [])
  | .act conn text =>
      match s.threads.find? conn with
      | none => (s, [])
      | some t =>
          if s.crashed then (s, [])
          else
            let r := threadStep s conn t text
            (r.1, r.2 ++ if r.1.clients = s.clients then [] else [.changed conn])
  | .brokenPipe conn =>
      match s.threads.find? conn with
      | none => (s, [])
      | some t => if s.crashed = false ∧ s.Sends t then ({ s with crashed := true }, []) else (s, [])

/-- The observer of a run. -/
structure Run where
  server : Server
  log : List Obs

def Run.new : Run := ⟨Server.new, []⟩

def Run.step (r : Run) (e : Event) : Run :=
  ⟨(SocketServer.step r.server e).1, r.log ++ (SocketServer.step r.server e).2⟩

end SocketServer

end CourseNet
