import Partyline.Rooms

/-! `ChatServer` of `common/chat_server.cpp`, function by function.
A `ClientConnection *` or a map iterator is modelled by its key and every access
through it is a lookup; a lookup that fails sets `dangling`, which nothing
clears. Logging is left out. -/
namespace Partyline

structure Results where
  recvs : List RecvResult
  sends : List SendResult
  interests : List Bool

/-- `nonblocking` and `added`: whether the `fcntl` and the dispatcher's `add` on
the new descriptor succeed; `results`: what the calls on it return from then on. -/
inductive AcceptResult where
  | connection (fd : Fd) (nonblocking added : Bool) (results : Results)
  | eagain
  | eintr
  | error (errno : Nat)

structure Environment where
  accepts : List AcceptResult
  results : Fd → Results

def readyRead : UInt32 := 1
def readyWrite : UInt32 := 2
def readyError : UInt32 := 4

structure ReadyEvent where
  fd : Fd
  flags : UInt32

structure ChatServer where
  listener : Fd
  clients : Fd → Option ClientConnection
  rooms : List ChatRoom
  ports : Fd → Port
  serverIteration : Nat
  dangling : Bool

/-- `std::getline` on a space: every space ends a piece, and what follows the
last space is a piece only if it is not empty. -/
def tokens : Bytes → List Bytes
  | [] => []
  | ch :: rest =>
    if ch = space then [] :: tokens rest
    else match tokens rest with
      | [] => [[ch]]
      | word :: words => (ch :: word) :: words

def commands : List Bytes :=
  [ascii "LIST", ascii "JOIN", ascii "LEAVE", ascii "QUIT", ascii "WHERE"]

/-- `find('\n')` with the `substr` and `erase` that follow it. -/
def splitFrame : Bytes → Option (Bytes × Bytes)
  | [] => none
  | ch :: rest =>
    if ch = newline then some ([], rest)
    else (splitFrame rest).map fun (raw, remaining) => (ch :: raw, remaining)

def stripCarriageReturn (raw : Bytes) : Bytes :=
  if raw.getLast? = some carriageReturn then raw.dropLast else raw

def prompt : Bytes := ascii "enter your username: "

def leftLine (username oldName : Bytes) : Bytes :=
  ascii "> server: " ++ username ++ ascii " left room " ++ oldName ++ [newline]

def joinedLine (username name : Bytes) : Bytes :=
  ascii "> server: " ++ username ++ ascii " joined room " ++ name ++ [newline]

def quitLine (username : Bytes) : Bytes :=
  ascii "> server: " ++ username ++ ascii " has disconnected" ++ [newline]

def disconnectedLine (username : Bytes) : Bytes :=
  ascii "> server: " ++ username ++ ascii " disconnected" ++ [newline]

def chatLine (username : Bytes) (words : List Bytes) : Bytes :=
  ascii "> " ++ username ++ ascii ": " ++ (words.flatMap fun word => word ++ [space]) ++ [newline]

def whereReply (name : Bytes) : Bytes :=
  if name = [] then ascii "> server: room not found" ++ [newline]
  else ascii "> server: you are in room " ++ name ++ [newline]

def listReply (rooms : List ChatRoom) : Bytes :=
  let rule := ascii "+------+----------------+" ++ [newline]
  rule ++ ascii "| ID   | Room           |" ++ [newline] ++ rule ++
    (rooms.flatMap fun room =>
      ascii "| " ++ ascii (toString room.roomIdx) ++ ascii "\t| " ++ room.roomName ++ [newline]) ++
    rule

namespace ChatServer

/-- The constructor, and `run` up to its loop. -/
def initial (listener : Fd) : ChatServer where
  listener
  clients _ := none
  rooms := [⟨0, mainRoomName, []⟩]
  ports fd := ⟨if fd = listener then some false else none, [], [], [], []⟩
  serverIteration := 1
  dangling := false

def beginServerIteration (s : ChatServer) : ChatServer :=
  { s with serverIteration := s.serverIteration + 1 }

def dangle (s : ChatServer) : ChatServer := { s with dangling := true }

def setClient (s : ChatServer) (fd : Fd) (client : ClientConnection) : ChatServer :=
  { s with clients := Function.update s.clients fd (some client) }

def setPort (s : ChatServer) (fd : Fd) (port : Port) : ChatServer :=
  { s with ports := Function.update s.ports fd port }

def note (s : ChatServer) (fd : Fd) (effect : Effect) : ChatServer :=
  s.setPort fd ((s.ports fd).note effect)

/-- The kernel and the dispatcher decide what the calls of the next event return. -/
def load (s : ChatServer) (results : Fd → Results) : ChatServer :=
  { s with ports := fun fd =>
      { s.ports fd with
        recvs := (results fd).recvs
        sends := (results fd).sends
        interests := (results fd).interests } }

@[simp] theorem setClient_clients (s : ChatServer) (fd : Fd) (client : ClientConnection) :
    (s.setClient fd client).clients = Function.update s.clients fd (some client) := rfl

@[simp] theorem setClient_rooms (s : ChatServer) (fd : Fd) (client : ClientConnection) :
    (s.setClient fd client).rooms = s.rooms := rfl

@[simp] theorem setClient_ports (s : ChatServer) (fd : Fd) (client : ClientConnection) :
    (s.setClient fd client).ports = s.ports := rfl

@[simp] theorem setClient_dangling (s : ChatServer) (fd : Fd) (client : ClientConnection) :
    (s.setClient fd client).dangling = s.dangling := rfl

@[simp] theorem setClient_listener (s : ChatServer) (fd : Fd) (client : ClientConnection) :
    (s.setClient fd client).listener = s.listener := rfl

@[simp] theorem setClient_serverIteration (s : ChatServer) (fd : Fd)
    (client : ClientConnection) :
    (s.setClient fd client).serverIteration = s.serverIteration := rfl

@[simp] theorem setPort_clients (s : ChatServer) (fd : Fd) (port : Port) :
    (s.setPort fd port).clients = s.clients := rfl

@[simp] theorem setPort_rooms (s : ChatServer) (fd : Fd) (port : Port) :
    (s.setPort fd port).rooms = s.rooms := rfl

@[simp] theorem setPort_ports (s : ChatServer) (fd : Fd) (port : Port) :
    (s.setPort fd port).ports = Function.update s.ports fd port := rfl

@[simp] theorem setPort_dangling (s : ChatServer) (fd : Fd) (port : Port) :
    (s.setPort fd port).dangling = s.dangling := rfl

@[simp] theorem setPort_listener (s : ChatServer) (fd : Fd) (port : Port) :
    (s.setPort fd port).listener = s.listener := rfl

@[simp] theorem setPort_serverIteration (s : ChatServer) (fd : Fd) (port : Port) :
    (s.setPort fd port).serverIteration = s.serverIteration := rfl

def isOpen (s : ChatServer) (fd : Fd) : Bool := fd == s.listener || (s.clients fd).isSome

def queueOutput (s : ChatServer) (client : Fd) (data : Bytes) : Bool × ChatServer :=
  match s.clients client with
  | none => (false, s.dangle)
  | some record =>
    match queueOutputCommon s.serverIteration record (s.ports client) data with
    | (queued, record, port) => (queued, (s.setClient client record).setPort client port)

def flushOutput (s : ChatServer) (client : Fd) : Bool × ChatServer :=
  match s.clients client with
  | none => (false, s.dangle)
  | some record =>
    match flushOutputCommon s.serverIteration record (s.ports client) with
    | (flushed, record, port) => (flushed, (s.setClient client record).setPort client port)

def disconnect (s : ChatServer) (fd : Fd) (reason : String) : ChatServer :=
  match s.clients fd with
  | none => s
  | some client =>
    let oldRoom := client.currRoom
    -- `dispatcher.remove` and `close` leave no entry for the descriptor
    let port := { s.ports fd with
      writeInterest := none, history := .closed reason :: (s.ports fd).history }
    { s with
      clients := Function.update s.clients fd none
      rooms := Rooms.deleteEmptyRoom (Rooms.removeFromRooms s.rooms fd) oldRoom
      ports := Function.update s.ports fd port }

def joinRoom (s : ChatServer) (client : Fd) (name : Bytes) : ChatServer :=
  match Rooms.findOrCreate s.rooms name with
  | (rooms, room) =>
    match s.clients client with
    | none => s.dangle
    | some record =>
      let rooms := Rooms.removeFromRooms rooms client
      match Rooms.deref rooms room with
      | none => s.dangle
      | some target =>
        { s with rooms := Rooms.subscribe rooms room client }.setClient client
          { record with currRoom := target.roomIdx }

/-- One turn of the loop of `notifyRoom`. -/
def notifyClient (roomId : Nat) (excludedFd : Int) (message : Bytes) (s : ChatServer) (fd : Fd) :
    ChatServer :=
  if (fd : Int) = excludedFd then s
  else match s.clients fd with
    | none => s
    | some client =>
      if client.clientState ≠ .active ∨ client.currRoom ≠ roomId then s
      else match s.queueOutput fd message with
        | (true, s) => s
        | (false, s) => s.disconnect fd "slow client: room notification output queue overflow"

def notifyRoom (s : ChatServer) (roomId : Nat) (excludedFd : Int) (message : Bytes) : ChatServer :=
  match Rooms.findById s.rooms roomId with
  | none => s
  | some room => room.subscribedClients.foldl (notifyClient roomId excludedFd message) s

/-- The body of the loop of `acceptConnections` for a connection that is kept. -/
def acceptClient (s : ChatServer) (fd : Fd) (results : Results) : ChatServer :=
  let port := ⟨some false, results.recvs, results.sends, results.interests, []⟩
  let s := (s.setPort fd port).setClient fd
    { username := [], currRoom := 0, inputBuffer := [], outputQueue := [], outputQueueSize := 0
      peakPendingOutputBytes := 0, clientState := .awaitingUsername
      writeInterestEnabled := false, writeBudgetIteration := 0, writeBudgetRemaining := 0 }
  match s.queueOutput fd prompt with
  | (true, s) => s
  | (false, s) => s.disconnect fd "username prompt output queue overflow"

/-- `accept` never returns a descriptor that is open, so an entry that names one
is no answer the kernel can give and ends the loop like EAGAIN. -/
def acceptConnections : List AcceptResult → ChatServer → ChatServer
  | [], s => s
  | .eagain :: _, s => s
  | .error _ :: _, s => s
  | .eintr :: rest, s => acceptConnections rest s
  | .connection fd nonblocking added results :: rest, s =>
    if s.isOpen fd then s
    else if nonblocking = false ∨ added = false then acceptConnections rest s
    else acceptConnections rest (s.acceptClient fd results)

def listRooms (s : ChatServer) (client : Fd) : Bool × ChatServer :=
  s.queueOutput client (listReply s.rooms)

/-- The loop of `broadcast` over its snapshot of the room; the log line after it
reads the sender's record once more. -/
def broadcastLoop (sender : Fd) (output : Bytes) : List Fd → ChatServer → Bool × ChatServer
  | [], s =>
    match s.clients sender with
    | none => (true, s.dangle)
    | some _ => (true, s)
  | fd :: rest, s =>
    match s.clients sender with
    | none => (false, s.dangle)
    | some source =>
      if fd = sender then broadcastLoop sender output rest s
      else match s.clients fd with
        | none => broadcastLoop sender output rest s
        | some client =>
          if client.clientState ≠ .active ∨ client.currRoom ≠ source.currRoom then
            broadcastLoop sender output rest s
          else match s.queueOutput fd output with
            | (true, s) => broadcastLoop sender output rest s
            | (false, s) =>
              (false, s.disconnect fd "slow client: chat message output queue overflow")

def broadcast (s : ChatServer) (sender : Fd) (words : List Bytes) : Bool × ChatServer :=
  match s.clients sender with
  | none => (false, s.dangle)
  | some source =>
    match Rooms.findById s.rooms source.currRoom with
    | none => (false, s)
    | some room =>
      broadcastLoop sender (chatLine source.username words) room.subscribedClients s

/-- `notifyRoom(client->currRoom, -1, … client->username …)` after a `joinRoom`. -/
def announceJoin (s : ChatServer) (client : Fd) (name : Bytes) : ChatServer :=
  match s.clients client with
  | none => s.dangle
  | some record => s.notifyRoom record.currRoom (-1) (joinedLine record.username name)

def processFrame (s : ChatServer) (sender : Fd) (frame : Bytes) : Bool × ChatServer :=
  if frame = [] then (true, s)
  else
    let words := tokens frame
    let word := words.headD []
    match s.clients sender with
    | none => (false, s.dangle)
    | some source =>
      if word ∉ commands then s.broadcast sender words
      else if word = ascii "LIST" then
        match s.listRooms sender with
        | (true, s) => (true, s)
        | (false, s) =>
          (false, s.disconnect sender "slow client: LIST response output queue overflow")
      else if word = ascii "JOIN" ∧ words.length = 2 then
        let name := words.getD 1 []
        let oldRoom := source.currRoom
        let oldName := Rooms.roomName s.rooms oldRoom
        let s := if oldName ≠ name then
            s.notifyRoom oldRoom sender (leftLine source.username oldName)
          else s
        let s := s.joinRoom sender name
        let s := if oldName ≠ name then s.announceJoin sender name else s
        (true, { s with rooms := Rooms.deleteEmptyRoom s.rooms oldRoom })
      else if word = ascii "LEAVE" ∧ source.currRoom ≠ 0 then
        let oldRoom := source.currRoom
        let oldName := Rooms.roomName s.rooms oldRoom
        let s := s.notifyRoom oldRoom sender (leftLine source.username oldName)
        let s := s.joinRoom sender mainRoomName
        let s := s.announceJoin sender mainRoomName
        (true, { s with rooms := Rooms.deleteEmptyRoom s.rooms oldRoom })
      else if word = ascii "WHERE" ∧ words.length = 1 then
        match s.queueOutput sender (whereReply (Rooms.roomName s.rooms source.currRoom)) with
        | (true, s) => (true, s)
        | (false, s) =>
          (false, s.disconnect sender "slow client: WHERE response output queue overflow")
      else if word = ascii "QUIT" then
        let s := s.notifyRoom source.currRoom sender (quitLine source.username)
        (false, s.disconnect sender "client requested QUIT")
      else (true, s)

/-- How one turn of the frame loop of `handleRead` ends: `handleRead` returns,
the loop breaks, or it goes round again. -/
inductive FrameStep where
  | returned (s : ChatServer)
  | exhausted (s : ChatServer)
  | next (framesProcessed : Nat) (s : ChatServer)

/-- `client->inputBuffer.erase(0, newline + 1)`. -/
def eraseFrame (s : ChatServer) (fd : Fd) (client : ClientConnection) (remaining : Bytes)
    (taken : Effect) : ChatServer :=
  (s.setClient fd { client with inputBuffer := remaining }).note fd taken

def authenticate (s : ChatServer) (fd : Fd) (client : ClientConnection) (remaining frame : Bytes)
    (taken : Effect) : ChatServer :=
  let record := { client with
    inputBuffer := remaining, username := frame, clientState := .active }
  (((s.setClient fd record).note fd taken).joinRoom fd mainRoomName).announceJoin fd mainRoomName

def frameStep (fd : Fd) (framesProcessed : Nat) (s : ChatServer) : FrameStep :=
  match s.clients fd with
  | none => .returned s.dangle
  | some client =>
    match splitFrame client.inputBuffer with
    | none =>
      if client.inputBuffer.length > maxFrameBytes then
        .returned (s.disconnect fd "input frame limit exceeded")
      else .exhausted s
    | some (raw, remaining) =>
      if raw.length > maxFrameBytes then .returned (s.disconnect fd "input frame limit exceeded")
      else
        let frame := stripCarriageReturn raw
        match client.clientState with
        | .awaitingUsername =>
          let s := s.authenticate fd client remaining frame (.username raw frame)
          if (s.clients fd).isNone then .returned s else .next framesProcessed s
        | .active =>
          match (s.eraseFrame fd client remaining (.frame raw frame)).processFrame fd frame with
          | (false, s) => .returned s
          | (true, s) =>
            if (s.clients fd).isNone then .returned s else .next (framesProcessed + 1) s

/-- Everything one turn of the frame loop can do for a connected client. -/
theorem frameStep_cases {s : ChatServer} {fd : Fd} {client : ClientConnection}
    (found : s.clients fd = some client) (framesProcessed : Nat) :
    (splitFrame client.inputBuffer = none ∧ maxFrameBytes < client.inputBuffer.length ∧
      frameStep fd framesProcessed s = .returned (s.disconnect fd "input frame limit exceeded")) ∨
    (splitFrame client.inputBuffer = none ∧ client.inputBuffer.length ≤ maxFrameBytes ∧
      frameStep fd framesProcessed s = .exhausted s) ∨
    ∃ raw remaining, splitFrame client.inputBuffer = some (raw, remaining) ∧
      ((maxFrameBytes < raw.length ∧ frameStep fd framesProcessed s =
          .returned (s.disconnect fd "input frame limit exceeded")) ∨
        (raw.length ≤ maxFrameBytes ∧ client.clientState = .awaitingUsername ∧
          let t := s.authenticate fd client remaining (stripCarriageReturn raw)
            (.username raw (stripCarriageReturn raw))
          frameStep fd framesProcessed s =
            if t.clients fd = none then .returned t else .next framesProcessed t) ∨
        (raw.length ≤ maxFrameBytes ∧ client.clientState = .active ∧
          let result := (s.eraseFrame fd client remaining
            (.frame raw (stripCarriageReturn raw))).processFrame fd (stripCarriageReturn raw)
          frameStep fd framesProcessed s =
            if result.1 = false ∨ result.2.clients fd = none then .returned result.2
            else .next (framesProcessed + 1) result.2)) := by
  cases split : splitFrame client.inputBuffer with
  | none =>
    by_cases long : maxFrameBytes < client.inputBuffer.length
    · exact .inl ⟨rfl, long, by simp [frameStep, found, split, long]⟩
    · exact .inr (.inl ⟨rfl, by omega, by simp [frameStep, found, split, long]⟩)
  | some taken =>
    obtain ⟨raw, remaining⟩ := taken
    refine .inr (.inr ⟨raw, remaining, rfl, ?_⟩)
    by_cases long : maxFrameBytes < raw.length
    · exact .inl ⟨long, by simp [frameStep, found, split, long]⟩
    · have short : raw.length ≤ maxFrameBytes := by omega
      cases state : client.clientState with
      | awaitingUsername =>
        exact .inr (.inl ⟨short, rfl, by simp [frameStep, found, split, long, state]⟩)
      | active =>
        refine .inr (.inr ⟨short, rfl, ?_⟩)
        simp only [frameStep, found, split, gt_iff_lt, long, state, if_false]
        rcases ChatServer.processFrame _ fd _ with ⟨kept, t⟩
        cases kept <;> simp

inductive Drain where
  | returned (s : ChatServer)
  | drained (framesProcessed : Nat) (s : ChatServer)

/-- The frame loop of `handleRead`. Every turn takes the username or counts a
frame, so `maxProcessedFramesPerPoll + 1` turns are never used up. -/
def drainFrames (fd : Fd) : Nat → Nat → ChatServer → Drain
  | 0, framesProcessed, s => .drained framesProcessed s
  | turns + 1, framesProcessed, s =>
    if framesProcessed < maxProcessedFramesPerPoll then
      match frameStep fd framesProcessed s with
      | .returned s => .returned s
      | .exhausted s => .drained framesProcessed s
      | .next framesProcessed s => drainFrames fd turns framesProcessed s
    else .drained framesProcessed s

def setRecvs (s : ChatServer) (fd : Fd) (recvs : List RecvResult) : ChatServer :=
  s.setPort fd { s.ports fd with recvs }

/-- `client->inputBuffer.append(buffer, count)` and the limit check after it;
false when `handleRead` returns there. -/
def receive (s : ChatServer) (fd : Fd) (chunk : Bytes) : Bool × ChatServer :=
  match s.clients fd with
  | none => (false, s.dangle)
  | some client =>
    let inputBuffer := client.inputBuffer ++ chunk
    let s := (s.setClient fd { client with inputBuffer }).note fd (.received chunk)
    if inputBuffer.length > maxInputBufferBytes then
      (false, s.disconnect fd "input buffer limit exceeded")
    else (true, s)

/-- The notice and the `disconnect` on end of stream, a failed `recv` or a failed flush. -/
def peerGone (s : ChatServer) (fd : Fd) (reason : String) : ChatServer :=
  match s.clients fd with
  | none => s.dangle
  | some client =>
    (s.notifyRoom client.currRoom fd (disconnectedLine client.username)).disconnect fd reason

/-- The outer loop of `handleRead`, on the results its `recv` calls will return. -/
def readLoop (fd : Fd) : List RecvResult → Nat → Nat → ChatServer → ChatServer
  | recvs, bytesRead, framesProcessed, s =>
    if bytesRead < maxBytesReadPerPoll ∧ framesProcessed < maxProcessedFramesPerPoll then
      match recvs with
      | [] => s
      | .eagain :: rest => s.setRecvs fd rest
      | .eintr :: rest => s.setRecvs fd rest
      | .error _ :: rest => (s.setRecvs fd rest).peerGone fd "recv failed"
      | .received chunk _ :: rest =>
        let s := s.setRecvs fd rest
        if chunk = [] then s.peerGone fd "peer closed connection"
        else
          match s.receive fd chunk with
          | (false, s) => s
          | (true, s) =>
            match drainFrames fd (maxProcessedFramesPerPoll + 1) framesProcessed s with
            | .returned s => s
            | .drained framesProcessed s =>
              readLoop fd rest (bytesRead + chunk.length) framesProcessed s
    else s

def handleRead (s : ChatServer) (fd : Fd) : ChatServer :=
  match s.clients fd with
  | none => s
  | some _ => readLoop fd (s.ports fd).recvs 0 0 s

/-- The second half of `handleEvent`, for a client that is ready to be written to. -/
def handleWrite (s : ChatServer) (fd : Fd) : ChatServer :=
  match s.flushOutput fd with
  | (true, s) => s
  | (false, s) => s.peerGone fd "send failed"

def handleEvent (s : ChatServer) (env : Environment) (event : ReadyEvent) : ChatServer :=
  let s := s.load env.results
  if event.fd = s.listener then
    if event.flags &&& readyRead ≠ 0 then acceptConnections env.accepts s else s
  else
    let s := if event.flags &&& (readyRead ||| readyError) ≠ 0 then s.handleRead event.fd else s
    if event.flags &&& readyWrite ≠ 0 ∧ (s.clients event.fd).isSome then s.handleWrite event.fd
    else s

/-- What drives `run`: a return of `wait`, or one event of the batch it returned
with the results of the calls made for it. -/
inductive Input where
  | iteration
  | event (env : Environment) (event : ReadyEvent)

def handle (s : ChatServer) : Input → ChatServer
  | .iteration => s.beginServerIteration
  | .event env event => s.handleEvent env event

def run (s : ChatServer) (inputs : List Input) : ChatServer :=
  inputs.foldl handle s

end ChatServer
end Partyline
