import Mathlib.Data.Rat.Floor
import Mathlib.Data.List.Infix
import Mathlib.Data.List.Sort
import Partyline.ServerCommon

/-! The load generator of `bench/benchmark.py`: a client's buffers, and the
schedule by which a worker offers operations. Numbers that are floats there are
rationals here. The selector's masks are left out, since any event may come. -/
namespace Partyline.Bench

/-- One operation that a worker has sent, by the number of its phase among the
worker's phases and its sequence number there. -/
structure Request where
  phase : Nat
  sequence : Nat
deriving DecidableEq

/-- A byte on a connection, and the request whose frame or whose answer it is part
of. The source has the byte alone. -/
structure Octet where
  ch : UInt8
  request : Option Request
deriving DecidableEq

def text (octets : List Octet) : Bytes := octets.map Octet.ch

def mark (request : Option Request) (bytes : Bytes) : List Octet :=
  bytes.map fun ch => ⟨ch, request⟩

def whereResponse : Bytes := ascii "you are in room main-room"
def maxClientSendQueue : Nat := 65536

/-- An entry of `pending`, of which the source has the time alone. -/
structure Pending where
  sentNs : Int
  request : Request
deriving DecidableEq

/-- `uplink`: what `send` has taken and the server has not; `incoming`: what `recv`
can return. -/
structure BenchClient where
  buffer : List Octet
  pending : List Pending
  sendBuffer : List Octet
  closed : Bool
  uplink : List Octet
  incoming : List Octet
deriving DecidableEq

/-- `pairs`, which the source does not keep: for each completion of a direct phase
the request it was counted for, and the one that its response answers. -/
structure BenchState where
  offeredOperations : Nat
  sentOperations : Nat
  missedOffers : Nat
  completedByDeadline : Nat
  eventualCompletions : Nat
  deliveries : Nat
  deliveriesByDeadline : Nat
  sendErrors : Nat
  disconnects : List Nat
  latenciesMs : List ℚ
  schedulingLagMs : List ℚ
  maxReadServiceGapMs : ℚ
  startSkewMs : ℚ
  clientPartialSends : Nat
  clientSendEagain : Nat
  pairs : List (Request × Option Request)

inductive Workload where
  | direct
  | broadcast
  | setup
deriving DecidableEq

structure Phase where
  workload : Workload
  totalConnections : Nat
  activeIndices : List Nat
  rate : ℚ
  duration : ℚ
  payloadSize : Nat
  token : Bytes
  startNs : Int
  deadlineNs : Int
  maxOverdueSends : Nat
  maxOfferLagMs : ℚ
  maxRecvCalls : Nat
  maxRecvBytes : Nat

structure Args where
  rate : ℚ
  payloadSize : Nat
  maxOverdueSends : Nat
  maxOfferLagMs : ℚ
  maxRecvCalls : Nat
  maxRecvBytes : Nat

/-- `accepted n` takes `n` bytes, or all that were given. -/
inductive SendAnswer where
  | accepted (count : Nat)
  | eagain
  | error
deriving DecidableEq

/-- `received n` returns `n` bytes, or as many as were asked for and have come; none
at all is the end of the stream. -/
inductive RecvAnswer where
  | received (count : Nat)
  | eagain
  | error
deriving DecidableEq

def int (x : ℚ) : Int := x.num.tdiv x.den

/-- `int(START_DELAY_S * 1_000_000_000)`. -/
def startDelayNs : Int := 200000000

def phaseConfig (nowNs : Nat) (args : Args) (workload : Workload)
    (totalConnections activeConnections : Nat) (duration : ℚ) (token : Bytes) : Phase :=
  let startNs := nowNs + startDelayNs
  { workload, totalConnections, duration, token, startNs
    activeIndices := List.range activeConnections
    rate := args.rate
    payloadSize := if workload = .broadcast then args.payloadSize else 0
    deadlineNs := startNs + int (duration * 1000000000)
    maxOverdueSends := args.maxOverdueSends
    maxOfferLagMs := args.maxOfferLagMs
    maxRecvCalls := args.maxRecvCalls
    maxRecvBytes := args.maxRecvBytes }

def milliseconds (ns : Int) : ℚ := ns / 1000000

def emptyState : BenchState where
  offeredOperations := 0
  sentOperations := 0
  missedOffers := 0
  completedByDeadline := 0
  eventualCompletions := 0
  deliveries := 0
  deliveriesByDeadline := 0
  sendErrors := 0
  disconnects := []
  latenciesMs := []
  schedulingLagMs := []
  maxReadServiceGapMs := 0
  startSkewMs := 0
  clientPartialSends := 0
  clientSendEagain := 0
  pairs := []

/-- `xs[offset::step]`. -/
def slice {α : Type*} (offset step : Nat) (xs : List α) : List α :=
  (xs.zipIdx.filter fun x => offset ≤ x.2 ∧ (x.2 - offset) % step = 0).map Prod.fst

def partitionClients (clients : List Nat) (workerCount : Nat) : List (List Nat) :=
  (List.range workerCount).map fun offset => slice offset workerCount clients

section Connection

structure Served where
  client : BenchClient
  state : BenchState
  ticks : Nat

/-- Answers that run out mean that the socket would block. -/
def flushClientSend : List SendAnswer → BenchClient → BenchState → BenchClient × BenchState
  | answers, client, state =>
    if client.sendBuffer = [] then (client, state)
    else match answers with
      | [] | .eagain :: _ =>
        (client, { state with clientSendEagain := state.clientSendEagain + 1 })
      | .error :: _ =>
        ({ client with sendBuffer := [] }, { state with sendErrors := state.sendErrors + 1 })
      | .accepted count :: rest =>
        let sent := min count client.sendBuffer.length
        if sent = 0 then
          ({ client with sendBuffer := [] }, { state with sendErrors := state.sendErrors + 1 })
        else
          let state := if sent < client.sendBuffer.length then
              { state with clientPartialSends := state.clientPartialSends + 1 }
            else state
          let client := { client with
            sendBuffer := client.sendBuffer.drop sent
            uplink := client.uplink ++ client.sendBuffer.take sent }
          flushClientSend rest client state

theorem flushClientSend_frame (answers : List SendAnswer) (client : BenchClient)
    (state : BenchState) : ∃ sendBuffer uplink errors parts eagain,
    flushClientSend answers client state = ({ client with sendBuffer, uplink },
      { state with
        sendErrors := errors
        clientPartialSends := parts
        clientSendEagain := eagain }) := by
  induction answers generalizing client state with
  | nil =>
    unfold flushClientSend
    split_ifs <;> exact ⟨_, _, _, _, _, rfl⟩
  | cons answer rest ih =>
    unfold flushClientSend
    split_ifs
    · exact ⟨_, _, _, _, _, rfl⟩
    · cases answer with
      | eagain | error => exact ⟨_, _, _, _, _, rfl⟩
      | accepted count =>
        dsimp only
        split_ifs
        · exact ⟨_, _, _, _, _, rfl⟩
        all_goals
          obtain ⟨sendBuffer, uplink, errors, parts, eagain, same⟩ := ih
            { client with
              sendBuffer := client.sendBuffer.drop (min count client.sendBuffer.length)
              uplink := client.uplink ++
                client.sendBuffer.take (min count client.sendBuffer.length) } _
          exact ⟨sendBuffer, uplink, errors, parts, eagain, same⟩

/-- The frame at the end of the send buffer and, of a direct request, its time at the
end of `pending`. -/
def BenchClient.enqueue (frame : Bytes) (request : Request) (sentNs : Int) (workload : Workload)
    (client : BenchClient) : BenchClient :=
  { client with
    sendBuffer := client.sendBuffer ++ mark (some request) frame
    pending := if workload = .direct then client.pending ++ [⟨sentNs, request⟩]
      else client.pending }

def queueClientFrame (frame : Bytes) (request : Request) (sentNs : Int) (workload : Workload)
    (answers : List SendAnswer) (client : BenchClient) (state : BenchState) :
    Bool × BenchClient × BenchState :=
  if client.sendBuffer.length + frame.length > maxClientSendQueue then (false, client, state)
  else
    (true, flushClientSend answers (client.enqueue frame request sentNs workload)
      { state with sentOperations := state.sentOperations + 1 })

def closeClient (index : Nat) (client : BenchClient) (state : BenchState) :
    BenchClient × BenchState :=
  if client.closed then (client, state)
  else ({ client with closed := true },
    { state with disconnects := state.disconnects.insert index })

/-- The lines that the loop over `buffer.split(b"\n", 1)` takes, and what it leaves. -/
def completeLines : List Octet → List (List Octet) × List Octet
  | [] => ([], [])
  | octet :: rest =>
    if octet.ch = newline then ([] :: (completeLines rest).1, (completeLines rest).2)
    else match completeLines rest with
      | ([], tail) => ([], octet :: tail)
      | (line :: lines, tail) => ((octet :: line) :: lines, tail)

/-- `line[line.find(pattern):]`, if there is one. -/
def findFrom (pattern : Bytes) : Bytes → Option Bytes
  | [] => none
  | ch :: rest => if pattern <+: ch :: rest then some (ch :: rest) else findFrom pattern rest

/-- `split(separator, maxsplit)`. -/
def splitMax (separator : UInt8) : Nat → Bytes → List Bytes
  | _, [] => [[]]
  | 0, rest => [rest]
  | n + 1, ch :: rest =>
    if ch = separator then [] :: splitMax separator n rest
    else match splitMax separator (n + 1) rest with
      | [] => [[ch]]
      | field :: fields => (ch :: field) :: fields

def isSpace (ch : UInt8) : Bool := ch = 32 || 9 ≤ ch && ch ≤ 13

/-- The digits of an `int` literal, with single underscores between them. -/
def digits (value : Nat) (after : Bool) : Bytes → Option Nat
  | [] => if after then some value else none
  | ch :: rest =>
    if 48 ≤ ch ∧ ch ≤ 57 then digits (10 * value + (ch.toNat - 48)) true rest
    else if ch = 95 ∧ after = true then digits value false rest
    else none

/-- `int` of bytes; `none` is a ValueError. -/
def parseInt (field : Bytes) : Option Int :=
  let field := ((field.dropWhile isSpace).reverse.dropWhile isSpace).reverse
  match field with
  | 43 :: rest => (digits 0 false rest).map Int.ofNat
  | 45 :: rest => (digits 0 false rest).map fun value => -Int.ofNat value
  | field => (digits 0 false field).map Int.ofNat

def pipe : UInt8 := 124

/-- The sender and the send time of a line of the workload `broadcast`. -/
def parseBench (token line : Bytes) : Option (Int × Int) :=
  match findFrom (ascii "BENCH|") line with
  | none => none
  | some marked =>
    match splitMax pipe 5 marked with
    | [_, token', sender, _, sentNs, _] =>
      if token' ≠ token then none
      else match parseInt sender, parseInt sentNs with
        | some sender, some sentNs => some (sender, sentNs)
        | _, _ => none
    | _ => none

/-- The request that a line without its newline is part of. -/
def lineRequest (line : List Octet) : Option Request := line.getLast?.bind Octet.request

variable (clock : Nat → Int) (phase : Phase) (index : Nat)

def handleLine (s : Served) (line : List Octet) : Served :=
  let receivedNs := clock s.ticks
  let byDeadline := if receivedNs ≤ phase.deadlineNs then 1 else 0
  let s := { s with ticks := s.ticks + 1 }
  if phase.workload = .direct then
    if ¬ whereResponse <:+: text line then s
    else match s.client.pending with
      | [] => s
      | first :: rest =>
        { s with
          client := { s.client with pending := rest }
          state := { s.state with
            eventualCompletions := s.state.eventualCompletions + 1
            deliveries := s.state.deliveries + 1
            completedByDeadline := s.state.completedByDeadline + byDeadline
            deliveriesByDeadline := s.state.deliveriesByDeadline + byDeadline
            latenciesMs := s.state.latenciesMs ++ [milliseconds (receivedNs - first.sentNs)]
            pairs := s.state.pairs ++ [(first.request, lineRequest line)] } }
  else match parseBench phase.token (text line) with
    | none => s
    | some (sender, sentNs) =>
      let state := { s.state with
        deliveries := s.state.deliveries + 1
        deliveriesByDeadline := s.state.deliveriesByDeadline + byDeadline }
      if (index : Int) = (sender + 1) % phase.totalConnections then
        { s with state := { state with
          eventualCompletions := state.eventualCompletions + 1
          completedByDeadline := state.completedByDeadline + byDeadline
          latenciesMs := state.latenciesMs ++ [milliseconds (receivedNs - sentNs)] } }
      else { s with state }

def takeData (data : List Octet) (s : Served) : Served :=
  let (lines, tail) := completeLines (s.client.buffer ++ data)
  let s := { s with client := { s.client with
    buffer := tail, incoming := s.client.incoming.drop data.length } }
  lines.foldl (handleLine clock phase index) s

def readLoop : List RecvAnswer → Nat → Nat → Served → Served
  | [], _, _, s => s
  | answer :: rest, calls, bytesRead, s =>
    if calls < phase.maxRecvCalls ∧ bytesRead < phase.maxRecvBytes then
      let close : Served :=
        let (client, state) := closeClient index s.client s.state
        { s with client, state }
      match answer with
      | .eagain => s
      | .error => close
      | .received count =>
        let data := s.client.incoming.take (min count (min 16384 (phase.maxRecvBytes - bytesRead)))
        if data = [] then close
        else readLoop rest (calls + 1) (bytesRead + data.length)
          (takeData clock phase index data s)
    else s

theorem readLoop_preserves {P : Served → Prop}
    (take : ∀ s data, data <+: s.client.incoming → P s → P (takeData clock phase index data s))
    (close : ∀ s, P s → P { s with
      client := (closeClient index s.client s.state).1
      state := (closeClient index s.client s.state).2 })
    (answers : List RecvAnswer) (calls bytesRead : Nat) {s : Served} (h : P s) :
    P (readLoop clock phase index answers calls bytesRead s) := by
  induction answers generalizing calls bytesRead s with
  | nil => exact h
  | cons answer rest ih =>
    unfold readLoop
    split_ifs
    · cases answer with
      | eagain => exact h
      | error => exact close s h
      | received count =>
        dsimp only
        split_ifs
        · exact close s h
        · exact ih _ _ (take s _ (List.take_prefix _ _) h)
    · exact h

def processClientRead (nowNs readyNs : Int) (answers : List RecvAnswer) (s : Served) : Served :=
  let gap := max s.state.maxReadServiceGapMs (milliseconds (nowNs - readyNs))
  readLoop clock phase index answers 0 0
    { s with state := { s.state with maxReadServiceGapMs := gap } }

/-- What `select` reports of one client, and what the calls on its socket answer. -/
structure ServiceEvent where
  index : Nat
  read : Bool
  write : Bool
  recvs : List RecvAnswer
  sends : List SendAnswer

def serviceRead (readyNs : Int) (event : ServiceEvent) (s : Served) : Served :=
  let nowNs := clock s.ticks
  let s := { s with ticks := s.ticks + 1 }
  if event.read then processClientRead clock phase event.index nowNs readyNs event.recvs s else s

def serviceWrite (event : ServiceEvent) (s : Served) : Served :=
  if event.write ∧ s.client.closed = false then
    let (client, state) := flushClientSend event.sends s.client s.state
    { s with client, state }
  else s

def serviceEvent (readyNs : Int) (event : ServiceEvent) (s : Served) : Served :=
  if s.client.closed then s else serviceWrite event (serviceRead clock phase readyNs event s)

end Connection

section Schedule

structure Offer where
  scheduledNs : Int
  sequence : Nat
  client : Nat
deriving DecidableEq

/-- The order of the tuples, as long as they differ before the client. -/
def Offer.before (o o' : Offer) : Prop :=
  o.scheduledNs < o'.scheduledNs ∨ o.scheduledNs = o'.scheduledNs ∧ o.sequence ≤ o'.sequence

instance : DecidableRel Offer.before := fun _ _ => inferInstanceAs (Decidable (_ ∨ _))

/-- The heap is kept as the list that popping it would give. -/
def heappush (schedule : List Offer) (offer : Offer) : List Offer :=
  schedule.orderedInsert Offer.before offer

structure Due where
  offer : Offer
  missed : Bool
deriving DecidableEq

def dueOffers (nowNs : Int) (maxLagNs : Int) : Nat → List Offer → List Due × List Offer
  | 0, schedule => ([], schedule)
  | _, [] => ([], [])
  | maxCount + 1, offer :: schedule =>
    if offer.scheduledNs ≤ nowNs then
      let (ready, schedule) := dueOffers nowNs maxLagNs maxCount schedule
      (⟨offer, nowNs - offer.scheduledNs > maxLagNs⟩ :: ready, schedule)
    else ([], offer :: schedule)

namespace Phase

/-- `active_positions.get(index)`; of equal indices the dictionary keeps the last. -/
def activePosition (phase : Phase) (index : Nat) : Option Nat :=
  ((phase.activeIndices.zipIdx.filter fun entry => entry.1 = index).getLast?).map Prod.snd

def activeCount (phase : Phase) : Nat := phase.activeIndices.length

/-- Not negative, since the rate and the duration are not. -/
def targetOffers (phase : Phase) : Nat := (int (phase.rate * phase.duration)).toNat

def periodNs (phase : Phase) : ℚ := 1000000000 / phase.rate

def periodPerClientNs (phase : Phase) : Int :=
  int (1000000000 * phase.activeCount / phase.rate)

def maxLagNs (phase : Phase) : Int := int (phase.maxOfferLagMs * 1000000)

end Phase

def scheduleForClients (clients : List Nat) (phase : Phase) : List Offer :=
  if phase.targetOffers = 0 then []
  else clients.foldl (fun schedule index =>
    match phase.activePosition index with
    | none => schedule
    | some position =>
      if phase.targetOffers ≤ position then schedule
      else heappush schedule ⟨int (phase.startNs + position * phase.periodNs), position, index⟩) []

end Schedule

end Partyline.Bench
