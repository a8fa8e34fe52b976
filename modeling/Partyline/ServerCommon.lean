import Mathlib.Logic.Function.Basic
import Mathlib.Data.List.Basic

/-! Limits, records and the two output paths of `common/server_common.hpp`.
A `Port` stands for everything outside the server that belongs to one
descriptor: the dispatcher's entry, the results that the system calls still to
be made on it will return, and the history of what has been done to it since it
was last accepted. A result list that runs out means EAGAIN (or success, for the dispatcher), so
every finite sequence of results is one of these lists. The counters of `ServerMetrics` are
written and never read on these paths; what counts them is a `Measurement`. -/
namespace Partyline

abbrev Bytes := List UInt8
abbrev Fd := Nat

def ascii (text : String) : Bytes := text.toList.map fun ch => UInt8.ofNat ch.toNat

-- The instance of the library, under one name: where it is found anew, each definition that
-- tests a membership gets a proof of its own that the equality of bytes is lawful.
instance (bytes : Bytes) (all : List Bytes) : Decidable (bytes ∈ all) := inferInstance

def newline : UInt8 := 10
def carriageReturn : UInt8 := 13
def space : UInt8 := 32

def maxDataSize : Nat := 256
def maxFrameBytes : Nat := 4096
def maxInputBufferBytes : Nat := 8192
def maxPendingOutputBytes : Nat := 16384
def maxBytesReadPerPoll : Nat := 8192
def maxBytesWrittenPerPoll : Nat := 8192
def maxProcessedFramesPerPoll : Nat := 32

structure PendingWrite where
  data : Bytes
  offset : Nat
deriving DecidableEq

inductive ClientState where
  | awaitingUsername
  | active
deriving DecidableEq

/-- The record of one connection. Its `fd` is the key under which the server
keeps it, which the source writes once and never changes. -/
structure ClientConnection where
  username : Bytes
  currRoom : Nat
  inputBuffer : Bytes
  outputQueue : List PendingWrite
  outputQueueSize : Nat
  peakPendingOutputBytes : Nat
  clientState : ClientState
  writeInterestEnabled : Bool
  writeBudgetIteration : Nat
  writeBudgetRemaining : Nat
deriving DecidableEq

/-- `accepted n` is a send that takes `n` bytes, or all of them if fewer were given. -/
inductive SendResult where
  | accepted (count : Nat)
  | eagain
  | eintr
  | error (errno : Nat)
deriving DecidableEq

/-- A `received` chunk of length zero is the peer's end of stream. -/
inductive RecvResult where
  | received (chunk : Bytes) (fits : chunk.length ≤ maxDataSize)
  | eagain
  | eintr
  | error (errno : Nat)

inductive Offer where
  | immediate
  | queued
  | rejected
deriving DecidableEq

inductive Effect where
  | received (chunk : Bytes)
  | username (raw frame : Bytes)
  | frame (raw frame : Bytes)
  | offered (message : Bytes) (outcome : Offer)
  | send (iteration : Nat) (data : Bytes) (accepted : Nat)
  | interest (enabled ok : Bool)
  | closed (reason : String)
deriving DecidableEq

structure Port where
  writeInterest : Option Bool
  recvs : List RecvResult
  sends : List SendResult
  interests : List Bool
  history : List Effect

namespace Port

/-- The history is kept newest first. -/
def note (port : Port) (effect : Effect) : Port :=
  { port with history := effect :: port.history }

/-- Fails on an unregistered descriptor, or when the dispatcher's call does. -/
def setWriteInterest (port : Port) (enabled : Bool) : Bool × Port :=
  let ok := port.writeInterest.isSome && port.interests.headD true
  (ok, { port with
    writeInterest := if ok then some enabled else port.writeInterest
    interests := port.interests.tail
    history := .interest enabled ok :: port.history })

end Port

/-- The `do … while (written < 0 && errno == EINTR)` around a send. -/
def sendRetry : List SendResult → SendResult × List SendResult
  | [] => (.eagain, [])
  | .eintr :: rest => sendRetry rest
  | result :: rest => (result, rest)

/-- One send with its retry. The result says how much was taken of `request`. -/
def Port.send (port : Port) (serverIteration : Nat) (request : Bytes) : SendResult × Port :=
  match sendRetry port.sends with
  | (.accepted count, rest) =>
    let written := min count request.length
    (.accepted written, { port with
      sends := rest, history := .send serverIteration request written :: port.history })
  | (result, rest) =>
    (result, { port with
      sends := rest, history := .send serverIteration request 0 :: port.history })

/-- `clientWriteBudget` returns a reference; the refilled record stands for it. -/
def clientWriteBudget (serverIteration : Nat) (client : ClientConnection) : ClientConnection :=
  if client.writeBudgetIteration ≠ serverIteration then
    { client with
      writeBudgetIteration := serverIteration
      writeBudgetRemaining := maxBytesWrittenPerPoll }
  else client

/-- The tail of `queueOutputCommon`, from `if (offset < numBytes)` on. -/
def appendOutput (client : ClientConnection) (port : Port) (data : Bytes) (offset : Nat) :
    Bool × ClientConnection × Port :=
  let client := if offset < data.length then
      let outputQueueSize := client.outputQueueSize + (data.length - offset)
      { client with
        outputQueue := client.outputQueue ++ [⟨data.drop offset, 0⟩]
        outputQueueSize
        peakPendingOutputBytes := max client.peakPendingOutputBytes outputQueueSize }
    else client
  if client.outputQueue ≠ [] ∧ client.writeInterestEnabled = false then
    match port.setWriteInterest true with
    | (false, port) => (false, client, port.note (.offered data .rejected))
    | (true, port) =>
      (true, { client with writeInterestEnabled := true }, port.note (.offered data .queued))
  else (true, client, port.note (.offered data .queued))

def queueOutputCommon (serverIteration : Nat) (client : ClientConnection) (port : Port)
    (data : Bytes) : Bool × ClientConnection × Port :=
  if client.outputQueueSize > maxPendingOutputBytes ∨
      data.length > maxPendingOutputBytes - client.outputQueueSize then
    (false, client, port.note (.offered data .rejected))
  else
    let client := clientWriteBudget serverIteration client
    if client.outputQueue = [] ∧ data ≠ [] ∧ client.writeBudgetRemaining ≠ 0 then
      match port.send serverIteration (data.take client.writeBudgetRemaining) with
      | (.accepted written, port) =>
        if written = 0 then (false, client, port.note (.offered data .rejected))
        else
          let client := { client with
            writeBudgetRemaining := client.writeBudgetRemaining - written }
          if written = data.length then (true, client, port.note (.offered data .immediate))
          else appendOutput client port data written
      | (.eagain, port) => appendOutput client port data 0
      | (_, port) => (false, client, port.note (.offered data .rejected))
    else appendOutput client port data 0

/-- The loop of `flushOutputCommon`, on the results its sends will return. -/
def flushLoop (serverIteration : Nat) :
    List SendResult → ClientConnection → Port → Bool × ClientConnection × Port
  | sends, client, port =>
    match client.outputQueue with
    | [] => (true, client, { port with sends })
    | pending :: queue =>
      if client.writeBudgetRemaining = 0 then (true, client, { port with sends })
      else
        let request := (pending.data.drop pending.offset).take client.writeBudgetRemaining
        match sends with
        | [] =>
          (true, client, { port with
            sends := [], history := .send serverIteration request 0 :: port.history })
        | .eagain :: rest =>
          (true, client, { port with
            sends := rest, history := .send serverIteration request 0 :: port.history })
        -- the inner retry: the same bytes are offered to the kernel again
        | .eintr :: rest => flushLoop serverIteration rest client port
        | .error _ :: rest =>
          (false, client, { port with
            sends := rest, history := .send serverIteration request 0 :: port.history })
        | .accepted count :: rest =>
          let written := min count request.length
          let port := { port with
            history := .send serverIteration request written :: port.history }
          if written = 0 then (false, client, { port with sends := rest })
          else
            let pending := { pending with offset := pending.offset + written }
            let client := { client with
              outputQueue :=
                if pending.offset = pending.data.length then queue else pending :: queue
              outputQueueSize := client.outputQueueSize - written
              writeBudgetRemaining := client.writeBudgetRemaining - written }
            flushLoop serverIteration rest client port

def flushOutputCommon (serverIteration : Nat) (client : ClientConnection) (port : Port) :
    Bool × ClientConnection × Port :=
  match flushLoop serverIteration port.sends (clientWriteBudget serverIteration client) port with
  | (false, client, port) => (false, client, port)
  | (true, client, port) =>
    if client.outputQueue = [] ∧ client.writeInterestEnabled = true then
      match port.setWriteInterest false with
      | (false, port) => (false, client, port)
      | (true, port) => (true, { client with writeInterestEnabled := false }, port)
    else (true, client, port)

end Partyline
