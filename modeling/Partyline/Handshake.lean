import Partyline.Benchmark
import Partyline.PartyRefinement

/-! The first exchange of a connection: what the server sends before it has a username, and
the read of the prompt with which the load generator begins. -/
namespace Partyline

open Library

namespace Bench

def promptMarker : Bytes := ascii "enter your username: "

/-- How `receive_until` ends. `waits` has no chunk left to read, and times out if none comes. -/
inductive Setup where
  | found (received : Bytes) (unread : List Bytes)
  | waits (received : Bytes)
  /-- "server closed a connection during setup" -/
  | closed
deriving DecidableEq

/-- The loop of `receive_until` on the chunks that `recv` returns. -/
def receiveUntil (marker : Bytes) : List Bytes → Bytes → Setup
  | chunks, received =>
    if marker <:+: received then .found received chunks
    else match chunks with
      | [] => .waits received
      | chunk :: rest =>
        if chunk = [] then .closed else receiveUntil marker rest (received ++ chunk)

theorem receiveUntil_prefix {marker : Bytes} {chunks : List Bytes} (notEmpty : [] ∉ chunks)
    {received : Bytes} (part : received ++ chunks.flatten <+: marker) :
    receiveUntil marker chunks received =
      if received ++ chunks.flatten = marker then .found marker []
      else .waits (received ++ chunks.flatten) := by
  induction chunks generalizing received with
  | nil =>
    rw [List.flatten_nil, List.append_nil] at part ⊢
    have whole : marker <:+: received ↔ received = marker :=
      ⟨fun inside => part.eq_of_length_le inside.length_le, fun same => same ▸ List.infix_rfl⟩
    rw [receiveUntil]
    by_cases same : received = marker
    · simp [same]
    · simp [same, whole]
  | cons chunk rest ih =>
    obtain ⟨nonempty, notEmpty⟩ : chunk ≠ [] ∧ [] ∉ rest := by
      simpa [eq_comm, not_or] using notEmpty
    rw [List.flatten_cons, ← List.append_assoc] at part ⊢
    have shorter : ¬ marker <:+: received := by
      intro inside
      have length := part.length_le
      have more := inside.length_le
      have := List.length_pos_of_ne_nil nonempty
      simp only [List.length_append] at length
      omega
    rw [receiveUntil, if_neg shorter]
    simp only [if_neg nonempty]
    exact ih notEmpty part

end Bench

namespace ChatServer

section Greeting

variable {listener : Fd} {actions : List Action} (runs : machine.Runs (initial listener) actions)
  {fd : Fd} {client : ClientConnection}
  (found : (machine.after (initial listener) actions).clients fd = some client)

include runs found

theorem stream_nameless (awaiting : client.clientState = .awaitingUsername) :
    ((machine.after (initial listener) actions).entry fd).stream = prompt := by
  have greets := Party.greets_runs (party_runs listener runs) fd .nameless
    (by rw [party_guests found, guestOf_awaiting awaiting])
  rw [stream_told ⟨_, ⟨listener, rfl⟩, runs.steps⟩ (by simp [found]), greets.2 rfl]
  simp [Guest.greeting]

theorem stream_member (active : client.clientState = .active) :
    prompt ++ joinedLine client.username mainRoomName <+:
      ((machine.after (initial listener) actions).entry fd).stream := by
  obtain ⟨⟨later, told⟩, -⟩ := Party.greets_runs (party_runs listener runs) fd _
    (by rw [party_guests found, guestOf_active active])
  rw [stream_told ⟨_, ⟨listener, rfl⟩, runs.steps⟩ (by simp [found]), ← told]
  exact ⟨later.flatten, by simp [Guest.greeting]⟩

end Greeting

/-- Nobody is sent anything but the prompt before a username has come, and the news of the own
arrival is the first line after it. -/
theorem newcomer_greeted (listener : Fd) {actions : List Action}
    (runs : machine.Runs (initial listener) actions) {fd : Fd} {client : ClientConnection}
    (found : (machine.after (initial listener) actions).clients fd = some client) :
    (client.clientState = .awaitingUsername →
      ((machine.after (initial listener) actions).entry fd).stream = prompt) ∧
    (client.clientState = .active →
      prompt ++ joinedLine client.username mainRoomName <+:
        ((machine.after (initial listener) actions).entry fd).stream) :=
  ⟨stream_nameless runs found, stream_member runs found⟩

theorem newcomer_greeted_talk : ∃ client,
    (machine.after (initial 3) talk).clients 4 = some client ∧ client.username = ascii "ann" ∧
      prompt ++ joinedLine (ascii "ann") mainRoomName <+:
        ((machine.after (initial 3) talk).entry 4).stream := by
  have runs : machine.Runs (initial 3) talk := by decide +kernel
  have there : ((machine.after (initial 3) talk).clients 4).map (fun client =>
      (client.clientState, client.username)) = some (.active, ascii "ann") := by decide +kernel
  obtain ⟨client, found, same⟩ := Option.map_eq_some_iff.mp there
  obtain ⟨active, named⟩ := Prod.mk.inj same
  exact ⟨client, found, named, named ▸ (newcomer_greeted 3 runs found).2 active⟩

/-- However `recv` cuts what has come, the load generator reads the prompt to its end and
nothing after it. -/
theorem setup_reads_prompt (listener : Fd) {actions : List Action}
    (runs : machine.Runs (initial listener) actions) {fd : Fd} {client : ClientConnection}
    (found : (machine.after (initial listener) actions).clients fd = some client)
    (awaiting : client.clientState = .awaitingUsername) {chunks : List Bytes}
    (nonempty : [] ∉ chunks)
    (come : chunks.flatten <+: ((machine.after (initial listener) actions).entry fd).stream) :
    Bench.receiveUntil Bench.promptMarker chunks [] =
      if chunks.flatten = prompt then .found prompt [] else .waits chunks.flatten := by
  rw [stream_nameless runs found awaiting] at come
  exact Bench.receiveUntil_prefix nonempty come

theorem setup_reads_prompt_split : machine.Runs (initial 3) (talk.take 1) ∧
    Bench.receiveUntil Bench.promptMarker [ascii "enter your ", ascii "username: "] [] =
      .found prompt [] := by
  have runs : machine.Runs (initial 3) (talk.take 1) := by decide +kernel
  have there : ((machine.after (initial 3) (talk.take 1)).clients 4).map (·.clientState) =
      some .awaitingUsername := by decide +kernel
  obtain ⟨client, found, awaiting⟩ := Option.map_eq_some_iff.mp there
  refine ⟨runs, (setup_reads_prompt 3 runs found awaiting (by decide) ?_).trans (by decide)⟩
  decide +kernel

end ChatServer
end Partyline
