import Partyline.Answering
import Partyline.Injection
import Partyline.Replies

/-! A frame of a broadcast phase, from the worker that builds it through the server
to the worker that reads it: the fields that are written are the fields that are
parsed, however the line is cut on its way. -/
namespace Partyline.Bench

open Worker (decimal frame)

section Numbers

theorem mem_decimal {n : Int} {ch : UInt8} (mem : ch ∈ decimal n) :
    ch = 45 ∨ 48 ≤ ch.toNat ∧ ch.toNat ≤ 57 := by
  cases n with
  | ofNat n => exact .inr (digit_of_mem mem)
  | negSucc n =>
    have signed : decimal (.negSucc n) = 45 :: ascii (toString (n + 1)) := by
      simp [decimal, ascii, Int.repr]
    rw [signed, List.mem_cons] at mem
    exact mem.imp_right digit_of_mem

theorem not_mem_decimal {ch : UInt8} (other : ch.toNat < 45 ∨ 57 < ch.toNat) (n : Int) :
    ch ∉ decimal n := by
  intro mem
  rcases mem_decimal mem with rfl | digit
  · have sign : (45 : UInt8).toNat = 45 := rfl
    omega
  · omega

theorem digits_ascii {text : List Char} (decimal : ∀ ch ∈ text, ch.isDigit = true)
    (value : Nat) (after : Bool) (nonempty : text ≠ [] ∨ after = true) :
    digits value after (text.map fun ch => UInt8.ofNat ch.toNat) =
      .some (Nat.ofDigitChars 10 text value) := by
  induction text generalizing value after with
  | nil => simp [digits, nonempty.resolve_left (not_not.mpr rfl)]
  | cons ch rest ih =>
    have bounds : 48 ≤ ch.toNat ∧ ch.toNat ≤ 57 := by
      simpa [Char.isDigit, UInt32.le_iff_toNat_le] using decimal ch List.mem_cons_self
    have byte : (UInt8.ofNat ch.toNat).toNat = ch.toNat := by
      rw [UInt8.toNat_ofNat']
      omega
    have digit : 48 ≤ UInt8.ofNat ch.toNat ∧ UInt8.ofNat ch.toNat ≤ 57 := by
      rw [UInt8.le_iff_toNat_le, UInt8.le_iff_toNat_le, byte]
      exact bounds
    rw [List.map_cons, digits, if_pos digit, byte, Nat.ofDigitChars_cons]
    exact ih (fun other mem => decimal other (List.mem_cons_of_mem ch mem)) _ true (.inr rfl)

theorem digits_toString (n : Nat) : digits 0 false (ascii (toString n)) = some n := by
  have text : (toString n).toList = Nat.toDigits 10 n := by simp
  rw [ascii, text, digits_ascii (fun ch mem => Nat.isDigit_of_mem_toDigits (by decide) (by decide) mem)
    0 false (.inl Nat.toDigits_ne_nil), Nat.ofDigitChars_ten_toDigits]

theorem strip_of_clean {field : Bytes} (clean : ∀ ch ∈ field, isSpace ch = false) :
    ((field.dropWhile isSpace).reverse.dropWhile isSpace).reverse = field := by
  have kept {field : Bytes} (clean : ∀ ch ∈ field, isSpace ch = false) :
      field.dropWhile isSpace = field := by
    cases field with
    | nil => rfl
    | cons ch rest => simp [clean ch List.mem_cons_self]
  rw [kept clean, kept (by simpa using clean), List.reverse_reverse]

theorem parseInt_decimal (n : Int) : parseInt (decimal n) = some n := by
  have clean : ∀ ch ∈ decimal n, isSpace ch = false := by
    intro ch mem
    rcases mem_decimal mem with rfl | digit
    · rfl
    · have ne : ch ≠ 32 := by
        rintro rfl
        revert digit
        decide
      have past : ¬ ch ≤ 13 := by
        rw [UInt8.le_iff_toNat_le]
        have limit : (13 : UInt8).toNat = 13 := rfl
        omega
      simp [isSpace, ne, past]
  unfold parseInt
  rw [strip_of_clean clean]
  cases n with
  | ofNat n =>
    have written : decimal (.ofNat n) = ascii (toString n) := rfl
    obtain ⟨ch, rest, text⟩ := List.exists_cons_of_ne_nil
      (show ascii (toString n) ≠ [] by simp [ascii])
    have digit := digit_of_mem (text ▸ List.mem_cons_self : ch ∈ ascii (toString n))
    have value := digits_toString n
    rw [written]
    rw [text] at value ⊢
    dsimp only
    split
    · rename_i same
      obtain rfl := (List.cons.inj same).1
      exact absurd digit (by decide)
    · rename_i same
      obtain rfl := (List.cons.inj same).1
      exact absurd digit (by decide)
    · rw [value]
      rfl
  | negSucc n =>
    have written : decimal (.negSucc n) = 45 :: ascii (toString (n + 1)) := by
      simp [decimal, ascii, Int.repr]
    rw [written]
    change (digits 0 false (ascii (toString (n + 1)))).map (fun value => -Int.ofNat value) = _
    rw [digits_toString]
    rfl

end Numbers

section Fields

variable {separator : UInt8}

theorem splitMax_zero (rest : Bytes) : splitMax separator 0 rest = [rest] := by
  cases rest <;> rfl

theorem splitMax_append {field : Bytes} (clean : separator ∉ field) (n : Nat) (rest : Bytes) :
    splitMax separator (n + 1) (field ++ separator :: rest) =
      field :: splitMax separator n rest := by
  induction field with
  | nil => simp [splitMax]
  | cons ch field ih =>
    rw [List.mem_cons, not_or] at clean
    rw [List.cons_append, splitMax, if_neg (Ne.symm clean.1), ih clean.2]

theorem findFrom_append {first : UInt8} {pattern before : Bytes} (clean : first ∉ before)
    (rest : Bytes) : findFrom (first :: pattern) (before ++ (first :: pattern ++ rest)) =
      some (first :: pattern ++ rest) := by
  induction before with
  | nil => simp [findFrom]
  | cons ch before ih =>
    rw [List.mem_cons, not_or] at clean
    have past : ¬ first :: pattern <+: ch :: (before ++ (first :: pattern ++ rest)) := by
      rw [List.cons_prefix_cons]
      exact fun found => clean.1 found.1
    rw [List.cons_append, findFrom, if_neg past, ih clean.2]

end Fields

variable {phase : Phase} {index sequence : Nat} {sentNs : Int}

def benchText (phase : Phase) (index sequence : Nat) (sentNs : Int) : Bytes :=
  ascii "BENCH|" ++ phase.token ++ [pipe] ++ decimal index ++ [pipe] ++ decimal sequence ++ [pipe] ++
    decimal sentNs ++ [pipe] ++ List.replicate phase.payloadSize 120

def benchName (index : Nat) : Bytes := ascii "bench-" ++ decimal index

def heardText (phase : Phase) (index sequence : Nat) (sentNs : Int) : Bytes :=
  ascii "> " ++ benchName index ++ ascii ": " ++ benchText phase index sequence sentNs ++ [space]

/-- The marks of the formats on either side do not occur in the token. -/
def TokenOk (token : Bytes) : Prop := pipe ∉ token ∧ space ∉ token ∧ newline ∉ token

theorem frame_eq (broadcast : phase.workload ≠ .direct) :
    frame phase index sequence sentNs = benchText phase index sequence sentNs ++ [newline] := by
  rw [frame, if_neg broadcast]
  rfl

theorem not_mem_benchText {ch : UInt8} (token : ch ∉ phase.token)
    (other : ch.toNat < 45 ∨ 57 < ch.toNat) (name : ch ∉ ascii "BENCH|") (filler : ch ≠ 120) :
    ch ∉ benchText phase index sequence sentNs := by
  have mark : ch ≠ pipe := by
    rintro rfl
    revert name
    decide
  simp only [benchText, List.mem_append, List.mem_singleton, List.mem_replicate, name, token, mark,
    filler, not_mem_decimal other, and_false, or_self, not_false_eq_true]

theorem parseBench_heard (clean : pipe ∉ phase.token) (token : Bytes) :
    parseBench token (heardText phase index sequence sentNs) =
      if token = phase.token then some ((index : Int), sentNs) else none := by
  have before : (66 : UInt8) ∉ ascii "> " ++ benchName index ++ ascii ": " := by
    have first : (66 : UInt8) ∉ ascii "> " ++ ascii "bench-" := by decide
    have last : (66 : UInt8) ∉ ascii ": " := by decide
    have number : (66 : UInt8) ∉ decimal index := not_mem_decimal (.inr (by decide)) _
    rw [List.mem_append, not_or] at first
    simp only [benchName, List.mem_append, first, last, number, or_self, not_false_eq_true]
  have marked : heardText phase index sequence sentNs =
      (ascii "> " ++ benchName index ++ ascii ": ") ++ (ascii "BENCH|" ++
        (phase.token ++ pipe :: (decimal index ++ pipe :: (decimal sequence ++ pipe ::
          (decimal sentNs ++ pipe :: (List.replicate phase.payloadSize 120 ++ [space])))))) := by
    simp [heardText, benchText]
  have number (n : Int) : pipe ∉ decimal n := not_mem_decimal (.inr (by decide)) n
  have marker : pipe ∉ ascii "BENCH" := by decide
  have fields (rest : Bytes) : splitMax pipe 5 (ascii "BENCH|" ++ rest) =
      ascii "BENCH" :: splitMax pipe 4 rest := splitMax_append marker 4 rest
  have found (rest : Bytes) : findFrom (ascii "BENCH|") ((ascii "> " ++ benchName index ++
      ascii ": ") ++ (ascii "BENCH|" ++ rest)) = some (ascii "BENCH|" ++ rest) :=
    findFrom_append before rest
  rw [marked, parseBench, found]
  dsimp only
  rw [fields, splitMax_append clean, splitMax_append (number _), splitMax_append (number _),
    splitMax_append (number _), splitMax_zero]
  dsimp only
  rw [parseInt_decimal, parseInt_decimal]
  by_cases same : token = phase.token
  · rw [if_pos same, if_neg (not_not.mpr same.symm)]
  · rw [if_neg same, if_pos (Ne.symm same)]

section Server

theorem strip_benchText : stripCarriageReturn (benchText phase index sequence sentNs) =
    benchText phase index sequence sentNs := by
  have last : (benchText phase index sequence sentNs).getLast? =
      (pipe :: List.replicate phase.payloadSize 120).getLast? := by
    rw [benchText, List.append_assoc]
    exact List.getLast?_append_of_ne_nil _ (List.cons_ne_nil _ _)
  have other : carriageReturn ∉ pipe :: List.replicate phase.payloadSize 120 := by
    rw [List.mem_cons, List.mem_replicate]
    rintro (same | ⟨-, same⟩)
    · revert same
      decide
    · revert same
      decide
  unfold stripCarriageReturn
  rw [last, if_neg fun ends => other (List.mem_of_getLast? ends)]

variable (clean : TokenOk phase.token)

include clean

theorem newline_not_mem_benchText : newline ∉ benchText phase index sequence sentNs :=
  not_mem_benchText clean.2.2 (.inl (by decide)) (by decide) (by decide)

theorem tokens_benchText : tokens (benchText phase index sequence sentNs) =
    [benchText phase index sequence sentNs] := by
  apply tokens_word
  · exact not_mem_benchText clean.2.1 (.inl (by decide)) (by decide) (by decide)
  · simp [benchText, ascii]

theorem chatLine_benchText : chatLine (benchName index)
    (tokens (benchText phase index sequence sentNs)) =
      heardText phase index sequence sentNs ++ [newline] := by
  rw [tokens_benchText clean]
  simp [chatLine, heardText]

theorem newline_not_mem_heardText : newline ∉ heardText phase index sequence sentNs := by
  have text : newline ∉ benchText phase index sequence sentNs := newline_not_mem_benchText clean
  have number : newline ∉ decimal index := not_mem_decimal (.inl (by decide)) _
  have head : newline ∉ ascii "> " ++ ascii "bench-" := by decide
  have colon : newline ∉ ascii ": " ++ [space] := by decide
  simp only [List.mem_append, not_or] at head colon
  simp only [heardText, benchName, List.mem_append, head, colon, number, text, or_self,
    not_false_eq_true]

theorem request_benchText (s : ChatServer) (client : ClientConnection) :
    s.request client (benchText phase index sequence sentNs) =
      .chat (tokens (benchText phase index sequence sentNs)) := by
  have starts : (benchText phase index sequence sentNs).head? = some 66 := by
    simp [benchText, ascii]
  have nonempty : benchText phase index sequence sentNs ≠ [] := by
    intro empty
    rw [empty] at starts
    cases starts
  have spoken : benchText phase index sequence sentNs ∉ commands := by
    intro mem
    have command : ∀ word ∈ commands, word.head? ≠ some 66 := by decide
    exact command _ mem starts
  simp only [ChatServer.request, if_neg nonempty, tokens_benchText clean, List.headD_cons, spoken,
    not_false_eq_true, if_true]

end Server

/-- The frame is handled by sending the line to the members of the sender's room. -/
def GoesRound (s : ChatServer) (sender : Fd) (client : ClientConnection) (raw remaining : Bytes)
    (line : Bytes) : Prop :=
  ∃ room ∈ s.rooms, room.roomIdx = client.currRoom ∧ ∀ framesProcessed,
    (ChatServer.frameStep sender framesProcessed s).server =
      (ChatServer.broadcastLoop sender line room.subscribedClients
        (s.taking sender client raw remaining)).2

theorem benchText_goesRound {s : ChatServer} (h : s.Reachable) {sender : Fd}
    {client : ClientConnection} (found : s.clients sender = some client) (clean : TokenOk phase.token)
    (named : client.username = benchName index) {remaining : Bytes}
    (buffered : client.inputBuffer = benchText phase index sequence sentNs ++ newline :: remaining)
    (short : (benchText phase index sequence sentNs).length ≤ maxFrameBytes) :
    GoesRound s sender client (benchText phase index sequence sentNs) remaining
      (heardText phase index sequence sentNs ++ [newline]) := by
  have inv := ChatServer.reachable_inv h
  have active : client.clientState = .active := by
    have login := ((inv.entries sender).framing client found).login
    cases state : client.clientState with
    | active => rfl
    | awaitingUsername =>
      rw [state] at login
      have empty := named.symm.trans login.2.1
      simp [benchName, ascii] at empty
  have split : splitFrame client.inputBuffer =
      some (benchText phase index sequence sentNs, remaining) := by
    rw [buffered]
    exact splitFrame_append (newline_not_mem_benchText clean) remaining
  have asked : s.request client (benchText phase index sequence sentNs) = .chat _ :=
    request_benchText clean s client
  rw [← strip_benchText] at asked
  obtain ⟨room, mem, id, result⟩ := ChatServer.frameStep_chat found active inv.rooms remaining asked
  rw [strip_benchText, named, chatLine_benchText clean] at result
  refine ⟨room, mem, id, fun framesProcessed => ?_⟩
  rw [(ChatServer.frameStep_active found split short active framesProcessed).1, strip_benchText,
    result]

section Reader

/-- How many of the lines a reader counts as deliveries. A direct one takes an entry
of `pending`. -/
def countLines (phase : Phase) (pending : Nat) (lines : List (List Octet)) : Nat :=
  if phase.workload = .direct then
    min pending (lines.countP fun line => decide (whereResponse <:+: text line))
  else lines.countP fun line => (parseBench phase.token (text line)).isSome

inductive Delivery where
  | arrive (octets : List Octet)
  | read (nowNs readyNs : Int) (answers : List RecvAnswer)

def Delivery.octets : Delivery → List Octet
  | .arrive octets => octets
  | .read _ _ _ => []

def delivered (deliveries : List Delivery) : List Octet := deliveries.flatMap Delivery.octets

variable (clock : Nat → Int) (phase : Phase) (index : Nat)

def deliver (s : Served) : Delivery → Served
  | .arrive octets => { s with client := s.client.arrive octets }
  | .read nowNs readyNs answers => processClientRead clock phase index nowNs readyNs answers s

/-- Of the lines that have come or are yet to come, so many deliveries are made. -/
structure Owes (later : List Octet) (count : Nat) (s : Served) : Prop where
  sum : s.state.deliveries + countLines phase s.client.pending.length
    (completeLines (s.client.buffer ++ s.client.incoming ++ later)).1 = count
  held : newline ∉ text s.client.buffer

theorem handleLine_counts (s : Served) (line : List Octet) (lines : List (List Octet)) :
    let s' := handleLine clock phase index s line
    s'.state.deliveries + countLines phase s'.client.pending.length lines =
      s.state.deliveries + countLines phase s.client.pending.length (line :: lines) := by
  unfold handleLine countLines
  dsimp only
  generalize (if clock s.ticks ≤ phase.deadlineNs then 1 else 0) = byDeadline
  by_cases direct : phase.workload = .direct
  · simp only [if_pos direct, List.countP_cons]
    by_cases marked : whereResponse <:+: text line
    · rw [if_neg (not_not.mpr marked)]
      cases pending : s.client.pending with
      | nil => simp [pending]
      | cons first rest =>
        simp only [marked, decide_true, if_true, List.length_cons]
        omega
    · simp [marked]
  · simp only [if_neg direct, List.countP_cons]
    cases parseBench phase.token (text line) with
    | none => simp
    | some parsed =>
      simp only [Option.isSome_some, if_true]
      split_ifs
      all_goals
        dsimp only
        omega

theorem handleLine_buffers (s : Served) (line : List Octet) :
    (handleLine clock phase index s line).client.buffer = s.client.buffer ∧
      (handleLine clock phase index s line).client.incoming = s.client.incoming := by
  unfold handleLine
  dsimp only
  generalize (if clock s.ticks ≤ phase.deadlineNs then 1 else 0) = byDeadline
  split_ifs
  · cases s.client.pending <;> exact ⟨rfl, rfl⟩
  · exact ⟨rfl, rfl⟩
  · cases parseBench phase.token (text line) with
    | none => exact ⟨rfl, rfl⟩
    | some parsed =>
      dsimp only
      split_ifs <;> exact ⟨rfl, rfl⟩

theorem takeData_buffers (data : List Octet) (s : Served) :
    (takeData clock phase index data s).client.buffer =
        (completeLines (s.client.buffer ++ data)).2 ∧
      (takeData clock phase index data s).client.incoming =
        s.client.incoming.drop data.length := by
  have each (lines : List (List Octet)) (s : Served) :
      (lines.foldl (handleLine clock phase index) s).client.buffer = s.client.buffer ∧
        (lines.foldl (handleLine clock phase index) s).client.incoming = s.client.incoming := by
    induction lines generalizing s with
    | nil => exact ⟨rfl, rfl⟩
    | cons line lines ih =>
      obtain ⟨buffer, incoming⟩ := handleLine_buffers clock phase index s line
      rw [List.foldl_cons, (ih _).1, (ih _).2]
      exact ⟨buffer, incoming⟩
  exact each _ _

/-- A count of a phase, and what the lines that a client is yet to handle will add to it. -/
structure Tally (phase : Phase) where
  value : BenchState → Nat
  adds : Nat → List Pending → List (List Octet) → Nat
  nothing : ∀ index pending, adds index pending [] = 0
  line : ∀ (clock : Nat → Int) (index : Nat) (s : Served) (line : List Octet)
    (lines : List (List Octet)),
    value (handleLine clock phase index s line).state +
        adds index (handleLine clock phase index s line).client.pending lines =
      value s.state + adds index s.client.pending (line :: lines)
  same : ∀ {state state' : BenchState}, state'.deliveries = state.deliveries →
    state'.eventualCompletions = state.eventualCompletions → value state' = value state

namespace Tally

variable {phase} (tally : Tally phase)

def ahead (later : List Octet) (client : BenchClient) : Nat :=
  tally.adds index client.pending (completeLines (client.buffer ++ client.incoming ++ later)).1

def total (later : List Octet) (s : Served) : Nat :=
  tally.value s.state + tally.ahead index later s.client

theorem handleLines (lines more : List (List Octet)) (s : Served) :
    tally.value (lines.foldl (handleLine clock phase index) s).state +
        tally.adds index (lines.foldl (handleLine clock phase index) s).client.pending more =
      tally.value s.state + tally.adds index s.client.pending (lines ++ more) := by
  induction lines generalizing s with
  | nil => rfl
  | cons line lines ih => rw [List.foldl_cons, ih, tally.line, List.cons_append]

theorem takeData (later : List Octet) {s : Served} {data : List Octet}
    (arrived : data <+: s.client.incoming) :
    tally.total index later (takeData clock phase index data s) = tally.total index later s := by
  obtain ⟨buffer, incoming⟩ := takeData_buffers clock phase index data s
  have whole : s.client.buffer ++ s.client.incoming ++ later =
      s.client.buffer ++ data ++ (s.client.incoming.drop data.length ++ later) := by
    rw [List.append_assoc, List.append_assoc, ← List.append_assoc data,
      List.prefix_iff_eq_append.mp arrived]
  rw [total, total, ahead, ahead, buffer, incoming, whole,
    completeLines_append (s.client.buffer ++ data), List.append_assoc]
  exact tally.handleLines clock index _ _ _

theorem close (later : List Octet) (s : Served) : tally.total index later { s with
    client := (closeClient index s.client s.state).1
    state := (closeClient index s.client s.state).2 } = tally.total index later s := by
  unfold closeClient
  split_ifs
  · rfl
  · exact congrArg (· + tally.ahead index later s.client) (tally.same rfl rfl)

theorem processClientRead (later : List Octet) (nowNs readyNs : Int)
    (answers : List RecvAnswer) (s : Served) :
    tally.total index later (processClientRead clock phase index nowNs readyNs answers s) =
      tally.total index later s := by
  refine readLoop_preserves clock phase index (P := fun t => tally.total index later t = _)
    (fun t data arrived same => ?_) (fun t same => ?_) answers 0 0 ?_
  · rw [tally.takeData clock index later arrived, same]
  · rw [tally.close, same]
  · exact congrArg (· + tally.ahead index later s.client) (tally.same rfl rfl)

end Tally

theorem processClientRead_held (nowNs readyNs : Int) (answers : List RecvAnswer) {s : Served}
    (held : newline ∉ text s.client.buffer) :
    newline ∉ text (processClientRead clock phase index nowNs readyNs answers s).client.buffer := by
  refine readLoop_preserves clock phase index (P := fun t => newline ∉ text t.client.buffer)
    (fun t data _ _ => ?_) (fun t held => ?_) answers 0 0 held
  · rw [(takeData_buffers clock phase index data t).1]
    exact newline_not_mem_tail _
  · unfold closeClient
    split_ifs
    · exact held
    · exact held

def deliveryTally : Tally phase where
  value := BenchState.deliveries
  adds _ pending lines := countLines phase pending.length lines
  nothing _ pending := by simp [countLines]
  line clock index := handleLine_counts clock phase index
  same same _ := same

variable {phase} {later : List Octet} {count : Nat}

theorem Owes.deliver {s : Served} (d : Delivery) (h : Owes phase (d.octets ++ later) count s) :
    Owes phase later count (deliver clock phase index s d) := by
  cases d with
  | arrive octets =>
    refine ⟨?_, h.held⟩
    have sum := h.sum
    rw [← List.append_assoc, List.append_assoc s.client.buffer] at sum
    exact sum
  | read nowNs readyNs answers =>
    have read := (deliveryTally phase).processClientRead clock index later nowNs readyNs answers s
    refine ⟨read.trans h.sum, ?_⟩
    exact processClientRead_held clock phase index nowNs readyNs answers h.held

theorem Owes.run (deliveries : List Delivery) {s : Served}
    (h : Owes phase (delivered deliveries ++ later) count s) :
    Owes phase later count (deliveries.foldl (Bench.deliver clock phase index) s) := by
  induction deliveries generalizing s with
  | nil => exact h
  | cons d rest ih =>
    apply ih
    apply Owes.deliver
    rwa [← List.append_assoc]

theorem deliveries_run {deliveries : List Delivery} {s : Served}
    (held : newline ∉ text s.client.buffer)
    (all : (deliveries.foldl (deliver clock phase index) s).client.incoming = []) :
    (deliveries.foldl (deliver clock phase index) s).state.deliveries =
      s.state.deliveries + countLines phase s.client.pending.length
        (completeLines (s.client.buffer ++ s.client.incoming ++ delivered deliveries)).1 := by
  have owes : Owes phase [] _ (deliveries.foldl (deliver clock phase index) s) :=
    Owes.run clock index deliveries ⟨by rw [List.append_nil], held⟩
  have sum := owes.sum
  rw [all, List.append_nil, List.append_nil, completeLines_clean owes.held] at sum
  rw [← sum]
  simp [countLines]

end Reader

/-- A reader counts the line as one delivery if its phase has the token, and as none
otherwise, whatever it has read before and however the line is cut. -/
def CountedOnce (token line : Bytes) : Prop :=
  ∀ (clock : Nat → Int) (reader : Phase) (index : Nat) (s : Served) (deliveries : List Delivery),
    newline ∉ text s.client.buffer → (completeLines (s.client.buffer ++ s.client.incoming)).2 = [] →
    text (delivered deliveries) = line ++ [newline] →
    (deliveries.foldl (deliver clock reader index) s).client.incoming = [] →
    (deliveries.foldl (deliver clock reader index) s).state.deliveries =
      s.state.deliveries + countLines reader s.client.pending.length
        (completeLines (s.client.buffer ++ s.client.incoming)).1 +
      if reader.workload ≠ .direct ∧ reader.token = token then 1 else 0

section Line

variable (clean : TokenOk phase.token)

include clean

theorem heardText_no_where : ¬ whereResponse <:+: heardText phase index sequence sentNs := by
  intro infixed
  have text : space ∉ benchText phase index sequence sentNs :=
    not_mem_benchText clean.2.1 (.inl (by decide)) (by decide) (by decide)
  have number : space ∉ decimal index := not_mem_decimal (.inl (by decide)) _
  have fixed : (ascii "> ").count space = 1 ∧ (ascii "bench-").count space = 0 ∧
      (ascii ": ").count space = 1 ∧ ([space] : Bytes).count space = 1 := by decide
  have blanks : (heardText phase index sequence sentNs).count space = 3 := by
    simp only [heardText, benchName, List.count_append, List.count_eq_zero_of_not_mem text,
      List.count_eq_zero_of_not_mem number, fixed]
  have fewer := infixed.count_le space
  have four : whereResponse.count space = 4 := by decide
  omega

theorem countLines_heard (reader : Phase) (pending : Nat) (lines : List (List Octet))
    {line : List Octet} (heard : text line = heardText phase index sequence sentNs) :
    countLines reader pending (lines ++ [line]) = countLines reader pending lines +
      if reader.workload ≠ .direct ∧ reader.token = phase.token then 1 else 0 := by
  unfold countLines
  by_cases direct : reader.workload = .direct
  · have unmarked : ¬ whereResponse <:+: heardText phase index sequence sentNs :=
      heardText_no_where clean
    simp [direct, heard, unmarked]
  · by_cases same : reader.token = phase.token
    · simp [direct, heard, parseBench_heard clean.1, same]
    · simp [direct, heard, parseBench_heard clean.1, same]

theorem heardText_countedOnce :
    CountedOnce phase.token (heardText phase index sequence sentNs) := by
  intro clock reader i s deliveries held whole wire all
  obtain ⟨line, last, split, heard, ends⟩ := List.map_eq_append_iff.mp wire
  obtain ⟨octet, rfl, same⟩ := List.map_eq_singleton_iff.mp ends
  have one : completeLines (delivered deliveries) = ([line], []) := by
    rw [split]
    refine completeLines_line ?_ same
    rw [text, heard]
    exact newline_not_mem_heardText clean
  rw [deliveries_run clock i held all, completeLines_whole whole, one,
    countLines_heard clean reader _ _ heard, Nat.add_assoc]

end Line

/-- A frame of a broadcast phase that the server takes from the client of that index
goes round its room as a line that is parsed back to the index and the send time, and
counted as one delivery, by a reader whose phase has the token and by no other. -/
theorem frame_survives {s : ChatServer} (h : s.Reachable) {sender : Fd} {client : ClientConnection}
    (found : s.clients sender = some client) (broadcast : phase.workload ≠ .direct)
    (clean : TokenOk phase.token) (named : client.username = benchName index) {remaining : Bytes}
    (buffered : client.inputBuffer = frame phase index sequence sentNs ++ remaining)
    (short : (benchText phase index sequence sentNs).length ≤ maxFrameBytes) :
    GoesRound s sender client (benchText phase index sequence sentNs) remaining
        (heardText phase index sequence sentNs ++ [newline]) ∧
      (∀ token, parseBench token (heardText phase index sequence sentNs) =
        if token = phase.token then some ((index : Int), sentNs) else none) ∧
      CountedOnce phase.token (heardText phase index sequence sentNs) := by
  refine ⟨?_, parseBench_heard clean.1, heardText_countedOnce clean⟩
  rw [frame_eq broadcast, List.append_assoc, List.singleton_append] at buffered
  exact benchText_goesRound h found clean named buffered short

def benchPhase : Phase where
  workload := .broadcast
  totalConnections := 2
  activeIndices := [0]
  rate := 1
  duration := 1
  payloadSize := 0
  token := ascii "t"
  startNs := 0
  deadlineNs := 1000000000
  maxOverdueSends := 1
  maxOfferLagMs := 1
  maxRecvCalls := 1
  maxRecvBytes := 1

def benchMet : ChatServer :=
  ChatServer.Action.perform (.receive 4 (frame benchPhase 0 1 7)) ((ChatServer.initial 3).run
    (ChatServer.connects 4 [.accepted maxBytesWrittenPerPoll] (benchName 0 ++ [newline])))

theorem benchMet_survives : ∃ client, benchMet.clients 4 = some client ∧
    GoesRound benchMet 4 client (benchText benchPhase 0 1 7) []
      (heardText benchPhase 0 1 7 ++ [newline]) ∧
    CountedOnce (ascii "t") (heardText benchPhase 0 1 7) := by
  have connected : ((ChatServer.initial 3).run (ChatServer.connects 4
      [.accepted maxBytesWrittenPerPoll] (benchName 0 ++ [newline]))).clients 4 ≠ none := by
    decide +kernel
  have reachable : benchMet.Reachable :=
    ChatServer.reachable_perform (ChatServer.run_reachable 3 _) (.receive 4 _) connected
  have met : (benchMet.clients 4).any (fun client => client.username = benchName 0 &&
      client.inputBuffer = frame benchPhase 0 1 7 ++ []) = true := by decide +kernel
  obtain ⟨client, found, there⟩ := Option.any_eq_true .. |>.mp met
  rw [Bool.and_eq_true, decide_eq_true_eq, decide_eq_true_eq] at there
  have clean : TokenOk benchPhase.token := ⟨by decide, by decide, by decide⟩
  obtain ⟨round, -, counted⟩ := frame_survives reachable found (by decide) clean there.1 there.2
    (by decide +kernel)
  exact ⟨client, found, round, counted⟩

end Partyline.Bench
