import BoltDB.Replication.ApplyLoop
import BoltDB.Replication.MasterConnection

/-!
# The loop that reads the master's commands

`readCommandLoop` (`reconnect.go`) on any stream of bytes: each round reads one request with `ReadRESP` and
looks at its first argument, which an empty array does not have.

* `round` — what a round does with a request: answers, feed entries and plain commands.
* `commandLoop` — the rounds, until one of them ends the loop or the stream ends.
* `commandLoop_eq_panic` — the loop leaves a slice only at an empty request, or inside a command that it
  executes.
* `replica_readers_safe` — which streams the three readers of a replica end on with a value or an error.
-/

namespace BoltDB.Replication

open Bytes ByteReader Proto

variable {σ : Type}

/-! ## One round -/

/-- What the surroundings decide in one round. -/
structure Surroundings where
  /-- The replica is stopped before the round. -/
  stopped : Bool
  /-- The replica is stopped when the read fails. -/
  stoppedInRead : Bool
  /-- An answer to the master cannot be written. -/
  writeFails : Bool
  /-- By the clocks the stream has stalled. -/
  stalled : Bool

inductive LoopErr
  /-- "read command from master failed: %w". -/
  | read (e : ReadErr)
  /-- "write PONG to master failed: %w". -/
  | writePong
  /-- "write REPLCONF ACK to master failed: %w". -/
  | writeAck
  /-- "replication stalled: master at %d, slave at %d (master ts %d, slave ts %d)". -/
  | stalled
  /-- "invalid REPLLOG feed entry: not a REPLLOG feed entry: %d args". -/
  | notFeedEntry (args : Nat)
  /-- "invalid REPLLOG feed entry: invalid feed ts %q: %w". -/
  | invalidTS (text : Bytes)
  | gap (e : FeedError)
  /-- "execute feed command failed: %w". -/
  | executeFeed (err : Bytes)
  /-- "execute replicated command failed: %w". -/
  | execute (err : Bytes)
  deriving DecidableEq

/-- `strconv.ParseUint(s, 10, 64)`. -/
def parseUint (s : Bytes) : Option Nat :=
  if s.isEmpty || !s.all isDigit then none
  else if digitsValue 0 s < 2 ^ 64 then some (digitsValue 0 s) else none

/-- A nil argument as text. -/
def texts (args : Args) : List Bytes := args.map (·.getD [])

/-- `feedEntryParse`. -/
def feedEntryParse (args : List Bytes) : Except LoopErr (Nat × List Bytes) :=
  match args with
  | name :: ts :: cmd :: rest =>
    if name ≠ "REPLLOG" then .error (.notFeedEntry args.length)
    else
      match parseUint ts with
      | none => .error (.invalidTS ts)
      | some t => .ok (t, cmd :: rest)
  | _ => .error (.notFeedEntry args.length)

/-- The kinds of requests that the loop tells apart. -/
inductive Request
  | ping
  | getAck
  | ack (offset : Bytes)
  | select
  | feed
  | command
  deriving DecidableEq

/-- The second argument of a `REPLCONF` with a third. -/
def IsReplconf (cmd : Bytes) (args : List Bytes) (sub : String) : Prop :=
  cmd = "REPLCONF" ∧ 3 ≤ args.length ∧ Bytes.toUpper (args.getD 1 []) = ascii sub

instance (cmd : Bytes) (args : List Bytes) (sub : String) : Decidable (IsReplconf cmd args sub) := by
  unfold IsReplconf
  infer_instance

/-- The branches of the loop. -/
def classify (cmd : Bytes) (args : List Bytes) : Request :=
  if cmd = "PING" then .ping
  else if IsReplconf cmd args "GETACK" then .getAck
  else if IsReplconf cmd args "ACK" then .ack (args.getD 2 [])
  else if cmd = "SELECT" then .select
  else if cmd = "REPLLOG" then .feed
  else .command

/-- How a round ends. -/
inductive RoundEnd (σ : Type)
  | next (s : Applier σ)
  | stop (s : Applier σ) (e : LoopErr)
  | panic

/-- `executeReplicatedCommand`; `none` if it leaves a slice. -/
abbrev Exec (σ : Type) := List Bytes → σ → Option (Executed σ)

variable (exec : Exec σ)

/-- Executes a command, whose request has `len` bytes. A tolerated error counts the bytes only. -/
def runCommand (s : Applier σ) (len : Nat) (cmd : List Bytes) (applied : Nat) (err : Bytes → LoopErr) :
    RoundEnd σ :=
  match exec cmd s.store with
  | none => .panic
  | some r =>
    match r.err with
    | none =>
      .next { s with lastAppliedTS := applied, lastOffset := s.lastOffset + len, store := r.store }
    | some e =>
      if isTransientReplicationError e then
        .next { s with
          lastOffset := s.lastOffset + len
          applySkipCount := s.applySkipCount + 1
          store := r.store }
      else .stop { s with store := r.store } (err e)

/-- A feed entry. -/
def runFeed (s : Applier σ) (len : Nat) (args : List Bytes) : RoundEnd σ :=
  match feedEntryParse args with
  | .error e => .stop s e
  | .ok (ts, cmd) =>
    match checkFeedTSGap s.lastAppliedTS ts with
    | .error e => .stop s (.gap e)
    | .ok _ =>
      if isNoop cmd then .next { s with lastAppliedTS := ts, lastOffset := s.lastOffset + len }
      else runCommand exec s len cmd ts .executeFeed

/-- One round with a request. -/
def round (env : Surroundings) (s : Applier σ) (args : Args) : RoundEnd σ :=
  match texts args with
  | [] => .panic
  | name :: rest =>
    let len := (serializeCommand args).length
    match classify (Bytes.toUpper name) (name :: rest) with
    | .ping => if env.writeFails then .stop s .writePong else .next s
    | .getAck => if env.writeFails then .stop s .writeAck else .next s
    | .ack offset => if (parseInt64 offset).isSome ∧ env.stalled then .stop s .stalled else .next s
    | .select => .next s
    | .feed => runFeed exec s len (name :: rest)
    | .command => runCommand exec s len (name :: rest) s.lastAppliedTS .execute

/-- The command that a round executes. -/
def executed (s : Applier σ) (args : Args) : Option (List Bytes) :=
  match texts args with
  | [] => none
  | name :: rest =>
    match classify (Bytes.toUpper name) (name :: rest) with
    | .feed =>
      match feedEntryParse (name :: rest) with
      | .error _ => none
      | .ok (ts, cmd) =>
        match checkFeedTSGap s.lastAppliedTS ts with
        | .error _ => none
        | .ok _ => if isNoop cmd then none else some cmd
    | .command => some (name :: rest)
    | _ => none

/-- The request is empty, or the command that it makes the replica execute leaves a slice. -/
def Breaks (s : Applier σ) (args : Args) : Prop :=
  args = [] ∨ ∃ cmd, executed s args = some cmd ∧ exec cmd s.store = none

variable {exec} {s : Applier σ}

theorem runCommand_eq_panic {len applied : Nat} {cmd : List Bytes} {err : Bytes → LoopErr} :
    runCommand exec s len cmd applied err = .panic ↔ exec cmd s.store = none := by
  unfold runCommand
  rcases exec cmd s.store with _ | ⟨store, _ | e⟩
  · simp
  · simp
  · simp only [reduceCtorEq, iff_false]
    split <;> exact nofun

/-- A round leaves a slice exactly if its request breaks it. -/
theorem round_eq_panic (env : Surroundings) {args : Args} :
    round exec env s args = .panic ↔ Breaks exec s args := by
  unfold round Breaks executed
  cases args with
  | nil => simp [texts]
  | cons arg args =>
    simp only [texts, List.map_cons, reduceCtorEq, false_or]
    generalize arg.getD [] = name
    generalize args.map (·.getD []) = rest
    cases classify (Bytes.toUpper name) (name :: rest) with
    | ping => cases hw : env.writeFails <;> simp
    | getAck => cases hw : env.writeFails <;> simp
    | ack offset =>
      dsimp only
      split <;> simp
    | select => simp
    | command =>
      dsimp only
      rw [runCommand_eq_panic]
      simp
    | feed =>
      dsimp only
      unfold runFeed
      cases feedEntryParse (name :: rest) with
      | error e => simp
      | ok r =>
        dsimp only
        cases checkFeedTSGap s.lastAppliedTS r.1 with
        | error e => simp
        | ok _ =>
          dsimp only
          split
          · simp
          · rw [runCommand_eq_panic]
            simp

/-! ## The loop -/

inductive LoopEnd (σ : Type)
  | returned (s : Applier σ) (err : Option LoopErr)
  | panic

variable (exec) (lim : Limits) (env : Nat → Surroundings)

/-- The rounds from number `i` on. Every round takes a byte, so that there are no more rounds than bytes. -/
def commandLoopAux : Nat → Nat → Applier σ → Bytes → LoopEnd σ
  | 0, _, s, _ => .returned s (some (.read .eof))
  | fuel + 1, i, s, stream =>
    if (env i).stopped then .returned s none
    else
      match readRESP lim stream with
      | .error .panic => .panic
      | .error (.fail e) => .returned s (if (env i).stoppedInRead then none else some (.read e))
      | .ok (args, rest) =>
        match round exec (env i) s args with
        | .next s => commandLoopAux fuel (i + 1) s rest
        | .stop s e => .returned s (some e)
        | .panic => .panic

/-- The state and the request of each round. -/
def servedAux : Nat → Nat → Applier σ → Bytes → List (Applier σ × Args)
  | 0, _, _, _ => []
  | fuel + 1, i, s, stream =>
    if (env i).stopped then []
    else
      match readRESP lim stream with
      | .error _ => []
      | .ok (args, rest) =>
        (s, args) ::
          match round exec (env i) s args with
          | .next s => servedAux fuel (i + 1) s rest
          | _ => []

/-- `readCommandLoop`. -/
def commandLoop (s : Applier σ) (stream : Bytes) : LoopEnd σ :=
  commandLoopAux exec lim env (stream.length + 1) 0 s stream

/-- The rounds of the loop. -/
def served (s : Applier σ) (stream : Bytes) : List (Applier σ × Args) :=
  servedAux exec lim env (stream.length + 1) 0 s stream

variable {exec lim env}

theorem commandLoopAux_eq_panic (h : lim.Fits) {fuel i : Nat} {stream : Bytes} :
    commandLoopAux exec lim env fuel i s stream = .panic ↔
      ∃ p ∈ servedAux exec lim env fuel i s stream, Breaks exec p.1 p.2 := by
  induction fuel generalizing i s stream with
  | zero => simp [commandLoopAux, servedAux]
  | succ fuel ih =>
    rw [commandLoopAux, servedAux]
    by_cases hstop : (env i).stopped = true
    · rw [if_pos hstop, if_pos hstop]
      simp
    · rw [if_neg hstop, if_neg hstop]
      cases hread : readRESP lim stream with
      | error e =>
        cases e with
        | fail e => simp
        | panic => exact absurd hread (safe_readRESP h stream)
      | ok r =>
        obtain ⟨args, rest⟩ := r
        dsimp only
        rw [List.exists_mem_cons_iff, ← round_eq_panic (env i)]
        cases round exec (env i) s args with
        | next s' => simp [ih]
        | stop s' e => simp
        | panic => simp

/-- More rounds than bytes change nothing: a loop that has used up the stream fails to read. -/
theorem commandLoopAux_fuel {fuel fuel' i : Nat} {stream : Bytes} (h : stream.length < fuel)
    (h' : stream.length < fuel') :
    commandLoopAux exec lim env fuel i s stream = commandLoopAux exec lim env fuel' i s stream := by
  induction fuel generalizing fuel' i s stream with
  | zero => omega
  | succ fuel ih =>
    obtain ⟨fuel', rfl⟩ : ∃ n, fuel' = n + 1 := ⟨fuel' - 1, by omega⟩
    rw [commandLoopAux, commandLoopAux]
    cases hread : readRESP lim stream with
    | error e => cases e <;> rfl
    | ok r =>
      obtain ⟨args, rest⟩ := r
      have hshort := shrinks_readRESP lim stream args rest hread
      dsimp only
      cases round exec (env i) s args with
      | next s' =>
        have hnext := @ih s' fuel' (i + 1) rest (by omega) (by omega)
        dsimp only
        rw [hnext]
      | stop s' e => rfl
      | panic => rfl

/-- **Replica readers.** `ReadResponse` ends with a value or an error unless the stream starts with a bulk
string of negative length, `ReadBulkString` always does, and `readCommandLoop` does unless it comes to an
empty request or to a command whose execution leaves a slice. -/
theorem replica_readers_safe (h : lim.Fits) :
    (∀ stream, SafeOn (readResponse lim) stream ↔ ¬ StartsNegative stream) ∧
    (∀ pieces, readBulkString lim pieces ≠ .error .panic) ∧
    ∀ (exec : Exec σ) (env : Nat → Surroundings) (s : Applier σ) (stream : Bytes),
      commandLoop exec lim env s stream ≠ .panic ↔
        ∀ p ∈ served exec lim env s stream, ¬ Breaks exec p.1 p.2 := by
  refine ⟨safeOn_readResponse h, readBulkString_ne_panic h, ?_⟩
  intro exec env s stream
  rw [Ne, commandLoop, commandLoopAux_eq_panic h]
  simp only [not_exists, not_and]
  rfl

/-- Nothing around the loop goes wrong. -/
def calm : Nat → Surroundings := fun _ => ⟨false, false, false, false⟩

/-- A replica that has applied nothing, over a store that accepts every command. -/
def fresh : Applier Unit := ⟨0, 0, 0, ()⟩

def accept : Exec Unit := fun _ _ => some ⟨(), none⟩

theorem fits_default : Limits.default.Fits := ⟨by decide, by decide⟩

/-- A PING, and a frame of the feed. -/
def pingAndFrame : Bytes := serializeCommand [some (ascii "PING")] ++
  serializeCommand (["REPLLOG", "1", "SET", "k", "v"].map fun a => some (ascii a))

theorem replica_readers_safe_ping :
    SafeOn (readResponse .default) (ascii "+PONG" ++ crlf) ∧
      commandLoop accept .default calm fresh pingAndFrame ≠ .panic := by
  have hsafe := replica_readers_safe (σ := Unit) fits_default
  constructor
  · apply (hsafe.1 _).mpr
    rintro ⟨line, rest, n, hline, hhead, -⟩
    have hread : (readBytes 10 () : Read Unit Bytes) ("+PONG" ++ crlf) =
        .ok ("+PONG" ++ crlf, []) := by decide
    rw [hread] at hline
    cases hline
    exact absurd hhead (by decide)
  · apply (hsafe.2.2 accept calm fresh _).mpr
    have hargs : ∀ p ∈ served accept .default calm fresh pingAndFrame, p.2 ≠ [] := by
      decide +kernel
    rintro p hp (hnil | ⟨cmd, -, hexec⟩)
    · exact hargs p hp hnil
    · cases hexec

/-- A reply with the length -2, and a request with no arguments. -/
theorem negative_length_and_empty_request_panic :
    readResponse .default (ascii "$-2" ++ crlf) = .error .panic ∧
      commandLoop accept .default calm fresh (serializeCommand []) = .panic := by
  constructor
  · decide
  · rfl

end BoltDB.Replication
