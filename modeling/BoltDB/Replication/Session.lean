import BoltDB.Lib.Timeline
import BoltDB.Replication.Feed

/-!
# Master, replica and the connection between them

The replication protocol as one transition system: the master's store with its concurrent commit
attempts, one replica with its reconnect loop, and the connection between them.

* Master side — `HandlePSync` (`psync.go`), `handlePSyncWithRDB` (`replication_handler.go`),
  `CatchUpAndEnableSlaveTS` and `PropagateCommand` (`replication.go`), which both end in `FeedSlave`
  (`feed_source.go`). A `FeedSlave` call holds `feedMu`, so at most one is under way, and its sends
  interleave with everything else. The writer's error is sticky: after a failed send nothing more
  leaves on that connection.
* Replica side — `sendPSYNC`, `tryReplicate` and `readCommandLoop` (`reconnect.go`).

The state of a data store is a parameter `σ`, with `effect args` what replaying a command does to
it. The master's history is the ghost field `hist`: every command (or NOOP) ever logged, by
timestamp, also those whose record was deleted since.
-/

namespace BoltDB.Replication

open Bytes Transition

/-! ## The master -/

/-- Commands by timestamp. -/
abbrev History := Std.ExtTreeMap Nat (List Bytes) compare

structure Master where
  store : ReplStore
  replId : Bytes
  hist : History

/-- The command that an attempt leaves in the log: its own, a NOOP, or none. -/
def Attempt.recorded (a : Attempt) : Option (List Bytes) :=
  if a.commits then
    match a.writer with
    | .command args => some args
    | _ => none
  else if a.tombstoneOk then some ["NOOP"] else none

namespace Master

def start (replId : Bytes) : Master := ⟨.empty, replId, ∅⟩

def histAfter (m : Master) : Event → History
  | .commitTS ts a =>
    match a.recorded with
    | some args => m.hist.insert ts args
    | none => m.hist
  | _ => m.hist

def step (m : Master) (e : Event) : Option Master :=
  (m.store.step e).map fun s => { m with store := s, hist := m.histAfter e }

/-- `HandlePSync`: `true` for CONTINUE. A replica that was never in sync asks with `none` and 0. -/
def handlePSync (m : Master) (replId : Option Bytes) (ts : Nat) : Bool :=
  ts ≠ 0 && replId = some m.replId &&
    (m.store.replLogStartTS ≤ ts && ts ≤ m.store.replLogCurrentTS)

/-- The delete batches of `ClearAllData`, from timestamp `ts` on. -/
def deleteBatches (ts : Nat) : List (List Nat) → List Event
  | [] => []
  | b :: bs => Event.whole ts (.ok (.deleteBatch b) true) ++ deleteBatches (ts + 1) bs

/-- `FlushDB` run without another write in between: the probe, the batches that delete every key
(the log records among them), and the logged FLUSHDB. `ts` is the first timestamp it takes. -/
def flushDBEvents (ts : Nat) (batches : List (List Nat)) : List Event :=
  Event.whole ts (.ok .waitForWritesReady false) ++ (deleteBatches (ts + 1) batches ++
    Event.whole (ts + 1 + batches.length) (.ok (.command ["FLUSHDB"]) false))

end Master

/-! ## The connection -/

/-- What the master has sent. -/
inductive Msg (σ : Type)
  | fullResync (replId : Bytes) (ts : Nat)
  | rdb (data : σ)
  | continue_ (replId : Bytes)
  | frame (f : Frame)

/-- How far the master is with a connection. -/
inductive Stage
  /-- A full resync was decided; the snapshot lock is not held yet. -/
  | snapshot
  /-- The lock is held, the timestamp to announce is read, the RDB is being made. -/
  | dumping (snapshotTS : Nat)
  /-- The reply is out; the feed starts after this timestamp. -/
  | catchUp (resumeTS : Nat)
  /-- Feed mode, with the cursor `feedSinceTS`. -/
  | feeding (since : Nat)
  deriving DecidableEq

/-- A `FeedSlave` call under way: the frames it still has to send, and the timestamp of its last. -/
structure Sending where
  frames : List Frame
  lastTS : Nat

/-- What the replica waits for. -/
inductive Phase
  | psyncReply
  /-- `SlaveSyncing`. -/
  | rdb
  /-- `SlaveConnected`: in `readCommandLoop`. -/
  | commands
  deriving DecidableEq

structure Link (σ : Type) where
  stage : Stage
  sending : Option Sending
  /-- A send has failed. -/
  broken : Bool
  /-- Sent and not yet read, oldest first. -/
  wire : List (Msg σ)
  phase : Phase

/-! ## The replica -/

structure Replica (σ : Type) where
  lastReplId : Option Bytes
  lastAppliedTS : Nat
  store : σ
  /-- Ghost: how often the replica started over, by a FULLRESYNC reply or by a restart. -/
  resyncs : Nat
  /-- Ghost: the watermark it started from. -/
  base : Nat
  /-- Ghost: the commands applied since, in order. -/
  applied : List Frame

/-- What a read of the replica runs into. -/
inductive ReadResult (σ : Type)
  /-- The RDB is read and loaded; the command executes. -/
  | ok
  /-- `ReadBulkString` fails. -/
  | rdbReadError
  /-- `LoadRDB` fails with the store left as given. -/
  | rdbLoadError (partly : σ)
  /-- The command fails with "key not found": it is skipped. -/
  | transient
  /-- The command fails otherwise: reconnect. -/
  | fatal

structure World (σ : Type) where
  master : Master
  link : Option (Link σ)
  replica : Replica σ

inductive Action (σ : Type)
  | master (e : Event)
  | flushDB (batches : List (List Nat))
  /-- The replica dials, shakes hands and sends PSYNC, and `HandlePSync` answers. -/
  | psync
  /-- The master takes the snapshot lock and reads the timestamp. The lock keeps out the requests
  that it knows as writes; other commits go on. -/
  | replLogCurrentTS
  /-- It sends FULLRESYNC and what it has dumped, whatever that is. -/
  | sendRDB (rdb : σ)
  | catchUp
  /-- A `FeedSlave` call reads its entries. -/
  | feedRead
  | feedSend (ok : Bool)
  /-- It advances the cursor. -/
  | feedDone
  | read (r : ReadResult σ)
  | disconnect
  /-- The replica's process restarts: the reconnector's state is lost, the store is not. -/
  | replicaRestart

/-! ## Steps -/

section Steps

variable {σ : Type} (effect : List Bytes → σ → σ) (empty : σ)

def isNoop (args : List Bytes) : Bool := toUpper (args.headD []) == "NOOP"

/-- What a logged command does to the data. -/
def effectOf (args : List Bytes) (s : σ) : σ := if isNoop args then s else effect args s

/-- The data after the history up to and including `t`. -/
def stateAt (hist : History) (t : Nat) : σ := Timeline.foldUpTo (effectOf effect) empty hist t

namespace Replica

variable {effect} (p : Replica σ)

/-- The watermark moves over an applied frame. -/
def advance (f : Frame) (s : σ) : Replica σ :=
  { p with lastAppliedTS := f.ts, store := s, applied := p.applied ++ [f] }

end Replica

/-- One message read by the replica in `readCommandLoop`, `tryReplicate` or `sendPSYNC`. The result
is the replica and whether the connection is kept. -/
def Replica.read (p : Replica σ) (phase : Phase) (msg : Msg σ) (r : ReadResult σ) :
    Replica σ × Option Phase :=
  match phase, msg with
  | .psyncReply, .fullResync replId ts =>
    -- the watermark is set here, before the RDB is read
    ({ p with
        lastReplId := some replId
        lastAppliedTS := ts
        resyncs := p.resyncs + 1
        base := ts
        applied := [] }, some .rdb)
  | .psyncReply, .continue_ replId => ({ p with lastReplId := some replId }, some .commands)
  | .rdb, .rdb data =>
    match r with
    | .rdbReadError => (p, none)
    | .rdbLoadError partly => ({ p with store := partly }, none)
    | _ => ({ p with store := data }, some .commands)
  | .commands, .frame f =>
    match checkFeedTSGap p.lastAppliedTS f.ts with
    | .error _ => (p, none)
    | .ok _ =>
      if isNoop f.args then (p.advance f p.store, some .commands)
      else
        match r with
        | .transient => (p, some .commands)
        | .fatal => (p, none)
        | _ => (p.advance f (effect f.args p.store), some .commands)
  -- anything else is not what the replica waits for
  | _, _ => (p, none)

def World.step (w : World σ) : Action σ → Option (World σ)
  | .master e =>
    (w.master.step e).map fun m =>
      { w with master := m, link := if e = .restart then none else w.link }
  | .flushDB batches =>
    if w.master.store.running = ∅ ∧ ∀ t ∈ w.master.store.log.keys, t ∈ batches.flatten then
      (run Master.step w.master
        (Master.flushDBEvents w.master.store.tsSource.next batches)).map fun m =>
          { w with master := m }
    else none
  | .psync =>
    match w.link with
    | some _ => none
    | none =>
      let ts := if w.replica.lastReplId = none then 0 else w.replica.lastAppliedTS
      let cont := w.master.handlePSync w.replica.lastReplId ts
      some { w with link := some {
        stage := if cont then .catchUp ts else .snapshot
        sending := none
        broken := false
        wire := if cont then [.continue_ w.master.replId] else []
        phase := .psyncReply } }
  | .replLogCurrentTS =>
    match w.link with
    | some l =>
      if l.stage = .snapshot then
        some { w with link := some { l with stage := .dumping w.master.store.replLogCurrentTS } }
      else none
    | none => none
  | .sendRDB rdb =>
    match w.link with
    | some l =>
      match l.stage with
      | .dumping ts =>
        some { w with link := some { l with
          stage := .catchUp ts
          wire := l.wire ++ [.fullResync w.master.replId ts, .rdb rdb] } }
      | _ => none
    | none => none
  | .catchUp =>
    match w.link with
    | some l =>
      match l.stage with
      | .catchUp ts => some { w with link := some { l with stage := .feeding (ts + 1) } }
      | _ => none
    | none => none
  | .feedRead =>
    match w.link with
    | some l =>
      match l.stage, l.sending with
      | .feeding since, none =>
        match w.master.store.feedEntriesFrom since with
        | .ok (f :: fs) =>
          some { w with link := some { l with
            sending := some ⟨f :: fs, ((f :: fs).getLast (by simp)).ts⟩ } }
        | _ => some w
      | _, _ => none
    | none => none
  | .feedSend ok =>
    match w.link with
    | some l =>
      match l.sending with
      | some ⟨f :: fs, lastTS⟩ =>
        if ok && !l.broken then
          some { w with link := some { l with
            sending := some ⟨fs, lastTS⟩, wire := l.wire ++ [.frame f] } }
        else some { w with link := some { l with sending := none, broken := true } }
      | _ => none
    | none => none
  | .feedDone =>
    match w.link with
    | some l =>
      match l.sending with
      | some ⟨[], lastTS⟩ =>
        some { w with link := some { l with sending := none, stage := .feeding (lastTS + 1) } }
      | _ => none
    | none => none
  | .read r =>
    match w.link with
    | some l =>
      match l.wire with
      | msg :: rest =>
        let (p, next) := w.replica.read effect l.phase msg r
        some { w with
          replica := p
          link := next.map fun phase => { l with wire := rest, phase } }
      | [] => none
    | none => none
  | .disconnect => some { w with link := none }
  | .replicaRestart =>
    some { w with
      link := none
      replica := { w.replica with
        lastReplId := none
        lastAppliedTS := 0
        resyncs := w.replica.resyncs + 1
        base := 0
        applied := [] } }

end Steps

/-- The data store that remembers the commands replayed on it since the last FLUSHDB. -/
def journal (args : List Bytes) (s : List (List Bytes)) : List (List Bytes) :=
  if args = [ascii "FLUSHDB"] then [] else s ++ [args]

end BoltDB.Replication
