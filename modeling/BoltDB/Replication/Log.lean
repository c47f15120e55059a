import BoltDB.Lib.Transition
import BoltDB.Replication.TsSource
import BoltDB.Replication.Wire

/-!
# Commit attempts and the propagation log

Every write of the store goes through `commitTS` or `commitTSLazy`
(`internal/store/ts_source.go`): take a timestamp, run the write body, put the log record of the
command under that timestamp into the same transaction, commit, release the timestamp. An attempt
that fails after it took its timestamp writes a NOOP record there instead.

* `Writer` — who calls `commitTS`: the store's commands, which hand over their command, and the
  housekeeping routines, which hand over nothing.
* `ReplStore` — the timestamp source, the log records and badger's largest version.
* `step` — the interleaving of commit attempts and restarts.
-/

namespace BoltDB.Replication

open Bytes

/-- The `REPLLOG_` records, by timestamp. The record key is the prefix and the big-endian
timestamp, so badger's key order is this map's order. -/
abbrev ReplLog := Std.ExtTreeMap Nat Bytes compare

/-! ## Who commits -/

/-- The callers of `commitTS` and of the retry loops around it. -/
inductive Writer
  /-- Any store method that hands over its command (`Set`, `HSet`, ..., the final commit of
  `FlushDB`), a lazily computed one or a NOOP included. -/
  | command (args : List Bytes)
  | saveReplID
  | saveMasterReplOffset
  | saveBacklog
  | deleteBacklog
  /-- The TTL format migration at start-up. -/
  | migrateTTLFormat
  /-- The orphan clean-up at start-up. -/
  | nextStartup
  /-- The empty probe transaction of `ClearAllData`. -/
  | waitForWritesReady
  /-- One batch of `ClearAllData`, with the timestamps of the `REPLLOG_` records in it. -/
  | deleteBatch (logged : List Nat)
  | delString
  | setStringBatch
  | restoreHLL
  | xGroupRestore
  /-- `RunWriteLocked`: cluster configuration and migration journal. -/
  | runWriteLocked
  deriving DecidableEq

/-- The log value a writer passes to `commitTS`; empty when it passes none. -/
def Writer.logValue : Writer → Bytes
  | .command args => encodePropagateCommand args
  | _ => []

/-- The log records a writer's transaction deletes. -/
def Writer.deletedLog : Writer → List Nat
  | .deleteBatch logged => logged
  | _ => []

theorem Writer.logValue_command_ne_nil (args : List Bytes) :
    (Writer.command args).logValue ≠ [] := by
  simp [Writer.logValue, encodePropagateCommand]

/-- What one attempt runs into. -/
structure Attempt where
  writer : Writer
  /-- The write body `fn` fails. -/
  fnError : Bool
  /-- Adding the log record to the transaction fails. -/
  setError : Bool
  /-- `CommitAt` fails (conflict, blocked writes, ...). -/
  commitError : Bool
  /-- The tombstone's own commit succeeds. -/
  tombstoneOk : Bool
  /-- `fn` writes something: a transaction without writes leaves no version behind. -/
  wrote : Bool
  deriving DecidableEq

/-- The attempt gets to its commit. -/
def Attempt.commits (a : Attempt) : Bool :=
  !a.fnError && !(a.writer.logValue ≠ [] && a.setError) && !a.commitError

/-! ## The store as replication sees it -/

structure ReplStore where
  tsSource : TsSource
  /-- Attempts that took their timestamp and have neither committed nor failed yet. -/
  running : Finset Nat
  log : ReplLog
  /-- badger's `MaxVersion`. -/
  maxVersion : Nat

namespace ReplStore

/-- An empty store. -/
def empty : ReplStore where
  tsSource := .init 0
  running := ∅
  log := ∅
  maxVersion := 0

/-- `ReplLogDoneTS`. -/
def replLogDoneTS (s : ReplStore) : Nat := s.tsSource.doneWater

/-- `ReplLogStartTS`: the smallest logged timestamp, 0 without records. -/
def replLogStartTS (s : ReplStore) : Nat := s.log.keys.headD 0

/-- `ReplLogCurrentTS`: the largest logged timestamp, 0 without records. -/
def replLogCurrentTS (s : ReplStore) : Nat := s.log.keys.getLastD 0

/-- `ReplLogEntriesRange`: the records in `[since, upto]`, in timestamp order. -/
def replLogEntriesRange (s : ReplStore) (since upto : Nat) : List (Nat × Bytes) :=
  if upto < since then [] else s.log.toList.filter fun e => since ≤ e.1 && e.1 ≤ upto

/-! ## One commit attempt -/

/-- `writeNoopTombstone`: a second transaction at the same timestamp, errors ignored. -/
def writeNoopTombstone (s : ReplStore) (ts : Nat) (ok : Bool) : ReplStore :=
  if ok then
    { s with log := s.log.insert ts noopLogValue, maxVersion := max s.maxVersion ts }
  else s

/-- The transaction's commit: its deletions, its log record, its version. -/
def commitAt (s : ReplStore) (ts : Nat) (a : Attempt) : ReplStore :=
  let kept := s.log.filter fun t _ => t ∉ a.writer.deletedLog
  let log := if a.writer.logValue = [] then kept else kept.insert ts a.writer.logValue
  { s with
    log
    maxVersion := if a.wrote || a.writer.logValue ≠ [] then max s.maxVersion ts else s.maxVersion }

/-- The body of `commitTS` between `Begin` and `End`. -/
def commitTS (s : ReplStore) (ts : Nat) (a : Attempt) : ReplStore :=
  if a.fnError then s.writeNoopTombstone ts a.tombstoneOk
  else if a.writer.logValue ≠ [] && a.setError then s.writeNoopTombstone ts a.tombstoneOk
  else if a.commitError then s.writeNoopTombstone ts a.tombstoneOk
  else s.commitAt ts a

theorem commitTS_eq (s : ReplStore) (ts : Nat) (a : Attempt) : s.commitTS ts a =
      if a.commits then s.commitAt ts a else s.writeNoopTombstone ts a.tombstoneOk := by
  unfold commitTS Attempt.commits
  split_ifs <;> simp_all

end ReplStore

/-- The events of a store's life. -/
inductive Event
  /-- A goroutine enters `commitTS` and takes the next timestamp. -/
  | beginTs
  /-- It runs through to its commit or its tombstone. -/
  | commitTS (ts : Nat) (a : Attempt)
  /-- The deferred `End`. -/
  | endTs (ts : Nat)
  /-- The process stops, at any point, and the store is opened again. -/
  | restart
  deriving DecidableEq

namespace ReplStore

/-- One event. `none` where it cannot happen: an attempt settles once, and ends after that. -/
def step (s : ReplStore) : Event → Option ReplStore
  | .beginTs =>
    some { s with
      tsSource := s.tsSource.beginTs
      running := insert s.tsSource.next s.running }
  | .commitTS ts a =>
    if ts ∈ s.running then some { s.commitTS ts a with running := s.running.erase ts } else none
  | .endTs ts =>
    if ts ∈ s.tsSource.pending ∧ ts ∉ s.running then
      some { s with tsSource := s.tsSource.endTs ts }
    else none
  | .restart => some { s with tsSource := .init s.maxVersion, running := ∅ }

variable {s s' : ReplStore} {ts : Nat}

theorem step_commitTS {a : Attempt} (h : s.step (.commitTS ts a) = some s') :
    ts ∈ s.running ∧ s' = { s.commitTS ts a with running := s.running.erase ts } := by
  obtain ⟨hts, ⟨⟩⟩ := Option.ite_none_right_eq_some.mp h
  exact ⟨hts, rfl⟩

theorem step_endTs (h : s.step (.endTs ts) = some s') :
    (ts ∈ s.tsSource.pending ∧ ts ∉ s.running) ∧
      s' = { s with tsSource := s.tsSource.endTs ts } := by
  obtain ⟨hts, ⟨⟩⟩ := Option.ite_none_right_eq_some.mp h
  exact ⟨hts, rfl⟩

end ReplStore

end BoltDB.Replication
