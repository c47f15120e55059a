import BoltDB.Lib.RWMutex
import BoltDB.Replication.FullResync

/-!
# The snapshot lock and blocked clients

`processRequest` (`handler_core.go`) holds the snapshot lock in read mode while a write command runs,
and `handlePSyncWithRDB` (`replication_handler.go`) takes it in write mode for a full resync. The
blocking pops and XREADGROUP are write commands, so a client that waits for an element waits inside
the lock.

* `Connections` — what every connection does, and the lock.
* `WaitsFor` — waits on the lock, and the wait of a blocked client for a push that was received.
* `snapshot_lock_progress` — nobody waits for itself in any run in which no client is blocked inside
  the lock while a full resync wants it.
-/

namespace BoltDB.Server.SnapshotLock

open Bytes Transition RWMutex BoltDB.Replication Option

/-! ## Requests -/

/-- Commands that may wait for an element or an entry. -/
def blockingCommands : List String :=
  ["BLPOP", "BRPOP", "BLMPOP", "BLMOVE", "BRPOPLPUSH", "BZPOPMAX", "BZPOPMIN", "BZMPOP", "XREAD",
    "XREADGROUP"]

/-- A request with the keys it waits for while they are empty, and the keys it adds to. -/
structure Request where
  args : List Bytes
  awaits : List Bytes
  feeds : List Bytes
  blocks : awaits ≠ [] → ∃ name ∈ blockingCommands, toUpper (args.headD []) = ascii name

/-- `processRequest` holds the lock while the request runs. -/
def Request.takesLock (r : Request) : Bool := takesSnapshotLock r.args

inductive Activity
  | idle
  /-- In `processRequest`, before or after `SnapshotMuRLock`. -/
  | working (r : Request)
  /-- In the `select` of a blocking command. -/
  | blocked (r : Request)
  /-- In `handlePSyncWithRDB`, which answers FULLRESYNC. -/
  | handshake

@[simp, grind =] def Activity.isWorking : Activity → Bool
  | .working _ => true
  | _ => false

@[simp, grind =] def Activity.isBlocked : Activity → Bool
  | .blocked _ => true
  | _ => false

/-- The keys a blocked client waits for. -/
def Activity.awaits : Activity → List Bytes
  | .blocked r => r.awaits
  | _ => []

/-- The keys to which a request that was received adds. -/
def Activity.feeds : Activity → List Bytes
  | .working r => r.feeds
  | _ => []

/-! ## The server -/

abbrev Conn := Nat

structure Connections where
  conns : Conn → Activity
  snapshotMu : RWMutex.State Conn

namespace Connections

def start : Connections := ⟨fun _ => .idle, .init⟩

def setConn (s : Connections) (p : Conn) (a : Activity) : Connections :=
  { s with conns := Function.update s.conns p a }

@[simp, grind =] theorem conns_setConn (s : Connections) (p q : Conn) (a : Activity) :
    (s.setConn p a).conns q = if q = p then a else s.conns q := Function.update_apply _ _ _ _

@[simp, grind =] theorem snapshotMu_setConn (s : Connections) (p : Conn) (a : Activity) :
    (s.setConn p a).snapshotMu = s.snapshotMu := rfl

end Connections

inductive Event
  /-- A request is read and asks for the lock if it needs it. -/
  | receive (p : Conn) (r : Request)
  /-- A blocking command finds its keys empty. -/
  | block (p : Conn)
  /-- It is notified, times out or loses its client. -/
  | wake (p : Conn)
  | finish (p : Conn)
  /-- PSYNC is answered with FULLRESYNC and asks for the lock. -/
  | psync (p : Conn)
  /-- It is the next to get the lock. -/
  | announce (p : Conn)
  /-- The snapshot is sent and the lock given back. -/
  | sent (p : Conn)

namespace Connections

def step (s : Connections) : Event → Option Connections
  | .receive p r =>
    match s.conns p with
    | .idle =>
      some { s.setConn p (.working r) with
        snapshotMu := if r.takesLock then s.snapshotMu.rLock p else s.snapshotMu }
    | _ => none
  | .block p =>
    match s.conns p with
    | .working r =>
      if r.awaits ≠ [] ∧ p ∉ s.snapshotMu.waiting then some (s.setConn p (.blocked r)) else none
    | _ => none
  | .wake p =>
    match s.conns p with
    | .blocked r => some (s.setConn p (.working r))
    | _ => none
  | .finish p =>
    match s.conns p with
    | .working _ =>
      if p ∉ s.snapshotMu.waiting then
        some { s.setConn p .idle with snapshotMu := s.snapshotMu.rUnlock p }
      else none
    | _ => none
  | .psync p =>
    match s.conns p with
    | .idle => some { s.setConn p .handshake with snapshotMu := s.snapshotMu.lock p }
    | _ => none
  | .announce p => (s.snapshotMu.announce p).map fun m => { s with snapshotMu := m }
  | .sent p =>
    if s.snapshotMu.writer = some p ∧ s.snapshotMu.readers = [] then
      some { s.setConn p .idle with snapshotMu := s.snapshotMu.unlock }
    else none

/-- `p` is blocked on a key to which the request received on `q` adds. -/
def AwaitsPush (s : Connections) (p q : Conn) : Prop :=
  ∃ k ∈ (s.conns p).awaits, k ∈ (s.conns q).feeds

theorem AwaitsPush.blocked {s : Connections} {p q : Conn} (h : s.AwaitsPush p q) :
    (s.conns p).isBlocked = true ∧ (s.conns q).isWorking = true := by
  obtain ⟨k, hp, hq⟩ := h
  constructor
  · cases hc : s.conns p <;> simp_all [Activity.awaits]
  · cases hc : s.conns q <;> simp_all [Activity.feeds]

def WaitsFor (s : Connections) (p q : Conn) : Prop := Waits s.snapshotMu p q ∨ s.AwaitsPush p q

end Connections

/-- No client blocks inside the lock while a full resync waits for it or has it, and no full resync
takes its turn at the lock while a client is blocked inside. -/
def LockCondition (s : Connections) : Event → Prop
  | .block p => p ∈ s.snapshotMu.readers → s.snapshotMu.writer = none
  | .announce _ => ∀ q ∈ s.snapshotMu.readers, (s.conns q).isBlocked = false
  | _ => True

instance (s : Connections) : DecidablePred (LockCondition s)
  | .block p => inferInstanceAs (Decidable (p ∈ s.snapshotMu.readers → s.snapshotMu.writer = none))
  | .announce _ => inferInstanceAs (Decidable (∀ q ∈ s.snapshotMu.readers, (s.conns q).isBlocked = false))
  | .receive .. | .wake _ | .finish _ | .psync _ | .sent _ => .isTrue trivial

/-! ## Runs -/

namespace Connections

/-- What a connection does where it stands. -/
structure LockInv (s : Connections) : Prop where
  lock : s.snapshotMu.WellFormed
  readers : ∀ p ∈ s.snapshotMu.readers, (s.conns p).isWorking = true ∨ (s.conns p).isBlocked = true
  waiting : ∀ p ∈ s.snapshotMu.waiting, (s.conns p).isWorking = true
  writers : ∀ p, p ∈ s.snapshotMu.queue ∨ s.snapshotMu.writer = some p → s.conns p = .handshake
  inside : ∀ p ∈ s.snapshotMu.readers, (s.conns p).isBlocked = true → s.snapshotMu.writer = none

theorem LockInv.start : Connections.start.LockInv where
  lock := .init
  readers := by simp [Connections.start, State.init]
  waiting := by simp [Connections.start, State.init]
  writers := by simp [Connections.start, State.init]
  inside := by simp [Connections.start, State.init]

/-- An idle connection has nothing to do with the lock. -/
theorem LockInv.not_mem_places {s : Connections} (h : s.LockInv) {p : Conn} (hp : s.conns p = .idle) :
    p ∉ s.snapshotMu.places := by
  intro hmem
  simp only [State.places, List.mem_append, Option.mem_toList] at hmem
  rcases hmem with ((hw | hr) | hw) | hq
  · cases hp.symm.trans (h.writers p (.inr hw))
  · simpa [hp] using h.readers p hr
  · simpa [hp] using h.waiting p hw
  · cases hp.symm.trans (h.writers p (.inl hq))

theorem LockInv.step {s s' : Connections} {a : Event} (h : s.LockInv) (ha : LockCondition s a)
    (hs : s.step a = some s') : s'.LockInv := by
  have hout : ∀ p, s.conns p = .idle → p ∉ s.snapshotMu.places := fun _ => h.not_mem_places
  obtain ⟨hlock, hreaders, hwaiting, hwriters, hinside⟩ := h
  cases a with
  | receive p r =>
    simp only [Connections.step] at hs
    split at hs
    case h_1 hp =>
      cases hs
      have hlock' : (if r.takesLock then s.snapshotMu.rLock p else s.snapshotMu).WellFormed := by
        split
        · exact hlock.rLock (hout p hp)
        · exact hlock
      refine ⟨hlock', ?_, ?_, ?_, ?_⟩ <;>
        grind -ring -linarith [State.rLock]
    case h_2 => cases hs
  | block p =>
    simp only [Connections.step] at hs
    split at hs
    case h_1 r hp =>
      obtain ⟨hblock, he⟩ := ite_none_right_eq_some.mp hs
      cases he
      refine ⟨hlock, ?_, ?_, ?_, ?_⟩ <;>
        grind -ring -linarith [Activity.isBlocked, LockCondition]
    case h_2 => cases hs
  | wake p =>
    simp only [Connections.step] at hs
    split at hs
    case h_1 r hp =>
      cases hs
      refine ⟨hlock, ?_, ?_, ?_, ?_⟩ <;> grind -ring -linarith
    case h_2 => cases hs
  | finish p =>
    simp only [Connections.step] at hs
    split at hs
    case h_1 r hp =>
      obtain ⟨hnot, he⟩ := ite_none_right_eq_some.mp hs
      cases he
      have hnodup : s.snapshotMu.readers.Nodup := by
        have := hlock.nodup
        simp only [State.places, List.nodup_append] at this
        grind -ring -linarith
      refine ⟨hlock.rUnlock p, ?_, ?_, ?_, ?_⟩ <;>
        grind -ring -linarith [State.rUnlock, List.Nodup.mem_erase_iff]
    case h_2 => cases hs
  | psync p =>
    simp only [Connections.step] at hs
    split at hs
    case h_1 hp =>
      cases hs
      refine ⟨hlock.lock (hout p hp), ?_, ?_, ?_, ?_⟩ <;>
        grind -ring -linarith [State.lock]
    case h_2 => cases hs
  | announce p =>
    obtain ⟨m, hm, rfl⟩ := map_eq_some_iff.mp hs
    have hlock' := hlock.announce hm
    obtain ⟨⟨hp, hw⟩, he⟩ := ite_none_right_eq_some.mp hm
    cases he
    refine ⟨hlock', hreaders, hwaiting, ?_, ?_⟩ <;>
      grind -ring -linarith [LockCondition, List.mem_of_mem_erase]
  | sent p =>
    obtain ⟨⟨hw, hempty⟩, he⟩ := ite_none_right_eq_some.mp hs
    cases he
    have hqueue : p ∉ s.snapshotMu.queue := fun hq => (hlock.outside (.inr hq)).2 hw
    refine ⟨hlock.unlock, ?_, ?_, ?_, ?_⟩ <;>
      grind -ring -linarith [State.unlock]

end Connections

open Connections

/-- **Progress of the snapshot lock.** In every run that meets the condition no connection waits for
itself, and no push that was received waits for a client that is blocked on its key. -/
theorem snapshot_lock_progress {as : List Event} {t : Connections}
    (hok : Meets Connections.step LockCondition .start as) (hrun : run Connections.step .start as = some t) :
    (∀ p, ¬ Relation.TransGen t.WaitsFor p p) ∧
      ∀ p q, t.AwaitsPush p q → ¬ Relation.TransGen t.WaitsFor q p := by
  have ht : t.LockInv := run_invariant (fun _ _ _ h => h.step) .start hok hrun
  have hcycle : ∀ p, ¬ Relation.TransGen t.WaitsFor p p := by
    refine acyclic ht.lock ?_ ?_ ?_ ht.inside
    · intro p q hpush
      obtain ⟨hp, hq⟩ := hpush.blocked
      refine ⟨hp, ?_⟩
      cases hc : t.conns q <;> simp_all
    · intro p hp
      refine ⟨fun hw => ?_, fun hq => ?_, fun hw => ?_⟩
      · have := ht.waiting p hw
        cases hc : t.conns p <;> simp_all
      · simp [ht.writers p (.inl hq)] at hp
      · simp [ht.writers p (.inr hw)] at hp
    · intro p q hpush hqueue
      simpa [ht.writers q (.inl hqueue)] using hpush.blocked.2
  exact ⟨hcycle, fun p q hpush hwait => hcycle p (.head (.inr hpush) hwait)⟩

def blpop (k : Bytes) : Request where
  args := ["BLPOP", k, "0"]
  awaits := [k]
  feeds := []
  blocks _ := ⟨"BLPOP", by decide, rfl⟩

def lpush (k v : Bytes) : Request where
  args := ["LPUSH", k, v]
  awaits := []
  feeds := [k]
  blocks h := absurd rfl h

/-- A client is blocked and served by a push, then a full resync goes through. -/
theorem snapshot_lock_progress_served :
    ∃ t, run Connections.step .start
        [.receive 0 (blpop [107]), .block 0, .receive 2 (lpush [107] [118]), .wake 0, .finish 2,
          .finish 0, .psync 1, .announce 1, .receive 2 (lpush [107] [118])] = some t ∧
      t.snapshotMu.waiting = [2] ∧ ∀ p, ¬ Relation.TransGen t.WaitsFor p p := by
  have hend : ∃ t, run Connections.step .start
        [.receive 0 (blpop [107]), .block 0, .receive 2 (lpush [107] [118]), .wake 0, .finish 2,
          .finish 0, .psync 1, .announce 1, .receive 2 (lpush [107] [118])] = some t ∧
      t.snapshotMu.waiting = [2] := run_end (by decide +kernel)
  obtain ⟨t, ht, hw⟩ := hend
  exact ⟨t, ht, hw, (snapshot_lock_progress (by decide +kernel) ht).1⟩

/-- A full resync asks for the lock while a client is blocked inside it: the push that would wake the
client waits for the resync, the resync for the client. -/
theorem blocked_client_stops_push :
    ∃ t, run Connections.step .start
        [.receive 0 (blpop [107]), .block 0, .psync 1, .announce 1,
          .receive 2 (lpush [107] [118])] = some t ∧
      t.AwaitsPush 0 2 ∧ Relation.TransGen t.WaitsFor 2 0 := by
  have hend : ∃ t, run Connections.step .start
        [.receive 0 (blpop [107]), .block 0, .psync 1, .announce 1,
          .receive 2 (lpush [107] [118])] = some t ∧
      t.snapshotMu.waiting = [2] ∧ t.snapshotMu.writer = some 1 ∧ t.snapshotMu.readers = [0] ∧
        (t.conns 0).awaits = [[107]] ∧ (t.conns 2).feeds = [[107]] := run_end (by decide +kernel)
  obtain ⟨t, ht, hwaiting, hwriter, hreaders, hawaits, hfeeds⟩ := hend
  refine ⟨t, ht, ⟨[107], by simp [hawaits], by simp [hfeeds]⟩, ?_⟩
  have hread : t.WaitsFor 2 1 := .inl (.read (by simp [hwaiting]) hwriter)
  have hwrite : t.WaitsFor 1 0 := .inl (.write hwriter (by simp [hreaders]))
  exact .head hread (.single hwrite)

end BoltDB.Server.SnapshotLock
