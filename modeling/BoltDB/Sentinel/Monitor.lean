import BoltDB.Lib.Bytes
import BoltDB.Lib.Transition

/-!
# Sentinels

`sentinel/`: several sentinels watch one master. Each has a goroutine that pings the master, takes reports of
the others from the wire, and starts goroutines that carry out a failover. What a goroutine does under one
lock is one step, so all of them interleave; packets are delayed and lost, and commands to replicas may fail
with or without effect.

* `MasterInstance` — what a sentinel knows of the master, with the operations of `master.go`.
* `Stage` — where a goroutine of `handleSdown`, `AutoFailover` or `StartFailover` is, and its next step.
* `World.step` — all sentinels, their goroutines and the wire.
-/

namespace BoltDB.Sentinel

open Bytes

/-- `SlaveInstance`; `online` is `State == "online"`. -/
structure Slave where
  addr : Bytes
  online : Bool
  offset : Int
  deriving DecidableEq

inductive State
  | ok
  | sdown
  | odown
  | failover
  deriving DecidableEq

structure MasterInstance (ι : Type) where
  addr : Bytes
  quorum : Int
  slaves : List Slave
  state : State
  lastPongTime : Int
  downAfter : Int
  sdownReporters : List ι
  lastFailoverTime : Option Int
  failoverCooldown : Int

/-- `NewMasterInstanceWithDownAfter`; a cooldown of five seconds. -/
def newMasterInstance {ι : Type} (addr : Bytes) (quorum downAfter now : Int) : MasterInstance ι :=
  ⟨addr, quorum, [], .ok, now, downAfter, [], none, 5000000000⟩

/-! ## Choosing a replica -/

/-- One round of the sort in `selectNewMaster`: the front is swapped with every later candidate that is ahead
of it. -/
def settle (front : Slave) : List Slave → Slave × List Slave
  | [] => (front, [])
  | s :: rest =>
    if s.offset > front.offset then
      let (best, rest) := settle s rest
      (best, front :: rest)
    else
      let (best, rest) := settle front rest
      (best, s :: rest)

/-- The rounds, one for each position. -/
def byOffset : Nat → List Slave → List Slave
  | 0, candidates => candidates
  | _, [] => []
  | n + 1, s :: rest =>
    let (best, rest) := settle s rest
    best :: byOffset n rest

namespace MasterInstance

variable {ι : Type}

/-- `selectNewMaster`: the first candidate, by offset, that answers. -/
def selectNewMaster (m : MasterInstance ι) (answers : Bytes → Bool) : Option Slave :=
  let candidates := m.slaves.filter (·.online)
  (byOffset candidates.length candidates).find? (answers ·.addr)

/-! ## Operations under the lock -/

/-- `IsDown`. -/
def IsDown (m : MasterInstance ι) : Prop := m.state = .sdown ∨ m.state = .odown ∨ m.state = .failover

instance (m : MasterInstance ι) : Decidable m.IsDown := inferInstanceAs (Decidable (_ ∨ _))

/-- `IsODown`. -/
def IsODown (m : MasterInstance ι) : Prop :=
  (m.state = .odown ∨ m.state = .failover) ∨ m.quorum ≤ m.sdownReporters.length

instance (m : MasterInstance ι) : Decidable m.IsODown := inferInstanceAs (Decidable (_ ∨ _))

/-- `CanFailover`. -/
def canFailover (m : MasterInstance ι) (lastFailoverTime : Option Int) (now : Int) : Bool :=
  match lastFailoverTime with
  | none => true
  | some last => m.failoverCooldown ≤ now - last

/-- `ReportSdown`. -/
def reportSdown [DecidableEq ι] (m : MasterInstance ι) (source : ι) : MasterInstance ι :=
  { m with sdownReporters := m.sdownReporters.insert source }

/-- The ping failed, and the master was silent for too long: it is down for this sentinel. -/
def Detects (m : MasterInstance ι) (now : Int) : Prop :=
  m.state = .ok ∧ m.downAfter < now - m.lastPongTime

instance (m : MasterInstance ι) (now : Int) : Decidable (m.Detects now) :=
  inferInstanceAs (Decidable (_ ∧ _))

/-- The block of `checkMaster` after the ping. A detection is broadcast, and starts a failover if there are
enough reports. -/
def checkMaster [DecidableEq ι] (m : MasterInstance ι) (self : ι) (answered : Bool) (now : Int) :
    MasterInstance ι × Option Bool :=
  if answered then
    let m := { m with lastPongTime := now }
    if m.state = .sdown then ({ m with state := .ok, sdownReporters := [] }, none) else (m, none)
  else if m.Detects now then
    let m := { m.reportSdown self with state := .sdown }
    (m, some (decide (m.quorum ≤ m.sdownReporters.length)))
  else (m, none)

end MasterInstance

/-! ## Goroutines -/

/-- What a replica makes of `SLAVEOF NO ONE`. -/
inductive Reply
  | ok
  /-- It is promoted, and the sentinel gets an error. -/
  | lost
  | refused
  deriving DecidableEq

/-- What the surroundings answer to a step. -/
structure Env where
  now : Int
  answers : Bytes → Bool
  reply : Reply

/-- The next step of a goroutine: of `handleSdown` after `ReportSdown`, then of `AutoFailover`, then of
`StartFailover`. -/
inductive Stage
  | isODown
  | canFailover
  | recordFailover
  | autoIsODown
  | autoGetState
  | isDown (auto : Bool)
  | getState (auto : Bool)
  | setState (auto : Bool)
  | selectNewMaster
  | executeFailover (slave : Slave)
  | updateConfiguration (slave : Slave)
  /-- `SetState("odown")` after a failure. -/
  | fail
  | returned
  deriving DecidableEq

/-- One step of a goroutine. -/
def Stage.advance {ι : Type} (m : MasterInstance ι) (env : Env) : Stage → MasterInstance ι × Stage
  | .isODown => (m, if m.IsODown then .canFailover else .returned)
  | .canFailover => (m, if m.canFailover m.lastFailoverTime env.now then .recordFailover else .returned)
  | .recordFailover => ({ m with lastFailoverTime := some env.now }, .autoIsODown)
  | .autoIsODown => (m, if m.IsODown then .autoGetState else .returned)
  | .autoGetState => (m, if m.state = .failover then .returned else .isDown true)
  | .isDown auto => (m, if m.IsDown then .getState auto else .returned)
  | .getState auto => (m, if m.state = .failover then .returned else .setState auto)
  | .setState _ => ({ m with state := .failover }, .selectNewMaster)
  | .selectNewMaster =>
    match m.selectNewMaster env.answers with
    | none => (m, .fail)
    | some slave => (m, .executeFailover slave)
  | .executeFailover slave => (m, if env.reply = .ok then .updateConfiguration slave else .fail)
  | .updateConfiguration slave => ({ m with addr := slave.addr, state := .ok }, .returned)
  | .fail => ({ m with state := .odown }, .returned)
  | .returned => (m, .returned)

/-- Where the monitoring goroutine is. -/
inductive Check
  | idle
  /-- It read the address and the time of the last failover, and pings. -/
  | pinging (addr : Bytes) (lastFailoverTime : Option Int)
  | broadcasting (trigger : Bool) (lastFailoverTime : Option Int)
  | triggering (lastFailoverTime : Option Int)
  deriving DecidableEq

structure Node (ι : Type) where
  master : MasterInstance ι
  check : Check
  threads : List Stage

/-- An `SDOWN` message on its way. -/
structure Packet (ι : Type) where
  receiver : ι
  source : ι
  deriving DecidableEq

structure World (ι : Type) where
  node : ι → Node ι
  wire : List (Packet ι)

inductive Act (ι : Type)
  | readMaster (i : ι)
  | checkMaster (i : ι) (answered : Bool) (now : Int)
  | broadcastSdown (i : ι) (peers : List ι)
  | trigger (i : ι) (now : Int)
  | handleSdown (n : Nat)
  | lose (n : Nat)
  /-- An operator gives the command `SENTINEL FAILOVER`. -/
  | command (i : ι)
  | slaves (i : ι) (slaves : List Slave)
  | advance (i : ι) (k : Nat) (env : Env)

namespace World

variable {ι : Type} [DecidableEq ι]

def setNode (w : World ι) (i : ι) (n : Node ι) : World ι := { w with node := Function.update w.node i n }

/-- One step of one goroutine, or of the wire. -/
def step (w : World ι) : Act ι → Option (World ι)
  | .readMaster i =>
    let n := w.node i
    if n.check = .idle then
      some (w.setNode i { n with check := .pinging n.master.addr n.master.lastFailoverTime })
    else none
  | .checkMaster i answered now =>
    let n := w.node i
    match n.check with
    | .pinging _ last =>
      let (m, down) := n.master.checkMaster i answered now
      let check := match down with
        | none => .idle
        | some trigger => .broadcasting trigger last
      some (w.setNode i { n with master := m, check := check })
    | _ => none
  | .broadcastSdown i peers =>
    let n := w.node i
    match n.check with
    | .broadcasting trigger last =>
      let w' := w.setNode i { n with check := if trigger then .triggering last else .idle }
      some { w' with wire := w.wire ++ ⟨i, i⟩ :: peers.map (⟨·, i⟩) }
    | _ => none
  | .trigger i now =>
    let n := w.node i
    match n.check with
    | .triggering last =>
      if n.master.canFailover last now then
        let m := { n.master with lastFailoverTime := some now }
        some (w.setNode i { n with master := m, check := .idle, threads := n.threads ++ [.autoIsODown] })
      else some (w.setNode i { n with check := .idle })
    | _ => none
  | .handleSdown n =>
    match w.wire[n]? with
    | none => none
    | some p =>
      let node := w.node p.receiver
      let w' := w.setNode p.receiver { node with
        master := node.master.reportSdown p.source, threads := node.threads ++ [.isODown] }
      some { w' with wire := w.wire.eraseIdx n }
  | .lose n => if n < w.wire.length then some { w with wire := w.wire.eraseIdx n } else none
  | .command i =>
    let n := w.node i
    some (w.setNode i { n with threads := n.threads ++ [.isDown false] })
  | .slaves i slaves =>
    let n := w.node i
    let m := { n.master with slaves := slaves }
    some (w.setNode i { n with master := m })
  | .advance i k env =>
    let n := w.node i
    match n.threads[k]? with
    | none => none
    | some stage =>
      if stage = .returned then none
      else
        let (m, next) := stage.advance n.master env
        some (w.setNode i { n with master := m, threads := n.threads.set k next })

/-- All sentinels start to watch the master at one address. -/
def start (addr : Bytes) (quorum downAfter : ι → Int) (now : Int) : World ι :=
  ⟨fun i => ⟨newMasterInstance addr (quorum i) (downAfter i) now, .idle, []⟩, []⟩

end World

end BoltDB.Sentinel
