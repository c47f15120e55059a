import BoltDB.Lib.Transition
import BoltDB.Lib.Bytes

/-!
# The cluster as one node sees it

`cluster.go`, `node.go`, `bus.go`, `gossip.go` and `persistence.go`. A node keeps the owner of every slot
in a table, and next to it the ranges of every node it knows; the ranges are what it tells its peers.
Peers are compared by whole-node epochs. A node that enough peers report as unreachable is marked FAIL,
and its slots are taken over until it is heard again.

* `Node`, `State` — the records of the known nodes, the table, reports and takeovers.
* `State.give` — the one way in which a slot changes its owner.
* `State.applyGossipPayloadFrom`, `State.recoverFailedNode`, `State.checkFailures`, … — the operations.
* `State.step` — one operation of a run.

Pointers to nodes are their IDs: a table entry points to the known record of its node. The one exception is
`CLUSTER MEET` of a known node, which replaces the record and leaves the pointers in the table as they are;
the model replaces the record, and the results about slots leave such a step out. Epochs are integers without
a bound.
-/

namespace BoltDB.Cluster.Topology

open Bytes Transition List Std.ExtTreeMap

/-! ## Nodes -/

def slotCount : Nat := 16384

inductive Flag
  | master
  | slave
  | myself
  | fail
  | pfail
  | other (name : Bytes)
  deriving DecidableEq

structure SlotRange where
  start : Nat
  stop : Nat
  deriving DecidableEq

/-- The slots of a range, in the order of a loop over it. -/
def SlotRange.toList (r : SlotRange) : List Nat := List.range' r.start (r.stop + 1 - r.start)

/-- `HasSlot`. -/
def HasSlot (ranges : List SlotRange) (slot : Nat) : Prop := ∃ r ∈ ranges, r.start ≤ slot ∧ slot ≤ r.stop

instance (ranges : List SlotRange) (slot : Nat) : Decidable (HasSlot ranges slot) :=
  inferInstanceAs (Decidable (∃ r ∈ ranges, _))

/-- `AddSlotRange`: a range that starts inside the last one, or right behind it, extends it. -/
def addSlotRange (ranges : List SlotRange) (start stop : Nat) : List SlotRange :=
  match ranges.getLast? with
  | some last =>
    if last.start ≤ start ∧ start ≤ last.stop + 1 then
      ranges.dropLast ++ [⟨last.start, max last.stop stop⟩]
    else ranges ++ [⟨start, stop⟩]
  | none => ranges ++ [⟨start, stop⟩]

/-- The ranges of an ascending list of slots, with the range under way. -/
def mergeFrom (start stop : Nat) : List Nat → List SlotRange
  | [] => [⟨start, stop⟩]
  | slot :: slots =>
    if slot = stop + 1 then mergeFrom start slot slots
    else ⟨start, stop⟩ :: mergeFrom slot slot slots

/-- The ranges of slots that are in order already. -/
def mergeSorted : List Nat → List SlotRange
  | [] => []
  | slot :: slots => mergeFrom slot slot slots

structure Node where
  id : Bytes
  addr : Bytes
  flags : List Flag
  epoch : Int
  slots : List SlotRange
  pongRecv : Int
  discoveredAt : Int
  deriving DecidableEq

namespace Node

def hasFailFlag (n : Node) : Bool := Flag.fail ∈ n.flags || Flag.pfail ∈ n.flags

/-- `ClearFailFlag`. -/
def clearFailFlag (n : Node) : Node :=
  { n with flags := n.flags.filter fun f => f ≠ Flag.fail ∧ f ≠ Flag.pfail }

def markPFail (n : Node) : Node := if n.hasFailFlag then n else { n with flags := n.flags ++ [.pfail] }

/-- `PromotePFailToFail` on a node that is not marked FAIL. -/
def promote (n : Node) : Node :=
  { n with flags := (n.flags ++ [Flag.fail]).filter fun f => f ≠ Flag.pfail }

/-- `MergeGossipState`. -/
def mergeGossipState (n : Node) (epoch pongRecv : Int) : Node :=
  { n with epoch := max n.epoch epoch, pongRecv := max n.pongRecv pongRecv }

def addRange (n : Node) (start stop : Nat) : Node := { n with slots := addSlotRange n.slots start stop }

/-- A node that `checkFailures` finds silent for longer than `failTimeout`. -/
def TimedOut (now : Int) (n : Node) : Prop :=
  if 0 < n.pongRecv then 5000 < now - n.pongRecv
  else 0 < n.discoveredAt ∧ 5000 < now - n.discoveredAt

/-- A node that `checkFailures` forgets. -/
def Stale (now : Int) (n : Node) : Prop :=
  60000 ≤ now - n.discoveredAt ∧ ¬ (0 < n.pongRecv ∧ now - n.pongRecv ≤ 60000)

instance (now : Int) (n : Node) : Decidable (n.TimedOut now) := by
  unfold TimedOut
  infer_instance

instance (now : Int) (n : Node) : Decidable (n.Stale now) := inferInstanceAs (Decidable (_ ∧ _))

end Node

/-! ## The state of a node -/

/-- A saved node. -/
structure SavedNode where
  id : Bytes
  addr : Bytes
  flags : List Flag
  epoch : Int

/-- `persistedClusterState`. Its ranges are over the slots, and two of them with a slot in common have the
same owner. -/
structure Config where
  nodes : List SavedNode
  epoch : Int
  owners : List (SlotRange × Bytes)
  usurped : Bytes → Option (List SlotRange)
  migrating : Nat → Option Bytes
  importing : Nat → Option Bytes
  inRange : ∀ o ∈ owners, ∀ slot ∈ o.1.toList, slot < slotCount
  agree : ∀ o ∈ owners, ∀ o' ∈ owners, ∀ slot, slot ∈ o.1.toList → slot ∈ o'.1.toList → o.2 = o'.2

structure State where
  /-- The ID and the address of the node itself. -/
  myself : Bytes
  addr : Bytes
  nodes : Std.ExtTreeMap Bytes Node compare
  /-- `Slots`. -/
  slots : Nat → Option Bytes
  epoch : Int
  /-- The reporters of each node. -/
  pfailReports : Bytes → Finset Bytes
  /-- `usurpedSlots`. -/
  usurped : Bytes → Option (List SlotRange)
  migrating : Nat → Option Bytes
  importing : Nat → Option Bytes
  /-- What is saved in the store. -/
  saved : Option Config

/-- A peer's record in a payload. -/
structure NodeInfo where
  id : Bytes
  addr : Bytes
  flags : List Flag
  epoch : Int
  pongRecv : Int
  deriving DecidableEq

structure OwnerEntry where
  nodeID : Bytes
  epoch : Int
  ranges : List SlotRange
  deriving DecidableEq

/-- `GossipPayload`. -/
structure Payload where
  epoch : Int
  owners : List OwnerEntry
  nodes : List NodeInfo
  pfail : List Bytes

/-- What a payload says of single slots: the node, its epoch and the slot. -/
structure Claim where
  nodeID : Bytes
  epoch : Int
  slot : Nat

def Payload.claims (p : Payload) : List Claim :=
  p.owners.flatMap fun e => e.ranges.flatMap fun r => r.toList.map fun slot => ⟨e.nodeID, e.epoch, slot⟩

namespace State

def modifyNode (st : State) (id : Bytes) (f : Node → Node) : State :=
  { st with nodes := st.nodes.modify id f }

/-- The slots of a range get an owner, in the table and in the owner's ranges. The ranges of the former
owners stay as they are. -/
def give (st : State) (start stop : Nat) (id : Bytes) : State :=
  { st.modifyNode id (·.addRange start stop) with
    slots := fun slot => if start ≤ slot ∧ slot ≤ stop then some id else st.slots slot }

/-- The slots of a node in the table, in order. -/
def slotsOf (st : State) (id : Bytes) : List Nat :=
  (List.range slotCount).filter fun slot => st.slots slot = some id

/-- The epoch counter goes up, and the node gets the new epoch. -/
def raiseEpoch (st : State) (id : Bytes) : State :=
  { st.modifyNode id ({ · with epoch := st.epoch + 1 }) with epoch := st.epoch + 1 }

/-- `Myself.ClearSlotMigration`. -/
def clearSlotMigration (st : State) (slot : Nat) : State :=
  { st with
    migrating := Function.update st.migrating slot none
    importing := Function.update st.importing slot none }

/-! ## Assignments -/

/-- The two errors leave the state as it is. -/
def assignSlot (st : State) (slot : Nat) (id : Bytes) : State :=
  if slot < slotCount ∧ id ∈ st.nodes then
    ((st.give slot slot id).raiseEpoch id).clearSlotMigration slot
  else st

def assignSlotRange (st : State) (start stop : Nat) (id : Bytes) : State :=
  if start < slotCount ∧ stop < slotCount ∧ start ≤ stop ∧ id ∈ st.nodes then
    (st.give start stop id).raiseEpoch id
  else st

/-- The ranges without a slot. -/
def removeFrom (ranges : List SlotRange) (slot : Nat) : List SlotRange := ranges.flatMap fun r =>
    if slot < r.start ∨ r.stop < slot then [r]
    else if slot = r.start ∧ slot = r.stop then []
    else if slot = r.start then [⟨slot + 1, r.stop⟩]
    else if slot = r.stop then [⟨r.start, slot - 1⟩]
    else [⟨r.start, slot - 1⟩, ⟨slot + 1, r.stop⟩]

/-- Only the node itself also loses the slot in its ranges. -/
def removeSlot (st : State) (slot : Nat) : State :=
  if slot < slotCount then
    match st.slots slot with
    | none => st
    | some owner =>
      let st := { st with slots := Function.update st.slots slot none }
      if owner = st.myself then
        st.modifyNode owner fun n => { n with slots := removeFrom n.slots slot }
      else st
  else st

/-- All slots of a node, one after the other, go to the node itself. -/
def takeSlotsOf (st : State) (id : Bytes) : State :=
  (st.slotsOf id).foldl (fun st slot => st.give slot slot st.myself) st

/-- `RemoveNode` of another node; `checkFailures` does the same for one that is stale. -/
def removeNode (st : State) (id : Bytes) : State :=
  { st with nodes := st.nodes.erase id }.takeSlotsOf id

/-- `CLUSTER MEET`: `AddNode` with a new record, also for a node that is known. Go's table then still points
to the old record, which a table of IDs does not show; so results about owners are about runs in which no
known node is met again. -/
def meet (st : State) (now : Int) (id addr : Bytes) : State :=
  { st with nodes := st.nodes.insert id ⟨id, addr, [.master], 0, [], 0, now⟩ }

/-! ## Failures -/

/-- `usurpFailedNodeSlots`. -/
def usurpFailedNodeSlots (st : State) (id : Bytes) : State :=
  let taken := st.slotsOf id
  if taken = [] then st
  else
    let st := st.takeSlotsOf id
    { st with usurped := Function.update st.usurped id (some (mergeSorted taken)) }

/-- `rebuildMyselfSlotRanges`. -/
def rebuildMyselfSlotRanges (st : State) : State :=
  st.modifyNode st.myself fun n => { n with slots := mergeSorted (st.slotsOf st.myself) }

/-- A slot that was taken over goes back, if the node itself still holds it. -/
def giveBack (st : State) (id : Bytes) (slot : Nat) : State :=
  if st.slots slot = some st.myself then st.give slot slot id else st

/-- The marks of a node that is heard again are cleared, and its slots go back. -/
def recoverFailedNode (st : State) (id : Bytes) : State :=
  match st.nodes[id]? with
  | none => st
  | some node =>
    let cleared := { st.modifyNode id Node.clearFailFlag with
      pfailReports := Function.update st.pfailReports id ∅ }
    match st.usurped id with
    | none => cleared
    | some ranges =>
      let kept := { cleared with usurped := Function.update st.usurped id none }
      let slots := ranges.flatMap SlotRange.toList
      let back := slots.foldl (fun st slot => st.giveBack id slot) kept
      if node.hasFailFlag ∨ ∃ slot ∈ slots, st.slots slot = some st.myself then
        back.rebuildMyselfSlotRanges.raiseEpoch id
      else back

/-- `handlePING` and `handlePONG`. -/
def heard (st : State) (now : Int) (id : Bytes) : State :=
  if id ∈ st.nodes then (st.modifyNode id ({ · with pongRecv := now })).recoverFailedNode id else st

/-- `checkFailures`. -/
def checkFailures (st : State) (now : Int) : State :=
  let marked := { st with nodes := st.nodes.map fun id (n : Node) =>
    if id ≠ st.myself ∧ ¬ n.hasFailFlag ∧ n.TimedOut now then n.markPFail else n }
  let stale := (marked.nodes.filter fun id (n : Node) => id ≠ st.myself ∧ n.Stale now).keys
  stale.foldl removeNode marked

/-! ## Gossip -/

def infoOf (n : Node) : NodeInfo := ⟨n.id, n.addr, n.flags, n.epoch, n.pongRecv⟩

/-- The nodes with slots, as a payload has them. -/
def slotOwners (st : State) : List OwnerEntry :=
  (st.nodes.toList.filter fun e => e.2.slots ≠ []).map fun e => ⟨e.2.id, e.2.epoch, e.2.slots⟩

/-- The other nodes that are marked. -/
def unreachable (st : State) : List Bytes :=
  (st.nodes.filter fun id n => id ≠ st.myself ∧ n.hasFailFlag).keys

/-- The payloads that `BuildGossipPayload` can make. Go walks through its maps in any order, and the peers in
the gossip section are drawn. -/
def BuildGossipPayload (st : State) (p : Payload) : Prop :=
  p.epoch = st.epoch ∧ p.owners.Perm st.slotOwners ∧ p.pfail.Perm st.unreachable ∧
    ∀ gi ∈ p.nodes, gi.id ≠ st.myself ∧ (st.nodes[gi.id]?).map infoOf = some gi

instance (st : State) (p : Payload) : Decidable (st.BuildGossipPayload p) :=
  inferInstanceAs (Decidable (_ ∧ _))

/-- A response of the node that is recent enough to show that it is back. -/
def Fresh (now : Int) (gi : NodeInfo) : Prop := 0 < gi.pongRecv ∧ now - gi.pongRecv < 5000

instance (now : Int) (gi : NodeInfo) : Decidable (Fresh now gi) := inferInstanceAs (Decidable (_ ∧ _))

/-- `HasFailFlag` of a known node. -/
def failFlag (st : State) (id : Bytes) : Bool := (st.nodes[id]?).any (·.hasFailFlag)

/-- One entry of the gossip section. -/
def mergeInfo (now : Int) (st : State) (gi : NodeInfo) : State :=
  if gi.id = st.myself then st
  else if gi.id ∈ st.nodes then
    let st := st.modifyNode gi.id (·.mergeGossipState gi.epoch gi.pongRecv)
    let st := if st.failFlag gi.id ∧ Fresh now gi then st.recoverFailedNode gi.id else st
    if ¬ st.failFlag gi.id ∧ st.usurped gi.id ≠ none ∧ Fresh now gi then st.recoverFailedNode gi.id
    else st
  else if ∃ n ∈ st.nodes.values, n.addr = gi.addr then st
  else
    let node : Node := ⟨gi.id, gi.addr, gi.flags, gi.epoch, [], gi.pongRecv, now⟩
    { st with nodes := st.nodes.insert gi.id node }

/-- The epoch of a slot's owner. -/
def ownerEpoch (st : State) (id : Bytes) : Int := (st.nodes[id]?).elim 0 (·.epoch)

/-- The claim wins the slot: it has no owner, or one with a smaller epoch. -/
def Wins (st : State) (c : Claim) : Prop :=
  (∀ o, st.slots c.slot = some o → st.ownerEpoch o < c.epoch) ∧
    (c.nodeID = st.myself ∨ c.nodeID ∈ st.nodes) ∧ st.slots c.slot ≠ some c.nodeID

instance (st : State) (c : Claim) : Decidable (st.Wins c) := by
  unfold Wins
  cases st.slots c.slot with
  | none =>
    exact decidable_of_iff (c.nodeID = st.myself ∨ c.nodeID ∈ st.nodes) (by simp)
  | some o =>
    exact decidable_of_iff (st.ownerEpoch o < c.epoch ∧
      (c.nodeID = st.myself ∨ c.nodeID ∈ st.nodes) ∧ o ≠ c.nodeID) (by simp)

/-- One slot of a payload's owners. -/
def reconcile (st : State) (c : Claim) : State := if st.Wins c then st.give c.slot c.slot c.nodeID else st

/-- The flags of a migration that the payload shows to be over. -/
def clearMigration (st : State) (c : Claim) : State :=
  if c.nodeID = st.myself then
    if st.importing c.slot ≠ none then st.clearSlotMigration c.slot else st
  else if st.migrating c.slot ≠ none then st.clearSlotMigration c.slot
  else st

/-- The reports of other nodes that FAIL takes, next to the node's own detection. -/
def threshold (st : State) : Nat := ((st.nodes.erase st.myself).size + 1) / 2

/-- The reports about a node are enough, and the node itself has found it silent. -/
def Promotes (st : State) (id : Bytes) : Prop := st.threshold ≤ (st.pfailReports id).card ∧
    ∃ n, st.nodes[id]? = some n ∧ n.hasFailFlag = true ∧ Flag.fail ∉ n.flags

instance (st : State) (id : Bytes) : Decidable (st.Promotes id) :=
  inferInstanceAs (Decidable (_ ∧ ∃ n ∈ st.nodes[id]?, n.hasFailFlag = true ∧ Flag.fail ∉ n.flags))

/-- The node is marked FAIL and its slots are taken over. -/
def markFail (st : State) (id : Bytes) : State :=
  let st := (st.modifyNode id Node.promote).usurpFailedNodeSlots id
  { st with pfailReports := Function.update st.pfailReports id ∅ }

/-- One node that the reporter holds to be unreachable. -/
def report (reporter : Bytes) (st : State) (id : Bytes) : State :=
  if id = st.myself ∨ id = reporter ∨ id ∉ st.nodes then st
  else
    let st := { st with
      pfailReports := Function.update st.pfailReports id (insert reporter (st.pfailReports id)) }
    if st.Promotes id then st.markFail id else st

/-- The part of a payload in front of the reports. -/
def applyOwners (st : State) (now : Int) (p : Payload) : State :=
  let st := { st with epoch := max st.epoch p.epoch }
  let st := p.nodes.foldl (mergeInfo now) st
  let st := p.claims.foldl reconcile st
  p.claims.foldl clearMigration st

/-- The reports of a payload. A message without a sender brings none. -/
def applyReports (st : State) (reporter : Bytes) (p : Payload) : State :=
  if reporter = [] then st else p.pfail.foldl (report reporter) st

def applyGossipPayloadFrom (st : State) (now : Int) (reporter : Bytes) (p : Payload) : State :=
  (st.applyOwners now p).applyReports reporter p

/-! ## The saved configuration -/

/-- The owners in the table. -/
def owners (st : State) : List Bytes := ((List.range slotCount).filterMap st.slots).dedup

/-- `mergeSlotOwners`. -/
def savedOwners (st : State) : List (SlotRange × Bytes) :=
  st.owners.flatMap fun id => (mergeSorted (st.slotsOf id)).map fun r => (r, id)

/-- The record that a load brings in front of the record of the node itself. -/
def loadNode (now : Int) (nodes : Std.ExtTreeMap Bytes Node compare) (n : SavedNode) :
    Std.ExtTreeMap Bytes Node compare :=
  match nodes[n.id]? with
  | some known => nodes.insert n.id { known with flags := n.flags, epoch := n.epoch }
  | none => nodes.insert n.id ⟨n.id, n.addr, n.flags, n.epoch, [], 0, now⟩

/-- The slots of an owner that is not known go to the node itself. -/
def loadOwner (st : State) (o : SlotRange × Bytes) : State :=
  st.give o.1.start o.1.stop (if o.2 ∈ st.nodes then o.2 else st.myself)

/-- A node that starts without any other. -/
def fresh (myself addr : Bytes) (now : Int) : State where
  myself := myself
  addr := addr
  nodes := (∅ : Std.ExtTreeMap Bytes Node compare).insert myself
    ⟨myself, addr, [.myself, .master], 0, [], 0, now⟩
  slots := fun _ => none
  epoch := 0
  pfailReports := fun _ => ∅
  usurped := fun _ => none
  migrating := fun _ => none
  importing := fun _ => none
  saved := none

/-- `loadState` after a restart. -/
def loadState (st : State) (now : Int) (cfg : Config) : State :=
  let start := fresh st.myself st.addr now
  let start := { start with
    nodes := cfg.nodes.foldl (loadNode now) start.nodes
    epoch := cfg.epoch
    usurped := cfg.usurped
    migrating := cfg.migrating
    importing := cfg.importing
    saved := some cfg }
  cfg.owners.foldl loadOwner start

/-- `NewCluster` without a saved configuration: the node owns every slot. -/
def newCluster (myself addr : Bytes) (now : Int) : State :=
  (fresh myself addr now).give 0 (slotCount - 1) myself

end State

/-! ## Lists of slots -/

variable {slot : Nat}

@[simp] theorem SlotRange.mem_toList {r : SlotRange} :
    slot ∈ r.toList ↔ r.start ≤ slot ∧ slot ≤ r.stop := by
  rw [SlotRange.toList, mem_range'_1]
  omega

/-- Adding a range adds its slots, whatever the last range is. -/
theorem hasSlot_addSlotRange {ranges : List SlotRange} {start stop : Nat} :
    HasSlot (addSlotRange ranges start stop) slot ↔
      HasSlot ranges slot ∨ start ≤ slot ∧ slot ≤ stop := by
  have happend : HasSlot (ranges ++ [⟨start, stop⟩]) slot ↔
      HasSlot ranges slot ∨ start ≤ slot ∧ slot ≤ stop := by
    simp only [HasSlot, mem_append, mem_singleton, or_and_right, exists_or, exists_eq_left]
  rw [addSlotRange]
  cases hlast : ranges.getLast? with
  | none => exact happend
  | some last =>
    dsimp only
    by_cases hmerge : last.start ≤ start ∧ start ≤ last.stop + 1
    · -- the last range grows: its old slots and the new ones are one interval
      rw [if_pos hmerge]
      have hsplit : ranges = ranges.dropLast ++ [last] := (dropLast_append_getLast? last hlast).symm
      have hold : HasSlot ranges slot ↔
          HasSlot ranges.dropLast slot ∨ last.start ≤ slot ∧ slot ≤ last.stop := by
        constructor
        · rintro ⟨r, hr, hslot⟩
          rw [hsplit] at hr
          rcases mem_append.mp hr with hr | hr
          · exact .inl ⟨r, hr, hslot⟩
          · rw [mem_singleton.mp hr] at hslot
            exact .inr hslot
        · rintro (⟨r, hr, hslot⟩ | hslot)
          · exact ⟨r, mem_of_mem_dropLast hr, hslot⟩
          · exact ⟨last, mem_of_getLast? hlast, hslot⟩
      have hnew : HasSlot (ranges.dropLast ++ [⟨last.start, max last.stop stop⟩]) slot ↔
          HasSlot ranges.dropLast slot ∨ last.start ≤ slot ∧ slot ≤ max last.stop stop := by
        simp only [HasSlot, mem_append, mem_singleton, or_and_right, exists_or, exists_eq_left]
      rw [hnew, hold, or_assoc]
      apply or_congr_right
      omega
    · rw [if_neg hmerge]
      exact happend

theorem hasSlot_mergeFrom {start stop : Nat} {slots : List Nat} (h : start ≤ stop) :
    HasSlot (mergeFrom start stop slots) slot ↔ start ≤ slot ∧ slot ≤ stop ∨ slot ∈ slots := by
  induction slots generalizing start stop with
  | nil => simp [mergeFrom, HasSlot]
  | cons next slots ih =>
    rw [mergeFrom, mem_cons]
    by_cases hnext : next = stop + 1
    · rw [if_pos hnext, ih (by omega)]
      by_cases hmem : slot ∈ slots
      · simp [hmem]
      · simp only [hmem, or_false]
        omega
    · have hcons : HasSlot (⟨start, stop⟩ :: mergeFrom next next slots) slot ↔
          start ≤ slot ∧ slot ≤ stop ∨ HasSlot (mergeFrom next next slots) slot := by
        simp only [HasSlot, mem_cons, or_and_right, exists_or, exists_eq_left]
      have hone : next ≤ slot ∧ slot ≤ next ↔ slot = next := by omega
      rw [if_neg hnext, hcons, ih (Nat.le_refl next), hone]

theorem hasSlot_mergeSorted {slots : List Nat} :
    HasSlot (mergeSorted slots) slot ↔ slot ∈ slots := by
  cases slots with
  | nil => simp [mergeSorted, HasSlot]
  | cons first slots =>
    have hone : first ≤ slot ∧ slot ≤ first ↔ slot = first := by omega
    rw [mergeSorted, hasSlot_mergeFrom (Nat.le_refl first), hone, mem_cons]

/-- A copy of the slots is sorted first. -/
def mergeConsecutiveSlots (slots : List Nat) : List SlotRange := mergeSorted (slots.mergeSort (· ≤ ·))

theorem mergeFrom_separate {start stop : Nat} {slots : List Nat} (h : start ≤ stop)
    (hslots : (stop :: slots).Pairwise (· < ·)) :
    (mergeFrom start stop slots).Pairwise (fun r r' => r.stop + 1 < r'.start) ∧
      ∀ r ∈ mergeFrom start stop slots, start ≤ r.start ∧ r.start ≤ r.stop := by
  induction slots generalizing start stop with
  | nil => simp [mergeFrom, h]
  | cons slot slots ih =>
    obtain ⟨hlt, htail⟩ := pairwise_cons.mp hslots
    have hnext : stop < slot := hlt slot mem_cons_self
    rw [mergeFrom]
    split
    · exact ih (by omega) htail
    · next hgap =>
      -- the range under way ends before the slot, and what follows starts with it
      obtain ⟨hsep, hbounds⟩ := ih (le_refl slot) htail
      refine ⟨hsep.cons fun r hr => ?_, forall_mem_cons.mpr ⟨⟨le_refl _, h⟩, fun r hr => ?_⟩⟩
      · have := (hbounds r hr).1
        show stop + 1 < r.start
        omega
      · exact ⟨by have := (hbounds r hr).1; omega, (hbounds r hr).2⟩

theorem merged_ranges {slots : List Nat} (h : slots.Nodup) :
    (∀ slot, HasSlot (mergeConsecutiveSlots slots) slot ↔ slot ∈ slots) ∧
      (∀ r ∈ mergeConsecutiveSlots slots, r.start ≤ r.stop) ∧
        (mergeConsecutiveSlots slots).Pairwise fun r r' => r.stop + 1 < r'.start := by
  have hperm := mergeSort_perm slots (· ≤ ·)
  have hsorted : (slots.mergeSort (· ≤ ·)).Pairwise (· < ·) := by
    have hle := pairwise_mergeSort' (· ≤ ·) slots
    exact (hle.and (hperm.nodup_iff.mpr h)).imp fun ⟨hle, hne⟩ => lt_of_le_of_ne hle hne
  refine ⟨fun slot => hasSlot_mergeSorted.trans hperm.mem_iff, ?_⟩
  rw [mergeConsecutiveSlots]
  cases hs : slots.mergeSort (· ≤ ·) with
  | nil => simp [mergeSorted]
  | cons slot rest =>
    obtain ⟨hsep, hbounds⟩ := mergeFrom_separate (le_refl slot) (hs ▸ hsorted)
    exact ⟨fun r hr => (hbounds r hr).2, hsep⟩

theorem merged_ranges_ends :
    (mergeConsecutiveSlots [16383, 0, 1]).Pairwise fun r r' => r.stop + 1 < r'.start :=
  (merged_ranges (by decide)).2.2

theorem hasSlot_removeFrom {ranges : List SlotRange} {s : Nat} :
    HasSlot (State.removeFrom ranges slot) s ↔ HasSlot ranges s ∧ s ≠ slot := by
  have hpiece : ∀ r : SlotRange, (∃ r' ∈ (if slot < r.start ∨ r.stop < slot then [r]
      else if slot = r.start ∧ slot = r.stop then []
      else if slot = r.start then [⟨slot + 1, r.stop⟩]
      else if slot = r.stop then [⟨r.start, slot - 1⟩]
      else [⟨r.start, slot - 1⟩, ⟨slot + 1, r.stop⟩]), r'.start ≤ s ∧ s ≤ r'.stop) ↔
        (r.start ≤ s ∧ s ≤ r.stop) ∧ s ≠ slot := by
    intro r
    split_ifs <;> simp <;> omega
  constructor
  · rintro ⟨r', hr', hs⟩
    obtain ⟨r, hr, hmem⟩ := mem_flatMap.mp hr'
    obtain ⟨hslot, hne⟩ := (hpiece r).mp ⟨r', hmem, hs⟩
    exact ⟨⟨r, hr, hslot⟩, hne⟩
  · rintro ⟨⟨r, hr, hslot⟩, hne⟩
    obtain ⟨r', hmem, hs⟩ := (hpiece r).mpr ⟨hslot, hne⟩
    exact ⟨r', mem_flatMap.mpr ⟨r, hr, hmem⟩, hs⟩

namespace State

variable {st : State}

theorem mem_slotsOf {id : Bytes} {slot : Nat} :
    slot ∈ st.slotsOf id ↔ slot < slotCount ∧ st.slots slot = some id := by
  simp [slotsOf]

theorem getElem?_modifyNode (st : State) (id id' : Bytes) (f : Node → Node) :
    (st.modifyNode id f).nodes[id']? = if id = id' then (st.nodes[id']?).map f else st.nodes[id']? := by
  show (st.nodes.modify id f)[id']? = _
  rw [Std.ExtTreeMap.getElem?_modify]
  by_cases h : id = id'
  · subst h
    simp
  · simp [h]

@[simp] theorem mem_modifyNode {id id' : Bytes} {f : Node → Node} :
    id' ∈ (st.modifyNode id f).nodes ↔ id' ∈ st.nodes := by
  rw [mem_iff_isSome_getElem?, mem_iff_isSome_getElem?, getElem?_modifyNode]
  by_cases h : id = id'
  · rw [if_pos h, Option.isSome_map]
  · rw [if_neg h]

/-- A saved range has the slots of its owner in the table. -/
theorem owner_of_savedOwners {o : SlotRange × Bytes} (ho : o ∈ st.savedOwners) {slot : Nat}
    (hslot : slot ∈ o.1.toList) : slot < slotCount ∧ st.slots slot = some o.2 := by
  obtain ⟨id, -, ho⟩ := mem_flatMap.mp ho
  obtain ⟨r, hr, rfl⟩ := List.mem_map.mp ho
  have hhas : HasSlot (mergeSorted (st.slotsOf id)) slot :=
    ⟨r, hr, SlotRange.mem_toList.mp hslot⟩
  exact mem_slotsOf.mp (hasSlot_mergeSorted.mp hhas)

/-- `saveConfigLocked`. -/
def config (st : State) : Config where
  nodes := st.nodes.toList.map fun e => ⟨e.2.id, e.2.addr, e.2.flags, e.2.epoch⟩
  epoch := st.epoch
  owners := st.savedOwners
  usurped := st.usurped
  migrating := st.migrating
  importing := st.importing
  inRange := fun _ ho _ hslot => (owner_of_savedOwners ho hslot).1
  agree := by
    intro o ho o' ho' slot hslot hslot'
    have howner := (owner_of_savedOwners ho hslot).2
    have howner' := (owner_of_savedOwners ho' hslot').2
    exact Option.some.inj (howner.symm.trans howner')

/-! ## Runs -/

end State

/-- One operation on a node's state. -/
inductive Op
  | assignSlot (slot : Nat) (id : Bytes)
  | assignSlotRange (start stop : Nat) (id : Bytes)
  | removeSlot (slot : Nat)
  | meet (now : Int) (id addr : Bytes)
  | removeNode (id : Bytes)
  | heard (now : Int) (id : Bytes)
  | gossip (now : Int) (reporter : Bytes) (p : Payload)
  | checkFailures (now : Int)
  | save
  /-- The process starts again from what is saved. -/
  | restart (now : Int)

/-- `none`: a payload with a slot out of range, which is an index out of range; a node that removes
itself. -/
def State.step (st : State) : Op → Option State
  | .assignSlot slot id => some (st.assignSlot slot id)
  | .assignSlotRange start stop id => some (st.assignSlotRange start stop id)
  | .removeSlot slot => some (st.removeSlot slot)
  | .meet now id addr => some (st.meet now id addr)
  | .removeNode id => if id = st.myself then none else some (st.removeNode id)
  | .heard now id => some (st.heard now id)
  | .gossip now reporter p =>
    if ∀ c ∈ p.claims, c.slot < slotCount then some (st.applyGossipPayloadFrom now reporter p)
    else none
  | .checkFailures now => some (st.checkFailures now)
  | .save => some { st with saved := some st.config }
  | .restart now =>
    some (st.saved.elim (State.newCluster st.myself st.addr now) fun cfg => st.loadState now cfg)

end BoltDB.Cluster.Topology
