import BoltDB.Cluster.Flags

/-!
# Nodes that gossip

A family of nodes that send each other their payloads. A payload that was sent can reach any node, at any
time and any number of times.

* `Net.step` — an operation of one node, a payload that is sent, a payload that arrives.
* `sent_of_op` — what arrives was sent.
-/

namespace BoltDB.Cluster.Topology

open Bytes Transition

structure Net (ι : Type) where
  node : ι → State
  /-- All payloads that were ever sent, with their senders. -/
  sent : List (Bytes × Payload)

inductive Act (ι : Type)
  /-- An operation other than a payload that comes in. -/
  | perform (i : ι) (op : Op)
  | send (i : ι) (p : Payload)
  | deliver (i : ι) (now : Int) (k : Nat)

variable {ι : Type}

namespace Net

/-- The operation of a node behind an act. -/
def op (net : Net ι) : Act ι → Option (ι × Op)
  | .perform _ (.gossip ..) => none
  | .perform i op => some (i, op)
  | .send .. => none
  | .deliver i now k => (net.sent[k]?).map fun m => (i, .gossip now m.1 m.2)

def step [DecidableEq ι] (net : Net ι) : Act ι → Option (Net ι)
  | .send i p =>
    if (net.node i).BuildGossipPayload p then
      some { net with sent := net.sent ++ [((net.node i).myself, p)] }
    else none
  | a => (net.op a).bind fun (i, op) =>
    ((net.node i).step op).map fun st => { net with node := Function.update net.node i st }

theorem step_cases [DecidableEq ι] {net net' : Net ι} {a : Act ι} (h : net.step a = some net') :
    (∃ i p, a = .send i p ∧ (net.node i).BuildGossipPayload p ∧
      net' = { net with sent := net.sent ++ [((net.node i).myself, p)] }) ∨
    ∃ i op st, net.op a = some (i, op) ∧ (net.node i).step op = some st ∧
      net' = { net with node := Function.update net.node i st } := by
  have hop : ((net.op a).bind fun (i, op) => ((net.node i).step op).map fun st =>
      ({ net with node := Function.update net.node i st } : Net ι)) = some net' →
      ∃ i op st, net.op a = some (i, op) ∧ (net.node i).step op = some st ∧
        net' = { net with node := Function.update net.node i st } := by
    intro h
    obtain ⟨⟨i, op⟩, hop, h⟩ := Option.bind_eq_some_iff.mp h
    obtain ⟨st, hst, rfl⟩ := Option.map_eq_some_iff.mp h
    exact ⟨i, op, st, hop, hst, rfl⟩
  cases a with
  | send i p =>
    rw [Net.step] at h
    split at h
    · next hbuilds => exact .inl ⟨i, p, rfl, hbuilds, (Option.some.inj h).symm⟩
    · cases h
  | perform i op => exact .inr (hop h)
  | deliver i now k => exact .inr (hop h)

/-- A payload that comes in was sent. -/
theorem sent_of_op {net : Net ι} {a : Act ι} {i : ι} {now : Int} {reporter : Bytes} {p : Payload}
    (h : net.op a = some (i, .gossip now reporter p)) : (reporter, p) ∈ net.sent := by
  cases a with
  | send _ _ => cases h
  | perform j op => cases op <;> cases h
  | deliver j now' k =>
    obtain ⟨m, hm, heq⟩ := Option.map_eq_some_iff.mp h
    cases heq
    exact List.mem_of_getElem? hm

end Net

end BoltDB.Cluster.Topology
