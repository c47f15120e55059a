import BoltDB.Lib.Bytes
import BoltDB.Lib.LockOrder

/-!
# Key locks

Every write operation of the store runs under key locks (`keylock.go`). A key lock is one of
`shards` mutexes, chosen by the FNV-1a hash of the key. Single-key operations call `Lock`,
multi-key operations call `LockMulti`, and `RPopLPush` and `LMove` call `lockListKeysOrdered`
(`list_types.go`). No operation takes a second set of locks while it holds one: `Expire` deletes
before it locks, and `LMPop` locks and unlocks one key after the other.

`LockMulti` takes each shard once, in shard order. `lockListKeysOrdered` takes each *key* once, in
*key* order, so two of its keys can need one mutex, and the shards come in any order.
-/

namespace BoltDB.Store

open Bytes LockOrder Transition List

/-- FNV-1a, 32 bits (`hash/fnv`). -/
def fnv32a (key : Bytes) : UInt32 := key.foldl (fun h b => (h ^^^ b.toUInt32) * 16777619) 2166136261

/-- `getShard` of a manager with `shards` mutexes. -/
def getShard (shards : Nat) (key : Bytes) : Nat := (fnv32a key).toNat % shards

/-- The ways an operation takes key locks. -/
inductive Acquire
  | lock (key : Bytes)
  | lockMulti (keys : List Bytes)
  | lockListKeysOrdered (keys : List Bytes)
  deriving DecidableEq

/-- The keys of `lockListKeysOrdered` in the order they are locked: each once, sorted. -/
def orderedKeys (keys : List Bytes) : List Bytes := keys.dedup.insertionSort (· ≤ ·)

/-- The mutexes an operation locks, in the order it locks them. -/
def Acquire.plan (shards : Nat) : Acquire → List Nat
  | .lock key => [getShard shards key]
  | .lockMulti keys => (keys.map (getShard shards)).dedup.insertionSort (· ≤ ·)
  | .lockListKeysOrdered keys => (orderedKeys keys).map (getShard shards)

variable {shards : Nat}

/-- `LockMulti` takes its mutexes in strictly increasing order. -/
theorem lockMulti_plan_sorted (keys : List Bytes) :
    ((Acquire.lockMulti keys).plan shards).Pairwise (· < ·) := by
  show (((keys.map (getShard shards)).dedup).insertionSort (· ≤ ·)).Pairwise (· < ·)
  have hle := pairwise_insertionSort (· ≤ ·) (keys.map (getShard shards)).dedup
  have hne : ((keys.map (getShard shards)).dedup.insertionSort (· ≤ ·)).Nodup :=
    (List.perm_insertionSort _ _).nodup_iff.mpr (nodup_dedup _)
  exact (hle.and hne).imp fun h => lt_of_le_of_ne h.1 h.2

theorem lockMulti_plan_pair {k l : Bytes} (h : getShard shards k < getShard shards l) :
    (Acquire.lockMulti [k, l]).plan shards = [getShard shards k, getShard shards l] := by
  simp [Acquire.plan, dedup_cons_of_notMem, h.ne, h.le]

/-- The operations whose `lockListKeysOrdered` calls are among `calls`. `Lock` and `LockMulti`
are called with any keys. -/
def Acquire.Within (calls : Set (List Bytes)) : Acquire → Prop
  | .lockListKeysOrdered keys => keys ∈ calls
  | _ => True

/-- The shards of the distinct keys, in key order, are strictly increasing. -/
def InShardOrder (shards : Nat) (keys : List Bytes) : Prop :=
  ((orderedKeys keys).map (getShard shards)).Pairwise (· < ·)

instance (keys : List Bytes) : Decidable (InShardOrder shards keys) :=
  inferInstanceAs (Decidable (List.Pairwise _ _))

/-- **Deadlock freedom of the key locks.** Any number of operations run concurrently, each
entering with `Lock` or `LockMulti` on arbitrary keys or with `lockListKeysOrdered` on one of the
key lists `calls`. No reachable state has a cycle of operations that wait for each other (or one
that waits for itself) exactly when on all of these lists key order is shard order. -/
theorem keyLocks_deadlockFree_iff (shards : Nat) (calls : Set (List Bytes)) :
    (∀ (as : List (Label Nat Acquire)) (s : State Nat Nat),
      (∀ a ∈ as, a.Enters (Acquire.Within calls)) →
      run (step (Acquire.plan shards)) .init as = some s → ¬ Deadlocked s) ↔
    ∀ keys ∈ calls, InShardOrder shards keys := by
  constructor
  · intro hfree keys hkeys
    by_contra hplan
    -- two keys of the list, locked by `LockMulti`
    have htwo : ∀ x ∈ (Acquire.lockListKeysOrdered keys).plan shards,
        ∀ y ∈ (Acquire.lockListKeysOrdered keys).plan shards, y < x →
        ∃ r, Acquire.Within calls r ∧ r.plan shards = [y, x] := by
      intro x hx y hy hlt
      obtain ⟨kx, -, rfl⟩ := mem_map.mp hx
      obtain ⟨ky, -, rfl⟩ := mem_map.mp hy
      exact ⟨.lockMulti [ky, kx], trivial, lockMulti_plan_pair hlt⟩
    obtain ⟨as, t, has, hrun, hdead⟩ :=
      exists_deadlock (Acquire.plan shards) (P := Acquire.Within calls)
        (r := .lockListKeysOrdered keys) hkeys hplan htwo (show (0 : Nat) ≠ 1 by decide)
    exact hfree as t has hrun hdead
  · intro hcalls as s has hrun
    refine not_deadlocked_of_run (fun r hr => ?_) has hrun
    cases r with
    | lock key => exact pairwise_singleton _ _
    | lockMulti keys => exact lockMulti_plan_sorted keys
    | lockListKeysOrdered keys => exact hcalls keys hr

/-- With 256 mutexes `RPOPLPUSH ab wx` waits for itself: the two keys share shard 202. And
`RPOPLPUSH b c`, which locks shards 229 and 82 in this order, and `SMOVE b c` wait for each
other. -/
theorem lockListKeysOrdered_deadlocks :
    (∃ s : State Nat Nat,
      run (step (Acquire.plan 256)) .init
        [.enter 0 (.lockListKeysOrdered [ascii "ab", ascii "wx"]), .lock 0] = some s ∧
      WaitsFor s 0 0) ∧
    ∃ s : State Nat Nat,
      run (step (Acquire.plan 256)) .init
        [.enter 0 (.lockListKeysOrdered [ascii "b", ascii "c"]),
          .enter 1 (.lockMulti [ascii "b", ascii "c"]), .lock 0, .lock 1] = some s ∧
      WaitsFor s 0 1 ∧ WaitsFor s 1 0 := by
  have hself : (Acquire.lockListKeysOrdered ["ab", "wx"]).plan 256 = [202, 202] := by
    decide +kernel
  have hlist : (Acquire.lockListKeysOrdered ["b", "c"]).plan 256 = [229, 82] := by
    decide +kernel
  have hmulti : (Acquire.lockMulti ["b", "c"]).plan 256 = [82, 229] := by
    decide +kernel
  constructor
  · refine ⟨_, by simp only [run, step, State.init, hself, Option.bind]; rfl, 202, [], ?_, ?_⟩
    · rfl
    · rfl
  · refine ⟨_, by simp only [run, step, State.init, hlist, hmulti, Option.bind]; rfl,
      ⟨82, [], ?_, ?_⟩, 229, [], ?_, ?_⟩
    all_goals rfl

end BoltDB.Store
