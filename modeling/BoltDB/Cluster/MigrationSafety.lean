import BoltDB.Cluster.Migration

/-!
# No acknowledged write is lost by a migration

While a slot moves, its keys are on the source until the record COPIED is saved and on the target
from then on. The four stages of this hand-over (`AtRest`, `Copying`, `Copied`, `Moved`) say where
every acknowledged value is, and `At` says what holds before each operation of the migration and of
its recovery.

* `checkRequest_settled` — what the redirect check and the write fences give when they are still
  true at the moment the command runs.
* `migration_safe` — in every run in which they are, every acknowledged value is on a node at every
  moment, and on the owner alone once nothing is left to do.
-/

namespace BoltDB.Cluster

open Bytes Transition Option

variable {ν : Type}

/-! ## What must hold when a write runs -/

/-- The node owns the slot and is not giving it away. -/
def Node.Settled (self : NodeID) (n : Node ν) : Prop := n.owner = self ∧ n.migrating = false

instance (self : NodeID) (n : Node ν) : Decidable (n.Settled self) :=
  inferInstanceAs (Decidable (_ ∧ _))

/-- Phase 1 is complete and Phase 2 is not. -/
def Phase.isCommitting : Phase → Bool
  | .copied | .commit => true
  | _ => false

/-- A command changes the slot's keys on a node that is at rest, or it is subject to the write
fences, checks a key that it writes and still passes its check; and the source's migration is not between
COPIED and DONE, where the fence is lifted before the owner changes. -/
def WriteCondition (s : System ν) (r : Request ν) : Prop := ((s.node r.node).Settled r.node ∨
    (fenced r.cmd = true ∧ (∃ w ∈ r.writes, w.1 ∈ r.route.keys) ∧
      checkRequest (s.node r.node) r = none)) ∧
  (r.node = .source → ∀ j ∈ s.journal, j.phase.isCommitting = false)

instance (s : System ν) (r : Request ν) : Decidable (WriteCondition s r) :=
  inferInstanceAs (Decidable (_ ∧ _))

/-- What recovery has to do on the target is done. -/
def Pc.reachesTarget (o : Outcome) : Pc ν → Bool
  | .recoverConn => o = .ok
  | .sendDelKeysInSlot true => o ≠ .err
  | _ => true

/-- The value that is dumped comes back from RESTORE as it is. -/
def Pc.Survives (carry : ν → ν) (s : System ν) : Pc ν → Prop
  | .copy _ (key :: _) => ∀ v ∈ s.src.data[key]?, carry v = v
  | _ => True

instance [DecidableEq ν] (carry : ν → ν) (s : System ν) (p : Pc ν) : Decidable (p.Survives carry s) := by
  unfold Pc.Survives
  split <;> infer_instance

/-- No copy mode, which leaves the keys on both nodes; every write meets its condition; what is copied
survives DUMP and RESTORE; and recovery cleans the target. -/
def MigrationCondition (carry : ν → ν) (s : System ν) : Event ν → Prop
  | .migrate copyKeys => copyKeys = false
  | .advance o => ∀ p ∈ s.pc, p.reachesTarget o = true ∧ p.Survives carry s
  | .commit i => ∀ r ∈ s.pending[i]?, r.writes = [] ∨ WriteCondition s r
  | _ => True

instance [DecidableEq ν] (carry : ν → ν) (s : System ν) (e : Event ν) :
    Decidable (MigrationCondition carry s e) := by
  unfold MigrationCondition
  split <;> infer_instance

variable {carry : ν → ν} {n : Node ν} {s : System ν}

theorem checkSlotRedirect_eq_none {self : NodeID} :
    checkSlotRedirect self n = none ↔ n.Settled self := by
  simp only [checkSlotRedirect, Node.isMigratingSlot, Node.Settled]
  by_cases ho : n.owner = self <;> simp [ho]

theorem checkAndHandleRedirect_settled {self : NodeID} {cmd key : Bytes} {asking : Bool}
    (hf : fenced cmd = true) (hc : checkAndHandleRedirect self n cmd asking key = none) :
    n.Settled self := by
  apply checkSlotRedirect_eq_none.mp
  rw [checkAndHandleRedirect, hf] at hc
  split at hc
  case isTrue => simp at hc
  case isFalse =>
    split at hc
    case h_1 hask =>
      -- ASK is answered only by a node that is migrating the slot, and there the fence stands
      have hm : n.isMigratingSlot self = true := by
        rw [checkSlotRedirect] at hask
        grind
      simp only [hm, Bool.and_self, if_true] at hc
      split at hc <;> cases hc
    case h_2 => exact hc

/-- The check of a fenced command passes only on a node that owns the slot and keeps it. -/
theorem checkRequest_settled {r : Request ν} (hf : fenced r.cmd = true)
    (hkeys : ∃ w ∈ r.writes, w.1 ∈ r.route.keys) (hc : checkRequest n r = none) :
    n.Settled r.node := by
  obtain ⟨w, -, hkey⟩ := hkeys
  rw [checkRequest] at hc
  cases hr : r.route with
  | single key =>
    rw [hr] at hc
    exact checkAndHandleRedirect_settled hf hc
  | multi keys =>
    rw [hr] at hc hkey
    cases keys with
    | nil => simp [Route.keys] at hkey
    | cons k rest =>
      apply checkSlotRedirect_eq_none.mp
      simp only [checkAndHandleMultiKeyRedirect] at hc
      split at hc
      · split at hc <;> cases hc
      · exact hc
  | queued | unchecked => simp [hr, Route.keys] at hkey

/-! ## The stages of the hand-over -/

/-- What the stages speak of: both nodes, the journal and the acknowledged values. -/
structure Slot (ν : Type) where
  src : Node ν
  tgt : Node ν
  journal : Option Journal
  latest : Data ν

def System.slot (s : System ν) : Slot ν := ⟨s.src, s.tgt, s.journal, s.latest⟩

namespace Slot

/-- The slot is the source's on both nodes. -/
def AtSource (s : Slot ν) : Prop := s.src.owner = .source ∧ s.tgt.owner = .source

structure AtRest (s : Slot ν) : Prop where
  owner : s.AtSource
  journal : s.journal = none
  src : s.src.data = s.latest
  tgt : s.tgt.data = ∅

structure Copying (s : Slot ν) : Prop where
  owner : s.AtSource
  journal : ∃ j, s.journal = some j ∧ (j.phase = .init ∨ j.phase = .copying)
  src : s.src.data = s.latest

structure Copied (s : Slot ν) : Prop where
  owner : s.AtSource
  journal : ∃ j, s.journal = some j ∧ j.phase.isCommitting = true
  tgt : s.tgt.data = s.latest

structure Moved (s : Slot ν) : Prop where
  owner : s.src.owner = .target
  journal : ∀ j ∈ s.journal, j.phase ≠ .init ∧ j.phase ≠ .copying
  src : s.src.data = ∅
  tgt : s.tgt.data = s.latest

/-- Phase 2 runs, or runs once more after the owner has changed. -/
def Committing (s : Slot ν) : Prop := s.Copied ∨ s.Moved

def Stage (s : Slot ν) : Prop := s.AtRest ∨ s.Copying ∨ s.Committing

/-- Phase 1 with `keys` left to copy: the fence is up, the target holds nothing but values of the
source, and every key of the source that is not there yet is among `keys`. -/
structure Transfer (s : Slot ν) (copyKeys : Bool) (keys : List Bytes) : Prop where
  stage : s.Copying
  move : copyKeys = false
  fence : s.src.migrating = true
  faithful : ∀ (k : Bytes) v, s.tgt.data[k]? = some v → s.src.data[k]? = some v
  covered : ∀ (k : Bytes) v, s.src.data[k]? = some v → k ∈ keys ∨ s.tgt.data[k]? = some v

/-- What holds before each operation. -/
def At (s : Slot ν) : Pc ν → Prop
  | .saveInit c keys => s.AtRest ∧ c = false ∧ s.src.migrating = true ∧ ∀ k ∈ s.src.data, k ∈ keys
  | .saveCopying c keys | .newMigrateConn c keys | .sendSetSlotImporting c keys | .copy c keys =>
    s.Transfer c keys
  | .sendRestore c key v keys => s.Transfer c (key :: keys) ∧ s.src.data[key]? = some v
  | .sendDelKeysInSlot _ | .abortStable false | .recoverConn => s.Copying
  | .abortStable true | .recoverClear => s.Copying ∧ s.tgt.data = ∅
  | .saveDoneCopy | .clearCopy => False
  | .saveCommit => s.Copied
  | .collectSlotKeys org => org.copyKeys = false ∧ s.Committing
  | .del org keys => org.copyKeys = false ∧ s.Committing ∧ ∀ k ∈ s.src.data, k ∈ keys
  | .clearSlotMigration org | .assignSlot org => org.copyKeys = false ∧ s.Committing ∧ s.src.data = ∅
  | .sendStable => s.Moved
  | .saveDone org => org.copyKeys = false ∧ s.Moved
  | .deleteJournal => s.Moved ∨ (s.Copying ∧ s.tgt.data = ∅)

variable {keys : List Bytes} {s : Slot ν}

theorem At.stage {p : Pc ν} (h : s.At p) : s.Stage := by
  revert h
  fun_cases At s p with
  | case1 => exact fun h => .inl h.1
  | case2 | case3 | case4 | case5 => exact fun h => .inr (.inl h.stage)
  | case6 => exact fun h => .inr (.inl h.1.stage)
  | case7 | case8 | case9 => exact fun h => .inr (.inl h)
  | case10 | case11 => exact fun h => .inr (.inl h.1)
  | case12 | case13 => exact False.elim
  | case14 => exact fun h => .inr (.inr (.inl h))
  | case15 => exact fun h => .inr (.inr h.2)
  | case16 | case17 | case18 => exact fun h => .inr (.inr h.2.1)
  | case19 => exact fun h => .inr (.inr (.inr h))
  | case20 => exact fun h => .inr (.inr (.inr h.2))
  | case21 => exact fun h => h.elim (fun h => .inr (.inr (.inr h))) fun h => .inr (.inl h.1)

/-! ### Flags -/

/-- `s'` differs from `s` in flags of the nodes, and in what the target has heard of the owner. -/
structure Flagged (s s' : Slot ν) : Prop where
  src : s'.src.data = s.src.data
  tgt : s'.tgt.data = s.tgt.data
  owner : s'.src.owner = s.src.owner
  atSource : s.AtSource → s'.AtSource
  journal : s'.journal = s.journal
  latest : s'.latest = s.latest

namespace Flagged

variable {s s' : Slot ν} (f : Flagged s s')

include f

theorem atRest (h : s.AtRest) : s'.AtRest :=
  ⟨f.atSource h.owner, f.journal.trans h.journal, by rw [f.src, h.src, f.latest], f.tgt.trans h.tgt⟩

theorem copying (h : s.Copying) : s'.Copying :=
  ⟨f.atSource h.owner, by rw [f.journal]; exact h.journal, by rw [f.src, h.src, f.latest]⟩

theorem copied (h : s.Copied) : s'.Copied :=
  ⟨f.atSource h.owner, by rw [f.journal]; exact h.journal, by rw [f.tgt, h.tgt, f.latest]⟩

theorem moved (h : s.Moved) : s'.Moved :=
  ⟨f.owner.trans h.owner, by rw [f.journal]; exact h.journal, f.src.trans h.src,
    by rw [f.tgt, h.tgt, f.latest]⟩

theorem committing (h : s.Committing) : s'.Committing := h.imp f.copied f.moved

theorem stage (h : s.Stage) : s'.Stage := h.imp f.atRest (Or.imp f.copying f.committing)

theorem transfer {c : Bool} {keys : List Bytes} (h : s.Transfer c keys)
    (hfence : s'.src.migrating = true) : s'.Transfer c keys :=
  ⟨f.copying h.stage, h.move, hfence, by rw [f.src, f.tgt]; exact h.faithful,
    by rw [f.src, f.tgt]; exact h.covered⟩

/-- The operations rely on no flag but the fence. -/
theorem keeps {p : Pc ν} (h : s.At p) (hfence : s.src.migrating = true → s'.src.migrating = true) :
    s'.At p := by
  have hsrc := f.src
  have htgt := f.tgt
  cases p with
  | saveInit => exact ⟨f.atRest h.1, h.2.1, hfence h.2.2.1, by rw [hsrc]; exact h.2.2.2⟩
  | saveCopying | newMigrateConn | sendSetSlotImporting | copy =>
    exact f.transfer h (hfence (Transfer.fence h))
  | sendRestore => exact ⟨f.transfer h.1 (hfence h.1.fence), by rw [hsrc]; exact h.2⟩
  | sendDelKeysInSlot | recoverConn => exact f.copying h
  | abortStable recovery =>
    cases recovery with
    | false => exact f.copying h
    | true => exact ⟨f.copying h.1, htgt.trans h.2⟩
  | recoverClear => exact ⟨f.copying h.1, htgt.trans h.2⟩
  | saveDoneCopy | clearCopy => exact h
  | saveCommit => exact f.copied h
  | collectSlotKeys => exact ⟨h.1, f.committing h.2⟩
  | del => exact ⟨h.1, f.committing h.2.1, by rw [hsrc]; exact h.2.2⟩
  | clearSlotMigration | assignSlot => exact ⟨h.1, f.committing h.2.1, hsrc.trans h.2.2⟩
  | sendStable => exact f.moved h
  | saveDone => exact ⟨h.1, f.moved h.2⟩
  | deleteJournal => exact h.imp f.moved fun h => ⟨f.copying h.1, htgt.trans h.2⟩

end Flagged

/-- SETSLOT STABLE on the target. -/
theorem flagged_clearTarget (s : Slot ν) : Flagged s { s with tgt := s.tgt.clearSlotMigration } :=
  ⟨rfl, rfl, rfl, id, rfl, rfl⟩

theorem flagged_clearSource (s : Slot ν) : Flagged s { s with src := s.src.clearSlotMigration } :=
  ⟨rfl, rfl, rfl, id, rfl, rfl⟩

/-! ### Phase 1 -/

theorem AtRest.transfer (h : s.AtRest) (hfence : s.src.migrating = true)
    (hkeys : ∀ k ∈ s.src.data, k ∈ keys) :
    Transfer { s with journal := some ⟨.init, false⟩ } false keys where
  stage := ⟨h.owner, ⟨_, rfl, .inl rfl⟩, h.src⟩
  move := rfl
  fence := hfence
  faithful := by simp [h.tgt]
  covered k v hk := .inl (hkeys k (Std.ExtTreeMap.mem_iff_isSome_getElem?.mpr (by simp [hk])))

theorem Transfer.skip {c : Bool} {key : Bytes} (h : s.Transfer c (key :: keys))
    (hkey : ∀ v, s.src.data[key]? = some v → s.tgt.data[key]? = some v) :
    s.Transfer c keys where
  __ := h
  covered k v hk := by
    rcases h.covered k v hk with hmem | hthere
    · rcases List.mem_cons.mp hmem with rfl | hmem
      · exact .inr (hkey v hk)
      · exact .inl hmem
    · exact .inr hthere

/-- RESTORE of the value the source still has. -/
theorem Transfer.restore {c : Bool} {key : Bytes} {v : ν} (h : s.Transfer c (key :: keys))
    (hv : s.src.data[key]? = some v) :
    Transfer { s with tgt := { s.tgt with data := s.tgt.data.insertIfNew key v } } c keys := by
  have hget : ∀ k : Bytes, (s.tgt.data.insertIfNew key v)[k]? =
      if key = k ∧ s.tgt.data[k]? = none then some v else s.tgt.data[k]? := by
    intro k
    grind
  have hall : Transfer { s with tgt := { s.tgt with data := s.tgt.data.insertIfNew key v } } c
      (key :: keys) := by
    refine ⟨⟨h.stage.owner, h.stage.journal, h.stage.src⟩, h.move, h.fence, ?_, ?_⟩
    · intro k w hw
      have := h.faithful k w
      grind
    · intro k w hw
      have := h.covered k w hw
      grind
  apply hall.skip
  intro w hw
  cases ht : s.tgt.data[key]? with
  | none => grind
  | some u =>
    have := h.faithful key u ht
    grind

/-- With nothing left to copy the target has what the source has. -/
theorem Transfer.copied (h : s.Transfer false []) :
    Copied { s with journal := some ⟨.copied, false⟩ } where
  owner := h.stage.owner
  journal := ⟨_, rfl, rfl⟩
  tgt := by
    rw [← h.stage.src]
    refine Std.ExtTreeMap.ext_getElem? fun k => ext fun v => ?_
    exact ⟨h.faithful k v, fun hv => (h.covered k v hv).resolve_left (List.not_mem_nil)⟩

/-! ### Phase 2 -/

theorem Committing.erase (h : s.Committing) (key : Bytes) :
    Committing { s with src := { s.src with data := s.src.data.erase key } } := by
  rcases h with h | h
  · exact .inl ⟨h.owner, h.journal, h.tgt⟩
  · refine .inr ⟨h.owner, h.journal, ?_, h.tgt⟩
    show s.src.data.erase key = ∅
    simp [h.src]

theorem Committing.assignSlot (h : s.Committing) (hsrc : s.src.data = ∅) :
    Moved { s with src := { s.src.clearSlotMigration with owner := .target } } := by
  rcases h with h | h
  · obtain ⟨j, hj, hphase⟩ := h.journal
    refine ⟨rfl, fun j' hj' => ?_, hsrc, h.tgt⟩
    obtain rfl : j = j' := some.inj (hj.symm.trans hj')
    constructor <;> intro he <;> rw [he] at hphase <;> cases hphase
  · exact ⟨rfl, h.journal, hsrc, h.tgt⟩

/-! ### Commands -/

/-- A write on the source, while no value is needed anywhere else. -/
def writeSource (s : Slot ν) (writes : List (Bytes × Option ν)) : Slot ν :=
  { s with
    src := { s.src with data := applyWrites s.src.data writes }
    latest := applyWrites s.latest writes }

def writeTarget (s : Slot ν) (writes : List (Bytes × Option ν)) : Slot ν :=
  { s with
    tgt := { s.tgt with data := applyWrites s.tgt.data writes }
    latest := applyWrites s.latest writes }

section Writes

variable {s : Slot ν} (writes : List (Bytes × Option ν))

theorem AtRest.writeSource (h : s.AtRest) : (s.writeSource writes).AtRest :=
  ⟨h.owner, h.journal, congrArg (applyWrites · writes) h.src, h.tgt⟩

theorem Copying.writeSource (h : s.Copying) : (s.writeSource writes).Copying :=
  ⟨h.owner, h.journal, congrArg (applyWrites · writes) h.src⟩

theorem Moved.writeTarget (h : s.Moved) : (s.writeTarget writes).Moved :=
  ⟨h.owner, h.journal, h.src, congrArg (applyWrites · writes) h.tgt⟩

theorem not_committing (hs : s.src.Settled .source)
    (hj : ∀ j ∈ s.journal, j.phase.isCommitting = false) : ¬ s.Committing := by
  rintro (h | h)
  · obtain ⟨j, hmem, hphase⟩ := h.journal
    exact nomatch (hj j hmem).symm.trans hphase
  · exact nomatch hs.1.symm.trans h.owner

theorem Stage.writeSource (h : s.Stage) (hs : s.src.Settled .source)
    (hj : ∀ j ∈ s.journal, j.phase.isCommitting = false) : (s.writeSource writes).Stage := by
  rcases h with h | h | h
  · exact .inl (h.writeSource writes)
  · exact .inr (.inl (h.writeSource writes))
  · exact absurd h (not_committing hs hj)

/-- While an operation relies on the source's keys the fence is up. -/
theorem At.writeSource {p : Pc ν} (h : s.At p) (hs : s.src.Settled .source)
    (hj : ∀ j ∈ s.journal, j.phase.isCommitting = false) : (s.writeSource writes).At p := by
  have hfence : s.src.migrating ≠ true := by simp [hs.2]
  have hcommit := not_committing hs hj
  cases p with
  | saveInit => exact absurd h.2.2.1 hfence
  | saveCopying | newMigrateConn | sendSetSlotImporting | copy =>
    exact absurd (Transfer.fence h) hfence
  | sendRestore => exact absurd h.1.fence hfence
  | sendDelKeysInSlot | recoverConn => exact Copying.writeSource writes h
  | abortStable recovery =>
    cases recovery with
    | false => exact Copying.writeSource writes h
    | true => exact ⟨h.1.writeSource writes, h.2⟩
  | recoverClear => exact ⟨h.1.writeSource writes, h.2⟩
  | saveDoneCopy | clearCopy => exact h
  | saveCommit => exact absurd (.inl h) hcommit
  | collectSlotKeys => exact absurd h.2 hcommit
  | del | clearSlotMigration | assignSlot => exact absurd h.2.1 hcommit
  | sendStable => exact absurd (.inr h) hcommit
  | saveDone => exact absurd (.inr h.2) hcommit
  | deleteJournal =>
    rcases h with h | ⟨h, hempty⟩
    · exact absurd (.inr h) hcommit
    · exact .inr ⟨h.writeSource writes, hempty⟩

/-- The target takes writes only when the slot has moved. -/
theorem Stage.moved (h : s.Stage) (ht : s.tgt.owner = .target) : s.Moved := by
  rcases h with h | h | h | h
  · exact nomatch ht.symm.trans h.owner.2
  · exact nomatch ht.symm.trans h.owner.2
  · exact nomatch ht.symm.trans h.owner.2
  · exact h

theorem Stage.writeTarget (h : s.Stage) (ht : s.tgt.owner = .target) : (s.writeTarget writes).Stage :=
  .inr (.inr (.inr ((h.moved ht).writeTarget writes)))

theorem At.writeTarget {p : Pc ν} (h : s.At p) (ht : s.tgt.owner = .target) :
    (s.writeTarget writes).At p := by
  have hmoved := h.stage.moved ht
  have hmoved' := hmoved.writeTarget writes
  have hrest : ¬ s.AtRest := fun h => nomatch hmoved.owner.symm.trans h.owner.1
  have hcopying : ¬ s.Copying := fun h => nomatch hmoved.owner.symm.trans h.owner.1
  cases p with
  | saveInit => exact absurd h.1 hrest
  | saveCopying | newMigrateConn | sendSetSlotImporting | copy =>
    exact absurd (Transfer.stage h) hcopying
  | sendRestore => exact absurd h.1.stage hcopying
  | sendDelKeysInSlot | recoverConn => exact absurd h hcopying
  | abortStable recovery =>
    cases recovery with
    | false => exact absurd h hcopying
    | true => exact absurd h.1 hcopying
  | recoverClear => exact absurd h.1 hcopying
  | saveDoneCopy | clearCopy => exact h
  | saveCommit => exact nomatch hmoved.owner.symm.trans (Copied.owner h).1
  | collectSlotKeys => exact ⟨h.1, .inr hmoved'⟩
  | del | clearSlotMigration | assignSlot => exact ⟨h.1, .inr hmoved', h.2.2⟩
  | sendStable => exact hmoved'
  | saveDone => exact ⟨h.1, hmoved'⟩
  | deleteJournal => exact .inl hmoved'

end Writes

end Slot

/-! ## Every run -/

open Slot

structure MigrationInv (s : System ν) : Prop where
  copyKeys : ∀ j ∈ s.journal, j.copyKeys = false
  stage : s.slot.Stage
  pc : ∀ p ∈ s.pc, s.slot.At p

section Perform

variable {s : System ν} {f : System ν → System ν} {p q : Pc ν}

/-- The last operation. -/
theorem MigrationInv.perform_last (h : MigrationInv s) (o : Outcome)
    (hcopy : ∀ j ∈ (f s).journal, j.copyKeys = false) (hstage : (f s).slot.Stage) :
    MigrationInv (s.perform o f none none) := by
  cases o with
  | ok | lost => exact ⟨hcopy, hstage, fun _ => nofun⟩
  | err => exact ⟨h.copyKeys, h.stage, fun _ => nofun⟩

/-- An operation whose failure ends the migration. -/
theorem MigrationInv.perform_or_stop (h : MigrationInv s) (o : Outcome)
    (hcopy : ∀ j ∈ (f s).journal, j.copyKeys = false) (hnext : (f s).slot.At p) :
    MigrationInv (s.perform o f (some p) none) := by
  cases o with
  | ok => exact ⟨hcopy, hnext.stage, fun _ hp => mem_some.mp hp ▸ hnext⟩
  | err => exact ⟨h.copyKeys, h.stage, fun _ => nofun⟩
  | lost => exact ⟨hcopy, hnext.stage, fun _ => nofun⟩

/-- An operation after whose failure `q` is next. -/
theorem MigrationInv.perform_or_go (h : MigrationInv s) (o : Outcome)
    (hcopy : ∀ j ∈ (f s).journal, j.copyKeys = false) (hnext : (f s).slot.At p)
    (hlost : (f s).slot.At q) (herr : s.slot.At q) :
    MigrationInv (s.perform o f (some p) (some q)) := by
  cases o with
  | ok => exact ⟨hcopy, hnext.stage, fun _ hp => mem_some.mp hp ▸ hnext⟩
  | err => exact ⟨h.copyKeys, h.stage, fun _ hp => mem_some.mp hp ▸ herr⟩
  | lost => exact ⟨hcopy, hnext.stage, fun _ hp => mem_some.mp hp ▸ hlost⟩

end Perform

theorem MigrationInv.advance_saveCopying (h : MigrationInv s) {c : Bool} {keys : List Bytes} (o : Outcome)
    (hp : s.slot.At (.saveCopying c keys)) :
    MigrationInv (s.advance carry o (.saveCopying c keys)) := by
  obtain ⟨⟨howner, _, hsrc⟩, rfl, hfence, hfaithful, hcovered⟩ := hp
  apply h.perform_or_stop o
  · simp [System.saveJournal]
  · exact ⟨⟨howner, ⟨_, rfl, .inr rfl⟩, hsrc⟩, rfl, hfence, hfaithful, hcovered⟩

theorem MigrationInv.advance_sendSetSlotImporting (h : MigrationInv s) {c : Bool} {keys : List Bytes}
    (o : Outcome) (hp : s.slot.At (.sendSetSlotImporting c keys)) :
    MigrationInv (s.advance carry o (.sendSetSlotImporting c keys)) := by
  have hcopy := h.copyKeys
  have hflag : Flagged s.slot ⟨s.src, { s.tgt with importing := true }, s.journal, s.latest⟩ :=
    ⟨rfl, rfl, rfl, id, rfl, rfl⟩
  have htransfer : s.slot.Transfer c keys := hp
  have hnext := hflag.transfer htransfer htransfer.fence
  rw [System.advance]
  exact h.perform_or_go o hcopy hnext hnext htransfer

/-- The head of the copy loop: a key that is gone is skipped, and with no key left the target has
everything. -/
theorem MigrationInv.advance_copy (h : MigrationInv s) {c : Bool} {keys : List Bytes} (o : Outcome)
    (hp : s.slot.At (.copy c keys))
    (hcarry : Pc.Survives carry s (.copy c keys)) :
    MigrationInv (s.advance carry o (.copy c keys)) := by
  have hcopy := h.copyKeys
  have htransfer : s.slot.Transfer c keys := hp
  have hstage := htransfer.stage
  obtain rfl := htransfer.move
  cases keys with
  | nil =>
    apply h.perform_or_stop o
    · simp [System.saveJournal]
    · exact htransfer.copied
  | cons key keys =>
    rw [System.advance]
    split
    case h_1 v hv =>
      have hsame : s.src.data[key]? = some (carry v) := by
        rw [hcarry v hv]
        exact hv
      exact h.perform_or_go o hcopy ⟨hp, hsame⟩ hstage hstage
    case h_2 hv =>
      have hskip : s.slot.Transfer false keys :=
        htransfer.skip fun v hv' => by cases hv.symm.trans hv'
      exact h.perform_or_go o hcopy hskip hstage hstage

/-- RESTORE takes effect on the target, or is redirected there. -/
theorem MigrationInv.advance_sendRestore (h : MigrationInv s) {c : Bool} {key : Bytes} {v : ν}
    {keys : List Bytes} (o : Outcome) (hp : s.slot.At (.sendRestore c key v keys)) :
    MigrationInv (s.advance carry o (.sendRestore c key v keys)) := by
  have hcopy := h.copyKeys
  obtain ⟨htransfer, hv⟩ := hp
  have hstage : s.slot.Copying := htransfer.stage
  rw [System.advance]
  split
  case h_1 =>
    have hnext := htransfer.restore hv
    exact h.perform_or_go o hcopy hnext hnext.stage hstage
  case h_2 => exact h.perform_or_go o hcopy hstage hstage hstage

/-- In recovery the keys on the target are gone afterwards; in Phase 1 nothing is said of them. -/
theorem MigrationInv.advance_sendDelKeysInSlot (h : MigrationInv s) {recovery : Bool} (o : Outcome)
    (hp : s.slot.At (.sendDelKeysInSlot recovery))
    (ho : Pc.reachesTarget o (.sendDelKeysInSlot recovery : Pc ν) = true) :
    MigrationInv (s.advance carry o (.sendDelKeysInSlot recovery)) := by
  have hcopy := h.copyKeys
  have hstage : s.slot.Copying := hp
  have hempty : (Slot.mk s.src { s.tgt with data := ∅ } s.journal s.latest).Copying :=
    ⟨hstage.owner, hstage.journal, hstage.src⟩
  cases recovery with
  | false =>
    rw [System.advance]
    exact h.perform_or_go o hcopy hempty hempty hstage
  | true =>
    -- here the condition says that the keys are deleted
    cases o with
    | ok | lost =>
      exact ⟨hcopy, .inr (.inl hempty), fun _ hp => mem_some.mp hp ▸ ⟨hempty, rfl⟩⟩
    | err => cases ho

theorem MigrationInv.advance_abortStable (h : MigrationInv s) {recovery : Bool} (o : Outcome)
    (hp : s.slot.At (.abortStable recovery)) :
    MigrationInv (s.advance carry o (.abortStable recovery)) := by
  have hcopy := h.copyKeys
  have hflag := s.slot.flagged_clearTarget
  cases recovery with
  | false => exact h.perform_last o hcopy (hflag.stage h.stage)
  | true =>
    have hnext := hflag.keeps (p := .recoverClear) hp id
    exact h.perform_or_go o hcopy hnext hnext hp

/-- Phase 2 lists the keys anew, so that none is left when the loop ends. -/
theorem MigrationInv.advance_del (h : MigrationInv s) {org : Origin} {keys : List Bytes} (o : Outcome)
    (hp : s.slot.At (.del org keys)) :
    MigrationInv (s.advance carry o (.del org keys)) := by
  have hcopy := h.copyKeys
  obtain ⟨horg, hstage, hkeys⟩ := hp
  cases keys with
  | nil =>
    have hempty : s.src.data = ∅ := by
      refine Std.ExtTreeMap.eq_empty_iff_forall_not_mem.mpr fun k hk => ?_
      exact List.not_mem_nil (hkeys k hk)
    exact h.perform_or_go o hcopy ⟨horg, hstage, hempty⟩ ⟨horg, hstage, hempty⟩ ⟨horg, hstage, hempty⟩
  | cons key keys =>
    apply h.perform_or_stop o hcopy
    refine ⟨horg, hstage.erase key, fun k hk => ?_⟩
    obtain ⟨hne, hk⟩ := Std.ExtTreeMap.mem_erase.mp hk
    refine List.mem_of_ne_of_mem (fun e => hne ?_) (hkeys k hk)
    simp [e]

/-- The owner changes. -/
theorem MigrationInv.advance_assignSlot (h : MigrationInv s) {org : Origin} (o : Outcome)
    (hp : s.slot.At (.assignSlot org)) :
    MigrationInv (s.advance carry o (.assignSlot org)) := by
  have hcopy := h.copyKeys
  obtain ⟨horg, hstage, hempty⟩ := hp
  cases org with
  | migrate =>
    rw [System.advance]
    exact h.perform_or_stop o hcopy (hstage.assignSlot hempty)
  | retry c =>
    rw [System.advance]
    exact h.perform_or_stop o hcopy ⟨horg, hstage.assignSlot hempty⟩

theorem MigrationInv.advance_saveDone (h : MigrationInv s) {org : Origin} (o : Outcome)
    (hp : s.slot.At (.saveDone org)) :
    MigrationInv (s.advance carry o (.saveDone org)) := by
  obtain ⟨horg, hstage⟩ := hp
  have hdone : (Slot.mk s.src s.tgt (some ⟨.done, org.copyKeys⟩) s.latest).Moved :=
    ⟨hstage.owner, by simp, hstage.src, hstage.tgt⟩
  cases org with
  | migrate => exact h.perform_or_stop o (by simpa [System.saveJournal] using horg) (.inl hdone)
  | retry c =>
    exact h.perform_or_go o (by simpa [System.saveJournal] using horg) (.inl hdone) (.inl hdone)
      (.inl hstage)

/-- The end of a migration, or of a recovery that has cleaned the target. -/
theorem MigrationInv.advance_deleteJournal (h : MigrationInv s) (o : Outcome)
    (hp : s.slot.At .deleteJournal) :
    MigrationInv (s.advance carry o .deleteJournal) := by
  apply h.perform_last o
  · simp
  rcases hp with hstage | ⟨hstage, hempty⟩
  · exact .inr (.inr (.inr ⟨hstage.owner, by simp [System.slot], hstage.src, hstage.tgt⟩))
  · exact .inl ⟨hstage.owner, rfl, hstage.src, hempty⟩

theorem MigrationInv.advance_recoverClear (h : MigrationInv s) (o : Outcome)
    (hp : s.slot.At .recoverClear) :
    MigrationInv (s.advance carry o .recoverClear) := by
  have hcopy := h.copyKeys
  obtain ⟨hstage, hempty⟩ := hp
  have hclear := s.slot.flagged_clearSource.copying hstage
  exact h.perform_or_go o hcopy (.inr ⟨hclear, hempty⟩) (.inr ⟨hclear, hempty⟩) (.inr ⟨hstage, hempty⟩)

/-- Every operation of the migration and of its recovery, with any outcome the condition allows. -/
theorem MigrationInv.advance (h : MigrationInv s) {p : Pc ν} (hp : s.slot.At p) {o : Outcome}
    (ho : p.reachesTarget o = true) (hcarry : p.Survives carry s) : MigrationInv (s.advance carry o p) := by
  have hcopy := h.copyKeys
  cases p with
  | saveInit c keys =>
    obtain ⟨hrest, rfl, hfence, hkeys⟩ := hp
    apply h.perform_or_stop o
    · simp [System.saveJournal]
    · exact hrest.transfer hfence hkeys
  | saveCopying c keys => exact h.advance_saveCopying o hp
  | newMigrateConn c keys => exact h.perform_or_stop o hcopy hp
  | sendSetSlotImporting c keys => exact h.advance_sendSetSlotImporting o hp
  | copy c keys => exact h.advance_copy o hp hcarry
  | sendRestore c key v keys => exact h.advance_sendRestore o hp
  | sendDelKeysInSlot recovery => exact h.advance_sendDelKeysInSlot o hp ho
  | abortStable recovery => exact h.advance_abortStable o hp
  | saveDoneCopy => exact hp.elim
  | clearCopy => exact hp.elim
  | saveCommit =>
    have hstage : s.slot.Copied := hp
    apply h.perform_or_stop o
    · simp [System.saveJournal]
    · exact ⟨rfl, .inl ⟨hstage.owner, ⟨_, rfl, rfl⟩, hstage.tgt⟩⟩
  | collectSlotKeys org =>
    apply h.perform_or_stop o hcopy
    exact ⟨hp.1, hp.2, fun k hk => Std.ExtTreeMap.mem_keys.mpr hk⟩
  | del org keys => exact h.advance_del o hp
  | clearSlotMigration org =>
    obtain ⟨horg, hstage, hempty⟩ := hp
    have hclear := s.slot.flagged_clearSource.committing hstage
    exact h.perform_or_go o hcopy ⟨horg, hclear, hempty⟩ ⟨horg, hclear, hempty⟩ ⟨horg, hstage, hempty⟩
  | assignSlot org => exact h.advance_assignSlot o hp
  | sendStable =>
    have hstable := s.slot.flagged_clearTarget.moved hp
    exact h.perform_or_go o hcopy ⟨rfl, hstable⟩ ⟨rfl, hstable⟩ ⟨rfl, hp⟩
  | saveDone org => exact h.advance_saveDone o hp
  | deleteJournal => exact h.advance_deleteJournal o hp
  | recoverConn =>
    obtain rfl : o = .ok := of_decide_eq_true ho
    exact ⟨hcopy, h.stage, fun _ he => mem_some.mp he ▸ hp⟩
  | recoverClear => exact h.advance_recoverClear o hp

theorem MigrationInv.recoverSlotMigrations (h : MigrationInv s) :
    MigrationInv s.recoverSlotMigrations := by
  refine ⟨h.copyKeys, h.stage, fun p hp => ?_⟩
  obtain ⟨j, hj, rfl⟩ := map_eq_some_iff.mp hp
  rw [h.copyKeys j hj]
  -- the phase in the journal tells the stage
  rcases h.stage with hrest | hcopying | hcommitting
  · exact nomatch hrest.journal.symm.trans hj
  · obtain ⟨j', hj', hphase⟩ := hcopying.journal
    obtain rfl : j' = j := some.inj (hj'.symm.trans hj)
    rcases hphase with hphase | hphase <;> rw [hphase] <;> exact hcopying
  · have hphase : j.phase ≠ .init ∧ j.phase ≠ .copying ∧ (j.phase = .done → s.slot.Moved) := by
      rcases hcommitting with hcopied | hmoved
      · obtain ⟨j', hj', hphase⟩ := hcopied.journal
        obtain rfl : j' = j := some.inj (hj'.symm.trans hj)
        cases he : j'.phase <;> simp_all [Phase.isCommitting]
      · exact ⟨(hmoved.journal j hj).1, (hmoved.journal j hj).2, fun _ => hmoved⟩
    obtain ⟨hinit, hcopying, hdone⟩ := hphase
    cases he : j.phase with
    | init => exact absurd he hinit
    | copying => exact absurd he hcopying
    | copied | commit => exact ⟨rfl, hcommitting⟩
    | done => exact .inl (hdone he)

theorem MigrationInv.migrateSlotCrashSafe (h : MigrationInv s) :
    MigrationInv (s.migrateSlotCrashSafe false) := by
  rcases s.migrateSlotCrashSafe_cases false with he | ⟨hm, hdone, he⟩ <;> rw [he]
  · exact h
  · obtain ⟨howner, hfence⟩ : s.src.owner = .source ∧ s.src.migrating = true := by
      simpa [Node.isMigratingSlot] using hm
    have hrest : s.slot.AtRest := by
      rcases h.stage with hrest | hcopying | hcopied | hmoved
      · exact hrest
      · obtain ⟨j, hj, hphase⟩ := hcopying.journal
        simp [hdone j hj] at hphase
      · obtain ⟨j, hj, hphase⟩ := hcopied.journal
        simp [hdone j hj, Phase.isCommitting] at hphase
      · exact nomatch howner.symm.trans hmoved.owner
    refine ⟨h.copyKeys, h.stage, fun p hp => mem_some.mp hp ▸ ?_⟩
    exact ⟨hrest, rfl, hfence, fun k hk => Std.ExtTreeMap.mem_keys.mpr hk⟩

/-- A read changes nothing, and a write reaches a node that is settled. -/
theorem MigrationInv.commit (h : MigrationInv s) {r : Request ν} {i : Nat}
    (hw : r.writes = [] ∨ WriteCondition s r) :
    MigrationInv
      { s.setData r.node (applyWrites (s.node r.node).data r.writes) with
        pending := s.pending.eraseIdx i
        latest := applyWrites s.latest r.writes } := by
  by_cases hread : r.writes = []
  · rw [hread]
    cases r.node <;> exact ⟨h.copyKeys, h.stage, h.pc⟩
  obtain ⟨hnode, hjournal⟩ := hw.resolve_left hread
  have hsettled : (s.node r.node).Settled r.node :=
    hnode.elim id fun ⟨hf, hkeys, hc⟩ => checkRequest_settled hf hkeys hc
  cases hn : r.node with
  | source =>
    rw [hn] at hsettled
    have hj := hjournal hn
    refine ⟨h.copyKeys, ?_, fun p hp => (h.pc p hp).writeSource _ hsettled hj⟩
    exact h.stage.writeSource _ hsettled hj
  | target =>
    rw [hn] at hsettled
    refine ⟨h.copyKeys, ?_, fun p hp => (h.pc p hp).writeTarget _ hsettled.1⟩
    exact h.stage.writeTarget _ hsettled.1

theorem MigrationInv.step {s' : System ν} {a : Event ν} (h : MigrationInv s)
    (ha : MigrationCondition carry s a) (hs : s.step carry a = some s') : MigrationInv s' := by
  cases a with
  | setSlotMigrating =>
    cases hs
    have hflag : Flagged s.slot ⟨{ s.src with migrating := true }, s.tgt, s.journal, s.latest⟩ :=
      ⟨rfl, rfl, rfl, id, rfl, rfl⟩
    exact ⟨h.copyKeys, hflag.stage h.stage, fun p hp => hflag.keeps (h.pc p hp) fun _ => rfl⟩
  | migrate copyKeys =>
    obtain ⟨-, he⟩ := ite_none_right_eq_some.mp hs
    cases he
    rw [show copyKeys = false from ha]
    exact h.migrateSlotCrashSafe
  | advance o =>
    obtain ⟨p, hp, rfl⟩ := map_eq_some_iff.mp hs
    exact h.advance (h.pc p hp) (ha p hp).1 (ha p hp).2
  | crash =>
    cases hs
    exact ⟨h.copyKeys, h.stage, fun _ => nofun⟩
  | recover =>
    obtain ⟨-, he⟩ := ite_none_right_eq_some.mp hs
    cases he
    exact h.recoverSlotMigrations
  | gossip =>
    cases hs
    have hflag : Flagged s.slot
        ⟨s.src, { s.tgt with
          owner := s.src.owner
          importing := s.tgt.importing && s.src.owner != .target }, s.journal, s.latest⟩ :=
      ⟨rfl, rfl, rfl, fun h => ⟨h.1, h.1⟩, rfl, rfl⟩
    exact ⟨h.copyKeys, hflag.stage h.stage, fun p hp => hflag.keeps (h.pc p hp) id⟩
  | request r =>
    rw [System.step_request] at hs
    cases hs
    exact ⟨h.copyKeys, h.stage, h.pc⟩
  | commit i =>
    obtain ⟨r, hr, rfl⟩ := map_eq_some_iff.mp hs
    exact h.commit (ha r hr)

/-! ## Safety -/

/-- Every acknowledged value is on a node; and once no migration runs or is left unfinished in the
journal, it is on the owner and the other node has no key of the slot. -/
structure System.Safe (s : System ν) : Prop where
  present : ∀ (k : Bytes) v, s.latest[k]? = some v → s.src.data[k]? = some v ∨ s.tgt.data[k]? = some v
  completed : s.pc = none → (∀ j ∈ s.journal, j.phase = .done) →
    match s.src.owner with
    | .source => s.src.data = s.latest ∧ s.tgt.data = ∅
    | .target => s.tgt.data = s.latest ∧ s.src.data = ∅

theorem Slot.Stage.safe (h : s.slot.Stage) : s.Safe := by
  rcases h with h | h | h | h
  · refine ⟨fun k v hv => .inl (h.src ▸ hv), fun _ _ => ?_⟩
    rw [show s.src.owner = .source from h.owner.1]
    exact ⟨h.src, h.tgt⟩
  · refine ⟨fun k v hv => .inl (h.src ▸ hv), fun _ hdone => ?_⟩
    obtain ⟨j, hj, hphase⟩ := h.journal
    simp [hdone j hj] at hphase
  · refine ⟨fun k v hv => .inr (h.tgt ▸ hv), fun _ hdone => ?_⟩
    obtain ⟨j, hj, hphase⟩ := h.journal
    simp [hdone j hj, Phase.isCommitting] at hphase
  · refine ⟨fun k v hv => .inr (h.tgt ▸ hv), fun _ _ => ?_⟩
    rw [show s.src.owner = .target from h.owner]
    exact ⟨h.tgt, h.src⟩

/-- **Migration safety.** From a slot at rest on the source, every run of client commands,
migrations, crashes and recoveries whose steps meet the condition is safe in every state. -/
theorem migration_safe (carry : ν → ν) (d : Data ν) {as : List (Event ν)} {t : System ν}
    (hok : Meets (System.step carry) (MigrationCondition carry) (.start d) as)
    (hrun : run (System.step carry) (.start d) as = some t) : t.Safe := by
  have hstart : MigrationInv (.start d) :=
    ⟨by simp [System.start], .inl ⟨⟨rfl, rfl⟩, rfl, rfl, rfl⟩, by simp [System.start]⟩
  have ht : MigrationInv t := run_invariant (fun _ _ _ h => h.step) hstart hok hrun
  exact ht.stage.safe

/-- SET of the key in `oneKey`. -/
def setKey (node : NodeID) (route : Route) (v : Nat) : Request Nat where
  node
  cmd := "SET"
  asking := false
  route
  writes := [([107], some v)]

/-- The key is written on the source, a first migration is cut off and recovered, a second one goes
through, and the key is written on the target. -/
def moveAfterCrash : List (Event Nat) :=
  ([.request (setKey .source (.single [107]) 2), .commit 0, .setSlotMigrating,
      .migrate false] : List (Event Nat))
    ++ (List.replicate 6 (.advance .ok) : List (Event Nat)) ++ ([.crash, .recover] : List (Event Nat))
    ++ (List.replicate 5 (.advance .ok) : List (Event Nat))
    ++ ([.setSlotMigrating, .migrate false] : List (Event Nat))
    ++ (List.replicate 16 (.advance .ok) : List (Event Nat))
    ++ ([.gossip, .request (setKey .target (.single [107]) 3), .commit 0] :
      List (Event Nat))

theorem migration_safe_movedAfterCrash :
    ∃ t, run (System.step id) oneKey moveAfterCrash = some t ∧ t.src.owner = .target ∧
      t.latest[([107] : Bytes)]? = some 3 ∧ t.Safe := by
  have hend : ∃ t, run (System.step id) oneKey moveAfterCrash = some t ∧
      t.src.owner = .target ∧ t.latest[([107] : Bytes)]? = some 3 := run_end (by decide +kernel)
  obtain ⟨t, ht, howner, hlatest⟩ := hend
  exact ⟨t, ht, howner, hlatest, migration_safe id _ (by decide +kernel) ht⟩

/-- SET inside EXEC runs on the source after the key was copied: Phase 2 deletes the only copy of
the new value. -/
theorem migration_loses_exec_write :
    ∃ t, run (System.step id) oneKey
        ([.setSlotMigrating, .migrate false] ++ List.replicate 6 (.advance .ok)
          ++ [.request (setKey .source .queued 2), .commit 0]
          ++ List.replicate 10 (.advance .ok)) = some t ∧ ¬ t.Safe := by
  have hend : ∃ t, run (System.step id) oneKey
        ([.setSlotMigrating, .migrate false] ++ List.replicate 6 (.advance .ok)
          ++ [.request (setKey .source .queued 2), .commit 0]
          ++ List.replicate 10 (.advance .ok)) = some t ∧
      t.latest[([107] : Bytes)]? = some 2 ∧ t.src.data[([107] : Bytes)]? = none ∧
      t.tgt.data[([107] : Bytes)]? = some 1 := run_end (by decide +kernel)
  obtain ⟨t, ht, hlatest, hsrc, htgt⟩ := hend
  refine ⟨t, ht, fun hsafe => ?_⟩
  have := hsafe.present [107] 2 hlatest
  simp [hsrc, htgt] at this

end BoltDB.Cluster
