import BoltDB.Replication.FullResync

/-!
# Slot migration

`MigrateSlotCrashSafe` and `RecoverSlotMigrations` (`migration_journal.go`) move one slot from a
source node to a target node, under a journal in the source's store. This module models them step by
step, next to client commands that the redirect rules (`handler_core.go`, `redirect.go`) let through
on either node.

* `Node`, `System` — the slot's keys, owner and flags on both nodes, the journal, and where the
  source's migration or recovery stands (`Pc`).
* `advance` — one step of the running migration or recovery, with any outcome.
* `checkRequest` — the redirect rules.
* `copy_mode_keeps_ownership` — what copy mode guarantees for the source.

Owner and flags of a node are in its saved configuration, so a crash of the source loses only the
running migration and the requests in flight. The values are a parameter, and so is `carry`, what RESTORE
makes of the DUMP of a value: `dump_restore.go` rounds the scores of a sorted set, stores strings in
another form and leaves out parts of streams and series.
-/

namespace BoltDB.Cluster

open Bytes Transition BoltDB.Replication Option

/-! ## The nodes -/

inductive NodeID
  | source
  | target
  deriving DecidableEq

/-- The keys of the slot with their values. -/
abbrev Data (ν : Type) := Std.ExtTreeMap Bytes ν compare

/-- What one node knows of the slot. -/
structure Node (ν : Type) where
  data : Data ν
  /-- `Slots[slot]`. -/
  owner : NodeID
  migrating : Bool
  importing : Bool

variable {ν : Type}

/-- `Node.ClearSlotMigration`. -/
def Node.clearSlotMigration (n : Node ν) : Node ν := { n with migrating := false, importing := false }

/-- `Cluster.IsMigratingSlot` on the node `self`. -/
def Node.isMigratingSlot (self : NodeID) (n : Node ν) : Bool := n.owner == self && n.migrating

/-! ## Redirects -/

inductive Redirect
  | moved
  | ask
  | crossSlot
  /-- "slot is IMPORTING: client writes fenced during migration". -/
  | importingFence
  /-- "slot is MIGRATING: client writes fenced during migration". -/
  | migratingFence
  deriving DecidableEq

/-- `CheckSlotRedirect`. -/
def checkSlotRedirect (self : NodeID) (n : Node ν) : Option Redirect :=
  if n.owner ≠ self then some .moved
  else if n.isMigratingSlot self then some .ask
  else none

/-- The commands the write fences stop. -/
def fenced (cmd : Bytes) : Bool := cmd != [] && isWriteCommand cmd && cmd != "RESTORE"

def checkAndHandleRedirect (self : NodeID) (n : Node ν) (cmd : Bytes) (asking : Bool) (key : Bytes) :
    Option Redirect :=
  if asking && n.importing then
    if fenced cmd then some .importingFence else none
  else
    match checkSlotRedirect self n with
    | some .ask =>
      -- a key that is still here is served here
      if key ∈ n.data then
        if fenced cmd && n.isMigratingSlot self then some .migratingFence else none
      else some .ask
    | redirect => redirect

/-- The keys given are those of this slot. -/
def checkAndHandleMultiKeyRedirect (self : NodeID) (n : Node ν) (keys : List Bytes) : Option Redirect :=
  match keys with
  | [] => none
  | _ :: rest =>
    match checkSlotRedirect self n with
    | some .ask => if rest = [] then some .ask else some .crossSlot
    | redirect => redirect

/-- How a handler checks the keys it was given. -/
inductive Route
  | single (key : Bytes)
  | multi (keys : List Bytes)
  /-- `executeQueuedCommand`: a command inside EXEC is not checked. -/
  | queued
  /-- A handler that makes no check, such as those of FLUSHALL and MIGRATE. -/
  | unchecked

/-- The keys that are checked. -/
def Route.keys : Route → List Bytes
  | .single key => [key]
  | .multi keys => keys
  | .queued => []
  | .unchecked => []

/-- A client command sent to a node, with what it will do to the slot's keys. -/
structure Request (ν : Type) where
  node : NodeID
  cmd : Bytes
  /-- The connection has sent ASKING. -/
  asking : Bool
  route : Route
  /-- The keys it sets or removes. -/
  writes : List (Bytes × Option ν)

/-- The redirect check a handler makes on node `n` before it runs the command. -/
def checkRequest (n : Node ν) (r : Request ν) : Option Redirect :=
  match r.route with
  | .single key => checkAndHandleRedirect r.node n r.cmd r.asking key
  | .multi keys => checkAndHandleMultiKeyRedirect r.node n keys
  | .queued => none
  | .unchecked => none

/-! ## The migration -/

/-- `migrationJournal.Phase`. -/
inductive Phase
  | init
  | copying
  | copied
  | commit
  | done
  deriving DecidableEq

/-- `migrationJournal`, whose target is the target node. -/
structure Journal where
  phase : Phase
  copyKeys : Bool
  deriving DecidableEq

/-- Who runs Phase 2. -/
inductive Origin
  | migrate
  /-- `retryCommitPhase` for a journal with this `CopyKeys`. -/
  | retry (copyKeys : Bool)
  deriving DecidableEq

def Origin.copyKeys : Origin → Bool
  | .migrate => false
  | .retry c => c

/-- The next operation of `MigrateSlotCrashSafe` or `RecoverSlotMigrations`. -/
inductive Pc (ν : Type)
  | saveInit (copyKeys : Bool) (keys : List Bytes)
  | saveCopying (copyKeys : Bool) (keys : List Bytes)
  | newMigrateConn (copyKeys : Bool) (keys : List Bytes)
  | sendSetSlotImporting (copyKeys : Bool) (keys : List Bytes)
  /-- The head of the copy loop; without a key left the phase COPIED is saved. -/
  | copy (copyKeys : Bool) (keys : List Bytes)
  | sendRestore (copyKeys : Bool) (key : Bytes) (data : ν) (keys : List Bytes)
  /-- The two commands of `abortTargetImport`, in Phase 1 and in recovery. -/
  | sendDelKeysInSlot (recovery : Bool)
  | abortStable (recovery : Bool)
  | saveDoneCopy
  | clearCopy
  | saveCommit
  | collectSlotKeys (org : Origin)
  | del (org : Origin) (keys : List Bytes)
  | clearSlotMigration (org : Origin)
  | assignSlot (org : Origin)
  | sendStable
  | saveDone (org : Origin)
  | deleteJournal
  | recoverConn
  | recoverClear

/-- The operation failed, succeeded, or took effect but was reported as failed (a reply that is
lost, a configuration that could not be saved). -/
inductive Outcome
  | ok
  | err
  | lost
  deriving DecidableEq

structure System (ν : Type) where
  src : Node ν
  tgt : Node ν
  /-- The journal in the source's store. -/
  journal : Option Journal
  /-- The migration or recovery that runs on the source. -/
  pc : Option (Pc ν)
  /-- Requests that passed their redirect check and have not run yet. -/
  pending : List (Request ν)
  /-- Ghost: the value of the latest acknowledged write of every key. -/
  latest : Data ν

namespace System

/-- The operation `f`, then the operation after success or the one after a reported failure. -/
def perform (s : System ν) (o : Outcome) (f : System ν → System ν) (next failed : Option (Pc ν)) :
    System ν :=
  { (if o = .err then s else f s) with pc := if o = .ok then next else failed }

def saveJournal (phase : Phase) (copyKeys : Bool) (s : System ν) : System ν :=
  { s with journal := some ⟨phase, copyKeys⟩ }

def clearSource (s : System ν) : System ν := { s with src := s.src.clearSlotMigration }

def clearTarget (s : System ν) : System ν := { s with tgt := s.tgt.clearSlotMigration }

/-- RESTORE without REPLACE on the target. -/
def restore (key : Bytes) (v : ν) (s : System ν) : System ν :=
  { s with tgt := { s.tgt with data := s.tgt.data.insertIfNew key v } }

/-- One operation of the migration or recovery. -/
def advance (carry : ν → ν) (s : System ν) (o : Outcome) : Pc ν → System ν
  | .saveInit c keys => s.perform o (saveJournal .init c) (some (.saveCopying c keys)) none
  | .saveCopying c keys => s.perform o (saveJournal .copying c) (some (.newMigrateConn c keys)) none
  | .newMigrateConn c keys => s.perform o id (some (.sendSetSlotImporting c keys)) none
  | .sendSetSlotImporting c keys =>
    -- a failure is logged only
    s.perform o (fun s => { s with tgt := { s.tgt with importing := true } })
      (some (.copy c keys)) (some (.copy c keys))
  | .copy c [] =>
    s.perform o (saveJournal .copied c) (some (if c then .saveDoneCopy else .saveCommit)) none
  | .copy c (key :: keys) =>
    -- DUMP; a key that is gone is skipped
    match s.src.data[key]? with
    | some v => s.perform o id (some (.sendRestore c key (carry v) keys)) (some (.sendDelKeysInSlot false))
    | none => s.perform o id (some (.copy c keys)) (some (.sendDelKeysInSlot false))
  | .sendRestore c key v keys =>
    -- the target answers a RESTORE after ASKING by its own redirect rules
    match checkAndHandleRedirect .target s.tgt "RESTORE" true key with
    | none => s.perform o (restore key v) (some (.copy c keys)) (some (.sendDelKeysInSlot false))
    | some _ => s.perform o id (some (.sendDelKeysInSlot false)) (some (.sendDelKeysInSlot false))
  | .sendDelKeysInSlot recovery =>
    s.perform o (fun s => { s with tgt := { s.tgt with data := ∅ } })
      (some (.abortStable recovery)) (some (.abortStable recovery))
  | .abortStable false => s.perform o clearTarget none none
  | .abortStable true => s.perform o clearTarget (some .recoverClear) (some .recoverClear)
  | .saveDoneCopy => s.perform o (saveJournal .done true) (some .clearCopy) none
  | .clearCopy => s.perform o clearSource none none
  | .saveCommit => s.perform o (saveJournal .commit false) (some (.collectSlotKeys .migrate)) none
  | .collectSlotKeys org => s.perform o id (some (.del org s.src.data.keys)) none
  | .del org [] => s.perform o id (some (.clearSlotMigration org)) (some (.clearSlotMigration org))
  | .del org (key :: keys) =>
    s.perform o (fun s => { s with src := { s.src with data := s.src.data.erase key } })
      (some (.del org keys)) none
  | .clearSlotMigration org => s.perform o clearSource (some (.assignSlot org)) (some (.assignSlot org))
  | .assignSlot org =>
    s.perform o (fun s => { s with src := { s.src.clearSlotMigration with owner := .target } })
      (some (match org with
        | .migrate => .sendStable
        | .retry c => .saveDone (.retry c))) none
  | .sendStable => s.perform o clearTarget (some (.saveDone .migrate)) (some (.saveDone .migrate))
  | .saveDone org =>
    s.perform o (saveJournal .done org.copyKeys) (some .deleteJournal)
      (match org with
        | .migrate => none
        | .retry _ => some .deleteJournal)
  | .deleteJournal => s.perform o (fun s => { s with journal := none }) none none
  | .recoverConn => s.perform o id (some (.sendDelKeysInSlot true)) (some .recoverClear)
  | .recoverClear => s.perform o clearSource (some .deleteJournal) (some .deleteJournal)

/-- `MigrateSlotCrashSafe` up to the first record it saves. -/
def migrateSlotCrashSafe (s : System ν) (copyKeys : Bool) : System ν :=
  let unfinished := s.journal.any fun j => j.phase ≠ .done
  if s.src.isMigratingSlot .source && !unfinished then
    { s with pc := some (.saveInit copyKeys s.src.data.keys) }
  else s

/-- `RecoverSlotMigrations` up to its first operation. -/
def recoverSlotMigrations (s : System ν) : System ν :=
  { s with
    pc := s.journal.map fun j =>
      match j.phase with
      | .init | .copying => .recoverConn
      | .copied | .commit =>
        if j.copyKeys then .clearSlotMigration (.retry true) else .collectSlotKeys (.retry false)
      | .done => .deleteJournal }

/-! ## Runs -/

def node (s : System ν) : NodeID → Node ν
  | .source => s.src
  | .target => s.tgt

def setData (s : System ν) (i : NodeID) (d : Data ν) : System ν :=
  match i with
  | .source => { s with src := { s.src with data := d } }
  | .target => { s with tgt := { s.tgt with data := d } }

end System

def applyWrites (d : Data ν) (writes : List (Bytes × Option ν)) : Data ν := writes.foldl
    (fun d w =>
      match w.2 with
      | some v => d.insert w.1 v
      | none => d.erase w.1) d

inductive Event (ν : Type)
  /-- CLUSTER SETSLOT MIGRATING on the source. -/
  | setSlotMigrating
  /-- CLUSTER MIGRATESLOT on the source, with or without COPY. -/
  | migrate (copyKeys : Bool)
  | advance (o : Outcome)
  /-- The source stops and starts again. -/
  | crash
  | recover
  /-- The target hears from the source who owns the slot (`ApplyGossipPayloadFrom`). -/
  | gossip
  /-- A node checks a client's command. -/
  | request (r : Request ν)
  /-- A checked command runs and is acknowledged. -/
  | commit (i : Nat)

def Event.isCommit : Event ν → Bool
  | .commit _ => true
  | _ => false

namespace System

def step (carry : ν → ν) (s : System ν) : Event ν → Option (System ν)
  | .setSlotMigrating => some { s with src := { s.src with migrating := true } }
  | .migrate copyKeys => if s.pc.isNone then some (s.migrateSlotCrashSafe copyKeys) else none
  | .advance o => s.pc.map (s.advance carry o)
  | .crash => some { s with pc := none, pending := s.pending.filter fun r => r.node ≠ .source }
  | .recover => if s.pc.isNone then some s.recoverSlotMigrations else none
  | .gossip =>
    some { s with
      tgt := { s.tgt with
        owner := s.src.owner
        importing := s.tgt.importing && s.src.owner != .target } }
  | .request r =>
    match checkRequest (s.node r.node) r with
    | none => some { s with pending := s.pending ++ [r] }
    | some _ => some s
  | .commit i =>
    s.pending[i]?.map fun r =>
      { s.setData r.node (applyWrites (s.node r.node).data r.writes) with
        pending := s.pending.eraseIdx i
        latest := applyWrites s.latest r.writes }

/-- The slot is the source's, with these keys, and nothing runs. -/
def start (d : Data ν) : System ν where
  src := ⟨d, .source, false, false⟩
  tgt := ⟨∅, .source, false, false⟩
  journal := none
  pc := none
  pending := []
  latest := d

theorem migrateSlotCrashSafe_cases (s : System ν) (c : Bool) : s.migrateSlotCrashSafe c = s ∨
      s.src.isMigratingSlot .source = true ∧ (∀ j ∈ s.journal, j.phase = .done) ∧
        s.migrateSlotCrashSafe c = { s with pc := some (.saveInit c s.src.data.keys) } := by
  rw [migrateSlotCrashSafe]
  split
  case isTrue h =>
    simp only [Bool.and_eq_true, Bool.not_eq_true', any_eq_false,
      decide_eq_false_iff_not, not_not] at h
    exact .inr ⟨h.1, h.2, rfl⟩
  case isFalse => exact .inl rfl

/-- A request is kept or rejected. -/
theorem step_request (carry : ν → ν) (s : System ν) (r : Request ν) :
    s.step carry (.request r) = some { s with
        pending := if checkRequest (s.node r.node) r = none then s.pending ++ [r] else s.pending } := by
  rw [step]
  split
  case h_1 h => rw [if_pos h]
  case h_2 h => rw [if_neg (by simp [h])]

end System

/-! ## Copy mode -/

/-- Operations a copy-mode migration and its recovery go through. -/
def Pc.inCopyMode : Pc ν → Bool
  | .saveInit c _ | .saveCopying c _ | .newMigrateConn c _ | .sendSetSlotImporting c _ | .copy c _ => c
  | .sendRestore c _ _ _ => c
  | .sendDelKeysInSlot _ | .abortStable _ | .saveDoneCopy | .clearCopy | .deleteJournal => true
  | .recoverConn | .recoverClear => true
  | _ => false

/-- Every migration is a copy, and recovery is not run on the journal a copy leaves between the
records COPIED and DONE. -/
def CopyCondition (s : System ν) : Event ν → Prop
  | .migrate copyKeys => copyKeys = true
  | .recover => s.journal.map Journal.phase ≠ some .copied
  | _ => True

instance (s : System ν) : DecidablePred (CopyCondition s)
  | .migrate copyKeys => inferInstanceAs (Decidable (copyKeys = true))
  | .recover => inferInstanceAs (Decidable (s.journal.map Journal.phase ≠ some .copied))
  | .setSlotMigrating | .advance _ | .crash | .gossip | .request _ | .commit _ => .isTrue trivial

namespace System

/-- What a copy may leave in the journal. -/
def CopyJournal (journal : Option Journal) : Prop :=
  ∀ j ∈ journal, j.phase = .done ∨ (j.copyKeys = true ∧ j.phase ≠ .commit)

/-- What every state of a run of copies has in common. -/
structure CopyInv (s : System ν) : Prop where
  owner : s.src.owner = .source
  pc : ∀ p ∈ s.pc, p.inCopyMode
  journal : CopyJournal s.journal

variable {carry : ν → ν} {s : System ν}

theorem CopyInv.perform (h : s.CopyInv) {f : System ν → System ν} {next failed : Option (Pc ν)}
    (o : Outcome) (howner : (f s).src.owner = s.src.owner) (hdata : (f s).src.data = s.src.data)
    (hjournal : CopyJournal (f s).journal) (hnext : ∀ p ∈ next, p.inCopyMode)
    (hfailed : ∀ p ∈ failed, p.inCopyMode) :
    (s.perform o f next failed).CopyInv ∧ (s.perform o f next failed).src.data = s.src.data := by
  cases o with
  | ok => exact ⟨⟨howner.trans h.owner, hnext, hjournal⟩, hdata⟩
  | err => exact ⟨⟨h.owner, hfailed, h.journal⟩, rfl⟩
  | lost => exact ⟨⟨howner.trans h.owner, hfailed, hjournal⟩, hdata⟩

/-- An operation of a copy keeps the source's owner and keys. -/
theorem CopyInv.advance {p : Pc ν} (h : s.CopyInv) (hp : p.inCopyMode) (o : Outcome) :
    (s.advance carry o p).CopyInv ∧ (s.advance carry o p).src.data = s.src.data := by
  have hj := h.journal
  fun_cases System.advance carry s o p <;> try exact absurd hp Bool.false_ne_true
  all_goals apply h.perform o
  -- the owner and the keys are not touched; what is left is the journal and the next operation
  all_goals first
    | rfl
    | exact hj
    | simp_all [CopyJournal, saveJournal, Pc.inCopyMode]

theorem CopyInv.migrateSlotCrashSafe (h : s.CopyInv) :
    (s.migrateSlotCrashSafe true).CopyInv ∧ (s.migrateSlotCrashSafe true).src.data = s.src.data := by
  rcases migrateSlotCrashSafe_cases s true with he | ⟨-, -, he⟩ <;> rw [he]
  · exact ⟨h, rfl⟩
  · refine ⟨⟨h.owner, fun p hp => ?_, h.journal⟩, rfl⟩
    cases hp
    rfl

/-- Recovery of a copy that is not between COPIED and DONE rolls it back or only clears the
journal. -/
theorem CopyInv.recoverSlotMigrations (h : s.CopyInv)
    (hphase : s.journal.map Journal.phase ≠ some .copied) : s.recoverSlotMigrations.CopyInv := by
  refine ⟨h.owner, fun p hp => ?_, h.journal⟩
  obtain ⟨j, hj, rfl⟩ := map_eq_some_iff.mp hp
  rcases h.journal j hj with hdone | ⟨-, hcommit⟩
  · rw [hdone]
    rfl
  · cases hj : j.phase <;> simp_all [Pc.inCopyMode]

theorem CopyInv.step {s' : System ν} {a : Event ν} (h : s.CopyInv) (ha : CopyCondition s a)
    (hs : s.step carry a = some s') : s'.CopyInv ∧ (a.isCommit = false → s'.src.data = s.src.data) := by
  cases a with
  | setSlotMigrating | gossip =>
    cases hs
    exact ⟨⟨h.owner, h.pc, h.journal⟩, fun _ => rfl⟩
  | migrate copyKeys =>
    obtain ⟨-, he⟩ := ite_none_right_eq_some.mp hs
    cases he
    rw [show copyKeys = true from ha]
    exact ⟨h.migrateSlotCrashSafe.1, fun _ => h.migrateSlotCrashSafe.2⟩
  | advance o =>
    obtain ⟨p, hp, rfl⟩ := map_eq_some_iff.mp hs
    obtain ⟨hinv, hdata⟩ := h.advance (h.pc p hp) o
    exact ⟨hinv, fun _ => hdata⟩
  | crash =>
    cases hs
    exact ⟨⟨h.owner, by simp, h.journal⟩, fun _ => rfl⟩
  | recover =>
    obtain ⟨-, he⟩ := ite_none_right_eq_some.mp hs
    cases he
    exact ⟨h.recoverSlotMigrations ha, fun _ => rfl⟩
  | request r =>
    rw [step_request] at hs
    cases hs
    exact ⟨⟨h.owner, h.pc, h.journal⟩, fun _ => rfl⟩
  | commit i =>
    obtain ⟨r, -, rfl⟩ := map_eq_some_iff.mp hs
    refine ⟨⟨?_, ?_, ?_⟩, nofun⟩ <;> cases hn : r.node
    · exact h.owner
    · exact h.owner
    · exact h.pc
    · exact h.pc
    · exact h.journal
    · exact h.journal

end System

/-- **Copy mode keeps the source.** In every run whose migrations are all copies and in which no
recovery meets a journal left at COPIED, the source stays the owner it has on record, and nothing but
a client's command changes its keys. -/
theorem copy_mode_keeps_ownership {carry : ν → ν} {s t t' : System ν} {as : List (Event ν)} {a : Event ν}
    (howner : s.src.owner = .source) (hpc : s.pc = none) (hjournal : ∀ j ∈ s.journal, j.phase = .done)
    (hok : Meets (System.step carry) CopyCondition s (as ++ [a]))
    (hrun : run (System.step carry) s as = some t) (hstep : t.step carry a = some t') :
    t'.src.owner = .source ∧ (a.isCommit = false → t'.src.data = t.src.data) := by
  have hs : s.CopyInv := ⟨howner, by simp [hpc], fun j hj => .inl (hjournal j hj)⟩
  obtain ⟨has, ha⟩ := (meets_append hrun).mp hok
  have ht : t.CopyInv := run_invariant (fun _ _ _ h hc hs => (h.step hc hs).1) hs has hrun
  obtain ⟨ht', hdata⟩ := ht.step ha.1 hstep
  exact ⟨ht'.owner, hdata⟩

/-- A slot with one key, and a copy of it up to the record COPIED. -/
def oneKey : System Nat := .start (Std.ExtTreeMap.ofList [([107], 1)] compare)

def copyUntilCopied : List (Event Nat) :=
  ([.setSlotMigrating, .migrate true] : List (Event Nat)) ++ List.replicate 7 (.advance .ok)

def copyCutOff : List (Event Nat) := ([.setSlotMigrating, .migrate true] : List (Event Nat)) ++
    (List.replicate 5 (.advance .ok) : List (Event Nat)) ++ ([.crash, .recover] : List (Event Nat)) ++
    (List.replicate 5 (.advance .ok) : List (Event Nat)) ++ copyUntilCopied ++
    ([.advance .ok] : List (Event Nat))

/-- A copy that is cut off while it copies, recovered and made again to the end. -/
theorem copy_mode_keeps_ownership_cutOff :
    ∃ t t', run (System.step id) oneKey copyCutOff = some t ∧
      t.step id (.advance .ok) = some t' ∧ t'.journal = some ⟨.done, true⟩ ∧
      t'.src.owner = .source ∧ t'.src.data = t.src.data := by
  have hend : ∃ t, run (System.step id) oneKey copyCutOff = some t ∧
      (t.step id (.advance .ok)).any (fun t' => t'.journal = some ⟨.done, true⟩) = true :=
    run_end (by decide +kernel)
  obtain ⟨t, ht, hlast⟩ := hend
  obtain ⟨t', hstep, hj⟩ := (any_eq_true _ _).mp hlast
  have := copy_mode_keeps_ownership rfl rfl (by simp [oneKey, System.start]) (by decide +kernel) ht hstep
  exact ⟨t, t', ht, hstep, of_decide_eq_true hj, this.1, this.2 rfl⟩

/-- The source stops between the records COPIED and DONE: recovery gives the slot away. -/
theorem copy_recovered_moves_slot :
    ∃ t, run (System.step id) oneKey
        (copyUntilCopied ++ [.crash, .recover] ++ List.replicate 2 (.advance .ok)) = some t ∧
      t.src.owner = .target :=
  run_end (by decide +kernel)

end BoltDB.Cluster
