import BoltDB.Replication.History

/-!
# The boundary of a full resync

`handlePSyncWithRDB` (`replication_handler.go`) takes the snapshot lock, reads the timestamp that it
will announce, dumps the store and sends both. `processRequest` (`handler_core.go`) holds the same
lock in read mode around the commands it knows as writes. Requests, commit attempts, dump reads and
restarts interleave freely otherwise.

What a transaction writes is a parameter `β`, with `apply` what it does to the data `db`. badger
reads in a managed `View` are reads at the largest version, so every read of the dump sees the data
as it is at that moment: the dump is any program `read` that looks at the data once a step.
-/

namespace BoltDB.Replication

open Bytes Transition Timeline List Std.ExtTreeMap Option

/-! ## Tasks -/

/-- `getWriteCommandSet`. -/
def getWriteCommandSet : List String :=
  ["SET", "SETEX", "PSETEX", "SETNX", "GETSET", "MSET", "MSETNX", "INCR", "INCRBY", "DECR", "DECRBY",
    "INCRBYFLOAT", "APPEND", "SETRANGE", "SETBIT", "GETDEL", "GETEX", "BITOP", "BITFIELD", "COPY",
    "DEL", "UNLINK", "EXPIRE", "EXPIREAT", "PEXPIRE", "PEXPIREAT", "PERSIST", "RENAME", "RENAMENX",
    "LPUSH", "RPUSH", "LPOP", "RPOP", "LSET", "LTRIM", "LINSERT", "LREM", "RPOPLPUSH", "LPUSHX",
    "RPUSHX", "LMOVE", "BLMOVE", "BRPOPLPUSH", "BLPOP", "BRPOP", "BLMPOP", "HSET", "HDEL", "HMSET",
    "HSETNX", "HINCRBY", "HINCRBYFLOAT", "SADD", "SREM", "SMOVE", "SPOP", "SINTERSTORE",
    "SUNIONSTORE", "SDIFFSTORE", "ZADD", "ZREM", "ZINCRBY", "ZPOPMAX", "ZPOPMIN", "ZMPOP", "BZMPOP",
    "LMPOP", "ZREMRANGEBYRANK", "ZREMRANGEBYSCORE", "ZREMRANGEBYLEX", "ZUNIONSTORE", "ZINTERSTORE",
    "ZDIFFSTORE", "ZRANGESTORE", "PFADD", "PFMERGE", "GEOADD", "GEOSEARCHSTORE", "XADD", "XDEL",
    "XACK", "XCLAIM", "XGROUP", "XTRIM", "XREADGROUP", "XACKDEL", "XDELEX", "XNACK", "XSETID",
    "XCFGSET", "SWAPDB", "MOVE", "PUBLISH", "JSON.SET", "JSON.DEL", "JSON.ARRAPPEND",
    "JSON.NUMINCRBY", "JSON.NUMMULTBY", "JSON.CLEAR", "TS.CREATE", "TS.ADD", "TS.DEL", "TS.MADD",
    "TS.INCRBY", "TS.CREATERULE", "TS.DELETERULE", "RESTORE", "RESTORE-ASKING", "MIGRATE", "FLUSHDB",
    "FLUSHALL", "XAUTOCLAIM", "SORT", "BZPOPMAX", "BZPOPMIN"]

def isWriteCommand (cmd : Bytes) : Bool := getWriteCommandSet.any fun name => ascii name == cmd

/-- `processRequest` holds the snapshot lock in read mode around the commands it knows as writes. -/
def takesSnapshotLock (args : List Bytes) : Bool :=
  let cmd := toUpper (args.headD [])
  isWriteCommand cmd || cmd == "EXEC"

/-- What a goroutine of the server works on, and whether its transactions write data. Nothing is
assumed of which tasks do: next to the commands that take the lock there are GEORADIUS with a
destination, BITFIELD_RO (`BitField` saves the bytes it padded), CLUSTER DELKEYSINSLOT and
MIGRATESLOT, the start-up routines and the recovery of slot migrations. -/
inductive Task
  /-- `processRequest` with the command and its arguments. -/
  | request (args : List Bytes) (mutates : Bool)
  /-- A routine of the server's own. -/
  | internal (mutates : Bool)
  deriving DecidableEq

def Task.takesLock : Task → Bool
  | .request args _ => takesSnapshotLock args
  | .internal _ => false

def Task.mutates : Task → Bool
  | .request _ mutates => mutates
  | .internal mutates => mutates

structure Work where
  task : Task
  /-- The timestamp of its commit attempt. -/
  attempt : Option Nat
  /-- Ghost: it has written data without a log record, or deleted log records, and the largest
  timestamp given out until then. A later logged commit of the same task settles it. -/
  debt : Option Nat
  deriving DecidableEq

/-! ## The server -/

/-- How far the FULLRESYNC that holds the lock is. -/
inductive Resync (δ : Type)
  | locked
  | dumping (snapshotTS : Nat) (d : δ)
  | sent

/-- `sent` is a ghost: every announced timestamp with the RDB that followed. -/
structure Server (β δ ρ : Type) where
  master : Master
  /-- The data writes of every commit, by version. -/
  data : Std.ExtTreeMap Nat β compare
  /-- The running tasks, by goroutine. -/
  work : Std.ExtTreeMap Nat Work compare
  resync : Option (Resync δ)
  sent : List (Nat × ρ)

/-- The actions of the goroutines; `c` names one. -/
inductive ServerAction (β : Type)
  | arrive (c : Nat) (task : Task)
  | beginTs (c : Nat)
  /-- The body of `commitTS`, with the data it writes. -/
  | commitTS (c : Nat) (a : Attempt) (writes : Option β)
  | endTs (c : Nat)
  | respond (c : Nat)
  | snapshotMuLock
  | replLogCurrentTS
  | dumpRead
  | snapshotMuUnlock
  | restart

section Steps

variable {β db δ ρ : Type}

/-- The data after an attempt at `ts`. -/
def dataAfter (data : Std.ExtTreeMap Nat β compare) (ts : Nat) (a : Attempt) (writes : Option β) :
    Std.ExtTreeMap Nat β compare :=
  if a.commits then
    match writes with
    | some b => data.insert ts b
    | none => data
  else data

variable (apply : β → db → db) (empty : db) (read : db → δ → δ ⊕ ρ) (start : δ)

namespace Server

/-- The data as read at version `t`. -/
def dataAt (s : Server β δ ρ) (t : Nat) : db := foldUpTo apply empty s.data t

/-- The data as read at the largest version. -/
def latest (s : Server β δ ρ) : db := foldAll apply empty s.data

/-- The debt of a task after an attempt. -/
def debtAfter (s : Server β δ ρ) (w : Work) (a : Attempt) (writes : Option β) : Option Nat :=
  if a.commits then
    if a.writer.logValue ≠ [] then none
    else if writes.isSome || a.writer.deletedLog ≠ [] then some (s.master.store.tsSource.next - 1)
    else w.debt
  else w.debt

def step (s : Server β δ ρ) : ServerAction β → Option (Server β δ ρ)
  | .arrive c task =>
    if c ∈ s.work ∨ task.takesLock ∧ s.resync.isSome then none
    else some { s with work := s.work.insert c ⟨task, none, none⟩ }
  | .beginTs c =>
    match s.work[c]? with
    | some ⟨task, none, debt⟩ =>
      (s.master.step .beginTs).map fun m =>
        { s with
          master := m
          work := s.work.insert c ⟨task, some s.master.store.tsSource.next, debt⟩ }
    | _ => none
  | .commitTS c a writes =>
    match s.work[c]? with
    | some ⟨task, some ts, debt⟩ =>
      if (writes.isSome → a.wrote ∧ task.mutates) ∧ (a.writer.deletedLog ≠ [] → task.mutates) then
        (s.master.step (.commitTS ts a)).map fun m =>
          { s with
            master := m
            data := dataAfter s.data ts a writes
            work := s.work.insert c ⟨task, some ts, s.debtAfter ⟨task, some ts, debt⟩ a writes⟩ }
      else none
    | _ => none
  | .endTs c =>
    match s.work[c]? with
    | some ⟨task, some ts, debt⟩ =>
      (s.master.step (.endTs ts)).map fun m =>
        { s with master := m, work := s.work.insert c ⟨task, none, debt⟩ }
    | _ => none
  | .respond c =>
    match s.work[c]? with
    | some ⟨_, none, _⟩ => some { s with work := s.work.erase c }
    | _ => none
  | .snapshotMuLock =>
    if s.resync.isNone ∧ ∀ e ∈ s.work.toList, ¬ e.2.task.takesLock then
      some { s with resync := some .locked }
    else none
  | .replLogCurrentTS =>
    match s.resync with
    | some .locked => some { s with resync := some (.dumping s.master.store.replLogCurrentTS start) }
    | _ => none
  | .dumpRead =>
    match s.resync with
    | some (.dumping ts d) =>
      match read (s.latest apply empty) d with
      | .inl d' => some { s with resync := some (.dumping ts d') }
      | .inr rdb => some { s with resync := some .sent, sent := s.sent ++ [(ts, rdb)] }
    | _ => none
  | .snapshotMuUnlock => if s.resync.isSome then some { s with resync := none } else none
  | .restart =>
    (s.master.step .restart).map fun m => { s with master := m, work := ∅, resync := none }

end Server

/-! ## What the RDB should be -/

/-- The states of the dump while the data is `d`. -/
inductive DumpReach (data : db) : δ → Prop
  | start : DumpReach data start
  | next {d d' : δ} (h : DumpReach data d) (hread : read data d = .inl d') : DumpReach data d'

/-- `rdb` is the dump of the data `data`. -/
def DumpOf (data : db) (rdb : ρ) : Prop := ∃ d, DumpReach read start data d ∧ read data d = .inr rdb

/-- **The boundary.** Every RDB sent is the dump of the commits up to the timestamp announced with
it, and of no later ones. -/
def BoundaryExact (s : Server β δ ρ) : Prop :=
  ∀ p ∈ s.sent, DumpOf read start (s.dataAt apply empty p.1) p.2

/-- The condition on a step: a task that writes data outside the lock does not overlap a full
resync, and a task that wrote data without a log record, or deleted log records, makes a logged
commit before it ends. -/
def Fenced (s : Server β δ ρ) : ServerAction β → Prop
  | .arrive _ task => task.mutates → task.takesLock ∨ s.resync.isNone
  | .snapshotMuLock => ∀ e ∈ s.work.toList, e.2.task.mutates → e.2.task.takesLock
  | .respond c => ∀ w ∈ s.work[c]?, w.debt = none
  | .restart => ∀ e ∈ s.work.toList, e.2.debt = none
  | .beginTs _ | .commitTS .. | .endTs _ | .replLogCurrentTS | .dumpRead | .snapshotMuUnlock => True

instance (s : Server β δ ρ) (a : ServerAction β) : Decidable (Fenced s a) := by
  unfold Fenced
  split <;> infer_instance

/-! ## The invariant -/

/-- What a running task owes: its debt is older than its attempt, and neither it nor its attempt
lies before an announced timestamp or inside a full resync. -/
structure WorkInv (m : Master) (resyncing : Bool) (sent : List (Nat × ρ)) (w : Work) : Prop where
  attempt_lt : ∀ ts ∈ w.attempt, ts < m.store.tsSource.next
  debt_lt : ∀ b ∈ w.debt, b < m.store.tsSource.next
  debt_lt_attempt : ∀ ts ∈ w.attempt, ts ∈ m.store.running → ∀ b ∈ w.debt, b < ts
  debt_mutates : w.debt ≠ none → w.task.mutates
  fenced : resyncing → w.task.mutates = false
  after_sent : w.task.mutates → ∀ ts ∈ w.attempt, ∀ p ∈ sent, p.1 < ts

structure BoundaryInv (s : Server β δ ρ) : Prop where
  master : MasterInv s.master
  work : ∀ (c : Nat) w, s.work[c]? = some w → WorkInv s.master s.resync.isSome s.sent w
  data_le : ∀ t ∈ s.data, t ≤ s.master.store.maxVersion
  /-- Every data commit lies at or below a log record, or a running task owes one. -/
  covered : ∀ t ∈ s.data, (∃ u ∈ s.master.store.log, t ≤ u) ∨
    ∃ (c : Nat) (w : Work), s.work[c]? = some w ∧ ∃ b ∈ w.debt, t ≤ b
  sent : ∀ p ∈ s.sent, p.1 ≤ s.master.store.maxVersion ∧
    DumpOf read start (s.dataAt apply empty p.1) p.2
  dumping : ∀ ts d, s.resync = some (.dumping ts d) → ts ≤ s.master.store.maxVersion ∧
    (∀ t ∈ s.data, t ≤ ts) ∧ DumpReach read start (s.dataAt apply empty ts) d

section Invariant

variable {apply empty read start} {s s' : Server β δ ρ} {m : Master} {w : Work} {c : Nat}
  {a : Attempt} {m' : Master} {c' : Nat} {work : Std.ExtTreeMap Nat Work compare}

theorem lookup_insert {w' : Work} (h : (work.insert c w)[c']? = some w') :
    w' = w ∨ c' ≠ c ∧ work[c']? = some w' := by
  rw [Std.ExtTreeMap.getElem?_insert] at h
  split at h
  · cases h; exact .inl rfl
  · next hne =>
    refine .inr ⟨?_, h⟩
    rintro rfl
    exact hne Std.ReflCmp.compare_self

theorem lookup_insert_ne (h : c' ≠ c) : (work.insert c w)[c']? = work[c']? := by
  rw [Std.ExtTreeMap.getElem?_insert, if_neg]
  intro heq
  exact h (Std.LawfulEqCmp.eq_of_compare heq).symm

/-- A task that goes on with the same debt. -/
theorem insert_keeps_debt {w' w₂ : Work} (hw : work[c]? = some w) (heq : w₂.debt = w.debt)
    (hw' : work[c']? = some w') : ∃ w₃, (work.insert c w₂)[c']? = some w₃ ∧ w₃.debt = w'.debt := by
  by_cases hc : c' = c
  · subst hc
    rw [hw] at hw'
    cases hw'
    exact ⟨_, getElem?_insert_self, heq⟩
  · exact ⟨w', by rw [lookup_insert_ne hc, hw'], rfl⟩

/-! ## Steps of the master's store -/

/-- A step of the master that writes no data, as seen by a task whose attempt it does not settle. -/
theorem WorkInv.ofMaster {resyncing : Bool} {sent : List (Nat × ρ)} (h : WorkInv m resyncing sent w)
    (hnext : m.store.tsSource.next ≤ m'.store.tsSource.next)
    (hrun : ∀ ts < m.store.tsSource.next, ts ∈ m'.store.running → ts ∈ m.store.running) :
    WorkInv m' resyncing sent w where
  __ := h
  attempt_lt := fun ts hts => lt_of_lt_of_le (h.attempt_lt ts hts) hnext
  debt_lt := fun b hb => lt_of_lt_of_le (h.debt_lt b hb) hnext
  debt_lt_attempt := fun ts hts hr => h.debt_lt_attempt ts hts (hrun ts (h.attempt_lt ts hts) hr)

/-- A step that touches neither the data nor the resync, and leaves the log records there. -/
theorem BoundaryInv.ofMaster (h : BoundaryInv apply empty read start s) {e : Event}
    (hs : s.master.step e = some m')
    (hlog : ∀ u ∈ s.master.store.log, u ∈ m'.store.log)
    (hwork : ∀ (c : Nat) w, work[c]? = some w → WorkInv m' s.resync.isSome s.sent w)
    (hdebt : ∀ (c : Nat) w, s.work[c]? = some w → w.debt ≠ none →
      ∃ w', work[c]? = some w' ∧ w'.debt = w.debt) :
    BoundaryInv apply empty read start { s with master := m', work } where
  master := masterInv_step h.master hs
  work := hwork
  data_le := fun t ht => (h.data_le t ht).trans (maxVersion_step hs)
  covered := by
    intro t ht
    rcases h.covered t ht with ⟨u, hu, hle⟩ | ⟨c, w, hw, b, hb, hle⟩
    · exact .inl ⟨u, hlog u hu, hle⟩
    · obtain ⟨w', hw', heq⟩ := hdebt c w hw (by rw [mem_def.mp hb]; simp)
      exact .inr ⟨c, w', hw', b, heq ▸ hb, hle⟩
  sent := fun p hp => ⟨(h.sent p hp).1.trans (maxVersion_step hs), (h.sent p hp).2⟩
  dumping := fun ts d hd =>
    ⟨(h.dumping ts d hd).1.trans (maxVersion_step hs), (h.dumping ts d hd).2⟩

theorem boundaryInv_beginTs (h : BoundaryInv apply empty read start s)
    (hs : s.step apply empty read start (.beginTs c) = some s') :
    BoundaryInv apply empty read start s' := by
  simp only [Server.step] at hs
  split at hs
  · next task debt hw =>
    obtain ⟨m', hm, rfl⟩ := map_eq_some_iff.mp hs
    have hold := h.work c _ hw
    refine h.ofMaster hm ?_ ?_ ?_
    · intro u hu
      cases hm
      exact hu
    · cases hm
      intro c' w' hw'
      have hrun : ∀ ts < s.master.store.tsSource.next, ts ∈ insert s.master.store.tsSource.next
          s.master.store.running → ts ∈ s.master.store.running := by
        intro ts hlt hr
        rcases Finset.mem_insert.mp hr with rfl | hr
        · exact absurd hlt (lt_irrefl _)
        · exact hr
      rcases lookup_insert hw' with rfl | ⟨-, hw'⟩
      · refine ⟨?_, ?_, ?_, hold.debt_mutates, hold.fenced, ?_⟩
        · rintro ts ⟨⟩
          exact Nat.lt_succ_self _
        · intro b hb
          exact Nat.lt_succ_of_lt (hold.debt_lt b hb)
        · rintro ts ⟨⟩ - b hb
          exact hold.debt_lt b hb
        · rintro - ts ⟨⟩ p hp
          exact lt_of_le_of_lt (h.sent p hp).1 h.master.version_lt_next
      · exact (h.work c' w' hw').ofMaster (Nat.le_succ _) hrun
    · exact fun c' w' hw' _ => insert_keeps_debt hw rfl hw'
  · cases hs

theorem boundaryInv_endTs (h : BoundaryInv apply empty read start s)
    (hs : s.step apply empty read start (.endTs c) = some s') :
    BoundaryInv apply empty read start s' := by
  simp only [Server.step] at hs
  split at hs
  · next task ts debt hw =>
    obtain ⟨m', hm, rfl⟩ := map_eq_some_iff.mp hs
    have hold := h.work c _ hw
    obtain ⟨r, hr, rfl⟩ := map_eq_some_iff.mp hm
    obtain ⟨-, rfl⟩ := ReplStore.step_endTs hr
    refine h.ofMaster hm (fun u hu => hu) ?_ ?_
    · intro c' w' hw'
      rcases lookup_insert hw' with rfl | ⟨-, hw'⟩
      · exact ⟨(fun _ => nofun), hold.debt_lt, (fun _ => nofun),
          hold.debt_mutates, hold.fenced, (fun _ _ => nofun)⟩
      · exact (h.work c' w' hw').ofMaster le_rfl fun _ _ hr => hr
    · exact fun c' w' hw' _ => insert_keeps_debt hw rfl hw'
  · cases hs

/-! ## Commits -/

theorem dataAfter_cases (data : Std.ExtTreeMap Nat β compare) (ts : Nat) (a : Attempt)
    (writes : Option β) :
    dataAfter data ts a writes = data ∨
      a.commits ∧ ∃ b, writes = some b ∧ dataAfter data ts a writes = data.insert ts b := by
  unfold dataAfter
  split
  · next hc =>
    cases writes with
    | none => exact .inl rfl
    | some b => exact .inr ⟨hc, b, rfl, rfl⟩
  · exact .inl rfl

theorem mem_dataAfter {data : Std.ExtTreeMap Nat β compare} {ts t : Nat} {writes : Option β}
    (h : t ∈ dataAfter data ts a writes) : t ∈ data ∨ t = ts ∧ a.commits ∧ writes.isSome := by
  rcases dataAfter_cases data ts a writes with heq | ⟨hc, b, rfl, heq⟩
  · exact .inl (heq ▸ h)
  · rcases mem_insert.mp (heq ▸ h) with hcmp | h
    · exact .inr ⟨(Std.LawfulEqCmp.eq_of_compare hcmp).symm, hc, rfl⟩
    · exact .inl h

/-- What a commit leaves to show: who accounts for the data, and the task's own part. -/
theorem BoundaryInv.ofCommit (h : BoundaryInv apply empty read start s) {task : Task} {ts : Nat}
    {debt debt' : Option Nat} {writes : Option β}
    (hw : s.work[c]? = some ⟨task, some ts, debt⟩)
    (hwrites : writes.isSome → a.wrote ∧ task.mutates)
    (hs : s.master.step (.commitTS ts a) = some m')
    (hown : WorkInv m' s.resync.isSome s.sent ⟨task, some ts, debt'⟩)
    (hcov : ∀ t ∈ dataAfter s.data ts a writes, (∃ u ∈ m'.store.log, t ≤ u) ∨
      ∃ (c' : Nat) (w' : Work), (s.work.insert c ⟨task, some ts, debt'⟩)[c']? = some w' ∧
        ∃ b ∈ w'.debt, t ≤ b) :
    BoundaryInv apply empty read start
      { s with
        master := m'
        data := dataAfter s.data ts a writes
        work := s.work.insert c ⟨task, some ts, debt'⟩ } := by
  have hmono := maxVersion_step hs
  have hnext : m'.store.tsSource.next = s.master.store.tsSource.next ∧
      (∀ r ∈ m'.store.running, r ∈ s.master.store.running) ∧
      (a.commits → a.wrote → ts ≤ m'.store.maxVersion) := by
    obtain ⟨r, hr, rfl⟩ := map_eq_some_iff.mp hs
    obtain ⟨-, rfl⟩ := ReplStore.step_commitTS hr
    refine ⟨by simp, fun r hr => Finset.mem_of_mem_erase hr, fun hc hwr => ?_⟩
    rw [ReplStore.commitTS_eq, if_pos hc]
    simp [ReplStore.commitAt, hwr]
  -- a commit that writes data is younger than every announced timestamp
  have hfrozen : ∀ T, (task.mutates → T < ts) →
      foldUpTo apply empty (dataAfter s.data ts a writes) T = foldUpTo apply empty s.data T := by
    intro T hT
    apply foldUpTo_congr
    intro u hu
    rcases dataAfter_cases s.data ts a writes with heq | ⟨-, b, hb, heq⟩
    · rw [heq]
    · rw [heq, Std.ExtTreeMap.getElem?_insert, if_neg]
      intro hcmp
      obtain rfl := Std.LawfulEqCmp.eq_of_compare hcmp
      exact absurd (hT (hwrites (by rw [hb]; rfl)).2) (not_lt.mpr hu)
  have hold := h.work c _ hw
  refine ⟨masterInv_step h.master hs, ?_, ?_, hcov, ?_, ?_⟩
  · intro c' w' hw'
    rcases lookup_insert hw' with rfl | ⟨-, hw'⟩
    · exact hown
    · exact (h.work c' w' hw').ofMaster hnext.1.ge fun ts _ hr => hnext.2.1 ts hr
  · intro t ht
    rcases mem_dataAfter ht with ht | ⟨rfl, hc, hb⟩
    · exact (h.data_le t ht).trans hmono
    · exact hnext.2.2 hc (hwrites hb).1
  · intro p hp
    refine ⟨(h.sent p hp).1.trans hmono, ?_⟩
    rw [Server.dataAt, hfrozen p.1 fun hm => hold.after_sent hm ts rfl p hp]
    exact (h.sent p hp).2
  · intro T d hd
    have hquiet : task.mutates = false := hold.fenced (by rw [hd]; rfl)
    have hsame : dataAfter s.data ts a writes = s.data := by
      rcases dataAfter_cases s.data ts a writes with heq | ⟨-, b, hb, -⟩
      · exact heq
      · have := (hwrites (by rw [hb]; rfl)).2
        rw [hquiet] at this
        cases this
    obtain ⟨h1, h2, h3⟩ := h.dumping T d hd
    refine ⟨h1.trans hmono, fun t ht => h2 t (hsame ▸ ht), ?_⟩
    rw [Server.dataAt, hfrozen T fun hm => by rw [hquiet] at hm; cases hm]
    exact h3

/-- The records an attempt leaves in place. -/
theorem mem_log_commitTS {r : ReplStore} {ts u : Nat} (hd : a.commits → a.writer.deletedLog = [])
    (hu : u ∈ r.log) : u ∈ (r.commitTS ts a).log := by
  rw [ReplStore.commitTS_eq]
  split
  · next hc =>
    rw [commitAt_eq r ts (hd hc)]
    split
    · exact hu
    · exact mem_insert.mpr (.inr hu)
  · unfold ReplStore.writeNoopTombstone
    split
    · exact mem_insert.mpr (.inr hu)
    · exact hu

/-- An attempt is over: the task has no running one, whatever it owes. -/
theorem WorkInv.settled {resyncing : Bool} {sent : List (Nat × ρ)} {task : Task} {ts : Nat}
    {debt debt' : Option Nat} (hold : WorkInv m resyncing sent ⟨task, some ts, debt⟩)
    (hs : m.step (.commitTS ts a) = some m') (hlt : ∀ b ∈ debt', b < m.store.tsSource.next)
    (hmut : debt' ≠ none → task.mutates) : WorkInv m' resyncing sent ⟨task, some ts, debt'⟩ := by
  have hts : ts < m.store.tsSource.next := hold.attempt_lt ts rfl
  obtain ⟨r, hr, rfl⟩ := map_eq_some_iff.mp hs
  obtain ⟨-, rfl⟩ := ReplStore.step_commitTS hr
  refine ⟨?_, ?_, ?_, hmut, hold.fenced, hold.after_sent⟩
  · rintro t ⟨⟩
    simpa using hts
  · intro b hb
    simpa using hlt b hb
  · rintro t ⟨⟩ hr
    exact absurd hr (Finset.notMem_erase ts _)

section BoundarySteps

variable (h : BoundaryInv apply empty read start s)

include h

section Commit

variable {task : Task} {ts : Nat} {debt : Option Nat} {writes : Option β}
  (hw : s.work[c]? = some ⟨task, some ts, debt⟩)
  (hwrites : writes.isSome → a.wrote ∧ task.mutates)
  (hs : s.master.step (.commitTS ts a) = some m')

include hw hwrites hs

/-- A logged commit: the record at `ts` accounts for it and for what the task owed. -/
theorem BoundaryInv.logged (hc : a.commits) (hlog : a.writer.logValue ≠ []) :
    BoundaryInv apply empty read start
      { s with
        master := m'
        data := dataAfter s.data ts a writes
        work := s.work.insert c ⟨task, some ts, none⟩ } := by
  have hold := h.work c _ hw
  refine h.ofCommit hw hwrites hs (hold.settled hs (by simp) (absurd rfl)) ?_
  obtain ⟨r, hr, rfl⟩ := map_eq_some_iff.mp hs
  obtain ⟨hrun, rfl⟩ := ReplStore.step_commitTS hr
  have hrec : ts ∈ (s.master.store.commitTS ts a).log := by
    rw [ReplStore.commitTS_eq, if_pos hc]
    simp [ReplStore.commitAt, hlog]
  intro t ht
  rcases mem_dataAfter ht with ht | ⟨rfl, -⟩
  · rcases h.covered t ht with ⟨u, hu, hle⟩ | ⟨c', w', hw', b, hb, hle⟩
    · exact .inl ⟨u, mem_log_commitTS (fun _ => Writer.deletedLog_of_logValue hlog) hu, hle⟩
    · by_cases hcc : c' = c
      · subst hcc
        rw [hw] at hw'
        cases hw'
        exact .inl ⟨ts, hrec, hle.trans (Nat.le_of_lt (hold.debt_lt_attempt ts rfl hrun b hb))⟩
      · exact .inr ⟨c', w', by rw [lookup_insert_ne hcc, hw'], b, hb, hle⟩
  · exact .inl ⟨t, hrec, le_rfl⟩

/-- Data without a log record, or deleted log records: the task now owes a record above everything
committed so far. -/
theorem BoundaryInv.indebted (hmut : task.mutates) :
    BoundaryInv apply empty read start
      { s with
        master := m'
        data := dataAfter s.data ts a writes
        work := s.work.insert c ⟨task, some ts, some (s.master.store.tsSource.next - 1)⟩ } := by
  have hold := h.work c _ hw
  have hts : ts < s.master.store.tsSource.next := hold.attempt_lt ts rfl
  refine h.ofCommit hw hwrites hs (hold.settled hs ?_ fun _ => hmut) fun t ht => ?_
  · rintro b ⟨⟩
    omega
  · refine .inr ⟨c, _, getElem?_insert_self, _, rfl, ?_⟩
    rcases mem_dataAfter ht with ht | ⟨rfl, -⟩
    · have := h.data_le t ht
      have := h.master.version_lt_next
      omega
    · omega

/-- Nothing but a tombstone or an empty transaction. -/
theorem BoundaryInv.quiet (hdata : dataAfter s.data ts a writes = s.data)
    (hdeletes : a.commits → a.writer.deletedLog = []) :
    BoundaryInv apply empty read start
      { s with
        master := m'
        data := dataAfter s.data ts a writes
        work := s.work.insert c ⟨task, some ts, debt⟩ } := by
  have hold := h.work c _ hw
  refine h.ofCommit hw hwrites hs (hold.settled hs hold.debt_lt hold.debt_mutates) ?_
  obtain ⟨r, hr, rfl⟩ := map_eq_some_iff.mp hs
  obtain ⟨-, rfl⟩ := ReplStore.step_commitTS hr
  rw [hdata]
  intro t ht
  rcases h.covered t ht with ⟨u, hu, hle⟩ | ⟨c', w', hw', b, hb, hle⟩
  · exact .inl ⟨u, mem_log_commitTS hdeletes hu, hle⟩
  · obtain ⟨w₂, hw₂, heq⟩ : ∃ w₂, (s.work.insert c ⟨task, some ts, debt⟩)[c']? = some w₂ ∧
        w₂.debt = w'.debt := insert_keeps_debt hw rfl hw'
    exact .inr ⟨c', w₂, hw₂, b, heq ▸ hb, hle⟩

end Commit

theorem boundaryInv_commitTS {writes : Option β}
    (hs : s.step apply empty read start (.commitTS c a writes) = some s') :
    BoundaryInv apply empty read start s' := by
  simp only [Server.step] at hs
  split at hs
  · next task ts debt hw =>
    split at hs
    · next hguard =>
      obtain ⟨hwrites, hdeletes⟩ := hguard
      obtain ⟨m', hm, rfl⟩ := map_eq_some_iff.mp hs
      by_cases hlogged : a.commits ∧ a.writer.logValue ≠ []
      · have hdebt : s.debtAfter ⟨task, some ts, debt⟩ a writes = none := by
          simp [Server.debtAfter, hlogged.1, hlogged.2]
        rw [hdebt]
        exact h.logged hw hwrites hm hlogged.1 hlogged.2
      by_cases hloose : a.commits ∧ (writes.isSome ∨ a.writer.deletedLog ≠ [])
      · have hnolog : a.writer.logValue = [] := by
          by_contra hne
          exact hlogged ⟨hloose.1, hne⟩
        have hdebt : s.debtAfter ⟨task, some ts, debt⟩ a writes =
            some (s.master.store.tsSource.next - 1) := by
          unfold Server.debtAfter
          rw [if_pos hloose.1, if_neg (not_not.mpr hnolog), if_pos]
          simpa using hloose.2
        rw [hdebt]
        exact h.indebted hw hwrites hm
          (hloose.2.elim (fun hsome => (hwrites hsome).2) hdeletes)
      · have hdebt : s.debtAfter ⟨task, some ts, debt⟩ a writes = debt := by
          unfold Server.debtAfter
          split
          · next hc =>
            rw [if_neg fun hne => hlogged ⟨hc, hne⟩, if_neg]
            intro hsome
            exact hloose ⟨hc, by simpa using hsome⟩
          · rfl
        rw [hdebt]
        refine h.quiet hw hwrites hm ?_ fun hc => ?_
        · rcases dataAfter_cases s.data ts a writes with heq | ⟨hc, b, hb, -⟩
          · exact heq
          · exact absurd ⟨hc, .inl (by rw [hb]; rfl)⟩ hloose
        · by_contra hne
          exact hloose ⟨hc, .inr hne⟩
    · cases hs
  · cases hs

/-! ## Requests and the lock -/

/-- The running tasks change by none that owes a record. -/
theorem BoundaryInv.ofWork
    (hwork : ∀ (c : Nat) w, work[c]? = some w → WorkInv s.master s.resync.isSome s.sent w)
    (hdebt : ∀ (c : Nat) w, s.work[c]? = some w → w.debt ≠ none → work[c]? = some w) :
    BoundaryInv apply empty read start { s with work } where
  __ := h
  work := hwork
  covered := by
    intro t ht
    rcases h.covered t ht with hlog | ⟨c, w, hw, b, hb, hle⟩
    · exact .inl hlog
    · exact .inr ⟨c, w, hdebt c w hw (by rw [mem_def.mp hb]; simp), b, hb, hle⟩

/-- The full resync moves on. -/
theorem BoundaryInv.ofResync
    {resync : Option (Resync δ)} {sent : List (Nat × ρ)}
    (hwork : ∀ (c : Nat) w, s.work[c]? = some w → WorkInv s.master resync.isSome sent w)
    (hsent : ∀ p ∈ sent, p.1 ≤ s.master.store.maxVersion ∧
      DumpOf read start (s.dataAt apply empty p.1) p.2)
    (hdump : ∀ ts d, resync = some (.dumping ts d) → ts ≤ s.master.store.maxVersion ∧
      (∀ t ∈ s.data, t ≤ ts) ∧ DumpReach read start (s.dataAt apply empty ts) d) :
    BoundaryInv apply empty read start { s with resync, sent } where
  __ := h
  work := hwork
  sent := hsent
  dumping := hdump

theorem boundaryInv_arrive {task : Task} (hok : Fenced s (.arrive c task))
    (hs : s.step apply empty read start (.arrive c task) = some s') :
    BoundaryInv apply empty read start s' := by
  simp only [Server.step] at hs
  split at hs
  · cases hs
  · next hfree =>
    cases hs
    rw [not_or] at hfree
    refine h.ofWork ?_ ?_
    · intro c' w' hw'
      rcases lookup_insert hw' with rfl | ⟨-, hw'⟩
      · refine ⟨(fun _ => nofun), (fun _ => nofun),
          (fun _ => nofun), (absurd rfl), fun hres => ?_,
          (fun _ _ => nofun)⟩
        -- a writer that needs no lock does not come in, one that needs it waits
        rw [← Bool.not_eq_true]
        intro hmut
        rcases hok hmut with hlock | hnone
        · exact hfree.2 ⟨hlock, hres⟩
        · rw [isNone_iff_eq_none.mp hnone] at hres
          cases hres
      · exact h.work c' w' hw'
    · intro c' w' hw' _
      rw [lookup_insert_ne ?_, hw']
      rintro rfl
      exact hfree.1 (mem_iff_isSome_getElem?.mpr (by rw [hw']; rfl))

theorem boundaryInv_respond (hok : Fenced s (.respond c))
    (hs : s.step apply empty read start (.respond c) = some s') :
    BoundaryInv apply empty read start s' := by
  simp only [Server.step] at hs
  split at hs
  · next task debt hw =>
    cases hs
    have hdebt : debt = none := hok _ hw
    refine h.ofWork ?_ ?_
    · intro c' w' hw'
      rw [getElem?_erase] at hw'
      split at hw'
      · cases hw'
      · exact h.work c' w' hw'
    · intro c' w' hw' hne
      rw [getElem?_erase, if_neg, hw']
      intro hcmp
      obtain rfl := Std.LawfulEqCmp.eq_of_compare hcmp
      rw [hw] at hw'
      cases hw'
      exact hne hdebt
  · cases hs

theorem boundaryInv_snapshotMuLock (hok : Fenced s .snapshotMuLock)
    (hs : s.step apply empty read start .snapshotMuLock = some s') :
    BoundaryInv apply empty read start s' := by
  simp only [Server.step] at hs
  split at hs
  · next hfree =>
    cases hs
    refine h.ofResync ?_ h.sent (fun _ _ => nofun)
    intro c' w' hw'
    have hmem := mem_toList_iff_getElem?_eq_some.mpr hw'
    have hold := h.work c' w' hw'
    refine { hold with fenced := fun _ => ?_ }
    rw [← Bool.not_eq_true]
    intro hmut
    exact hfree.2 _ hmem (hok _ hmem hmut)
  · cases hs

theorem boundaryInv_replLogCurrentTS
    (hs : s.step apply empty read start .replLogCurrentTS = some s') :
    BoundaryInv apply empty read start s' := by
  simp only [Server.step] at hs
  split at hs
  · next hlocked =>
    cases hs
    have hwork : ∀ (c : Nat) w, s.work[c]? = some w → WorkInv s.master true s.sent w := by
      intro c' w' hw'
      have hold := h.work c' w' hw'
      rwa [hlocked] at hold
    refine h.ofResync hwork h.sent ?_
    rintro ts d ⟨⟩
    refine ⟨?_, fun t ht => ?_, .start⟩
    · exact h.master.replLogCurrentTS_le
    · rcases h.covered t ht with ⟨u, hu, hle⟩ | ⟨c', w', hw', b, hb, -⟩
      · exact hle.trans (le_replLogCurrentTS hu)
      · -- nobody who could owe a record is running
        have hmut := (hwork c' w' hw').debt_mutates (by rw [mem_def.mp hb]; simp)
        rw [(hwork c' w' hw').fenced rfl] at hmut
        cases hmut
  · cases hs

theorem boundaryInv_dumpRead (hs : s.step apply empty read start .dumpRead = some s') :
    BoundaryInv apply empty read start s' := by
  simp only [Server.step] at hs
  split at hs
  · next ts d hdump =>
    obtain ⟨hle, hall, hreach⟩ := h.dumping ts d hdump
    have hlatest : s.latest apply empty = s.dataAt apply empty ts := foldAll_eq_foldUpTo hall
    have hwork : ∀ (c : Nat) w, s.work[c]? = some w → WorkInv s.master true s.sent w := by
      intro c' w' hw'
      have hold := h.work c' w' hw'
      rwa [hdump] at hold
    rw [hlatest] at hs
    split at hs
    · next d' hread =>
      cases hs
      refine h.ofResync hwork h.sent ?_
      rintro ts' d'' ⟨⟩
      exact ⟨hle, hall, hreach.next hread⟩
    · next rdb hread =>
      cases hs
      refine h.ofResync ?_ ?_ (fun _ _ => nofun)
      · intro c' w' hw'
        have hold := hwork c' w' hw'
        refine { hold with after_sent := fun hmut => ?_ }
        rw [hold.fenced rfl] at hmut
        cases hmut
      · intro p hp
        rcases mem_append.mp hp with hp | hp
        · exact h.sent p hp
        · obtain rfl := mem_singleton.mp hp
          exact ⟨hle, d, hreach, hread⟩
  · cases hs

theorem boundaryInv_step {a : ServerAction β} (hok : Fenced s a)
    (hs : s.step apply empty read start a = some s') : BoundaryInv apply empty read start s' := by
  cases a with
  | arrive c task => exact boundaryInv_arrive h hok hs
  | beginTs c => exact boundaryInv_beginTs h hs
  | commitTS c a writes => exact boundaryInv_commitTS h hs
  | endTs c => exact boundaryInv_endTs h hs
  | respond c => exact boundaryInv_respond h hok hs
  | snapshotMuLock => exact boundaryInv_snapshotMuLock h hok hs
  | replLogCurrentTS => exact boundaryInv_replLogCurrentTS h hs
  | dumpRead => exact boundaryInv_dumpRead h hs
  | snapshotMuUnlock =>
    simp only [Server.step] at hs
    split at hs
    · cases hs
      refine h.ofResync ?_ h.sent (fun _ _ => nofun)
      intro c' w' hw'
      have hold := h.work c' w' hw'
      exact { hold with fenced := fun hres => by cases hres }
    · cases hs
  | restart =>
    simp only [Server.step] at hs
    obtain ⟨m', hm, rfl⟩ := map_eq_some_iff.mp hs
    have hlog : ∀ u ∈ s.master.store.log, u ∈ m'.store.log := by
      cases hm
      exact fun u hu => hu
    have hempty : ∀ (c : Nat) w, (∅ : Std.ExtTreeMap Nat Work compare)[c]? = some w →
        WorkInv m' s.resync.isSome s.sent w := by
      intro c w hw
      simp at hw
    have hdebt : ∀ (c : Nat) w, s.work[c]? = some w → w.debt ≠ none →
        ∃ w', (∅ : Std.ExtTreeMap Nat Work compare)[c]? = some w' ∧ w'.debt = w.debt :=
      fun c w hw hne =>
        absurd (hok _ (mem_toList_iff_getElem?_eq_some.mpr hw)) hne
    refine (h.ofMaster hm hlog hempty hdebt).ofResync ?_ ?_ (fun _ _ => nofun)
    · intro c w hw
      simp at hw
    · exact fun p hp => ⟨(h.sent p hp).1.trans (maxVersion_step hm), (h.sent p hp).2⟩

end BoundarySteps

end Invariant

/-! ## Every run -/

def Server.new (replId : Bytes) : Server β δ ρ := ⟨.start replId, ∅, ∅, none, []⟩

theorem boundaryInv_new (replId : Bytes) : BoundaryInv apply empty read start (.new replId) where
  master := masterInv_start replId
  work := by intro c w hw; simp [Server.new] at hw
  data_le := by intro t ht; simp [Server.new] at ht
  covered := by intro t ht; simp [Server.new] at ht
  sent := by intro p hp; cases hp
  dumping := by intro ts d hd; cases hd

end Steps

/-! ## A store of key-value pairs -/

abbrev Pairs := List (Bytes × Bytes)

def setPair (p : Bytes × Bytes) (data : Pairs) : Pairs := data.filter (·.1 ≠ p.1) ++ [p]

/-- A dump that reads one pair a step. -/
def scanPairs (data : Pairs) (d : Nat × Pairs) : Nat × Pairs ⊕ Pairs :=
  match data[d.1]? with
  | some p => .inl (d.1 + 1, d.2 ++ [p])
  | none => .inr d.2

theorem dumpOf_scanPairs {data rdb : Pairs} : DumpOf scanPairs (0, []) data rdb ↔ rdb = data := by
  have hreach : ∀ d, DumpReach scanPairs (0, []) data d → d.2 = data.take d.1 := by
    intro d hd
    induction hd with
    | start => rfl
    | next _ hread ih =>
      unfold scanPairs at hread
      split at hread
      · next p hp =>
        cases hread
        rw [ih, take_add_one, hp]
        rfl
      · cases hread
  constructor
  · rintro ⟨d, hd, hread⟩
    unfold scanPairs at hread
    split at hread
    · cases hread
    · next hend =>
      cases hread
      rw [hreach d hd, take_of_length_le (List.getElem?_eq_none_iff.mp hend)]
  · rintro rfl
    have hall : ∀ n ≤ rdb.length, DumpReach scanPairs (0, []) rdb (n, rdb.take n) := by
      intro n hn
      induction n with
      | zero => exact .start
      | succ n ih =>
        apply (ih (Nat.le_of_succ_le hn)).next
        have hget : rdb[n]? = some (rdb.get ⟨n, hn⟩) := getElem?_eq_getElem hn
        rw [scanPairs, take_add_one, hget]
        rfl
    refine ⟨_, hall _ le_rfl, ?_⟩
    simp [scanPairs]

abbrev pairStep := Server.step setPair [] scanPairs (0, [])

/-- A request that makes one logged commit. -/
def oneWrite (c : Nat) (args : List Bytes) (p : Bytes × Bytes) : List (ServerAction (Bytes × Bytes)) :=
  [.arrive c (.request args true), .beginTs c, .commitTS c (.ok (.command args) true) (some p), .endTs c,
    .respond c]

def fullResync : List (ServerAction (Bytes × Bytes)) :=
  [.snapshotMuLock, .replLogCurrentTS, .dumpRead, .dumpRead, .snapshotMuUnlock]

/-- A write, a full resync during a GET and a housekeeping commit, and another write. -/
def fencedResync : List (ServerAction (Bytes × Bytes)) := oneWrite 1 ["SET", "a", "1"] ("a", "1") ++
    ([.arrive 2 (.request ["GET", "a"] false), .arrive 3 (.internal false), .beginTs 3] :
      List (ServerAction (Bytes × Bytes))) ++
    fullResync ++
    ([.commitTS 3 (.ok .saveReplID true) none, .endTs 3, .respond 3, .respond 2] :
      List (ServerAction (Bytes × Bytes))) ++
    oneWrite 1 ["SET", "b", "2"] ("b", "2")

def geoRadiusStore : List Bytes := ["GEORADIUS", "g", "0", "0", "1", "km", "STORE", "d"].map ascii

/-- GEORADIUS with STORE has its timestamp when the full resync starts, and commits after it. -/
def geoRadiusAcross : List (ServerAction (Bytes × Bytes)) :=
  ([.arrive 1 (.request geoRadiusStore true), .beginTs 1] : List (ServerAction (Bytes × Bytes))) ++
    oneWrite 2 ["SET", "a", "1"] ("a", "1") ++ fullResync ++
    ([.commitTS 1 (.ok (.command (["GEOSEARCHSTORE", "d", "g", "FROMLONLAT", "0", "0", "BYRADIUS", "1",
      "km"].map ascii)) true) (some ("d", "m")), .endTs 1, .respond 1] :
      List (ServerAction (Bytes × Bytes)))

def afterGeoRadius : Server (Bytes × Bytes) (Nat × Pairs) Pairs :=
  (run pairStep (.new "id") geoRadiusAcross).get (by decide +kernel)

end BoltDB.Replication
