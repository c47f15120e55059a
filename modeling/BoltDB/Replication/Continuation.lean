import BoltDB.Replication.History

/-!
# When PSYNC may answer CONTINUE

`HandlePSync` (`psync.go`) decides between CONTINUE and FULLRESYNC from the replication id and the
smallest and largest logged timestamps. It is right if every change of the data after the
requester's timestamp is in the log.

* `Instance` — a server over its whole life: the store with its commit attempts, what every commit
  did to the data, the replication id in memory and as saved, the role.
* `Action` — commit attempts, FLUSHDB, role changes, restarts. `LoadRDB` (`rdb_loader.go`) is a
  FLUSHDB followed by commits: `SetStringBatch`, `RestoreHLL` and `XGroupRestore`, which hand over no
  command, and commands such as RPUSH. The commands a replica applies are commits like any other.
* `continue_sound` — CONTINUE is sound in every run in which no commit changes data without handing
  over its command, FLUSHDB apart.

The data is a parameter `σ`, with `effect args` what a logged command does to it, when it runs here
and when it is replayed.
-/

namespace BoltDB.Replication.Continuation

open Bytes Transition Timeline BoltDB.Replication List Std.ExtTreeMap Option

/-! ## The server over its life -/

/-- What a commit does to the data: what its logged command says, or anything. -/
inductive Change (σ : Type)
  | command (args : List Bytes)
  | unlogged (f : σ → σ)

/-- `ReplicationRole`. -/
inductive Role
  | master
  | slave
  deriving DecidableEq

structure Instance (σ : Type) where
  /-- The store, `rm.replId` and the commands by timestamp. -/
  master : Master
  /-- What every commit did to the data, by version. -/
  data : Std.ExtTreeMap Nat (Change σ) compare
  role : Role
  masterAddr : Bytes
  /-- The replication id in the store (`SaveReplID`). -/
  savedReplId : Option Bytes

inductive Action (σ : Type)
  | beginTs
  /-- The body of `commitTS`; `writes` is what the transaction does to the data if the writer hands
  over no command. -/
  | commitTS (ts : Nat) (a : Attempt) (writes : Option (σ → σ))
  | endTs (ts : Nat)
  /-- `FlushDB` without another write in between: for every batch of `ClearAllData` the log records
  in it and what it does to the data. -/
  | flushDB (batches : List (List Nat × (σ → σ)))
  | startSlaveReplication (masterAddr : Bytes)
  | stopSlaveReplication
  /-- The process stops and starts again; `generated` is what `generateReplicationID` would give. -/
  | restart (generated : Bytes)

/-- `PSyncResult`. -/
structure PSyncResult where
  fullResync : Bool
  replId : Bytes
  ts : Nat
  deriving DecidableEq

section Steps

variable {σ : Type} (effect : List Bytes → σ → σ) (empty : σ)

/-- The change an attempt commits. -/
def changeOf (a : Attempt) (writes : Option (σ → σ)) : Option (Change σ) :=
  if a.commits then
    match a.writer with
    | .command args => some (.command args)
    | _ => writes.map .unlogged
  else none

/-- The changes after an attempt at `ts`. -/
def changesAfter (data : Std.ExtTreeMap Nat (Change σ) compare) (ts : Nat) (a : Attempt)
    (writes : Option (σ → σ)) : Std.ExtTreeMap Nat (Change σ) compare :=
  match changeOf a writes with
  | some c => data.insert ts c
  | none => data

def Change.apply : Change σ → σ → σ
  | .command args => effectOf effect args
  | .unlogged f => f

namespace Instance

variable (s : Instance σ)

def start (replId : Bytes) : Instance σ := ⟨.start replId, ∅, .master, [], none⟩

/-- The data as of version `t`. -/
def dataAt (t : Nat) : σ := foldUpTo (Change.apply effect) empty s.data t

/-- The data now. -/
def latest : σ := foldAll (Change.apply effect) empty s.data

/-- The data changes of the batches of `ClearAllData`, from timestamp `ts` on. -/
def flushedBatches (ts : Nat) (data : Std.ExtTreeMap Nat (Change σ) compare) :
    List (List Nat × (σ → σ)) → Std.ExtTreeMap Nat (Change σ) compare
  | [] => data
  | b :: bs => flushedBatches (ts + 1) (data.insert ts (.unlogged b.2)) bs

def fullResyncResult : PSyncResult := ⟨true, s.master.replId, s.master.store.replLogCurrentTS⟩

/-- `HandlePSync`. The byte offset is logged and not looked at. -/
def handlePSync (replId : Bytes) (_offset : Int) (ts : Nat) : PSyncResult :=
  if ts = 0 ∨ replId ≠ s.master.replId then s.fullResyncResult
  else if s.master.store.replLogStartTS ≤ ts ∧ ts ≤ s.master.store.replLogCurrentTS then
    ⟨false, s.master.replId, ts⟩
  else s.fullResyncResult

def step : Action σ → Option (Instance σ)
  | .beginTs => (s.master.step .beginTs).map fun m => { s with master := m }
  | .commitTS ts a writes =>
    (s.master.step (.commitTS ts a)).map fun m =>
      { s with
        master := m
        data := changesAfter s.data ts a writes
        savedReplId := if a.commits ∧ a.writer = .saveReplID then some s.master.replId
          else s.savedReplId }
  | .endTs ts => (s.master.step (.endTs ts)).map fun m => { s with master := m }
  | .flushDB batches =>
    let next := s.master.store.tsSource.next
    if s.master.store.running = ∅ ∧
        ∀ t ∈ s.master.store.log.keys, t ∈ (batches.map Prod.fst).flatten then
      (run Master.step s.master (Master.flushDBEvents next (batches.map Prod.fst))).map fun m =>
        { s with
          master := m
          data := (flushedBatches (next + 1) s.data batches).insert (next + 1 + batches.length)
            (.command ["FLUSHDB"]) }
    else none
  -- neither of the two touches the replication id or the log
  | .startSlaveReplication masterAddr => some { s with role := .slave, masterAddr }
  | .stopSlaveReplication => some { s with role := .master, masterAddr := [] }
  | .restart generated =>
    (s.master.step .restart).map fun m =>
      { s with
        master := { m with replId := s.savedReplId.getD generated }
        role := .master
        masterAddr := [] }

end Instance

/-! ## Soundness of CONTINUE -/

/-- What the requester does with log records: `none` once one of them does not parse. -/
def replay (entries : List (Nat × Bytes)) (d : σ) : Option σ :=
  entries.foldlM (fun d e => (parseReplLogValue e.2).map fun args => effectOf effect args d) d

/-- The log records after `ts`, up to the largest logged timestamp. -/
def recordsAfter (s : Instance σ) (ts : Nat) : List (Nat × Bytes) :=
  s.master.store.replLogEntriesRange (ts + 1) s.master.store.replLogCurrentTS

/-- The change at `t` is what the replay of its record among `entries` does. -/
def Represented (entries : List (Nat × Bytes)) (t : Nat) (c : Change σ) : Prop :=
  ∃ v args, (t, v) ∈ entries ∧ parseReplLogValue v = some args ∧ c.apply effect = effectOf effect args

/-- A requester that got CONTINUE ends in this server's state, and a change that the records leave
out leads to FULLRESYNC. -/
def ContinueSound (s : Instance σ) : Prop := ∀ replId offset ts,
    ((s.handlePSync replId offset ts).fullResync = false →
      replay effect (recordsAfter s ts) (s.dataAt effect empty ts) = some (s.latest effect empty)) ∧
    ∀ (t : Nat) c, ts < t → s.data[t]? = some c → ¬ Represented effect (recordsAfter s ts) t c →
      (s.handlePSync replId offset ts).fullResync = true

/-- The log reader takes the command. -/
def Accepted (args : List Bytes) : Prop := (∀ x ∈ args, CrlfFree x) ∧
    (2 ≤ args.length ∨ args.length = 1 ∧ toUpper (args.headD []) ∈ zeroArgCommands)

instance (args : List Bytes) : Decidable (Accepted args) := inferInstanceAs (Decidable (_ ∧ _))

/-- The condition on a step: a commit outside `FlushDB` deletes no log record, and it changes data
only by a command that it hands over and that the log reader takes. -/
def Handed : Action σ → Prop
  | .commitTS _ a writes => a.writer.deletedLog = [] ∧
    (a.commits = true → if a.writer.logValue = [] then writes.isNone else Accepted a.writer.args)
  | _ => True

instance : (a : Action σ) → Decidable (Handed a)
  | .commitTS _ _ _ => inferInstanceAs (Decidable (_ ∧ _))
  | .beginTs | .endTs _ | .flushDB _ | .startSlaveReplication _ | .stopSlaveReplication
  | .restart _ => .isTrue trivial

end Steps

/-! ## What the log keeps -/

theorem parseReplLogValue_of_accepted {args : List Bytes} (h : Accepted args) :
    parseReplLogValue (encodePropagateCommand args) = some args := by
  refine parseReplLogValue_encode h.1 ?_
  rcases h.2 with hlen | ⟨hlen, hmem⟩
  · exact .inl hlen
  · obtain ⟨cmd, rfl⟩ := length_eq_one_iff.mp hlen
    exact .inr ⟨cmd, rfl, hmem⟩

/-- The timestamp lies below every record there is and can be. -/
def Passed (s : ReplStore) (t : Nat) : Prop := SettledAt s t ∧ ∀ u ∈ s.log, t < u

section Passed

variable {m m' : Master} {t : Nat}

theorem passed_step {e : Event} (hm : MasterInv m) (hk : KeepsLog e) (hs : m.step e = some m')
    (ht : Passed m.store t) : Passed m'.store t := by
  refine ⟨(settledAt_step hm hs ht.1).1, ?_⟩
  obtain ⟨s, hstep, rfl⟩ := map_eq_some_iff.mp hs
  cases e with
  | beginTs => cases hstep; exact ht.2
  | commitTS ts a =>
    obtain ⟨hts, rfl⟩ := ReplStore.step_commitTS hstep
    intro u hu
    rcases (mem_commitTS_log hk).mp hu with hu | ⟨rfl, -⟩
    · exact ht.2 u hu
    · exact ht.1.2 u hts
  | endTs ts =>
    obtain ⟨-, rfl⟩ := ReplStore.step_endTs hstep
    exact ht.2
  | restart => cases hstep; exact ht.2

end Passed

section Invariant

variable {σ : Type}

/-- Every change is below the log or in it under its command, and every command in the history is a
change or a NOOP. -/
structure Inv (s : Instance σ) : Prop where
  master : MasterInv s.master
  codec : ∀ (t : Nat) args, s.master.hist[t]? = some args →
    parseReplLogValue (encodePropagateCommand args) = some args
  kept : ∀ (t : Nat) c, s.data[t]? = some c → Passed s.master.store t ∨
    ∃ args, c = .command args ∧ s.master.hist[t]? = some args ∧ t ∈ s.master.store.log
  applied : ∀ (t : Nat) args, s.master.hist[t]? = some args →
    s.data[t]? = some (.command args) ∨ isNoop args ∧ s.data[t]? = none

theorem inv_start (replId : Bytes) : Inv (.start replId : Instance σ) where
  master := masterInv_start replId
  codec := by intro t args h; simp [Instance.start, Master.start] at h
  kept := by intro t c h; simp [Instance.start] at h
  applied := by intro t args h; simp [Instance.start, Master.start] at h

variable {s : Instance σ} {m' : Master}

/-- A step that settles no attempt. -/
theorem Inv.quiet {e : Event} (h : Inv s) (hk : KeepsLog e) (hs : s.master.step e = some m')
    (hhist : m'.hist = s.master.hist) (hlog : m'.store.log = s.master.store.log) :
    Inv { s with master := m' } where
  master := masterInv_step h.master hs
  codec := by
    show ∀ (t : Nat) args, m'.hist[t]? = some args → _
    rw [hhist]
    exact h.codec
  kept := by
    intro t c hc
    show Passed m'.store t ∨ ∃ args, c = .command args ∧ m'.hist[t]? = some args ∧ t ∈ m'.store.log
    rw [hhist, hlog]
    exact (h.kept t c hc).imp_left (passed_step h.master hk hs)
  applied := by
    show ∀ (t : Nat) args, m'.hist[t]? = some args → _
    rw [hhist]
    exact h.applied

variable {a : Attempt} {batches : List (List Nat × (σ → σ))} {ts : Nat} {writes : Option (σ → σ)}

/-- A running attempt has changed nothing yet. -/
theorem Inv.data_running (h : Inv s) (hts : ts ∈ s.master.store.running) : s.data[ts]? = none := by
  cases hc : s.data[ts]? with
  | none => rfl
  | some c =>
    rcases h.kept ts c hc with hp | ⟨args, -, hargs, -⟩
    · exact absurd (hp.1.2 ts hts) (lt_irrefl ts)
    · have hmem : ts ∈ s.master.hist := by
        rw [mem_iff_isSome_getElem?, hargs]
        rfl
      exact absurd hts (h.master.hist_not_running ts hmem)

theorem changeOf_eq_some {c : Change σ}
    (hok : a.commits = true →
      if a.writer.logValue = [] then writes.isNone else Accepted a.writer.args)
    (h : changeOf a writes = some c) :
    ∃ args, c = .command args ∧ a.recorded = some args ∧ Accepted args := by
  unfold changeOf at h
  split at h
  · next hcom =>
    have hok := hok hcom
    cases hw : a.writer with
    | command args =>
      rw [hw] at h hok
      cases h
      rw [if_neg (Writer.logValue_command_ne_nil args)] at hok
      exact ⟨args, rfl, by simp [Attempt.recorded, hcom, hw], hok⟩
    | _ =>
      simp only [hw, Writer.logValue, if_true, isNone_iff_eq_none] at hok
      simp [hw, hok] at h
  · cases h

/-- An attempt that leaves a record and no change leaves a NOOP. -/
theorem recorded_of_changeOf_none {args : List Bytes} (hc : changeOf a writes = none)
    (h : a.recorded = some args) : args = [ascii "NOOP"] := by
  rcases Attempt.recorded_eq_some h with ⟨hcom, hw⟩ | ⟨-, -, rfl⟩
  · simp [changeOf, hcom, hw] at hc
  · rfl

theorem getElem?_changesAfter (hts : s.data[ts]? = none) (a : Attempt) (writes : Option (σ → σ))
    (t : Nat) :
    (changesAfter s.data ts a writes)[t]? =
      if t = ts then changeOf a writes else s.data[t]? := by
  unfold changesAfter
  split
  · next hc =>
    rw [hc, Std.ExtTreeMap.getElem?_insert]
    simp only [compare_eq_iff_eq, @eq_comm _ t ts]
  · next hc =>
    by_cases h : t = ts
    · rw [if_pos h, hc, h, hts]
    · rw [if_neg h]

theorem getElem?_histAfter {m : Master} (hm : MasterInv m) (hts : ts ∈ m.store.running)
    (a : Attempt) (t : Nat) :
    (m.histAfter (.commitTS ts a))[t]? = if t = ts then a.recorded else m.hist[t]? := by
  simp only [Master.histAfter]
  split
  · next hr =>
    rw [hr, Std.ExtTreeMap.getElem?_insert]
    simp only [compare_eq_iff_eq, @eq_comm _ t ts]
  · next hr =>
    by_cases h : t = ts
    · rw [if_pos h, hr, h, Std.ExtTreeMap.getElem?_eq_none]
      exact fun hmem => hm.hist_not_running ts hmem hts
    · rw [if_neg h]

theorem Inv.commitTS {saved : Option Bytes} (h : Inv s) (hok : Handed (.commitTS ts a writes))
    (hs : s.master.step (.commitTS ts a) = some m') :
    Inv { s with
      master := m'
      data := changesAfter s.data ts a writes
      savedReplId := saved } := by
  have hm' := masterInv_step h.master hs
  have hpassed : ∀ t, Passed s.master.store t → Passed m'.store t :=
    fun t => passed_step (e := .commitTS ts a) h.master hok.1 hs
  obtain ⟨st, hstep, rfl⟩ := map_eq_some_iff.mp hs
  obtain ⟨hts, rfl⟩ := ReplStore.step_commitTS hstep
  have hhist := getElem?_histAfter h.master hts a
  have hdata := getElem?_changesAfter (h.data_running hts) a writes
  refine ⟨hm', fun t args ht => ?_, fun t c hc => ?_, fun t args ht => ?_⟩
  · change (s.master.histAfter (.commitTS ts a))[t]? = some args at ht
    rw [hhist] at ht
    split at ht
    · cases hch : changeOf a writes with
      | some c =>
        obtain ⟨args', -, hrec, hacc⟩ := changeOf_eq_some hok.2 hch
        obtain rfl : args' = args := Option.some.inj (hrec.symm.trans ht)
        exact parseReplLogValue_of_accepted hacc
      | none =>
        rw [recorded_of_changeOf_none hch ht]
        decide +kernel
    · exact h.codec t args ht
  · change (changesAfter s.data ts a writes)[t]? = some c at hc
    show Passed _ t ∨ ∃ args, c = .command args ∧
      (s.master.histAfter (.commitTS ts a))[t]? = some args ∧ t ∈ (s.master.store.commitTS ts a).log
    rw [hdata] at hc
    rw [mem_commitTS_log hok.1, hhist]
    split at hc
    · next heq =>
      obtain ⟨args, rfl, hrec, -⟩ := changeOf_eq_some hok.2 hc
      exact .inr ⟨args, rfl, by rw [if_pos heq, hrec], .inr ⟨heq, by rw [hrec]; rfl⟩⟩
    · next hne =>
      rcases h.kept t c hc with hp | ⟨args, rfl, hargs, hlog⟩
      · exact .inl (hpassed t hp)
      · exact .inr ⟨args, rfl, by rw [if_neg hne, hargs], .inl hlog⟩
  · change (s.master.histAfter (.commitTS ts a))[t]? = some args at ht
    show (changesAfter s.data ts a writes)[t]? = _ ∨
      _ ∧ (changesAfter s.data ts a writes)[t]? = none
    rw [hhist] at ht
    rw [hdata]
    split at ht
    · next heq =>
      rw [if_pos heq]
      cases hch : changeOf a writes with
      | some c =>
        obtain ⟨args', rfl, hrec, -⟩ := changeOf_eq_some hok.2 hch
        obtain rfl : args' = args := Option.some.inj (hrec.symm.trans ht)
        exact .inl rfl
      | none =>
        rw [recorded_of_changeOf_none hch ht]
        exact .inr ⟨by decide, rfl⟩
    · next hne =>
      rw [if_neg hne]
      exact h.applied t args ht

theorem getElem?_flushedBatches {t : Nat} {data : Std.ExtTreeMap Nat (Change σ) compare}
    {c : Change σ} (h : (Instance.flushedBatches ts data batches)[t]? = some c) :
    data[t]? = some c ∨ ts ≤ t ∧ t < ts + batches.length := by
  induction batches generalizing ts data with
  | nil => exact .inl h
  | cons b bs ih =>
    rw [length_cons]
    rcases ih h with hc | ⟨hlo, hhi⟩
    · rw [Std.ExtTreeMap.getElem?_insert] at hc
      split at hc
      · next heq =>
        obtain rfl := Std.LawfulEqCmp.eq_of_compare heq
        exact .inr ⟨le_rfl, by omega⟩
      · exact .inl hc
    · exact .inr ⟨by omega, by omega⟩

theorem getElem?_flushedBatches_lt {t : Nat} {data : Std.ExtTreeMap Nat (Change σ) compare}
    (ht : t < ts) : (Instance.flushedBatches ts data batches)[t]? = data[t]? := by
  induction batches generalizing ts data with
  | nil => rfl
  | cons b bs ih =>
    rw [Instance.flushedBatches, ih (by omega), Std.ExtTreeMap.getElem?_insert, if_neg]
    intro heq
    have := Std.LawfulEqCmp.eq_of_compare heq
    omega

/-- After FLUSHDB every earlier change lies below the log. -/
theorem Inv.flushDB (h : Inv s)
    (hr : s.master.store.running = ∅)
    (hall : ∀ t ∈ s.master.store.log.keys, t ∈ (batches.map Prod.fst).flatten)
    (hrun : run Master.step s.master
      (Master.flushDBEvents s.master.store.tsSource.next (batches.map Prod.fst)) = some m') :
    Inv { s with
      master := m'
      data := (Instance.flushedBatches (s.master.store.tsSource.next + 1) s.data batches).insert
        (s.master.store.tsSource.next + 1 + batches.length) (.command ["FLUSHDB"]) } := by
  have hm' : MasterInv m' := run_preserves (fun _ _ _ h hs => masterInv_step h hs) h.master hrun
  obtain ⟨hr', hlog, hhist⟩ := run_flushDBEvents hr hall hrun
  rw [length_map] at hlog hhist
  generalize hT : s.master.store.tsSource.next + 1 + batches.length = T at hlog hhist ⊢
  have hTv : T ≤ m'.store.maxVersion := by
    apply hm'.hist_le_version
    rw [hhist]
    exact Std.ExtTreeMap.mem_insert_self
  have hold : ∀ {t : Nat}, t ∈ s.master.hist → t < s.master.store.tsSource.next :=
    fun ht => lt_of_le_of_lt (h.master.hist_le_version _ ht) h.master.version_lt_next
  have hpassed : ∀ t < T, Passed m'.store t := by
    intro t ht
    refine ⟨⟨by omega, fun r hrr => ?_⟩, fun u hu => (hlog u).mp hu ▸ ht⟩
    rw [hr'] at hrr
    exact absurd hrr (Finset.notMem_empty r)
  refine ⟨hm', fun t args ht => ?_, fun t c hc => ?_, fun t args ht => ?_⟩
  · change m'.hist[t]? = some args at ht
    rw [hhist, Std.ExtTreeMap.getElem?_insert] at ht
    split at ht
    · cases ht
      decide +kernel
    · exact h.codec t args ht
  · change (Std.ExtTreeMap.insert _ T (Change.command ["FLUSHDB"]))[t]? = some c at hc
    show Passed m'.store t ∨ ∃ args, c = .command args ∧ m'.hist[t]? = some args ∧ t ∈ m'.store.log
    rw [Std.ExtTreeMap.getElem?_insert] at hc
    split at hc
    · next heq =>
      obtain rfl := Std.LawfulEqCmp.eq_of_compare heq
      cases hc
      refine .inr ⟨_, rfl, ?_, (hlog T).mpr rfl⟩
      rw [hhist]
      exact getElem?_insert_self
    · refine .inl (hpassed t ?_)
      rcases getElem?_flushedBatches hc with hc | ⟨-, hlt⟩
      · rcases h.kept t c hc with hp | ⟨args, -, hargs, -⟩
        · have := hp.1.1
          have := h.master.version_lt_next
          omega
        · have := hold (mem_iff_isSome_getElem?.mpr (by rw [hargs]; rfl))
          omega
      · omega
  · change m'.hist[t]? = some args at ht
    show (Std.ExtTreeMap.insert _ T (Change.command ["FLUSHDB"]))[t]? = _ ∨
      _ ∧ (Std.ExtTreeMap.insert _ T (Change.command ["FLUSHDB"]))[t]? = none
    rw [hhist, Std.ExtTreeMap.getElem?_insert] at ht
    rw [Std.ExtTreeMap.getElem?_insert]
    split at ht
    · next heq =>
      cases ht
      rw [if_pos heq]
      exact .inl rfl
    · next hne =>
      have hlt := hold (mem_iff_isSome_getElem?.mpr (by rw [ht]; rfl))
      rw [if_neg hne, getElem?_flushedBatches_lt (Nat.lt_succ_of_lt hlt)]
      exact h.applied t args ht

theorem Inv.step {a : Action σ} {s' : Instance σ} (h : Inv s) (hok : Handed a)
    (hs : s.step a = some s') : Inv s' := by
  cases a with
  | beginTs =>
    rw [Instance.step] at hs
    obtain ⟨m, hm, rfl⟩ := map_eq_some_iff.mp hs
    obtain ⟨st, hst, rfl⟩ := map_eq_some_iff.mp hm
    cases hst
    exact h.quiet (e := .beginTs) trivial hm rfl rfl
  | commitTS ts a writes =>
    obtain ⟨m, hm, rfl⟩ := map_eq_some_iff.mp hs
    exact h.commitTS hok hm
  | endTs ts =>
    obtain ⟨m, hm, rfl⟩ := map_eq_some_iff.mp hs
    obtain ⟨st, hst, rfl⟩ := map_eq_some_iff.mp hm
    obtain ⟨-, rfl⟩ := ReplStore.step_endTs hst
    exact h.quiet (e := .endTs ts) trivial hm rfl rfl
  | flushDB batches =>
    simp only [Instance.step] at hs
    split at hs
    · next hguard =>
      obtain ⟨m, hm, rfl⟩ := map_eq_some_iff.mp hs
      exact h.flushDB hguard.1 hguard.2 hm
    · cases hs
  | startSlaveReplication addr => cases hs; exact ⟨h.master, h.codec, h.kept, h.applied⟩
  | stopSlaveReplication => cases hs; exact ⟨h.master, h.codec, h.kept, h.applied⟩
  | restart generated =>
    rw [Instance.step] at hs
    obtain ⟨m, hm, rfl⟩ := map_eq_some_iff.mp hs
    obtain ⟨st, hst, rfl⟩ := map_eq_some_iff.mp hm
    cases hst
    have hq := h.quiet (e := .restart) trivial hm rfl rfl
    -- the new replication id is nothing the invariant speaks of
    refine ⟨⟨?_, ?_, ?_, ?_, ?_⟩, hq.codec, hq.kept, hq.applied⟩
    · exact hq.master.running_pending
    · exact hq.master.version_lt_next
    · exact hq.master.hist_le_version
    · exact hq.master.hist_not_running
    · exact hq.master.log_hist

end Invariant

/-! ## The answer -/

section Answer

variable {σ : Type} {effect : List Bytes → σ → σ} {empty : σ} {s : Instance σ} {replId : Bytes}
  {offset : Int}

theorem handlePSync_continue {ts : Nat} (h : (s.handlePSync replId offset ts).fullResync = false) :
    s.master.store.replLogStartTS ∈ s.master.store.log ∧ s.master.store.replLogStartTS ≤ ts := by
  unfold Instance.handlePSync at h
  split at h
  · cases h
  · next hid =>
    split at h
    · next hrange =>
      refine ⟨(ReplStore.replLogStartTS_spec ?_).1, hrange.1⟩
      intro hempty
      rcases replLogCurrentTS_mem s.master.store with hcur | hcur
      · omega
      · rw [hempty] at hcur
        exact not_mem_empty hcur
    · cases h

/-- After CONTINUE every later change is in the log under its command. -/
theorem Inv.logged_of_continue (h : Inv s) {ts t : Nat} {c : Change σ}
    (hcont : (s.handlePSync replId offset ts).fullResync = false) (ht : ts < t)
    (hc : s.data[t]? = some c) :
    ∃ args, c = .command args ∧ (t, encodePropagateCommand args) ∈ recordsAfter s ts ∧
      parseReplLogValue (encodePropagateCommand args) = some args := by
  obtain ⟨hstart, hle⟩ := handlePSync_continue hcont
  rcases h.kept t c hc with hp | ⟨args, rfl, hargs, hlog⟩
  · have := hp.2 _ hstart
    omega
  · obtain ⟨v, hv⟩ := mem_log_iff_getElem?.mp hlog
    obtain ⟨args', hargs', rfl⟩ := h.master.log_hist t v hv
    obtain rfl : args = args' := Option.some.inj (hargs.symm.trans hargs')
    refine ⟨args, rfl, mem_replLogEntriesRange.mpr ⟨hv, ht, le_replLogCurrentTS hlog⟩, ?_⟩
    exact h.codec t args hargs

/-- The change at a record's timestamp. -/
def changeAt (s : Instance σ) (e : Nat × Bytes) : Option (Nat × Change σ) :=
  s.data[e.1]?.map fun c => (e.1, c)

/-- Replaying records does what the changes at their timestamps did. -/
theorem Inv.replay_eq (h : Inv s) {l : List (Nat × Bytes)}
    (hl : ∀ e ∈ l, s.master.store.log[e.1]? = some e.2) (d : σ) :
    replay effect l d =
      some ((l.filterMap (changeAt s)).foldl (fun d e => e.2.apply effect d) d) := by
  induction l generalizing d with
  | nil => rfl
  | cons e l ih =>
    have ih := ih fun f hf => hl f (mem_cons_of_mem e hf)
    obtain ⟨args, hargs, hv⟩ := h.master.log_hist e.1 e.2 (hl e mem_cons_self)
    have hparse : parseReplLogValue e.2 = some args := by
      rw [hv]
      exact h.codec e.1 args hargs
    have hcons : replay effect (e :: l) d = replay effect l (effectOf effect args d) := by
      simp only [replay, foldlM_cons, hparse, map_some, bind_eq_bind, bind_some]
    rw [hcons, ih]
    rcases h.applied e.1 args hargs with hc | ⟨hnoop, hc⟩
    · have hat : changeAt s e = some (e.1, .command args) := by rw [changeAt, hc]; rfl
      rw [filterMap_cons_some hat]
      rfl
    · have hat : changeAt s e = none := by rw [changeAt, hc]; rfl
      rw [filterMap_cons_none hat, effectOf, if_pos hnoop]

theorem Inv.replay_recordsAfter (h : Inv s) {ts : Nat}
    (hcont : (s.handlePSync replId offset ts).fullResync = false) :
    replay effect (recordsAfter s ts) (s.dataAt effect empty ts) = some (s.latest effect empty) := by
  rw [h.replay_eq (l := recordsAfter s ts) fun e he => (mem_replLogEntriesRange.mp he).1]
  have hlater : (recordsAfter s ts).filterMap (changeAt s) =
      s.data.toList.filter fun e => ts < e.1 := by
    apply sorted_ext
    · rw [pairwise_filterMap]
      refine replLogEntriesRange_sorted.imp fun hlt c hc d hd => ?_
      obtain ⟨_, -, rfl⟩ := map_eq_some_iff.mp hc
      obtain ⟨_, -, rfl⟩ := map_eq_some_iff.mp hd
      exact hlt
    · exact (sorted_toList s.data).filter _
    · rintro ⟨t, c⟩
      rw [List.mem_filterMap, List.mem_filter, mem_toList_iff_getElem?_eq_some, decide_eq_true_eq]
      constructor
      · rintro ⟨e, he, hat⟩
        obtain ⟨c, hc, heq⟩ := map_eq_some_iff.mp hat
        cases heq
        exact ⟨hc, (mem_replLogEntriesRange.mp he).2.1⟩
      · rintro ⟨hc, hlt⟩
        obtain ⟨args, -, hmem, -⟩ := h.logged_of_continue hcont hlt hc
        exact ⟨_, hmem, by rw [changeAt, hc]; rfl⟩
  rw [hlater, Instance.latest, foldAll_eq_foldl_later ts]
  rfl

end Answer

/-- **CONTINUE is sound.** In every run in which commits outside FLUSHDB change data only by commands
that reach the log, over role changes and restarts, PSYNC answers CONTINUE only if the log holds every
change after the requester's timestamp. -/
theorem continue_sound {σ : Type} (effect : List Bytes → σ → σ) (empty : σ) (replId : Bytes)
    {as : List (Action σ)} {s : Instance σ}
    (hok : Meets Instance.step (fun _ a => Handed a) (.start replId) as)
    (hrun : run Instance.step (.start replId) as = some s) :
    ContinueSound effect empty s := by
  have h : Inv s := run_invariant (fun _ _ _ h hok hs => h.step hok hs) (inv_start replId) hok hrun
  intro id offset ts
  refine ⟨fun hcont => h.replay_recordsAfter hcont, fun t c ht hc hnot => ?_⟩
  rw [← Bool.not_eq_false]
  intro hcont
  obtain ⟨args, rfl, hmem, hparse⟩ := h.logged_of_continue hcont ht hc
  exact hnot ⟨_, args, hmem, hparse, rfl⟩

/-- An attempt that runs through. -/
def wholeCommit {σ : Type} (ts : Nat) (w : Writer) (writes : Option (σ → σ)) : List (Action σ) :=
  [.beginTs, .commitTS ts (.ok w true) writes, .endTs ts]

/-- A write, some time as a replica that flushes and applies a command, a restart and a write as
master. -/
def roleChanges : List (Action (List (List Bytes))) :=
  wholeCommit 1 .saveReplID none ++ wholeCommit 2 setA none ++
    ([.startSlaveReplication "m", .flushDB [([2], fun _ => [])]] : List (Action (List (List Bytes)))) ++
    wholeCommit 6 setA none ++
    ([.stopSlaveReplication, .restart "other"] : List (Action (List (List Bytes)))) ++
    wholeCommit 7 setA none

theorem continue_sound_roleChanges :
    ∃ s, run Instance.step (.start (ascii "id")) roleChanges = some s ∧
      ContinueSound journal [] s ∧ (s.handlePSync (ascii "id") 0 5).fullResync = false := by
  obtain ⟨s, hrun, hcont⟩ : ∃ s, run Instance.step (.start "id") roleChanges = some s ∧
      (s.handlePSync "id" 0 5).fullResync = false := run_end (by decide +kernel)
  exact ⟨s, hrun, continue_sound journal [] "id" (by decide +kernel) hrun, hcont⟩

/-- A write, a full resync as a replica whose RDB holds a string, and the role changed back. -/
def loadedRDB : List (Action (List (List Bytes))) := wholeCommit 1 setA none ++
    ([.startSlaveReplication (ascii "m"), .flushDB [([1], fun _ => [])]] : List (Action (List (List Bytes)))) ++
    wholeCommit 5 .setStringBatch (some fun d => d ++ [[ascii "SET", ascii "b", ascii "2"]]) ++
    ([.stopSlaveReplication] : List (Action (List (List Bytes))))

/-- The string of the RDB is in no log record, and a requester at the FLUSHDB before it continues. -/
theorem continue_after_loadedRDB :
    ∃ s, run Instance.step (.start (ascii "id")) loadedRDB = some s ∧
      ¬ ContinueSound journal [] s := by
  obtain ⟨s, hrun, hcont, hne⟩ : ∃ s, run Instance.step (.start "id") loadedRDB = some s ∧
      (s.handlePSync "id" 0 4).fullResync = false ∧
      replay journal (recordsAfter s 4) (s.dataAt journal [] 4) ≠ some (s.latest journal []) :=
    run_end (by decide +kernel)
  exact ⟨s, hrun, fun h => hne ((h "id" 0 4).1 hcont)⟩

end BoltDB.Replication.Continuation
