import BoltDB.Replication.ExactlyOnce

/-!
# The master's settled past

What later commits of the master cannot change, and what FLUSHDB leaves of the log.

* `SettledAt` — no attempt can still log at or below a timestamp; `settledAt_step` says that such a
  timestamp stays settled and the history below it stays as it is.
* `FlushInv` — entries leave the log only through FLUSHDB, so from some floor on the log is
  complete, and the floor is 0 or the record of a FLUSHDB.
* `isFirst_of_feed` — a feed that starts at timestamp 1 starts with the first effective entry of the
  history. A replica at watermark 0 does not check its first frame, so this is what it relies on.
-/

namespace BoltDB.Replication

open Bytes Transition Timeline List Std.ExtTreeMap Option

/-! ## The settled past -/

/-- No attempt can still log at or below `t`. -/
def SettledAt (s : ReplStore) (t : Nat) : Prop := t ≤ s.maxVersion ∧ ∀ r ∈ s.running, t < r

section Master

variable {m m' : Master} {e : Event} {t : Nat}

theorem settledAt_step (hm : MasterInv m) (hs : m.step e = some m') (ht : SettledAt m.store t) :
    SettledAt m'.store t ∧ ∀ u ≤ t, m'.hist[u]? = m.hist[u]? := by
  obtain ⟨hle, hrun⟩ := ht
  obtain ⟨s, hstep, rfl⟩ := map_eq_some_iff.mp hs
  cases e with
  | beginTs =>
    cases hstep
    refine ⟨⟨hle, fun r hr => ?_⟩, fun _ _ => rfl⟩
    rcases Finset.mem_insert.mp hr with rfl | hr
    · exact lt_of_le_of_lt hle hm.version_lt_next
    · exact hrun r hr
  | commitTS ts a =>
    obtain ⟨hts, rfl⟩ := ReplStore.step_commitTS hstep
    refine ⟨⟨hle.trans (m.store.commitTS_maxVersion ts a).1, fun r hr =>
      hrun r (Finset.mem_of_mem_erase hr)⟩, fun u hu => ?_⟩
    simp only [Master.histAfter]
    split
    · rw [Std.ExtTreeMap.getElem?_insert, if_neg]
      intro heq
      obtain rfl := Std.LawfulEqCmp.eq_of_compare heq
      exact absurd (hrun ts hts) (not_lt.mpr hu)
    · rfl
  | endTs ts =>
    obtain ⟨-, rfl⟩ := ReplStore.step_endTs hstep
    exact ⟨⟨hle, hrun⟩, fun _ _ => rfl⟩
  | restart =>
    cases hstep
    exact ⟨⟨hle, fun r hr => absurd hr (Finset.notMem_empty r)⟩, fun _ _ => rfl⟩

theorem settledAt_run {es : List Event} (hm : MasterInv m) (hrun : run Master.step m es = some m')
    (ht : SettledAt m.store t) :
    SettledAt m'.store t ∧ ∀ u ≤ t, m'.hist[u]? = m.hist[u]? := by
  induction es generalizing m with
  | nil => cases hrun; exact ⟨ht, fun _ _ => rfl⟩
  | cons e es ih =>
    obtain ⟨m1, hs, hrest⟩ := run_cons_eq_some.mp hrun
    obtain ⟨h1, h2⟩ := settledAt_step hm hs ht
    obtain ⟨h3, h4⟩ := ih (masterInv_step hm hs) hrest h1
    exact ⟨h3, fun u hu => (h4 u hu).trans (h2 u hu)⟩

/-- **The history only grows**, over failed attempts, FLUSHDB and restarts, and the next timestamp is new. -/
theorem history_append_only {replId : Bytes} {as bs : List Event}
    (hm : run Master.step (.start replId) as = some m) (hrun : run Master.step m bs = some m') :
    (∀ (u : Nat) args, m.hist[u]? = some args → m'.hist[u]? = some args) ∧
      m'.store.tsSource.next ∉ m'.hist := by
  have hinv : MasterInv m := run_preserves (fun _ _ _ => masterInv_step) (masterInv_start replId) hm
  obtain ⟨hinv', hkept⟩ := @run_preserves _ _ _ _ _
    (fun s => MasterInv s ∧ ∀ (u : Nat) args, m.hist[u]? = some args → s.hist[u]? = some args)
    (fun _ _ _ h hs => ⟨masterInv_step h.1 hs, fun u args hu => h.1.hist_mono hs (h.2 u args hu)⟩)
    _ ⟨hinv, fun _ _ => id⟩ hrun
  refine ⟨hkept, fun hnext => ?_⟩
  have := hinv'.hist_le_version _ hnext
  have := hinv'.version_lt_next
  omega

theorem history_append_only_twoSets :
    ∃ m, run Master.step twoSets [.beginTs, .restart] = some m ∧ m.store.tsSource.next ∉ m.hist := by
  obtain ⟨m, hrun⟩ : ∃ m, run Master.step twoSets [.beginTs, .restart] = some m := ⟨_, rfl⟩
  exact ⟨m, hrun, (history_append_only (some_get _).symm hrun).2⟩

theorem MasterInv.replLogCurrentTS_le (h : MasterInv m) :
    m.store.replLogCurrentTS ≤ m.store.maxVersion := by
  rcases replLogCurrentTS_mem m.store with h0 | hmem
  · rw [h0]; exact Nat.zero_le _
  · obtain ⟨b, hb⟩ := mem_log_iff_getElem?.mp hmem
    obtain ⟨args, hargs, -⟩ := h.log_hist _ b hb
    exact h.hist_le_version _ (mem_iff_isSome_getElem?.mpr (by rw [hargs]; rfl))

theorem maxVersion_step (hs : m.step e = some m') : m.store.maxVersion ≤ m'.store.maxVersion := by
  obtain ⟨s, hstep, rfl⟩ := map_eq_some_iff.mp hs
  cases e with
  | beginTs => cases hstep; exact le_rfl
  | commitTS ts a =>
    obtain ⟨-, rfl⟩ := ReplStore.step_commitTS hstep
    exact (m.store.commitTS_maxVersion ts a).1
  | endTs ts =>
    obtain ⟨-, rfl⟩ := ReplStore.step_endTs hstep
    exact le_rfl
  | restart => cases hstep; exact le_rfl

/-! ## What FLUSHDB leaves of the log -/

/-- Entries leave the log only with a FLUSHDB: from some floor on the log is complete, and the floor
is 0 or the record of a FLUSHDB. -/
def FlushInv (m : Master) : Prop := (∀ t ∈ m.hist, 0 < t) ∧ ∃ floor,
    (floor = 0 ∨ m.hist[floor]? = some [ascii "FLUSHDB"] ∧ floor ∈ m.store.log) ∧
    (∀ u ∈ m.store.log, floor ≤ u) ∧ SettledAt m.store floor ∧
    ∀ t ∈ m.hist, floor ≤ t → t ∈ m.store.log

/-- A commit that deletes no log record. -/
def KeepsLog : Event → Prop
  | .commitTS _ a => a.writer.deletedLog = []
  | .beginTs | .endTs _ | .restart => True

instance : (e : Event) → Decidable (KeepsLog e)
  | .commitTS _ a => inferInstanceAs (Decidable (a.writer.deletedLog = []))
  | .beginTs | .endTs _ | .restart => .isTrue trivial

theorem flushInv_start (replId : Bytes) : FlushInv (.start replId) := by
  refine ⟨fun t ht => by simp [Master.start] at ht, 0, .inl rfl, fun _ _ => Nat.zero_le _, ?_, ?_⟩
  · exact ⟨Nat.zero_le _, fun r hr => absurd hr (Finset.notMem_empty r)⟩
  · intro t ht
    simp [Master.start] at ht

theorem mem_commitTS_log {s : ReplStore} {ts u : Nat} {a : Attempt}
    (hd : a.writer.deletedLog = []) :
    u ∈ (s.commitTS ts a).log ↔ u ∈ s.log ∨ u = ts ∧ a.recorded.isSome := by
  have hkept : (if a.commits then s.log.filter fun t _ => t ∉ a.writer.deletedLog else s.log)
      = s.log := by
    split
    · apply Std.ExtTreeMap.ext_getElem?
      intro t
      rw [Std.ExtTreeMap.getElem?_filter, hd]
      simp only [not_mem_nil, not_false_eq_true, decide_true, pfilter_eq_filter]
      cases s.log[t]? <;> rfl
    · rfl
  rw [ReplStore.commitTS_log, hkept]
  cases hrec : a.recorded with
  | none => simp
  | some args =>
    simp only [mem_insert, compare_eq_iff_eq, isSome_some, and_true]
    rw [or_comm, eq_comm]

theorem flushInv_step (hm : MasterInv m) (h : FlushInv m) (hk : KeepsLog e)
    (hs : m.step e = some m') : FlushInv m' := by
  obtain ⟨hpos, floor, hfloor, hmin, hset, hfull⟩ := h
  obtain ⟨hset', hold⟩ := settledAt_step hm hs hset
  have hfloor' : ∀ {b}, m.hist[floor]? = some b → m'.hist[floor]? = some b :=
    fun hb => (hold floor le_rfl).trans hb
  obtain ⟨s, hstep, rfl⟩ := map_eq_some_iff.mp hs
  cases e with
  | commitTS ts a =>
    obtain ⟨hts, rfl⟩ := ReplStore.step_commitTS hstep
    have hlog : ∀ u, u ∈ (m.store.commitTS ts a).log ↔ u ∈ m.store.log ∨
        u = ts ∧ a.recorded.isSome := fun u => mem_commitTS_log hk
    refine ⟨fun t ht => ?_, floor, ?_, fun u hu => ?_, hset', fun t ht hle => ?_⟩
    · rcases mem_histAfter_commitTS ht with ht | ⟨rfl, -⟩
      · exact hpos t ht
      · have := (m.store.tsSource.pending_mem _ (hm.running_pending hts)).1
        omega
    · rcases hfloor with h0 | ⟨hb, hin⟩
      · exact .inl h0
      · exact .inr ⟨hfloor' hb, (hlog floor).mpr (.inl hin)⟩
    · rcases (hlog u).mp hu with hu | ⟨rfl, -⟩
      · exact hmin u hu
      · exact Nat.le_of_lt (hset.2 u hts)
    · rcases mem_histAfter_commitTS ht with ht | ht
      · exact (hlog t).mpr (.inl (hfull t ht hle))
      · exact (hlog t).mpr (.inr ht)
  | beginTs => cases hstep; exact ⟨hpos, floor, hfloor, hmin, hset', hfull⟩
  | endTs ts =>
    obtain ⟨-, rfl⟩ := ReplStore.step_endTs hstep
    exact ⟨hpos, floor, hfloor, hmin, hset', hfull⟩
  | restart => cases hstep; exact ⟨hpos, floor, hfloor, hmin, hset', hfull⟩

/-- A write that runs from `Begin` to `End` without interruption, from a state where none runs. -/
theorem run_whole {w : Writer} {b : Bool} {rest : List Event} (hr : m.store.running = ∅)
    (h : run Master.step m (Event.whole m.store.tsSource.next (.ok w b) ++ rest) = some m') :
    ∃ m1, run Master.step m1 rest = some m' ∧ m1.store.running = ∅ ∧
      m1.store.tsSource.next = m.store.tsSource.next + 1 ∧
      m1.store.log = (m.store.commitTS m.store.tsSource.next (.ok w b)).log ∧
      m1.hist = m.histAfter (.commitTS m.store.tsSource.next (.ok w b)) := by
  obtain ⟨ma, ha, h⟩ := run_cons_eq_some.mp h
  obtain ⟨mb, hb, h⟩ := run_cons_eq_some.mp h
  obtain ⟨mc, hc, h⟩ := run_cons_eq_some.mp h
  refine ⟨mc, h, ?_⟩
  obtain ⟨sa, hsa, rfl⟩ := map_eq_some_iff.mp ha
  cases hsa
  obtain ⟨sb, hsb, rfl⟩ := map_eq_some_iff.mp hb
  simp only [ReplStore.step, hr, insert_empty_eq, Finset.mem_singleton, if_true] at hsb
  cases hsb
  obtain ⟨sc, hsc, rfl⟩ := map_eq_some_iff.mp hc
  obtain ⟨-, rfl⟩ := ReplStore.step_endTs hsc
  refine ⟨by simp, by simp, ?_, rfl⟩
  simp only [ReplStore.commitTS_log]

theorem commitTS_log_deleteBatch (s : ReplStore) (ts : Nat) (b : List Nat) {u : Nat} :
    u ∈ (s.commitTS ts (.ok (.deleteBatch b) true)).log ↔ u ∈ s.log ∧ u ∉ b := by
  rw [ReplStore.commitTS_log]
  simp [Attempt.recorded, Attempt.commits, Attempt.ok, Writer.logValue, Writer.deletedLog,
    Std.ExtTreeMap.mem_filter]

variable {batches : List (List Nat)}

theorem run_deleteBatches {rest : List Event} (hr : m.store.running = ∅)
    (h : run Master.step m (Master.deleteBatches m.store.tsSource.next batches ++ rest) = some m') :
    ∃ m1, run Master.step m1 rest = some m' ∧ m1.store.running = ∅ ∧
      m1.store.tsSource.next = m.store.tsSource.next + batches.length ∧
      (∀ u, u ∈ m1.store.log ↔ u ∈ m.store.log ∧ u ∉ batches.flatten) ∧ m1.hist = m.hist := by
  induction batches generalizing m with
  | nil => exact ⟨m, h, hr, rfl, by simp, rfl⟩
  | cons b bs ih =>
    obtain ⟨m1, h1, hr1, hn1, hl1, hh1⟩ := run_whole hr h
    rw [← hn1] at h1
    obtain ⟨m2, h2, hr2, hn2, hl2, hh2⟩ := ih hr1 h1
    refine ⟨m2, h2, hr2, ?_, fun u => ?_, hh2.trans hh1⟩
    · rw [hn2, hn1, length_cons]
      omega
    · rw [hl2, hl1, commitTS_log_deleteBatch]
      simp [and_assoc]

/-- After an uninterrupted `FlushDB` the log holds the record of that FLUSHDB and nothing else. -/
theorem run_flushDBEvents (hr : m.store.running = ∅)
    (hall : ∀ t ∈ m.store.log.keys, t ∈ batches.flatten)
    (hrun : run Master.step m (Master.flushDBEvents m.store.tsSource.next batches) = some m') :
    m'.store.running = ∅ ∧
      (∀ u, u ∈ m'.store.log ↔ u = m.store.tsSource.next + 1 + batches.length) ∧
      m'.hist = m.hist.insert (m.store.tsSource.next + 1 + batches.length) ["FLUSHDB"] := by
  obtain ⟨m1, h1, hr1, hn1, hl1, hh1⟩ := run_whole hr hrun
  rw [← hn1] at h1
  obtain ⟨m2, h2, hr2, hn2, hl2, hh2⟩ := run_deleteBatches hr1 h1
  rw [← hn2] at h2
  obtain ⟨m3, h3, hr3, -, hl3, hh3⟩ := run_whole hr2 h2
  cases h3
  have hlog1 : ∀ u, u ∈ m1.store.log ↔ u ∈ m.store.log := by
    intro u
    rw [hl1, mem_commitTS_log rfl]
    simp [Attempt.recorded, Attempt.commits, Attempt.ok, Writer.logValue]
  rw [← hn1, ← hn2]
  refine ⟨hr3, fun u => ?_, ?_⟩
  · rw [hl3, mem_commitTS_log rfl, hl2, hlog1]
    constructor
    · rintro (⟨hu, hnot⟩ | ⟨hu, -⟩)
      · exact absurd (hall u (Std.ExtTreeMap.mem_keys.mpr hu)) hnot
      · exact hu
    · exact fun hu => .inr ⟨hu, rfl⟩
  · rw [hh3]
    simp only [Master.histAfter, Attempt.recorded, Attempt.commits, Attempt.ok]
    rw [hh2, hh1]
    rfl

theorem flushInv_flushDB (hm : MasterInv m) (h : FlushInv m) (hr : m.store.running = ∅)
    (hall : ∀ t ∈ m.store.log.keys, t ∈ batches.flatten)
    (hrun : run Master.step m (Master.flushDBEvents m.store.tsSource.next batches) = some m') :
    FlushInv m' := by
  have hm' : MasterInv m' := run_preserves (fun _ _ _ h hs => masterInv_step h hs) hm hrun
  obtain ⟨hr', hlog, hhist⟩ := run_flushDBEvents hr hall hrun
  have hk : m.store.tsSource.next + 1 + batches.length ∈ m'.hist := by
    rw [hhist]
    exact Std.ExtTreeMap.mem_insert_self
  refine ⟨fun t ht => ?_, _, .inr ⟨?_, (hlog _).mpr rfl⟩,
    fun u hu => ((hlog u).mp hu).ge, ⟨hm'.hist_le_version _ hk, ?_⟩, fun t ht hle => ?_⟩
  · rw [hhist] at ht
    rcases mem_insert.mp ht with heq | ht
    · have := Std.LawfulEqCmp.eq_of_compare heq
      omega
    · exact h.1 t ht
  · rw [hhist]
    exact getElem?_insert_self
  · rw [hr']
    exact fun r hr => absurd hr (Finset.notMem_empty r)
  · rw [hhist] at ht
    rcases mem_insert.mp ht with heq | ht
    · exact (hlog t).mpr (Std.LawfulEqCmp.eq_of_compare heq).symm
    · have := hm.hist_le_version t ht
      have := hm.version_lt_next
      omega

/-! ## The first frame -/

variable {σ : Type} {effect : List Bytes → σ → σ} {empty : σ}

/-- The frame can be applied to a store at watermark 0. -/
def IsFirst (effect : List Bytes → σ → σ) (empty : σ) (hist : History) (f : Frame) : Prop :=
  stateAt effect empty hist f.ts = effectOf effect f.args (stateAt effect empty hist 0)

theorem effectOf_flushDB (hflush : ∀ s, effect ["FLUSHDB"] s = empty) (s : σ) :
    effectOf effect ["FLUSHDB"] s = empty := by
  exact hflush s

/-- A feed from timestamp 1 starts with the first entry, or with the FLUSHDB that made the entries
before it irrelevant. -/
theorem isFirst_of_feed (hflush : ∀ s, effect [ascii "FLUSHDB"] s = empty) (hm : MasterInv m)
    (hc : CleanHist m.hist) (h : FlushInv m) {f : Frame} {fs : List Frame}
    (hfeed : m.store.feedEntriesFrom 1 = .ok (f :: fs)) :
    IsFirst effect empty m.hist f := by
  obtain ⟨hpos, floor, hfloor, hmin, -, hfull⟩ := h
  obtain ⟨hf, hlo, hhi⟩ := feedEntriesFrom_hist hm hc hfeed mem_cons_self
  -- the first frame is the smallest record of the range
  have hleast : ∀ u ∈ m.store.log, 1 ≤ u → u ≤ m.store.replLogDoneTS → f.ts ≤ u := by
    intro u hu h1 hd
    obtain ⟨-, hmap⟩ := feedEntriesFrom_ok hfeed
    obtain ⟨v, hv⟩ := mem_log_iff_getElem?.mp hu
    have hin : (u, v) ∈ m.store.replLogEntriesRange 1 m.store.replLogDoneTS :=
      mem_replLogEntriesRange.mpr ⟨hv, h1, hd⟩
    have hsorted : (m.store.replLogEntriesRange 1 m.store.replLogDoneTS).Pairwise
      fun e f => e.1 < f.1 := replLogEntriesRange_sorted
    cases hl : m.store.replLogEntriesRange 1 m.store.replLogDoneTS with
    | nil => rw [hl] at hin; cases hin
    | cons e rest =>
      rw [hl] at hin hsorted hmap
      have hfe : f.ts = e.1 := by
        rw [mapM_cons] at hmap
        cases hframe : frameOfEntry e with
        | error err => rw [hframe] at hmap; cases hmap
        | ok frame =>
          cases hrest : rest.mapM frameOfEntry with
          | error err => rw [hframe, hrest] at hmap; cases hmap
          | ok frames =>
            rw [hframe, hrest] at hmap
            cases hmap
            unfold frameOfEntry at hframe
            split at hframe <;> cases hframe
            rfl
      rw [hfe]
      rcases mem_cons.mp hin with rfl | hin
      · exact le_rfl
      · exact Nat.le_of_lt ((pairwise_cons.mp hsorted).1 _ hin)
  have hbelow : ∀ t, 0 < t → t < f.ts → t ∉ m.store.log := by
    intro t ht hlt hin
    have := hleast t hin ht (by omega)
    omega
  by_cases hgap : ∀ t, 0 < t → t < f.ts → m.hist[t]? = none
  · exact foldUpTo_next (by omega) hgap hf
  · push Not at hgap
    obtain ⟨t, ht, hlt, hsome⟩ := hgap
    have htm : t ∈ m.hist := mem_iff_isSome_getElem?.mpr
      (isSome_iff_ne_none.mpr hsome)
    have htf : t < floor := by
      by_contra hge
      exact hbelow t ht hlt (hfull t htm (not_lt.mp hge))
    -- the floor is a FLUSHDB record of the range, so it is the first frame
    obtain ⟨hb, hin⟩ : m.hist[floor]? = some [ascii "FLUSHDB"] ∧ floor ∈ m.store.log := by
      rcases hfloor with h0 | hfl
      · omega
      · exact hfl
    have hle : floor ≤ f.ts := hmin f.ts (by
      obtain ⟨e, he, hts, -⟩ := mem_mapM_frameOfEntry (feedEntriesFrom_ok hfeed).2 mem_cons_self
      rw [hts]
      exact mem_log_iff_getElem?.mpr ⟨_, (mem_replLogEntriesRange.mp he).1⟩)
    obtain rfl : floor = f.ts := le_antisymm hle (hleast floor hin (by omega) (by omega))
    obtain hargs : f.args = [ascii "FLUSHDB"] := Option.some.inj (hf.symm.trans hb)
    have hstep : stateAt effect empty m.hist f.ts =
        effectOf effect f.args (stateAt effect empty m.hist (f.ts - 1)) :=
      foldUpTo_next (by omega) (fun v h1 h2 => by omega) hf
    rw [IsFirst, hstep, hargs, effectOf_flushDB hflush, effectOf_flushDB hflush]

end Master

end BoltDB.Replication
