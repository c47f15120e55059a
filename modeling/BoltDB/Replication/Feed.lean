import BoltDB.Replication.Log

/-!
# The feed, and the density of the log

The master feeds a replica with the log records from the replica's cursor up to the completed
watermark (`FeedEntriesFrom`, `internal/replication/feed_source.go`). Both ends refuse a stream with
a hole: the master between two records of one read, the replica between its watermark and the next
frame.

`LogInv` says what a timestamp below `next` can be: logged, still running, or a hole below
everything that is logged or running. Commits that carry no log record, lost tombstones and a stop
in mid-commit are what breaks it; `Logged` is the condition that none of them happens above a
record, and `feed_dense` the density of every state reached under it.
-/

namespace BoltDB.Replication

open Bytes Transition List Std.ExtTreeMap

/-! ## Reading the feed -/

/-- `verifyFeedTSContinuity`: every record follows its predecessor; the first one is free. -/
def verifyFeedTSContinuity : List (Nat × Bytes) → Except FeedError Unit
  | e :: f :: rest =>
    if f.1 ≠ e.1 + 1 then .error (.logGap f.1 (e.1 + 1)) else verifyFeedTSContinuity (f :: rest)
  | _ => .ok ()

/-- The wire frame of a log record. -/
def frameOfEntry (e : Nat × Bytes) : Except FeedError Frame :=
  match parseReplLogValue e.2 with
  | some args => .ok ⟨e.1, args⟩
  | none => .error (.parse e.1)

/-- `FeedEntriesFrom`: the frames from `since` up to the completed watermark. -/
def ReplStore.feedEntriesFrom (s : ReplStore) (since : Nat) : Except FeedError (List Frame) := do
  let entries := s.replLogEntriesRange since s.replLogDoneTS
  verifyFeedTSContinuity entries
  entries.mapM frameOfEntry

/-- The contiguity checks a replica at `prev` makes on a list of frames it applies one by one. -/
def checkFrames : Nat → List Frame → Except FeedError Unit
  | _, [] => .ok ()
  | prev, f :: fs => do
    checkFeedTSGap prev f.ts
    checkFrames f.ts fs

/-! ## Records in a range -/

section Range

variable {s : ReplStore} {since upto : Nat}

theorem mem_replLogEntriesRange {e : Nat × Bytes} :
    e ∈ s.replLogEntriesRange since upto ↔ s.log[e.1]? = some e.2 ∧ since ≤ e.1 ∧ e.1 ≤ upto := by
  unfold ReplStore.replLogEntriesRange
  split
  · next h =>
    simp only [not_mem_nil, false_iff]
    intro ⟨_, h1, h2⟩
    omega
  · rw [List.mem_filter, mem_toList_iff_getElem?_eq_some]
    simp

theorem replLogEntriesRange_sorted :
    (s.replLogEntriesRange since upto).Pairwise fun e f => e.1 < f.1 := by
  unfold ReplStore.replLogEntriesRange
  split
  · exact List.Pairwise.nil
  · apply List.Pairwise.filter
    refine ordered_keys_toList.imp ?_
    intro e f hlt
    exact Nat.compare_eq_lt.mp hlt

theorem mem_log_iff_getElem? {t : Nat} : t ∈ s.log ↔ ∃ v, s.log[t]? = some v := by
  rw [mem_iff_isSome_getElem?, Option.isSome_iff_exists]

end Range

variable {l : List (Nat × Bytes)} {s : ReplStore}

/-- The smallest record is the one `ReplLogStartTS` reports. -/
theorem ReplStore.replLogStartTS_spec (hne : s.log ≠ ∅) :
    s.replLogStartTS ∈ s.log ∧ ∀ t ∈ s.log, s.replLogStartTS ≤ t := by
  have hsorted : s.log.keys.Pairwise (· < ·) := by
    refine ordered_keys.imp ?_
    intro a b hlt
    exact Nat.compare_eq_lt.mp hlt
  have hmem : ∀ t, t ∈ s.log.keys ↔ t ∈ s.log := fun t => Std.ExtTreeMap.mem_keys
  unfold ReplStore.replLogStartTS
  cases hk : s.log.keys with
  | nil =>
    refine absurd (Std.ExtTreeMap.ext_getElem? fun t => ?_) hne
    have ht : t ∉ s.log := fun h => by simpa [hk] using (hmem t).mpr h
    rw [Std.ExtTreeMap.getElem?_eq_none ht]
    simp
  | cons a rest =>
    rw [hk] at hsorted hmem
    refine ⟨(hmem a).mp mem_cons_self, fun t ht => ?_⟩
    rcases mem_cons.mp ((hmem t).mpr ht) with rfl | hrest
    · exact le_rfl
    · exact Nat.le_of_lt ((pairwise_cons.mp hsorted).1 t hrest)

theorem replLogCurrentTS_mem (s : ReplStore) :
    s.replLogCurrentTS = 0 ∨ s.replLogCurrentTS ∈ s.log := by
  unfold ReplStore.replLogCurrentTS
  cases hk : s.log.keys with
  | nil => exact .inl rfl
  | cons a rest =>
    refine .inr (Std.ExtTreeMap.mem_keys.mp ?_)
    rw [hk]
    exact getLast_mem _

theorem le_replLogCurrentTS {u : Nat} (h : u ∈ s.log) : u ≤ s.replLogCurrentTS := by
  have hsorted : s.log.keys.Pairwise (· < ·) := ordered_keys.imp fun hlt => Nat.compare_eq_lt.mp hlt
  have hu := Std.ExtTreeMap.mem_keys.mpr h
  unfold ReplStore.replLogCurrentTS
  generalize s.log.keys = ks at hsorted hu
  induction ks with
  | nil => cases hu
  | cons a rest ih =>
    obtain ⟨ha, hrest⟩ := pairwise_cons.mp hsorted
    cases rest with
    | nil => rw [mem_singleton.mp hu]; exact le_rfl
    | cons b rest =>
      rcases mem_cons.mp hu with rfl | hu
      · rw [getLastD_eq_getLast?, getLast?_eq_some_getLast (cons_ne_nil _ _), getLast_cons_cons]
        exact Nat.le_of_lt (ha _ (getLast_mem _))
      · exact ih hrest hu

/-! ## Gap-free streams -/

/-- A sorted list of records that leaves out no record between two of its own passes the check. -/
theorem verifyFeedTSContinuity_ok (hs : l.Pairwise fun e f => e.1 < f.1)
    (hd : ∀ e ∈ l, ∀ f ∈ l, ∀ t, e.1 ≤ t → t ≤ f.1 → ∃ g ∈ l, g.1 = t) :
    verifyFeedTSContinuity l = .ok () := by
  induction l with
  | nil => rfl
  | cons e l ih =>
    cases l with
    | nil => rfl
    | cons f rest =>
      obtain ⟨he, hl⟩ := pairwise_cons.mp hs
      have hef : e.1 < f.1 := he f mem_cons_self
      have hadj : f.1 = e.1 + 1 := by
        -- the record at `e.1 + 1` is in the list, and nothing in it lies between `e` and `f`
        obtain ⟨g, hg, hgt⟩ := hd e mem_cons_self f (by simp) (e.1 + 1) (by omega) (by omega)
        rcases mem_cons.mp hg with rfl | hg
        · omega
        · rcases mem_cons.mp hg with rfl | hg
          · exact hgt
          · have := (pairwise_cons.mp hl).1 g hg
            omega
      rw [verifyFeedTSContinuity, if_neg (not_not.mpr hadj)]
      apply ih hl
      intro a ha b hb t hat htb
      obtain ⟨g, hg, rfl⟩ := hd a (mem_cons_of_mem e ha) b (mem_cons_of_mem e hb) t hat htb
      rcases mem_cons.mp hg with rfl | hg
      · -- `g` is the head, below every element of the tail
        have := he a ha
        omega
      · exact ⟨g, hg, rfl⟩

/-- Records that pass the master's check and start right after `prev` pass the replica's. -/
theorem checkFrames_ok {fs : List Frame} {prev : Nat} (hv : verifyFeedTSContinuity l = .ok ())
    (hfirst : ∀ e ∈ l.head?, e.1 = prev + 1) (hfs : l.mapM frameOfEntry = .ok fs) :
    checkFrames prev fs = .ok () := by
  induction l generalizing prev fs with
  | nil => cases hfs; rfl
  | cons e l ih =>
    rw [mapM_cons] at hfs
    cases hframe : frameOfEntry e with
    | error err => rw [hframe] at hfs; cases hfs
    | ok frame =>
      cases hrest : l.mapM frameOfEntry with
      | error err => rw [hframe, hrest] at hfs; cases hfs
      | ok rest =>
        rw [hframe, hrest] at hfs
        cases hfs
        have hts : frame.ts = e.1 := by
          unfold frameOfEntry at hframe
          split at hframe
          · cases hframe; rfl
          · cases hframe
        have he : e.1 = prev + 1 := hfirst e (by simp)
        have hcheck : checkFeedTSGap prev frame.ts = .ok () := by
          rw [checkFeedTSGap, if_neg]
          rintro ⟨-, hne⟩
          exact hne (hts.trans he)
        have htail : checkFrames frame.ts rest = .ok () := by
          rw [hts]
          cases l with
          | nil => cases hrest; rfl
          | cons f l =>
            rw [verifyFeedTSContinuity] at hv
            split at hv
            · cases hv
            · next hnext =>
              refine ih hv ?_ hrest
              intro g hg
              obtain rfl : f = g := by simpa using hg
              exact not_not.mp hnext
        show (do checkFeedTSGap prev frame.ts; checkFrames frame.ts rest) = .ok ()
        rw [hcheck]
        exact htail

theorem mapM_frameOfEntry_ne_logGap {ts expected : Nat} :
    l.mapM frameOfEntry ≠ .error (.logGap ts expected) := by
  induction l with
  | nil => intro h; cases h
  | cons e l ih =>
    intro h
    rw [mapM_cons] at h
    cases hframe : frameOfEntry e with
    | error err =>
      rw [hframe] at h
      cases h
      unfold frameOfEntry at hframe
      split at hframe <;> cases hframe
    | ok frame =>
      cases hrest : l.mapM frameOfEntry with
      | error err => rw [hframe, hrest] at h; cases h; exact ih hrest
      | ok rest => rw [hframe, hrest] at h; cases h

/-! ## The density invariant -/

/-- What `commitTS` keeps when every commit leaves its record: a timestamp that was handed out is
logged, still running, or a hole below everything that is. -/
structure LogInv (s : ReplStore) : Prop where
  running_pending : s.running ⊆ s.tsSource.pending
  log_le_version : ∀ t ∈ s.log, t ≤ s.maxVersion
  log_pos : ∀ t ∈ s.log, 0 < t
  version_lt_next : s.maxVersion < s.tsSource.next
  settled : ∀ t, 0 < t → t < s.tsSource.next → t ∈ s.log ∨ t ∈ s.running ∨
    (∀ u ∈ s.log, t < u) ∧ ∀ u ∈ s.running, t < u

/-- The condition on a step: a tombstone that is needed gets written, a commit without a log record
happens below every record and every running attempt and deletes no record, and the process does not
stop while an attempt runs below a committed version. -/
def Logged (s : ReplStore) : Event → Prop
  | .commitTS ts a =>
    (a.commits = false → a.tombstoneOk = true) ∧
    (a.commits = true → a.writer.logValue = [] →
      a.writer.deletedLog = [] ∧ (∀ t ∈ s.log.keys, ts < t) ∧ ∀ t ∈ s.running, ts ≤ t)
  | .restart => ∀ t ∈ s.running, s.maxVersion < t
  | .beginTs | .endTs _ => True

instance (s : ReplStore) : (e : Event) → Decidable (Logged s e)
  | .commitTS _ _ => inferInstanceAs (Decidable (_ ∧ _))
  | .restart => inferInstanceAs (Decidable (∀ t ∈ s.running, _))
  | .beginTs | .endTs _ => .isTrue trivial

theorem logInv_empty : LogInv .empty where
  running_pending := by intro t ht; exact ht
  log_le_version := by intro t ht; simp [ReplStore.empty] at ht
  log_pos := by intro t ht; simp [ReplStore.empty] at ht
  version_lt_next := by decide
  settled := by
    intro t hpos hlt
    have : t < 1 := hlt
    omega

section Step

variable {s : ReplStore} {ts : Nat}

theorem LogInv.beginTs (h : LogInv s) :
    LogInv { s with tsSource := s.tsSource.beginTs, running := insert s.tsSource.next s.running }
    where
  __ := h
  running_pending := Finset.insert_subset_insert _ h.running_pending
  version_lt_next := Nat.lt_succ_of_lt h.version_lt_next
  settled := by
    intro t hpos hlt
    rcases Nat.lt_succ_iff_lt_or_eq.mp hlt with hlt | rfl
    · rcases h.settled t hpos hlt with hlog | hrun | ⟨hlog, hrun⟩
      · exact .inl hlog
      · exact .inr (.inl (Finset.mem_insert_of_mem hrun))
      · refine .inr (.inr ⟨hlog, fun u hu => ?_⟩)
        rcases Finset.mem_insert.mp hu with rfl | hu
        · exact hlt
        · exact hrun u hu
    · exact .inr (.inl (Finset.mem_insert_self _ _))

theorem LogInv.endTs (h : LogInv s) (hrun : ts ∉ s.running) :
    LogInv { s with tsSource := s.tsSource.endTs ts } where
  __ := h
  running_pending := by
    intro t ht
    refine Finset.mem_erase.mpr ⟨?_, h.running_pending ht⟩
    rintro rfl
    exact hrun ht

/-- After a stop with nothing running below a committed version, the lost timestamps are handed out
again. -/
theorem LogInv.restart (h : LogInv s) (hok : ∀ t ∈ s.running, s.maxVersion < t) :
    LogInv { s with tsSource := .init s.maxVersion, running := ∅ } where
  __ := h
  running_pending := Finset.Subset.refl _
  version_lt_next := Nat.lt_succ_self _
  settled := by
    intro t hpos hlt
    have hle : t ≤ s.maxVersion := Nat.lt_succ_iff.mp hlt
    rcases h.settled t hpos (lt_of_le_of_lt hle h.version_lt_next) with hlog | hrun | ⟨hlog, -⟩
    · exact .inl hlog
    · exact absurd (hok t hrun) (not_lt.mpr hle)
    · exact .inr (.inr ⟨hlog, fun u hu => absurd hu (Finset.notMem_empty u)⟩)

/-- An attempt that settles with a record at its timestamp. -/
theorem LogInv.record (h : LogInv s) (hts : ts ∈ s.running) (v : Bytes) : LogInv { s with
      log := s.log.insert ts v
      maxVersion := max s.maxVersion ts
      running := s.running.erase ts } where
  running_pending := (Finset.erase_subset _ _).trans h.running_pending
  log_le_version := by
    intro t ht
    rcases mem_insert.mp ht with heq | ht
    · obtain rfl := Std.LawfulEqCmp.eq_of_compare heq
      exact le_max_right _ _
    · exact (h.log_le_version t ht).trans (le_max_left _ _)
  log_pos := by
    intro t ht
    rcases mem_insert.mp ht with heq | ht
    · obtain rfl := Std.LawfulEqCmp.eq_of_compare heq
      have := (s.tsSource.pending_mem _ (h.running_pending hts)).1
      omega
    · exact h.log_pos t ht
  version_lt_next := max_lt h.version_lt_next (s.tsSource.pending_mem _ (h.running_pending hts)).2
  settled := by
    intro t hpos hlt
    rcases h.settled t hpos hlt with hlog | hrun | ⟨hlog, hrun⟩
    · exact .inl (mem_insert.mpr (.inr hlog))
    · by_cases htt : t = ts
      · subst htt
        exact .inl Std.ExtTreeMap.mem_insert_self
      · exact .inr (.inl (Finset.mem_erase.mpr ⟨htt, hrun⟩))
    · refine .inr (.inr ⟨fun u hu => ?_, fun u hu => hrun u (Finset.mem_of_mem_erase hu)⟩)
      rcases mem_insert.mp hu with heq | hu
      · obtain rfl := Std.LawfulEqCmp.eq_of_compare heq
        exact hrun _ hts
      · exact hlog u hu

/-- An attempt that settles without a record, below everything logged or running. -/
theorem LogInv.hole (h : LogInv s) (hts : ts ∈ s.running) {v : Nat}
    (hlo : s.maxVersion ≤ v) (hhi : v ≤ max s.maxVersion ts)
    (hlog : ∀ t ∈ s.log, ts < t) (hrun : ∀ t ∈ s.running, ts ≤ t) :
    LogInv { s with maxVersion := v, running := s.running.erase ts } where
  running_pending := (Finset.erase_subset _ _).trans h.running_pending
  log_le_version := fun t ht => (h.log_le_version t ht).trans hlo
  log_pos := h.log_pos
  version_lt_next := lt_of_le_of_lt hhi
    (max_lt h.version_lt_next (s.tsSource.pending_mem _ (h.running_pending hts)).2)
  settled := by
    intro t hpos hlt
    rcases h.settled t hpos hlt with ht | ht | ⟨h1, h2⟩
    · exact .inl ht
    · by_cases htt : t = ts
      · subst htt
        refine .inr (.inr ⟨hlog, fun u hu => ?_⟩)
        obtain ⟨hne, hu⟩ := Finset.mem_erase.mp hu
        exact lt_of_le_of_ne (hrun u hu) (Ne.symm hne)
      · exact .inr (.inl (Finset.mem_erase.mpr ⟨htt, ht⟩))
    · exact .inr (.inr ⟨h1, fun u hu => h2 u (Finset.mem_of_mem_erase hu)⟩)

theorem commitAt_eq (s : ReplStore) (ts : Nat) {a : Attempt} (hd : a.writer.deletedLog = []) :
    s.commitAt ts a = { s with
      log := if a.writer.logValue = [] then s.log else s.log.insert ts a.writer.logValue
      maxVersion :=
        if a.wrote || a.writer.logValue ≠ [] then max s.maxVersion ts else s.maxVersion } := by
  have hkept : (s.log.filter fun t _ => t ∉ a.writer.deletedLog) = s.log := by
    apply Std.ExtTreeMap.ext_getElem?
    intro t
    rw [Std.ExtTreeMap.getElem?_filter, hd]
    simp only [not_mem_nil, not_false_eq_true, decide_true, Option.pfilter_eq_filter]
    cases s.log[t]? <;> rfl
  rw [ReplStore.commitAt, hkept]

theorem Writer.deletedLog_of_logValue {w : Writer} (h : w.logValue ≠ []) : w.deletedLog = [] := by
  cases w <;> simp_all [Writer.logValue, Writer.deletedLog]

/-- A commit attempt under the condition, in the state its event leaves. -/
theorem LogInv.commitTS (h : LogInv s) (hts : ts ∈ s.running) {a : Attempt}
    (hok : Logged s (.commitTS ts a)) :
    LogInv { s.commitTS ts a with running := s.running.erase ts } := by
  rw [ReplStore.commitTS_eq]
  cases hc : a.commits with
  | false =>
    rw [ReplStore.writeNoopTombstone, if_pos (hok.1 hc)]
    exact h.record hts _
  | true =>
    by_cases hv : a.writer.logValue = []
    · obtain ⟨hd, hlog, hrun⟩ := hok.2 hc hv
      rw [commitAt_eq s ts hd]
      simp only [hv, if_true]
      apply h.hole hts _ _ (fun t ht => hlog t (Std.ExtTreeMap.mem_keys.mpr ht)) hrun
      · split
        · exact le_max_left _ _
        · exact le_rfl
      · split
        · exact le_rfl
        · exact le_max_left _ _
    · rw [commitAt_eq s ts (Writer.deletedLog_of_logValue hv)]
      simp only [hv, if_false, ne_eq, not_false_eq_true, decide_true, Bool.or_true, if_true]
      exact h.record hts _

theorem logInv_step {s' : ReplStore} {e : Event} (h : LogInv s) (hok : Logged s e)
    (hs : s.step e = some s') : LogInv s' := by
  cases e with
  | beginTs => cases hs; exact h.beginTs
  | commitTS ts a =>
    obtain ⟨hts, rfl⟩ := ReplStore.step_commitTS hs
    exact h.commitTS hts hok
  | endTs ts =>
    obtain ⟨hts, rfl⟩ := ReplStore.step_endTs hs
    exact h.endTs hts.2
  | restart => cases hs; exact h.restart hok

end Step

/-! ## Density of every reachable state -/

/-- Every timestamp from the first record to the completed watermark has a record. -/
def Dense (s : ReplStore) : Prop :=
  s.log ≠ ∅ → ∀ t, s.replLogStartTS ≤ t → t ≤ s.replLogDoneTS → t ∈ s.log

theorem LogInv.dense (h : LogInv s) : Dense s := by
  intro hne t hlo hhi
  obtain ⟨hstart, -⟩ := ReplStore.replLogStartTS_spec hne
  have hpos : 0 < t := lt_of_lt_of_le (h.log_pos _ hstart) hlo
  have hnext : t < s.tsSource.next := lt_of_le_of_lt hhi s.tsSource.done_lt_next
  rcases h.settled t hpos hnext with hlog | hrun | ⟨hlog, -⟩
  · exact hlog
  · -- nothing at or below the watermark is in flight
    exact absurd (h.running_pending hrun) (TsSource.not_mem_pending_of_le_done hhi)
  · have := hlog _ hstart
    omega

theorem Dense.mem_of_mem (h : Dense s) {u t : Nat} (hu : u ∈ s.log) (hut : u ≤ t)
    (ht : t ≤ s.replLogDoneTS) : t ∈ s.log := by
  have hne : s.log ≠ ∅ := by
    rintro hemp
    rw [hemp] at hu
    simp at hu
  exact h hne t (((ReplStore.replLogStartTS_spec hne).2 u hu).trans hut) ht

theorem Dense.verify (h : Dense s) (since : Nat) :
    verifyFeedTSContinuity (s.replLogEntriesRange since s.replLogDoneTS) = .ok () := by
  apply verifyFeedTSContinuity_ok replLogEntriesRange_sorted
  intro e he f hf t het htf
  obtain ⟨hel, hes, -⟩ := mem_replLogEntriesRange.mp he
  obtain ⟨-, -, hfd⟩ := mem_replLogEntriesRange.mp hf
  have hmem : t ∈ s.log := h.mem_of_mem (mem_log_iff_getElem?.mpr ⟨_, hel⟩) het (htf.trans hfd)
  obtain ⟨v, hv⟩ := mem_log_iff_getElem?.mp hmem
  exact ⟨(t, v), mem_replLogEntriesRange.mpr ⟨hv, hes.trans het, htf.trans hfd⟩, rfl⟩

/-- The first record read from a cursor inside the log is the one at the cursor. -/
theorem Dense.head (h : Dense s) {u since : Nat} (hu : u ∈ s.log) (hus : u ≤ since) :
    ∀ e ∈ (s.replLogEntriesRange since s.replLogDoneTS).head?, e.1 = since := by
  intro e he
  have hsorted : (s.replLogEntriesRange since s.replLogDoneTS).Pairwise fun e f => e.1 < f.1 :=
    replLogEntriesRange_sorted
  cases hl : s.replLogEntriesRange since s.replLogDoneTS with
  | nil => rw [hl] at he; cases he
  | cons a rest =>
    rw [hl] at he hsorted
    obtain rfl : a = e := by simpa using he
    obtain ⟨-, hlo, hhi⟩ := mem_replLogEntriesRange.mp (hl ▸ mem_cons_self)
    obtain ⟨v, hv⟩ := mem_log_iff_getElem?.mp (h.mem_of_mem hu hus (hlo.trans hhi))
    have hin : (since, v) ∈ a :: rest :=
      hl ▸ mem_replLogEntriesRange.mpr ⟨hv, le_rfl, hlo.trans hhi⟩
    rcases mem_cons.mp hin with heq | hin
    · rw [← heq]
    · have := (pairwise_cons.mp hsorted).1 _ hin
      exact absurd hlo (not_le.mpr this)

/-- **Feed density.** In every state reached by commits that leave their record (and by restarts
that lose no attempt below a committed version), every timestamp between the first record and the
completed watermark has a record; a read of the feed never reports a hole; and a replica whose
watermark lies in the log finds no gap in the frames it is sent. -/
theorem feed_dense {es : List Event} {s : ReplStore}
    (hok : Meets ReplStore.step Logged .empty es)
    (hrun : run ReplStore.step .empty es = some s) :
    Dense s ∧
    (∀ since ts expected, s.feedEntriesFrom since ≠ .error (.logGap ts expected)) ∧
    (∀ prev ∈ s.log, ∀ fs, s.feedEntriesFrom (prev + 1) = .ok fs →
      checkFrames prev fs = .ok ()) := by
  have hinv : LogInv s := run_invariant (fun _ _ _ h hok hs => logInv_step h hok hs)
    logInv_empty hok hrun
  have hd := hinv.dense
  refine ⟨hd, fun since ts expected hfeed => ?_, fun prev hprev fs hfs => ?_⟩
  · rw [ReplStore.feedEntriesFrom, hd.verify since] at hfeed
    exact mapM_frameOfEntry_ne_logGap hfeed
  · rw [ReplStore.feedEntriesFrom, hd.verify (prev + 1)] at hfs
    exact checkFrames_ok (hd.verify (prev + 1)) (hd.head hprev (Nat.le_succ prev)) hfs

/-- An attempt of `w` that commits. -/
def Attempt.ok (w : Writer) (wrote : Bool) : Attempt where
  writer := w
  fnError := false
  setError := false
  commitError := false
  tombstoneOk := true
  wrote

/-- One write at timestamp `ts`, run to its end without interruption. -/
def Event.whole (ts : Nat) (a : Attempt) : List Event := [.beginTs, .commitTS ts a, .endTs ts]

/-- `SET a 1`. -/
def setA : Writer := .command ["SET", "a", "1"]

/-- Two interleaved commands, the second one failing with a tombstone, and a restart. -/
def interleaved : List Event :=
  [.beginTs, .beginTs, .commitTS 2 { Attempt.ok setA true with commitError := true },
    .commitTS 1 (.ok setA true), .endTs 2, .endTs 1, .restart, .beginTs]

theorem feed_dense_interleaved : ∃ s, run ReplStore.step .empty interleaved = some s ∧ Dense s ∧
    (∀ since ts expected, s.feedEntriesFrom since ≠ .error (.logGap ts expected)) ∧
    (∀ prev ∈ s.log, ∀ fs, s.feedEntriesFrom (prev + 1) = .ok fs →
      checkFrames prev fs = .ok ()) :=
  ⟨_, rfl, @feed_dense interleaved _ (by decide +kernel) rfl⟩

/-- A write, a restart whose `NextStartup` finds nothing to clean, another write: timestamp 2 was
taken and has no record. -/
def startupHole : List Event :=
  Event.whole 1 (.ok setA true) ++ [.restart] ++ Event.whole 2 (.ok .nextStartup false) ++
    Event.whole 3 (.ok setA true)

theorem startup_leaves_hole : ∃ s, run ReplStore.step .empty startupHole = some s ∧
    ¬ Dense s ∧ s.feedEntriesFrom 1 = .error (.logGap 3 2) := by
  refine ⟨_, rfl, ?_, by decide +kernel⟩
  intro hd
  exact absurd (hd.mem_of_mem (u := 1) (t := 2) (by decide +kernel) (by decide) (by decide +kernel))
    (by decide +kernel)

end BoltDB.Replication
