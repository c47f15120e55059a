import BoltDB.Replication.Session

/-!
# Exactly-once, in-order apply

Whatever is sent, lost, sent again or cut off on the way, the replica applies the master's log
entries after its starting watermark one by one: each frame on the connection is an entry of the
master's history, and the replica takes a frame only if it is the successor of its watermark.

The first half rests on the log codec, so it holds for commands whose arguments are free of CR LF.
-/

namespace BoltDB.Replication

open Bytes Transition List Std.ExtTreeMap Option

/-! ## The master's history -/

/-- The records of the log are entries of the history, and an entry never changes: attempts that
still run have no entry, and later attempts get larger timestamps. -/
structure MasterInv (m : Master) : Prop where
  running_pending : m.store.running ⊆ m.store.tsSource.pending
  version_lt_next : m.store.maxVersion < m.store.tsSource.next
  hist_le_version : ∀ t ∈ m.hist, t ≤ m.store.maxVersion
  hist_not_running : ∀ t ∈ m.hist, t ∉ m.store.running
  log_hist : ∀ (t : Nat) b, m.store.log[t]? = some b →
    ∃ args, m.hist[t]? = some args ∧ b = encodePropagateCommand args

/-- The arguments a writer puts into the log. -/
def Writer.args : Writer → List Bytes
  | .command args => args
  | _ => []

/-- Commands whose arguments are free of CR LF. -/
def CleanEvent : Event → Prop
  | .commitTS _ a => ∀ x ∈ a.writer.args, CrlfFree x
  | .beginTs | .endTs _ | .restart => True

instance : (e : Event) → Decidable (CleanEvent e)
  | .commitTS _ a => inferInstanceAs (Decidable (∀ x ∈ a.writer.args, CrlfFree x))
  | .beginTs | .endTs _ | .restart => .isTrue trivial

theorem masterInv_start (replId : Bytes) : MasterInv (.start replId) where
  running_pending := fun _ h => h
  version_lt_next := Nat.zero_lt_one
  hist_le_version := by intro t ht; simp [Master.start] at ht
  hist_not_running := by intro t ht; simp [Master.start] at ht
  log_hist := by intro t b h; simp [Master.start, ReplStore.empty] at h

theorem Attempt.recorded_eq_some {a : Attempt} {args : List Bytes} (h : a.recorded = some args) :
    (a.commits = true ∧ a.writer = .command args) ∨
      (a.commits = false ∧ a.tombstoneOk = true ∧ args = [ascii "NOOP"]) := by
  unfold Attempt.recorded at h
  split at h
  · next hc =>
    split at h
    · next hw => cases h; exact .inl ⟨hc, hw⟩
    · cases h
  · next hc =>
    split at h
    · next hk => cases h; exact .inr ⟨by simpa using hc, hk, rfl⟩
    · cases h

/-- The log after an attempt, with the record it leaves. -/
theorem ReplStore.commitTS_log (s : ReplStore) (ts : Nat) (a : Attempt) : (s.commitTS ts a).log =
      let kept := if a.commits then s.log.filter fun t _ => t ∉ a.writer.deletedLog else s.log
      match a.recorded with
      | some args => kept.insert ts (encodePropagateCommand args)
      | none => kept := by
  rw [ReplStore.commitTS_eq]
  cases hc : a.commits with
  | false =>
    cases hk : a.tombstoneOk <;> simp [ReplStore.writeNoopTombstone, Attempt.recorded, hc, hk,
      noopLogValue]
  | true =>
    cases hw : a.writer <;> simp [ReplStore.commitAt, Attempt.recorded, hc, hw, Writer.logValue,
      encodePropagateCommand]

@[simp] theorem ReplStore.commitTS_tsSource (s : ReplStore) (ts : Nat) (a : Attempt) :
    (s.commitTS ts a).tsSource = s.tsSource := by
  rw [ReplStore.commitTS_eq, ReplStore.writeNoopTombstone]
  split
  · rfl
  · split <;> rfl

/-- A record comes with its version. -/
theorem ReplStore.commitTS_maxVersion (s : ReplStore) (ts : Nat) (a : Attempt) :
    s.maxVersion ≤ (s.commitTS ts a).maxVersion ∧
      (s.commitTS ts a).maxVersion ≤ max s.maxVersion ts ∧
      (a.recorded.isSome → ts ≤ (s.commitTS ts a).maxVersion) := by
  have hcase : (s.commitTS ts a).maxVersion = max s.maxVersion ts ∨
      (s.commitTS ts a).maxVersion = s.maxVersion ∧ a.recorded = none := by
    rw [ReplStore.commitTS_eq]
    cases hc : a.commits with
    | false =>
      cases hk : a.tombstoneOk with
      | false => exact .inr ⟨rfl, by simp [Attempt.recorded, hc, hk]⟩
      | true => exact .inl rfl
    | true =>
      simp only [if_true, ReplStore.commitAt]
      split
      · exact .inl rfl
      · next hnone =>
        refine .inr ⟨rfl, ?_⟩
        cases hw : a.writer with
        | command args => simp [hw, Writer.logValue_command_ne_nil] at hnone
        | _ => simp [Attempt.recorded, hc, hw]
  rcases hcase with heq | ⟨heq, hnone⟩
  · rw [heq]
    exact ⟨le_max_left _ _, le_rfl, fun _ => le_max_right _ _⟩
  · rw [heq, hnone]
    exact ⟨le_rfl, le_max_left _ _, by simp⟩

variable {e : Event} {f : Frame} {hist : History} {fs : List Frame} {m : Master} {ts : Nat}

theorem mem_histAfter_commitTS {t : Nat} {a : Attempt} (h : t ∈ m.histAfter (.commitTS ts a)) :
    t ∈ m.hist ∨ t = ts ∧ a.recorded.isSome := by
  simp only [Master.histAfter] at h
  split at h
  · next args hrec =>
    rcases mem_insert.mp h with heq | h
    · exact .inr ⟨(Std.LawfulEqCmp.eq_of_compare heq).symm, by simp [hrec]⟩
    · exact .inl h
  · exact .inl h

section MasterStep

variable {m m' : Master} {e : Event}

/-- **Entries never change.** A step of the master keeps every entry of its history. -/
theorem MasterInv.hist_mono (h : MasterInv m) (hs : m.step e = some m') {t : Nat}
    {args : List Bytes} (ht : m.hist[t]? = some args) : m'.hist[t]? = some args := by
  obtain ⟨s, hstep, rfl⟩ := map_eq_some_iff.mp hs
  cases e with
  | commitTS ts a =>
    obtain ⟨hrun, rfl⟩ := ReplStore.step_commitTS hstep
    -- the attempt is still running, so its timestamp has no entry yet
    have hne : ts ≠ t := by
      rintro rfl
      exact h.hist_not_running ts (mem_iff_isSome_getElem?.mpr (by simp [ht])) hrun
    simp only [Master.histAfter]
    split
    · rw [Std.ExtTreeMap.getElem?_insert, if_neg]
      · exact ht
      · exact fun heq => hne (Std.LawfulEqCmp.eq_of_compare heq)
    · exact ht
  | beginTs => exact ht
  | endTs ts => exact ht
  | restart => exact ht

theorem MasterInv.commitTS (h : MasterInv m) {ts : Nat} {a : Attempt}
    (hrun : ts ∈ m.store.running) :
    MasterInv { m with
      store := { m.store.commitTS ts a with running := m.store.running.erase ts }
      hist := m.histAfter (.commitTS ts a) } where
  running_pending := by
    intro t ht
    simpa using h.running_pending (Finset.mem_of_mem_erase ht)
  version_lt_next := by
    have hts := (m.store.tsSource.pending_mem _ (h.running_pending hrun)).2
    have hle := (m.store.commitTS_maxVersion ts a).2.1
    have hlt : max m.store.maxVersion ts < m.store.tsSource.next := max_lt h.version_lt_next hts
    simpa using lt_of_le_of_lt hle hlt
  hist_le_version := by
    intro t ht
    obtain ⟨hmono, -, hown⟩ := m.store.commitTS_maxVersion ts a
    rcases mem_histAfter_commitTS ht with ht | ⟨rfl, hrec⟩
    · exact (h.hist_le_version t ht).trans hmono
    · exact hown hrec
  hist_not_running := by
    intro t ht hin
    obtain ⟨hne, hin⟩ := Finset.mem_erase.mp hin
    rcases mem_histAfter_commitTS ht with ht | ⟨rfl, -⟩
    · exact h.hist_not_running t ht hin
    · exact hne rfl
  log_hist := by
    intro t b hb
    have hkept : ∀ b, (if a.commits then m.store.log.filter fun t _ => t ∉ a.writer.deletedLog
        else m.store.log)[t]? = some b → ∃ args, m.hist[t]? = some args ∧
          b = encodePropagateCommand args := by
      intro b hb
      split at hb
      · rw [Std.ExtTreeMap.getElem?_filter] at hb
        exact h.log_hist t b (pfilter_eq_some_iff.mp hb).1
      · exact h.log_hist t b hb
    change (m.store.commitTS ts a).log[t]? = some b at hb
    rw [ReplStore.commitTS_log] at hb
    simp only [Master.histAfter]
    cases hrec : a.recorded with
    | none =>
      rw [hrec] at hb
      exact hkept b hb
    | some args =>
      rw [hrec] at hb
      simp only [Std.ExtTreeMap.getElem?_insert] at hb ⊢
      split at hb
      · next heq =>
        cases hb
        exact ⟨args, by rw [if_pos heq], rfl⟩
      · next hcmp =>
        obtain ⟨args', ht, hb⟩ := hkept b hb
        exact ⟨args', by rw [if_neg hcmp]; exact ht, hb⟩

theorem masterInv_step (h : MasterInv m) (hs : m.step e = some m') : MasterInv m' := by
  obtain ⟨s, hstep, rfl⟩ := map_eq_some_iff.mp hs
  cases e with
  | beginTs =>
    cases hstep
    refine ⟨Finset.insert_subset_insert _ h.running_pending, Nat.lt_succ_of_lt h.version_lt_next,
      h.hist_le_version, ?_, h.log_hist⟩
    intro t ht hin
    rcases Finset.mem_insert.mp hin with rfl | hin
    · exact absurd (h.hist_le_version _ ht) (not_le.mpr h.version_lt_next)
    · exact h.hist_not_running t ht hin
  | commitTS ts a =>
    obtain ⟨hrun, rfl⟩ := ReplStore.step_commitTS hstep
    exact h.commitTS hrun
  | endTs ts =>
    obtain ⟨hts, rfl⟩ := ReplStore.step_endTs hstep
    refine { h with running_pending := fun t ht => ?_ }
    refine Finset.mem_erase.mpr ⟨?_, h.running_pending ht⟩
    rintro rfl
    exact hts.2 ht
  | restart =>
    cases hstep
    exact ⟨Finset.Subset.refl _, Nat.lt_succ_self _, h.hist_le_version,
      fun t _ hin => absurd hin (Finset.notMem_empty t), h.log_hist⟩

/-- No argument in the history holds a CR LF. -/
def CleanHist (hist : History) : Prop :=
  ∀ (t : Nat) args, hist[t]? = some args → ∀ x ∈ args, CrlfFree x

theorem cleanHist_step (h : CleanHist m.hist) (he : CleanEvent e) (hs : m.step e = some m') :
    CleanHist m'.hist := by
  obtain ⟨s, hstep, rfl⟩ := map_eq_some_iff.mp hs
  cases e with
  | commitTS ts a =>
    intro t args ht
    simp only [Master.histAfter] at ht
    split at ht
    · next args' hrec =>
      rw [Std.ExtTreeMap.getElem?_insert] at ht
      split at ht
      · cases ht
        rcases Attempt.recorded_eq_some hrec with ⟨-, hw⟩ | ⟨-, -, rfl⟩
        · have he : ∀ x ∈ a.writer.args, CrlfFree x := he
          rwa [hw] at he
        · intro x hx
          obtain rfl := mem_singleton.mp hx
          decide
      · exact h t args ht
    · exact h t args ht
  | beginTs => exact h
  | endTs ts => exact h
  | restart => exact h

/-- A run of clean events: the invariants hold at its end, and no entry has changed. -/
theorem masterRun {es : List Event} (hm : MasterInv m) (hc : CleanHist m.hist)
    (he : ∀ e ∈ es, CleanEvent e) (hrun : run Master.step m es = some m') :
    MasterInv m' ∧ CleanHist m'.hist ∧
      ∀ (t : Nat) args, m.hist[t]? = some args → m'.hist[t]? = some args := by
  induction es generalizing m with
  | nil => cases hrun; exact ⟨hm, hc, fun _ _ h => h⟩
  | cons e es ih =>
    obtain ⟨m1, hs, hrest⟩ := run_cons_eq_some.mp hrun
    obtain ⟨h1, h2, h3⟩ := ih (masterInv_step hm hs) (cleanHist_step hc (he e mem_cons_self) hs)
      (fun x hx => he x (mem_cons_of_mem e hx)) hrest
    exact ⟨h1, h2, fun t args ht => h3 t args (hm.hist_mono hs ht)⟩

end MasterStep

theorem cleanEvent_of_mem_whole {w : Writer} {b : Bool} (hw : ∀ x ∈ w.args, CrlfFree x)
    (h : e ∈ Event.whole ts (.ok w b)) : CleanEvent e := by
  simp only [Event.whole, mem_cons, not_mem_nil, or_false] at h
  rcases h with rfl | rfl | rfl
  · exact trivial
  · exact hw
  · exact trivial

theorem cleanEvent_deleteBatches {batches : List (List Nat)}
    (h : e ∈ Master.deleteBatches ts batches) : CleanEvent e := by
  induction batches generalizing ts with
  | nil => cases h
  | cons b bs ih =>
    rcases mem_append.mp h with h | h
    · exact cleanEvent_of_mem_whole (by simp [Writer.args]) h
    · exact ih h

theorem cleanEvent_flushDB {batches : List (List Nat)} (h : e ∈ Master.flushDBEvents ts batches) :
    CleanEvent e := by
  simp only [Master.flushDBEvents, mem_append] at h
  rcases h with h | h | h
  · exact cleanEvent_of_mem_whole (by simp [Writer.args]) h
  · exact cleanEvent_deleteBatches h
  · exact cleanEvent_of_mem_whole (by decide) h

/-! ## Frames are entries -/

theorem parseReplLogValue_eq {args parsed : List Bytes} (h : ∀ x ∈ args, CrlfFree x)
    (hp : parseReplLogValue (encodePropagateCommand args) = some parsed) : parsed = args := by
  by_cases hne : args = []
  · subst hne
    cases hp
  · rw [parseReplLogValue, parseCommandEvents_encode hne h] at hp
    simp only at hp
    split at hp
    · split at hp
      · cases hp; rfl
      · cases hp
    · cases hp; rfl

theorem mem_mapM_frameOfEntry {l : List (Nat × Bytes)} (h : l.mapM frameOfEntry = .ok fs)
    (hf : f ∈ fs) : ∃ e ∈ l, f.ts = e.1 ∧ parseReplLogValue e.2 = some f.args := by
  induction l generalizing fs with
  | nil => cases h; cases hf
  | cons e l ih =>
    rw [mapM_cons] at h
    cases hframe : frameOfEntry e with
    | error err => rw [hframe] at h; cases h
    | ok frame =>
      cases hrest : l.mapM frameOfEntry with
      | error err => rw [hframe, hrest] at h; cases h
      | ok rest =>
        rw [hframe, hrest] at h
        cases h
        rcases mem_cons.mp hf with rfl | hf
        · refine ⟨e, mem_cons_self, ?_⟩
          unfold frameOfEntry at hframe
          split at hframe
          · next args hparse => cases hframe; exact ⟨rfl, hparse⟩
          · cases hframe
        · obtain ⟨e', he', hfe⟩ := ih hrest hf
          exact ⟨e', mem_cons_of_mem e he', hfe⟩

/-- The entries a feed reads, once they pass the continuity check. -/
theorem feedEntriesFrom_ok {s : ReplStore} {since : Nat} (h : s.feedEntriesFrom since = .ok fs) :
    verifyFeedTSContinuity (s.replLogEntriesRange since s.replLogDoneTS) = .ok () ∧
      (s.replLogEntriesRange since s.replLogDoneTS).mapM frameOfEntry = .ok fs := by
  unfold ReplStore.feedEntriesFrom at h
  cases hv : verifyFeedTSContinuity (s.replLogEntriesRange since s.replLogDoneTS) with
  | error err => simp only [hv] at h; cases h
  | ok u => simp only [hv] at h; exact ⟨rfl, h⟩

/-- What a feed sends are entries of the master's history, at or below the watermark. -/
theorem feedEntriesFrom_hist (hm : MasterInv m) (hc : CleanHist m.hist) {since : Nat}
    (h : m.store.feedEntriesFrom since = .ok fs) (hf : f ∈ fs) :
    m.hist[f.ts]? = some f.args ∧ since ≤ f.ts ∧ f.ts ≤ m.store.replLogDoneTS := by
  obtain ⟨e, he, hts, hparse⟩ := mem_mapM_frameOfEntry (feedEntriesFrom_ok h).2 hf
  obtain ⟨hlog, hlo, hhi⟩ := mem_replLogEntriesRange.mp he
  obtain ⟨args, hargs, henc⟩ := hm.log_hist e.1 e.2 hlog
  rw [henc] at hparse
  rw [parseReplLogValue_eq (hc e.1 args hargs) hparse, hts]
  exact ⟨hargs, hlo, hhi⟩

/-! ## What the replica applies -/

/-- The applied commands are the entries `base + 1, ..., last` of the history, in this order. -/
structure AppliedExactly (hist : History) (base last : Nat) (applied : List Frame) : Prop where
  base_le : base ≤ last
  timestamps : applied.map (·.ts) = List.range' (base + 1) (last - base)
  entries : ∀ f ∈ applied, hist[f.ts]? = some f.args

theorem AppliedExactly.mono {hist' : History} {base last : Nat} {applied : List Frame}
    (h : AppliedExactly hist base last applied)
    (hmono : ∀ (t : Nat) args, hist[t]? = some args → hist'[t]? = some args) :
    AppliedExactly hist' base last applied :=
  ⟨h.base_le, h.timestamps, fun f hf => hmono _ _ (h.entries f hf)⟩

theorem AppliedExactly.snoc {base last : Nat} {applied : List Frame}
    (h : AppliedExactly hist base last applied) (hts : f.ts = last + 1)
    (hf : hist[f.ts]? = some f.args) : AppliedExactly hist base f.ts (applied ++ [f]) where
  base_le := by have := h.base_le; omega
  timestamps := by
    have hlen : f.ts - base = (last - base) + 1 := by have := h.base_le; omega
    have hlast : base + 1 + (last - base) = f.ts := by have := h.base_le; omega
    rw [map_append, h.timestamps, hlen, range'_1_concat, hlast]
    rfl
  entries := by
    intro g hg
    rcases mem_append.mp hg with hg | hg
    · exact h.entries g hg
    · obtain rfl := mem_singleton.mp hg
      exact hf

variable {σ : Type}

/-- A frame on its way: sent and not read, or about to be sent. -/
def Link.Carries (l : Link σ) (f : Frame) : Prop :=
  .frame f ∈ l.wire ∨ ∃ d, l.sending = some d ∧ f ∈ d.frames

/-- Everything on the connection is an entry of the history, and so is everything applied. -/
structure SessionInv (w : World σ) : Prop where
  master : MasterInv w.master
  clean : CleanHist w.master.hist
  carries : ∀ l, w.link = some l → ∀ f, l.Carries f → w.master.hist[f.ts]? = some f.args
  applied : 0 < w.replica.base → AppliedExactly w.master.hist w.replica.base
    w.replica.lastAppliedTS w.replica.applied

/-- The arguments of the commands the master commits are free of CR LF. -/
def CleanAction (_ : World σ) : Action σ → Prop
  | .master e => CleanEvent e
  | .flushDB _ | .psync | .replLogCurrentTS | .sendRDB _ | .catchUp | .feedRead | .feedSend _
  | .feedDone | .read _ | .disconnect | .replicaRestart => True

instance (w : World σ) : (a : Action σ) → Decidable (CleanAction w a)
  | .master e => inferInstanceAs (Decidable (CleanEvent e))
  | .flushDB _ | .psync | .replLogCurrentTS | .sendRDB _ | .catchUp | .feedRead | .feedSend _
  | .feedDone | .read _ | .disconnect | .replicaRestart => .isTrue trivial

/-- The master moves on, keeping its entries; the connection stays or is lost. -/
theorem SessionInv.ofMaster {w : World σ} (h : SessionInv w) (hm : MasterInv m)
    (hc : CleanHist m.hist)
    (hmono : ∀ (t : Nat) args, w.master.hist[t]? = some args → m.hist[t]? = some args)
    {link : Option (Link σ)} (hlink : link = none ∨ link = w.link) :
    SessionInv { w with master := m, link := link } where
  master := hm
  clean := hc
  carries := by
    intro l hl f hf
    rcases hlink with rfl | rfl
    · cases hl
    · exact hmono _ _ (h.carries l hl f hf)
  applied := fun hb => (h.applied hb).mono hmono

/-- The connection changes and the replica does not. -/
theorem SessionInv.ofLink {w : World σ} (h : SessionInv w) {link : Option (Link σ)}
    (hlink : ∀ l, link = some l → ∀ f, l.Carries f → w.master.hist[f.ts]? = some f.args) :
    SessionInv { w with link := link } :=
  ⟨h.master, h.clean, hlink, h.applied⟩

theorem checkFeedTSGap_ok {prev : Nat} {u : Unit} (h : checkFeedTSGap prev ts = .ok u)
    (hpos : 0 < prev) : ts = prev + 1 := by
  unfold checkFeedTSGap at h
  split at h
  · cases h
  · next hno =>
    by_contra hne
    exact hno ⟨hpos, hne⟩

/-- One message read by the replica. -/
theorem read_applied {effect : List Bytes → σ → σ} {p : Replica σ} {phase : Phase} {msg : Msg σ}
    {r : ReadResult σ} (h : 0 < p.base → AppliedExactly hist p.base p.lastAppliedTS p.applied)
    (hmsg : ∀ f, msg = .frame f → hist[f.ts]? = some f.args) :
    0 < (p.read effect phase msg r).1.base → AppliedExactly hist (p.read effect phase msg r).1.base
        (p.read effect phase msg r).1.lastAppliedTS (p.read effect phase msg r).1.applied := by
  have hadvance : ∀ {f s u}, msg = .frame f → checkFeedTSGap p.lastAppliedTS f.ts = .ok u →
      0 < (p.advance f s).base → AppliedExactly hist (p.advance f s).base
        (p.advance f s).lastAppliedTS (p.advance f s).applied := by
    intro f s u hf hgap hb
    have hlast : 0 < p.lastAppliedTS := lt_of_lt_of_le hb (h hb).base_le
    exact (h hb).snoc (checkFeedTSGap_ok hgap hlast) (hmsg f hf)
  unfold Replica.read
  split
  · intro _
    exact ⟨le_rfl, by simp, by simp⟩
  · exact h
  · split
    · exact h
    · exact h
    · exact h
  · next f =>
    split
    · exact h
    · next hgap =>
      split
      · exact hadvance rfl hgap
      · split
        · exact h
        · exact h
        · exact hadvance rfl hgap
  · exact h

section SessionStep

variable {effect : List Bytes → σ → σ} {w w' : World σ} {a : Action σ}

section Actions

variable (h : SessionInv w)

include h

theorem sessionInv_master {e : Event} (hok : CleanEvent e)
    (hs : w.step effect (.master e) = some w') : SessionInv w' := by
  obtain ⟨m, hm, rfl⟩ := map_eq_some_iff.mp hs
  refine h.ofMaster (masterInv_step h.master hm) (cleanHist_step h.clean hok hm)
    (fun t args ht => h.master.hist_mono hm ht) ?_
  split
  · exact .inl rfl
  · exact .inr rfl

theorem sessionInv_flushDB {batches : List (List Nat)}
    (hs : w.step effect (.flushDB batches) = some w') : SessionInv w' := by
  simp only [World.step] at hs
  split at hs
  · obtain ⟨m, hm, rfl⟩ := map_eq_some_iff.mp hs
    obtain ⟨h1, h2, h3⟩ := masterRun h.master h.clean (fun e he => cleanEvent_flushDB he) hm
    exact h.ofMaster h1 h2 h3 (.inr rfl)
  · cases hs

theorem sessionInv_psync (hs : w.step effect .psync = some w') : SessionInv w' := by
  simp only [World.step] at hs
  split at hs
  · cases hs
  · cases hs
    apply h.ofLink
    rintro l hl f (hf | ⟨d, hd, -⟩)
    · cases hl
      split at hf <;> simp at hf
    · cases hl
      cases hd

theorem sessionInv_replLogCurrentTS (hs : w.step effect .replLogCurrentTS = some w') :
    SessionInv w' := by
  simp only [World.step] at hs
  split at hs
  · next l hl =>
    split at hs
    · cases hs
      exact h.ofLink fun l' hl' f hf => by cases hl'; exact h.carries l hl f hf
    · cases hs
  · cases hs

/-- An RDB is no frame. -/
theorem sessionInv_sendRDB {rdb : σ} (hs : w.step effect (.sendRDB rdb) = some w') :
    SessionInv w' := by
  simp only [World.step] at hs
  split at hs
  · next l hl =>
    split at hs
    · cases hs
      apply h.ofLink
      rintro l' hl' f hf
      cases hl'
      apply h.carries l hl f
      rcases hf with hf | hf
      · exact .inl (by simpa using hf)
      · exact .inr hf
    · cases hs
  · cases hs

theorem sessionInv_catchUp (hs : w.step effect .catchUp = some w') : SessionInv w' := by
  simp only [World.step] at hs
  split at hs
  · next l hl =>
    split at hs
    · cases hs
      exact h.ofLink fun l' hl' f hf => by cases hl'; exact h.carries l hl f hf
    · cases hs
  · cases hs

/-- What a `FeedSlave` call reads are entries of the history. -/
theorem sessionInv_feedRead (hs : w.step effect .feedRead = some w') : SessionInv w' := by
  simp only [World.step] at hs
  split at hs
  · next l hl =>
    split at hs
    · split at hs
      · next f fs hfeed =>
        cases hs
        apply h.ofLink
        rintro l' hl' g (hg | ⟨d, hd, hg⟩)
        · cases hl'
          exact h.carries l hl g (.inl hg)
        · cases hl'
          cases hd
          exact (feedEntriesFrom_hist h.master h.clean hfeed hg).1
      · cases hs; exact h
    · cases hs
  · cases hs

theorem sessionInv_feedSend {ok : Bool} (hs : w.step effect (.feedSend ok) = some w') :
    SessionInv w' := by
  simp only [World.step] at hs
  split at hs
  · next l hl =>
    split at hs
    · next f fs lastTS hsend =>
      have hold : ∀ g ∈ f :: fs, w.master.hist[g.ts]? = some g.args :=
        fun g hg => h.carries l hl g (.inr ⟨_, hsend, hg⟩)
      split at hs
      · cases hs
        apply h.ofLink
        rintro l' hl' g (hg | ⟨d, hd, hg⟩)
        · cases hl'
          rcases mem_append.mp hg with hg | hg
          · exact h.carries l hl g (.inl hg)
          · cases mem_singleton.mp hg
            exact hold f mem_cons_self
        · cases hl'
          cases hd
          exact hold g (mem_cons_of_mem f hg)
      · cases hs
        apply h.ofLink
        rintro l' hl' g (hg | ⟨d, hd, -⟩)
        · cases hl'
          exact h.carries l hl g (.inl hg)
        · cases hl'
          cases hd
    · cases hs
  · cases hs

theorem sessionInv_feedDone (hs : w.step effect .feedDone = some w') : SessionInv w' := by
  simp only [World.step] at hs
  split at hs
  · next l hl =>
    split at hs
    · cases hs
      apply h.ofLink
      rintro l' hl' g (hg | ⟨d, hd, -⟩)
      · cases hl'
        exact h.carries l hl g (.inl hg)
      · cases hl'
        cases hd
    · cases hs
  · cases hs

theorem sessionInv_read {r : ReadResult σ} (hs : w.step effect (.read r) = some w') :
    SessionInv w' := by
  simp only [World.step] at hs
  split at hs
  · next l hl =>
    split at hs
    · next msg rest hwire =>
      cases hs
      refine ⟨h.master, h.clean, ?_, ?_⟩
      · intro l' hl' f hf
        obtain ⟨phase, -, rfl⟩ := map_eq_some_iff.mp hl'
        apply h.carries l hl f
        rcases hf with hf | hf
        · exact .inl (hwire ▸ mem_cons_of_mem msg hf)
        · exact .inr hf
      · apply read_applied h.applied
        rintro f rfl
        exact h.carries l hl f (.inl (hwire ▸ mem_cons_self))
    · cases hs
  · cases hs

theorem sessionInv_replicaRestart (hs : w.step effect .replicaRestart = some w') :
    SessionInv w' := by
  cases hs
  refine ⟨h.master, h.clean, (fun _ => nofun), fun hb => ?_⟩
  exact absurd hb (lt_irrefl 0)

theorem sessionInv_step (hok : CleanAction w a) (hs : w.step effect a = some w') :
    SessionInv w' := by
  cases a with
  | master e => exact sessionInv_master h hok hs
  | flushDB batches => exact sessionInv_flushDB h hs
  | psync => exact sessionInv_psync h hs
  | replLogCurrentTS => exact sessionInv_replLogCurrentTS h hs
  | sendRDB rdb => exact sessionInv_sendRDB h hs
  | catchUp => exact sessionInv_catchUp h hs
  | feedRead => exact sessionInv_feedRead h hs
  | feedSend ok => exact sessionInv_feedSend h hs
  | feedDone => exact sessionInv_feedDone h hs
  | read r => exact sessionInv_read h hs
  | disconnect =>
    cases hs
    exact h.ofLink fun _ => nofun
  | replicaRestart => exact sessionInv_replicaRestart h hs

end Actions

/-- Only a FULLRESYNC reply or a restart of the replica moves its starting watermark. -/
theorem base_step (hs : w.step effect a = some w') (hr : w'.replica.resyncs = 0) :
    w.replica.resyncs = 0 ∧ w'.replica.base = w.replica.base := by
  have hread : ∀ phase msg r, (w.replica.read effect phase msg r).1.resyncs = 0 →
      w.replica.resyncs = 0 ∧ (w.replica.read effect phase msg r).1.base = w.replica.base := by
    intro phase msg r
    unfold Replica.read
    split
    · intro h; cases h
    · exact fun h => ⟨h, rfl⟩
    · split <;> exact fun h => ⟨h, rfl⟩
    · split
      · exact fun h => ⟨h, rfl⟩
      · split
        · exact fun h => ⟨h, rfl⟩
        · split <;> exact fun h => ⟨h, rfl⟩
    · exact fun h => ⟨h, rfl⟩
  cases a with
  | read r =>
    simp only [World.step] at hs
    split at hs
    · split at hs
      · cases hs; exact hread _ _ _ hr
      · cases hs
    · cases hs
  | replicaRestart => cases hs; cases hr
  | master e => obtain ⟨m, -, rfl⟩ := map_eq_some_iff.mp hs; exact ⟨hr, rfl⟩
  | flushDB batches =>
    simp only [World.step] at hs
    split at hs
    · obtain ⟨m, -, rfl⟩ := map_eq_some_iff.mp hs; exact ⟨hr, rfl⟩
    · cases hs
  | disconnect => cases hs; exact ⟨hr, rfl⟩
  | psync => grind [World.step]
  | replLogCurrentTS => grind [World.step]
  | sendRDB rdb => grind [World.step]
  | catchUp => grind [World.step]
  | feedRead => grind [World.step]
  | feedSend ok => grind [World.step]
  | feedDone => grind [World.step]

/-- The session of a replica that started at `t0`. -/
structure ResumeInv (t0 : Nat) (w : World σ) : Prop where
  session : SessionInv w
  base : w.replica.resyncs = 0 → w.replica.base = t0

theorem resumeInv_step {t0 : Nat} (h : ResumeInv t0 w) (hok : CleanAction w a)
    (hs : w.step effect a = some w') : ResumeInv t0 w' where
  session := sessionInv_step h.session hok hs
  base := by
    intro hr
    obtain ⟨h0, hb⟩ := base_step hs hr
    rw [hb]
    exact h.base h0

end SessionStep

/-! ## The result -/

/-- A replica of `m` whose watermark is `t0`, not connected. -/
def World.resuming (m : Master) (t0 : Nat) (store : σ) : World σ where
  master := m
  link := none
  replica := {
    lastReplId := some m.replId
    lastAppliedTS := t0
    store
    resyncs := 0
    base := t0
    applied := [] }

/-- **Exactly once, in order.** Take any master, any watermark `t0` it accepts with CONTINUE, and
any interleaving of commits, feed calls, partial and failed sends, reads, disconnects, reconnects and
restarts, in which the committed arguments are free of CR LF. As long as the replica is not told to
start over, the commands it has applied are the entries `t0 + 1, ..., lastAppliedTS` of the master's
history, each once and in this order; after a FULLRESYNC the same holds from its timestamp on. -/
theorem exactly_once {effect : List Bytes → σ → σ} {store : σ} {replId : Bytes}
    {es : List Event} {m : Master} {t0 : Nat} {as : List (Action σ)} {w : World σ}
    (hes : ∀ e ∈ es, CleanEvent e)
    (hm : run Master.step (.start replId) es = some m)
    (hcont : m.handlePSync (some m.replId) t0 = true)
    (has : Meets (World.step effect) CleanAction (.resuming m t0 store) as)
    (hrun : run (World.step effect) (.resuming m t0 store) as = some w) :
    (w.replica.resyncs = 0 →
      AppliedExactly w.master.hist t0 w.replica.lastAppliedTS w.replica.applied) ∧
    (0 < w.replica.base →
      AppliedExactly w.master.hist w.replica.base w.replica.lastAppliedTS w.replica.applied) := by
  obtain ⟨hmi, hclean, -⟩ := masterRun (masterInv_start replId)
    (by intro t args h; simp [Master.start] at h) hes hm
  have ht0 : 0 < t0 := by
    simp only [Master.handlePSync, Bool.and_eq_true, decide_eq_true_eq] at hcont
    exact Nat.pos_of_ne_zero hcont.1.1
  have hinit : ResumeInv t0 (World.resuming m t0 store) :=
    ⟨⟨hmi, hclean, (fun _ => nofun),
      fun _ => ⟨le_rfl, by simp [World.resuming], by simp [World.resuming]⟩⟩, fun _ => rfl⟩
  have hinv : ResumeInv t0 w := run_invariant (fun _ _ _ h hok hs => resumeInv_step h hok hs)
    hinit has hrun
  refine ⟨fun hr => ?_, hinv.session.applied⟩
  have hbase := hinv.base hr
  have happ := hinv.session.applied (hbase ▸ ht0)
  rwa [hbase] at happ

/-- A master that has logged two writes. -/
def twoSets : Master := (run Master.step (.start "id")
    (Event.whole 1 (.ok setA true) ++ Event.whole 2 (.ok setA true))).get (by decide +kernel)

/-- A replica at 1: the first send fails, a third write happens, the reconnect delivers. -/
def failAndResume : List (Action (List (List Bytes))) :=
  ([.psync, .catchUp, .feedRead, .feedSend false, .disconnect] : List (Action (List (List Bytes)))) ++
    (Event.whole 3 (.ok setA true)).map .master ++
    ([.psync, .read .ok, .catchUp, .feedRead, .feedSend true, .read .ok, .feedSend true, .read .ok,
      .feedDone] : List (Action (List (List Bytes))))

theorem exactly_once_failAndResume : ∃ w,
    run (World.step journal) (.resuming twoSets 1 []) failAndResume = some w ∧
    (w.replica.resyncs = 0 →
      AppliedExactly w.master.hist 1 w.replica.lastAppliedTS w.replica.applied) ∧
    (0 < w.replica.base →
      AppliedExactly w.master.hist w.replica.base w.replica.lastAppliedTS w.replica.applied) := by
  obtain ⟨w, hw⟩ := isSome_iff_exists.mp
    (by decide +kernel : (run (World.step journal) (.resuming twoSets 1 []) failAndResume).isSome)
  exact ⟨w, hw, exactly_once (by decide +kernel) (some_get _).symm (by decide +kernel)
    (by decide +kernel) hw⟩

/-- A master whose second command is `SET a "x\r\ny"`. -/
def setCrlf : Master :=
  (run Master.step (.start "id") (Event.whole 1 (.ok setA true) ++ Event.whole 2
    (.ok (.command ["SET", "a", [120, 13, 10, 121]]) true))).get (by decide +kernel)

/-- Its replica after one frame. -/
def afterCrlf : World (List (List Bytes)) := (run (World.step journal) (.resuming setCrlf 1 [])
    [.psync, .read .ok, .catchUp, .feedRead, .feedSend true, .read .ok]).get (by decide +kernel)

/-- The replica of a master that has logged `SET a "x\r\ny"` applies `SET a x`. -/
theorem crlf_cuts_command :
    setCrlf.handlePSync (some setCrlf.replId) 1 = true ∧
    run (World.step journal) (.resuming setCrlf 1 [])
      [.psync, .read .ok, .catchUp, .feedRead, .feedSend true, .read .ok] = some afterCrlf ∧
    afterCrlf.replica.resyncs = 0 ∧ afterCrlf.replica.lastAppliedTS = 2 ∧
    afterCrlf.replica.applied = [⟨2, [ascii "SET", ascii "a", ascii "x"]⟩] ∧
    ¬ AppliedExactly afterCrlf.master.hist 1 afterCrlf.replica.lastAppliedTS
      afterCrlf.replica.applied := by
  refine ⟨by decide +kernel, (some_get _).symm, by decide +kernel, by decide +kernel,
    by decide +kernel, fun h => ?_⟩
  exact absurd (h.entries ⟨2, ["SET", "a", "x"]⟩ (by decide +kernel))
    (by decide +kernel)

end BoltDB.Replication
