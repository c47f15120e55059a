import BoltDB.Replication.History

/-!
# The replica's watermark

The pair `(lastReplId, lastAppliedTS)` of a replica vouches for its data: when it is `(r, t)`, the
store holds the effects of the master's history up to and including `t`. `sendPSYNC` sets the pair
from the FULLRESYNC reply, before the RDB that the pair vouches for is read and loaded, so the
statement depends on every such RDB arriving: `lost_rdb` is a replica that never gets over a failed
one.

The other half of the statement is the RDB itself: the lock under which it is made keeps out the
requests that the server knows as writes and nothing else, so the condition `Delivers` asks that the
RDB sent is the data of the history at the announced timestamp.

The proof follows what is on the connection: `Incoming` says which messages the replica can still
find there, and from which watermark the frames behind them continue.
-/

namespace BoltDB.Replication

open Bytes Transition Timeline List Std.ExtTreeMap Option

variable {σ : Type} (effect : List Bytes → σ → σ) (empty : σ)

/-! ## The invariant -/

/-- The data the master's history leaves at `t`. -/
def World.dataAt (w : World σ) (t : Nat) : σ := stateAt effect empty w.master.hist t

/-- The messages a replica in the given phase can find, the watermark behind them, and the frames
that follow. -/
inductive Incoming (w : World σ) : Phase → List (Msg σ) → Nat → List Frame → Prop
  | cont (fs : List Frame) (h : w.replica.lastReplId = some w.master.replId) :
      Incoming w .psyncReply (.continue_ w.master.replId :: fs.map .frame)
        w.replica.lastAppliedTS fs
  | full (ts : Nat) (fs : List Frame) (h : SettledAt w.master.store ts) :
      Incoming w .psyncReply (.fullResync w.master.replId ts ::
        .rdb (w.dataAt effect empty ts) :: fs.map .frame) ts fs
  | rdb (fs : List Frame) (h : w.replica.lastReplId = some w.master.replId) :
      Incoming w .rdb (.rdb (w.dataAt effect empty w.replica.lastAppliedTS) :: fs.map .frame)
        w.replica.lastAppliedTS fs
  | commands (wire : List (Msg σ)) (fs : List Frame) (hw : wire = fs.map .frame)
      (h : w.replica.lastReplId = some w.master.replId) :
      Incoming w .commands wire w.replica.lastAppliedTS fs

/-- The frames that will still be delivered behind those on the wire. -/
def Link.toSend (l : Link σ) : List Frame :=
  if l.broken then [] else
    match l.sending with
    | some d => d.frames
    | none => []

/-- For a stream that starts at watermark 0: the first frame is the first effective entry, and as
long as there is none the cursor stands at 1. -/
def ZeroInv (w : World σ) (l : Link σ) (mark : Nat) (fs : List Frame) : Prop := mark = 0 →
    (∀ f, (fs ++ l.toSend).head? = some f → IsFirst effect empty w.master.hist f) ∧
    (fs ++ l.toSend = [] →
      l.broken = true ∨ l.sending = none ∧ (l.stage = .catchUp 0 ∨ l.stage = .feeding 1))

/-- A full resync is not yet served; a timestamp that was read for it is one of a version. -/
def Waiting (m : Master) : Stage → Prop
  | .snapshot => True
  | .dumping ts => ts ≤ m.store.maxVersion
  | .catchUp _ | .feeding _ => False

/-- The reply is out. -/
def Served : Stage → Prop
  | .snapshot | .dumping _ => False
  | .catchUp _ | .feeding _ => True

/-- The state of a connection: a full resync not yet served, or a stream. -/
def LinkInv (w : World σ) (l : Link σ) : Prop :=
  (Waiting w.master l.stage ∧ l.phase = .psyncReply ∧ l.wire = [] ∧ l.sending = none) ∨
    Served l.stage ∧ ∃ mark fs, Incoming effect empty w l.phase l.wire mark fs ∧
      ZeroInv effect empty w l mark fs

/-- **Watermark safety.** The replica's data is what its pair says; while an RDB is due, the RDB
that comes next is what the pair says. -/
def WatermarkExact (w : World σ) : Prop :=
  ∀ r, w.replica.lastReplId = some r → r = w.master.replId ∧
    match w.link with
    | some ⟨_, _, _, wire, .rdb⟩ =>
      ∃ rest, wire = .rdb (w.dataAt effect empty w.replica.lastAppliedTS) :: rest
    | _ => w.replica.store = w.dataAt effect empty w.replica.lastAppliedTS

structure WatermarkInv (w : World σ) : Prop where
  session : SessionInv w
  flush : FlushInv w.master
  replId : ∀ r, w.replica.lastReplId = some r → r = w.master.replId
  settled : w.replica.lastReplId ≠ none → SettledAt w.master.store w.replica.lastAppliedTS
  settledFrames : ∀ l, w.link = some l → ∀ f, l.Carries f → SettledAt w.master.store f.ts
  link : ∀ l, w.link = some l → LinkInv effect empty w l
  exact : w.replica.lastReplId ≠ none → (∀ l, w.link = some l → l.phase ≠ .rdb) →
    w.replica.store = w.dataAt effect empty w.replica.lastAppliedTS

/-! ## The condition -/

/-- The connection does not break off between a FULLRESYNC reply and its RDB. -/
def NotSyncing (w : World σ) : Prop := ∀ l ∈ w.link, l.phase ≠ .rdb

instance (w : World σ) : Decidable (NotSyncing w) :=
  match h : w.link with
  | none => .isTrue fun l hl => by rw [h] at hl; cases hl
  | some l =>
    if hp : l.phase = .rdb then .isFalse fun hn => hn l h hp
    else .isTrue fun l' hl' => by rw [h] at hl'; cases hl'; exact hp

/-- The RDB sent for a timestamp is the data of the history up to it, and no commit at or below it is
still under way. -/
def Faithful (w : World σ) (rdb : σ) : Stage → Prop
  | .dumping ts => rdb = w.dataAt effect empty ts ∧ ∀ r ∈ w.master.store.running, ts < r
  | .snapshot | .catchUp _ | .feeding _ => True

/-- The condition on a step: every RDB that a FULLRESYNC reply announces has the data that its
timestamp stands for and is read and loaded to its end; committed arguments are free of CR LF; log
records are deleted by uninterrupted FLUSHDBs only; and no command is skipped at watermark 0, where
the next frame is not checked. -/
def Delivers (w : World σ) : Action σ → Prop
  | .sendRDB rdb => ∀ l ∈ w.link, Faithful effect empty w rdb l.stage
  | .master e => CleanEvent e ∧ KeepsLog e ∧ (e = .restart → NotSyncing w)
  | .disconnect => NotSyncing w
  | .read .rdbReadError | .read (.rdbLoadError _) => NotSyncing w
  | .read .transient => w.replica.lastAppliedTS ≠ 0
  | .read .ok | .read .fatal | .flushDB _ | .psync | .replLogCurrentTS | .catchUp | .feedRead
  | .feedSend _ | .feedDone | .replicaRestart => True

instance [DecidableEq σ] (w : World σ) (rdb : σ) :
    (stage : Stage) → Decidable (Faithful effect empty w rdb stage)
  | .dumping ts => inferInstanceAs (Decidable (rdb = w.dataAt effect empty ts ∧ _))
  | .snapshot | .catchUp _ | .feeding _ => .isTrue trivial

instance [DecidableEq σ] (w : World σ) (a : Action σ) : Decidable (Delivers effect empty w a) := by
  unfold Delivers
  split <;> infer_instance

section Steps

variable {effect empty} {w w' : World σ} {l : Link σ} {phase : Phase} {wire : List (Msg σ)}
  {mark : Nat} {fs : List Frame} {f : Frame}

/-! ## Frames on the connection -/

theorem Incoming.frame_mem (h : Incoming effect empty w phase wire mark fs) (hf : f ∈ fs) :
    .frame f ∈ wire := by
  cases h <;> simp_all

theorem Incoming.snoc (h : Incoming effect empty w phase wire mark fs) :
    Incoming effect empty w phase (wire ++ [.frame f]) mark (fs ++ [f]) := by
  cases h with
  | cont _ hr => simpa using Incoming.cont (fs ++ [f]) hr
  | full ts _ ht => simpa using Incoming.full mark (fs ++ [f]) ht
  | rdb _ hr => simpa using Incoming.rdb (fs ++ [f]) hr
  | commands _ _ hw hr => exact .commands _ _ (by simp [hw]) hr

theorem exists_sending_of_mem_toSend (h : f ∈ l.toSend) :
    ∃ d, l.sending = some d ∧ f ∈ d.frames := by
  unfold Link.toSend at h
  split at h
  · cases h
  · split at h
    · next d hd => exact ⟨d, hd, h⟩
    · cases h

theorem Incoming.carries (h : Incoming effect empty w l.phase l.wire mark fs)
    (hf : (fs ++ l.toSend).head? = some f) : l.Carries f := by
  rcases mem_append.mp (mem_of_mem_head? hf) with hf | hf
  · exact .inl (h.frame_mem hf)
  · exact .inr (exists_sending_of_mem_toSend hf)

/-! ## The master moves on -/

/-- What is on the connection stays valid when the settled part of the history does not change. -/
theorem Incoming.ofMaster (h : Incoming effect empty w phase wire mark fs) {m : Master}
    (hlast : w.replica.lastReplId ≠ none → SettledAt w.master.store w.replica.lastAppliedTS)
    (hid : m.replId = w.master.replId)
    (hset : ∀ t, SettledAt w.master.store t → SettledAt m.store t)
    (hdata : ∀ t, SettledAt w.master.store t →
      stateAt effect empty w.master.hist t = stateAt effect empty m.hist t) :
    Incoming effect empty { w with master := m } phase wire mark fs := by
  cases h with
  | cont _ hr => rw [← hid] at hr ⊢; exact .cont fs hr
  | full ts _ ht =>
    rw [← hid, World.dataAt, hdata mark ht]
    exact .full mark fs (hset mark ht)
  | rdb _ hr =>
    rw [World.dataAt, hdata _ (hlast (by simp [hr]))]
    rw [← hid] at hr
    exact .rdb fs hr
  | commands _ _ hw hr => rw [← hid] at hr; exact .commands _ fs hw hr

/-- The history may grow above every settled timestamp; nothing the replica relies on changes. -/
theorem WatermarkInv.ofMaster (h : WatermarkInv effect empty w) {m : Master}
    (hs : SessionInv { w with master := m }) (hf : FlushInv m) (hid : m.replId = w.master.replId)
    (hmax : w.master.store.maxVersion ≤ m.store.maxVersion)
    (hset : ∀ t, SettledAt w.master.store t →
      SettledAt m.store t ∧ ∀ u ≤ t, m.hist[u]? = w.master.hist[u]?) :
    WatermarkInv effect empty { w with master := m } := by
  have hdata : ∀ t, SettledAt w.master.store t →
      stateAt effect empty w.master.hist t = stateAt effect empty m.hist t :=
    fun t ht => foldUpTo_congr fun u hu => ((hset t ht).2 u hu).symm
  have hzero : SettledAt w.master.store 0 := ⟨Nat.zero_le _, fun r hr => Nat.zero_lt_of_lt
    (w.master.store.tsSource.pending_mem r (h.session.master.running_pending hr)).1⟩
  refine ⟨hs, hf, fun r hr => hid ▸ h.replId r hr, fun hr => (hset _ (h.settled hr)).1,
    fun l hl f hfr => (hset _ (h.settledFrames l hl f hfr)).1, fun l hl => ?_, fun hr hl => ?_⟩
  · rcases h.link l hl with ⟨hwait, hrest⟩ | ⟨hstage, mark, fs, hin, hz⟩
    · refine .inl ⟨?_, hrest⟩
      cases hstage : l.stage with
      | snapshot => trivial
      | dumping ts =>
        rw [hstage] at hwait
        exact hwait.trans hmax
      | catchUp ts => rw [hstage] at hwait; exact hwait.elim
      | feeding since => rw [hstage] at hwait; exact hwait.elim
    · refine .inr ⟨hstage, mark, fs, hin.ofMaster h.settled hid (fun t ht => (hset t ht).1) hdata,
        fun h0 => ⟨fun f hhead => ?_, (hz h0).2⟩⟩
      have hfirst := (hz h0).1 f hhead
      rw [IsFirst, hdata _ (h.settledFrames l hl f (hin.carries hhead)), hdata 0 hzero] at hfirst
      exact hfirst
  · exact (h.exact hr hl).trans (hdata _ (h.settled hr))

theorem step_replId {m m' : Master} {e : Event} (hs : m.step e = some m') :
    m'.replId = m.replId := by
  obtain ⟨s, -, rfl⟩ := map_eq_some_iff.mp hs
  rfl

theorem run_replId {m m' : Master} {es : List Event} (hrun : run Master.step m es = some m') :
    m'.replId = m.replId :=
  run_preserves (fun _ _ _ (h : _ = m.replId) hs => (step_replId hs).trans h) rfl hrun

theorem run_maxVersion {m m' : Master} {es : List Event} (hrun : run Master.step m es = some m') :
    m.store.maxVersion ≤ m'.store.maxVersion :=
  run_preserves (fun _ _ _ (h : m.store.maxVersion ≤ _) hs => h.trans (maxVersion_step hs)) le_rfl
    hrun

section Steps

variable (h : WatermarkInv effect empty w)

include h

/-- Losing the connection outside the synchronisation window. -/
theorem WatermarkInv.unlink (hn : NotSyncing w) :
    WatermarkInv effect empty { w with link := none } where
  __ := h
  session := h.session.ofLink fun _ => nofun
  settledFrames := by intro l hl; cases hl
  link := by intro l hl; cases hl
  exact := fun hr _ => h.exact hr fun l hl => hn l hl

/-- The master's side of a connection changes. -/
theorem WatermarkInv.ofLink {l' : Link σ} (hs : SessionInv { w with link := some l' })
    (hframes : ∀ f, l'.Carries f → SettledAt w.master.store f.ts) (hl : LinkInv effect empty w l')
    (hphase : ∀ l, w.link = some l → l'.phase = l.phase) :
    WatermarkInv effect empty { w with link := some l' } where
  __ := h
  session := hs
  settledFrames := by rintro l hl'; cases hl'; exact hframes
  link := by
    rintro l hl'
    cases hl'
    -- `Incoming` and `ZeroInv` look at the master and at the replica only
    rcases hl with hsnap | ⟨hstage, mark, fs, hin, hz⟩
    · exact .inl hsnap
    · refine .inr ⟨hstage, mark, fs, ?_, hz⟩
      generalize l'.phase = phase at hin
      generalize l'.wire = wire at hin
      cases hin with
      | cont _ hr => exact .cont fs hr
      | full ts _ ht => exact .full mark fs ht
      | rdb _ hr => exact .rdb fs hr
      | commands _ _ hw hr => exact .commands _ fs hw hr
  exact := by
    intro hr hno
    refine h.exact hr fun l hl' hp => ?_
    exact hno l' rfl ((hphase l hl').trans hp)

/-! ## One message read -/

/-- A frame that passes the contiguity check takes the data to its timestamp. -/
theorem dataAt_next (hl : w.link = some l) (hwire : l.wire = (f :: fs).map .frame)
    (hz : ZeroInv effect empty w l w.replica.lastAppliedTS (f :: fs)) {u : Unit}
    (hgap : checkFeedTSGap w.replica.lastAppliedTS f.ts = .ok u) :
    stateAt effect empty w.master.hist f.ts =
      effectOf effect f.args (stateAt effect empty w.master.hist w.replica.lastAppliedTS) := by
  have hf : w.master.hist[f.ts]? = some f.args :=
    h.session.carries l hl f (.inl (by rw [hwire]; simp))
  rcases Nat.eq_zero_or_pos w.replica.lastAppliedTS with h0 | hpos
  · rw [h0]
    exact (hz h0).1 f rfl
  · have hts := checkFeedTSGap_ok hgap hpos
    exact foldUpTo_next (by omega) (fun v h1 h2 => by omega) hf

/-- The stream continues behind an applied or skipped frame. -/
theorem WatermarkInv.ofFrame (hl : w.link = some l)
    (hstage : Served l.stage) (hwire : l.wire = (f :: fs).map .frame)
    {p : Replica σ} (hid : p.lastReplId = some w.master.replId) (hpos : p.lastAppliedTS ≠ 0)
    (hset : SettledAt w.master.store p.lastAppliedTS)
    (hdata : p.store = w.dataAt effect empty p.lastAppliedTS)
    (hs : SessionInv { w with
      replica := p, link := some { l with wire := fs.map .frame, phase := .commands } }) :
    WatermarkInv effect empty { w with
      replica := p, link := some { l with wire := fs.map .frame, phase := .commands } } where
  session := hs
  flush := h.flush
  replId := by intro r hr; exact Option.some.inj (hr.symm.trans hid)
  settled := fun _ => hset
  settledFrames := by
    intro l' hl' g hg
    cases hl'
    apply h.settledFrames l hl g
    rcases hg with hg | hg
    · exact .inl (by rw [hwire]; exact mem_cons_of_mem _ hg)
    · exact .inr hg
  link := by
    intro l' hl'
    cases hl'
    exact .inr ⟨hstage, _, fs, .commands _ fs rfl hid, fun h0 => absurd h0 hpos⟩
  exact := fun _ _ => hdata

/-- The frames behind the message that is read, and those about to be sent. -/
theorem WatermarkInv.settled_rest {msg : Msg σ} {rest : List (Msg σ)} (hl : w.link = some l)
    (hwire : l.wire = msg :: rest) (hf : .frame f ∈ rest ∨ ∃ d, l.sending = some d ∧ f ∈ d.frames) :
    SettledAt w.master.store f.ts := by
  apply h.settledFrames l hl f
  rcases hf with hf | hf
  · exact .inl (hwire ▸ mem_cons_of_mem msg hf)
  · exact .inr hf

section Reading

variable {stage : Stage} {sending : Option Sending} {broken : Bool}

/-- The reply CONTINUE: the pair stays as it is. -/
theorem WatermarkInv.readContinue
    (hl : w.link = some ⟨stage, sending, broken, .continue_ w.master.replId :: fs.map .frame,
      .psyncReply⟩) (hstage : Served stage) (hr : w.replica.lastReplId = some w.master.replId)
    (hz : ZeroInv effect empty w ⟨stage, sending, broken,
      .continue_ w.master.replId :: fs.map .frame, .psyncReply⟩ w.replica.lastAppliedTS fs)
    (hses : SessionInv { w with
      replica := { w.replica with lastReplId := some w.master.replId }
      link := some ⟨stage, sending, broken, fs.map .frame, .commands⟩ }) :
    WatermarkInv effect empty { w with
      replica := { w.replica with lastReplId := some w.master.replId }
      link := some ⟨stage, sending, broken, fs.map .frame, .commands⟩ } := by
  refine ⟨hses, h.flush, fun r hr' => by cases hr'; rfl, fun _ => h.settled (by simp [hr]),
    fun l' hl' g hg => by cases hl'; exact h.settled_rest hl rfl hg, fun l' hl' => ?_, fun _ _ => ?_⟩
  · cases hl'
    exact .inr ⟨hstage, _, fs, .commands _ fs rfl rfl, hz⟩
  · refine h.exact (by simp [hr]) fun l' hl' => ?_
    rw [hl] at hl'
    cases hl'
    simp

/-- The reply FULLRESYNC: the pair moves, its RDB is next. -/
theorem WatermarkInv.readFullResync {ts : Nat} {rdb : Msg σ} {p : Replica σ}
    (hl : w.link = some ⟨stage, sending, broken,
      .fullResync w.master.replId ts :: rdb :: fs.map .frame, .psyncReply⟩)
    (hstage : Served stage) (ht : SettledAt w.master.store ts)
    (hrdb : rdb = .rdb (w.dataAt effect empty ts))
    (hp : p.lastReplId = some w.master.replId ∧ p.lastAppliedTS = ts)
    (hz : ZeroInv effect empty w ⟨stage, sending, broken,
      .fullResync w.master.replId ts :: rdb :: fs.map .frame, .psyncReply⟩ ts fs)
    (hses : SessionInv { w with
      replica := p, link := some ⟨stage, sending, broken, rdb :: fs.map .frame, .rdb⟩ }) :
    WatermarkInv effect empty { w with
      replica := p, link := some ⟨stage, sending, broken, rdb :: fs.map .frame, .rdb⟩ } := by
  obtain ⟨hid, rfl⟩ := hp
  refine ⟨hses, h.flush, fun r hr => Option.some.inj (hr.symm.trans hid), fun _ => ht,
    fun l' hl' g hg => by cases hl'; exact h.settled_rest hl rfl hg, fun l' hl' => ?_,
    fun _ hno => absurd rfl (hno _ rfl)⟩
  cases hl'
  subst hrdb
  exact .inr ⟨hstage, _, fs, .rdb fs hid, hz⟩

/-- The RDB is loaded: the data is what the pair says. -/
theorem WatermarkInv.readRDB
    (hl : w.link = some ⟨stage, sending, broken,
      .rdb (w.dataAt effect empty w.replica.lastAppliedTS) :: fs.map .frame, .rdb⟩)
    (hstage : Served stage) (hr : w.replica.lastReplId = some w.master.replId)
    (hz : ZeroInv effect empty w ⟨stage, sending, broken,
      .rdb (w.dataAt effect empty w.replica.lastAppliedTS) :: fs.map .frame, .rdb⟩
        w.replica.lastAppliedTS fs)
    (hses : SessionInv { w with
      replica := { w.replica with store := w.dataAt effect empty w.replica.lastAppliedTS }
      link := some ⟨stage, sending, broken, fs.map .frame, .commands⟩ }) :
    WatermarkInv effect empty { w with
      replica := { w.replica with store := w.dataAt effect empty w.replica.lastAppliedTS }
      link := some ⟨stage, sending, broken, fs.map .frame, .commands⟩ } := by
  refine ⟨hses, h.flush, h.replId, h.settled,
    fun l' hl' g hg => by cases hl'; exact h.settled_rest hl rfl hg, fun l' hl' => ?_, fun _ _ => rfl⟩
  cases hl'
  exact .inr ⟨hstage, _, fs, .commands _ fs rfl hr, hz⟩

/-- A frame in `readCommandLoop`: it is applied, skipped or the connection goes. -/
theorem WatermarkInv.readFrame {r : ReadResult σ} (hok : Delivers effect empty w (.read r))
    (hl : w.link = some ⟨stage, sending, broken, (f :: fs).map .frame, .commands⟩)
    (hstage : Served stage) (hr : w.replica.lastReplId = some w.master.replId)
    (hz : ZeroInv effect empty w ⟨stage, sending, broken, (f :: fs).map .frame, .commands⟩
      w.replica.lastAppliedTS (f :: fs))
    (hses : SessionInv { w with
      replica := (w.replica.read effect .commands (.frame f) r).1
      link := (w.replica.read effect .commands (.frame f) r).2.map fun phase =>
        ⟨stage, sending, broken, fs.map .frame, phase⟩ }) :
    WatermarkInv effect empty { w with
      replica := (w.replica.read effect .commands (.frame f) r).1
      link := (w.replica.read effect .commands (.frame f) r).2.map fun phase =>
        ⟨stage, sending, broken, fs.map .frame, phase⟩ } := by
  have hset : SettledAt w.master.store f.ts := h.settledFrames _ hl f (.inl mem_cons_self)
  have hnotSyncing : NotSyncing w := fun l' hl' => by
    rw [hl] at hl'
    cases hl'
    simp
  have hstore := h.exact (by simp [hr]) hnotSyncing
  have hts : f.ts ≠ 0 := Nat.pos_iff_ne_zero.mp (h.flush.1 f.ts
    (mem_iff_isSome_getElem?.mpr (by
      rw [h.session.carries _ hl f (.inl mem_cons_self)]; rfl)))
  cases hgap : checkFeedTSGap w.replica.lastAppliedTS f.ts with
  | error e =>
    simp only [Replica.read, hgap]
    exact h.unlink hnotSyncing
  | ok u =>
    have hnext := dataAt_next h hl rfl hz hgap
    by_cases hnoop : isNoop f.args
    · simp only [Replica.read, hgap, hnoop, if_true] at hses ⊢
      refine h.ofFrame hl hstage rfl hr hts hset ?_ hses
      rw [effectOf, if_pos hnoop] at hnext
      exact hstore.trans hnext.symm
    · have happlied : (effect f.args w.replica.store) = w.dataAt effect empty f.ts := by
        rw [effectOf, if_neg hnoop] at hnext
        exact (congrArg (effect f.args) hstore).trans hnext.symm
      cases r with
      | transient =>
        simp only [Replica.read, hgap, hnoop, Bool.false_eq_true, if_false] at hses ⊢
        exact h.ofFrame hl hstage rfl hr hok (h.settled (by simp [hr])) hstore hses
      | fatal =>
        simp only [Replica.read, hgap, hnoop, Bool.false_eq_true, if_false]
        exact h.unlink hnotSyncing
      | ok =>
        simp only [Replica.read, hgap, hnoop, Bool.false_eq_true, if_false] at hses ⊢
        exact h.ofFrame hl hstage rfl hr hts hset happlied hses
      | rdbReadError =>
        simp only [Replica.read, hgap, hnoop, Bool.false_eq_true, if_false] at hses ⊢
        exact h.ofFrame hl hstage rfl hr hts hset happlied hses
      | rdbLoadError partly =>
        simp only [Replica.read, hgap, hnoop, Bool.false_eq_true, if_false] at hses ⊢
        exact h.ofFrame hl hstage rfl hr hts hset happlied hses

end Reading

theorem watermarkInv_read {r : ReadResult σ} (hok : Delivers effect empty w (.read r))
    (hs : w.step effect (.read r) = some w') : WatermarkInv effect empty w' := by
  have hses := sessionInv_step h.session (a := .read r) trivial hs
  simp only [World.step] at hs
  split at hs
  · next l hl =>
    split at hs
    · next msg rest hwire =>
      rcases h.link l hl with ⟨-, -, hnil, -⟩ | ⟨hstage, mark, fs, hin, hz⟩
      · rw [hnil] at hwire; cases hwire
      · obtain ⟨stage, sending, broken, wire, phase⟩ := l
        subst hwire
        cases hin with
        | cont _ hr =>
          cases hs
          exact h.readContinue hl hstage hr hz hses
        | full ts _ ht =>
          cases hs
          exact h.readFullResync hl hstage ht rfl ⟨rfl, rfl⟩ hz hses
        | rdb _ hr =>
          cases r with
          | rdbReadError => exact absurd rfl (hok _ hl)
          | rdbLoadError partly => exact absurd rfl (hok _ hl)
          | ok => cases hs; exact h.readRDB hl hstage hr hz hses
          | transient => cases hs; exact h.readRDB hl hstage hr hz hses
          | fatal => cases hs; exact h.readRDB hl hstage hr hz hses
        | commands _ _ hw hr =>
          cases fs with
          | nil => cases hw
          | cons f fs =>
            cases hw
            cases hs
            exact h.readFrame hok hl hstage hr hz hses
    · cases hs
  · cases hs

/-! ## The master's side of the connection -/

theorem watermarkInv_psync (hs : w.step effect .psync = some w') :
    WatermarkInv effect empty w' := by
  have hses := sessionInv_step h.session (a := .psync) trivial hs
  simp only [World.step] at hs
  split at hs
  · cases hs
  · next hnone =>
    cases hs
    refine h.ofLink hses ?_ ?_ (fun l hl => by rw [hnone] at hl; cases hl)
    · rintro f (hf | ⟨d, hd, -⟩)
      · simp only at hf
        split at hf <;> simp at hf
      · cases hd
    · cases hc : w.master.handlePSync w.replica.lastReplId
        (if w.replica.lastReplId = none then 0 else w.replica.lastAppliedTS) with
      | false => exact .inl ⟨trivial, rfl, rfl, rfl⟩
      | true =>
        simp only [Master.handlePSync, Bool.and_eq_true, decide_eq_true_eq] at hc
        obtain ⟨⟨hts, hid⟩, -⟩ := hc
        have hlast : w.replica.lastAppliedTS ≠ 0 := by
          rw [hid] at hts
          exact hts
        exact .inr ⟨trivial, _, [], .cont [] hid, fun h0 => absurd h0 hlast⟩

theorem watermarkInv_replLogCurrentTS (hs : w.step effect .replLogCurrentTS = some w') :
    WatermarkInv effect empty w' := by
  have hses := sessionInv_step h.session (a := .replLogCurrentTS) trivial hs
  simp only [World.step] at hs
  split at hs
  · next l hl =>
    split at hs
    · next hsnap =>
      cases hs
      refine h.ofLink hses (fun f hf => h.settledFrames l hl f hf) ?_
        (fun l' hl' => by rw [hl] at hl'; cases hl'; rfl)
      rcases h.link l hl with ⟨-, hrest⟩ | ⟨hstage, -⟩
      · exact .inl ⟨h.session.master.replLogCurrentTS_le, hrest⟩
      · rw [hsnap] at hstage
        exact hstage.elim
    · cases hs
  · cases hs

theorem watermarkInv_sendRDB {rdb : σ} (hok : Delivers effect empty w (.sendRDB rdb))
    (hs : w.step effect (.sendRDB rdb) = some w') : WatermarkInv effect empty w' := by
  have hses := sessionInv_step h.session (a := .sendRDB rdb) trivial hs
  simp only [World.step] at hs
  split at hs
  · next l hl =>
    split at hs
    · next ts hdump =>
      cases hs
      have hfaithful := hok l hl
      rw [hdump] at hfaithful
      obtain ⟨rfl, hsettled⟩ := hfaithful
      rcases h.link l hl with ⟨hwait, hphase, hwire, hsend⟩ | ⟨hstage, -⟩
      · rw [hdump] at hwait
        refine h.ofLink hses ?_ ?_ (fun l' hl' => by rw [hl] at hl'; cases hl'; rfl)
        · rintro f (hf | ⟨d, hd, -⟩)
          · rw [hwire] at hf
            simp at hf
          · rw [hsend] at hd
            cases hd
        · refine .inr ⟨trivial, ts, [], ?_, fun h0 => ⟨fun f hf => ?_, fun _ => .inr ⟨hsend, ?_⟩⟩⟩
          · simp only [hphase, hwire]
            exact .full _ [] ⟨hwait, hsettled⟩
          · simp [Link.toSend, hsend] at hf
          · rw [h0]
            exact .inl rfl
      · rw [hdump] at hstage
        exact hstage.elim
    · cases hs
  · cases hs

theorem watermarkInv_catchUp (hs : w.step effect .catchUp = some w') :
    WatermarkInv effect empty w' := by
  have hses := sessionInv_step h.session (a := .catchUp) trivial hs
  simp only [World.step] at hs
  split at hs
  · next l hl =>
    split at hs
    · next ts hst =>
      cases hs
      refine h.ofLink hses (fun f hf => h.settledFrames l hl f hf) ?_
        (fun l' hl' => by rw [hl] at hl'; cases hl'; rfl)
      rcases h.link l hl with ⟨hwait, -⟩ | ⟨-, mark, fs, hin, hz⟩
      · rw [hst] at hwait; exact hwait.elim
      · refine .inr ⟨trivial, mark, fs, hin, fun h0 => ⟨(hz h0).1, fun hnil => ?_⟩⟩
        rcases (hz h0).2 hnil with hb | ⟨hsend, hcur | hcur⟩
        · exact .inl hb
        · rw [hst] at hcur
          cases hcur
          exact .inr ⟨hsend, .inr rfl⟩
        · rw [hst] at hcur; cases hcur
    · cases hs
  · cases hs

/-! ## The feeder -/

end Steps

theorem watermarkInv_feedRead (hflush : ∀ s, effect ["FLUSHDB"] s = empty)
    (h : WatermarkInv effect empty w) (hs : w.step effect .feedRead = some w') :
    WatermarkInv effect empty w' := by
  have hses := sessionInv_step h.session (a := .feedRead) trivial hs
  simp only [World.step] at hs
  split at hs
  · next l hl =>
    split at hs
    · next since hst hsend =>
      split at hs
      · next f fs' hfeed =>
        cases hs
        have hframes : ∀ g ∈ f :: fs', SettledAt w.master.store g.ts := by
          intro g hg
          obtain ⟨hhist, -, hdone⟩ := feedEntriesFrom_hist h.session.master h.session.clean hfeed hg
          refine ⟨h.session.master.hist_le_version _
            (mem_iff_isSome_getElem?.mpr (by rw [hhist]; rfl)), fun r hr => ?_⟩
          have hpend := (w.master.store.tsSource.pending_mem r
            (h.session.master.running_pending hr)).1
          exact lt_of_le_of_lt hdone hpend
        refine h.ofLink hses ?_ ?_ (fun l' hl' => by rw [hl] at hl'; cases hl'; rfl)
        · rintro g (hg | ⟨d, hd, hg⟩)
          · exact h.settledFrames l hl g (.inl hg)
          · cases hd
            exact hframes g hg
        · rcases h.link l hl with ⟨hwait, -⟩ | ⟨hstage, mark, fs, hin, hz⟩
          · rw [hst] at hwait; exact hwait.elim
          · refine .inr ⟨hstage, mark, fs, hin, fun h0 => ?_⟩
            have hold : l.toSend = [] := by simp [Link.toSend, hsend]
            obtain ⟨hz1, hz2⟩ := hz h0
            rw [hold] at hz1 hz2
            cases fs with
            | cons g gs => exact ⟨fun x hx => hz1 x hx, by simp⟩
            | nil =>
              rcases hz2 rfl with hb | ⟨-, hcur | hcur⟩
              · exact ⟨fun x hx => by simp [Link.toSend, hb] at hx, fun _ => .inl hb⟩
              · rw [hst] at hcur; cases hcur
              · rw [hst] at hcur
                cases hcur
                have hfirst := isFirst_of_feed hflush h.session.master h.session.clean h.flush hfeed
                constructor
                · intro x hx
                  unfold Link.toSend at hx
                  split at hx
                  · cases hx
                  · cases hx
                    exact hfirst
                · intro hnil
                  unfold Link.toSend at hnil
                  split at hnil
                  · next hb => exact .inl hb
                  · cases hnil
      · cases hs; exact h
    · cases hs
  · cases hs

theorem watermarkInv_feedSend {ok : Bool} (h : WatermarkInv effect empty w)
    (hs : w.step effect (.feedSend ok) = some w') : WatermarkInv effect empty w' := by
  have hses := sessionInv_step h.session (a := .feedSend ok) trivial hs
  simp only [World.step] at hs
  split at hs
  · next l hl =>
    split at hs
    · next f fs' lastTS hsend =>
      have hset : ∀ g ∈ f :: fs', SettledAt w.master.store g.ts :=
        fun g hg => h.settledFrames l hl g (.inr ⟨_, hsend, hg⟩)
      have hstage : Served l.stage ∧ ∃ mark fs, Incoming effect empty w l.phase l.wire mark fs ∧
          ZeroInv effect empty w l mark fs := by
        rcases h.link l hl with ⟨-, -, -, hnone⟩ | hstream
        · rw [hsend] at hnone; cases hnone
        · exact hstream
      obtain ⟨hstage, mark, fs, hin, hz⟩ := hstage
      split at hs
      · next hsent =>
        cases hs
        have hbroken : l.broken = false := by simp at hsent; exact hsent.2
        have hold : l.toSend = f :: fs' := by simp [Link.toSend, hbroken, hsend]
        refine h.ofLink hses ?_ ?_ (fun l' hl' => by rw [hl] at hl'; cases hl'; rfl)
        · rintro g (hg | ⟨d, hd, hg⟩)
          · rcases mem_append.mp hg with hg | hg
            · exact h.settledFrames l hl g (.inl hg)
            · cases mem_singleton.mp hg
              exact hset f mem_cons_self
          · cases hd
            exact hset g (mem_cons_of_mem f hg)
        · refine .inr ⟨hstage, mark, fs ++ [f], hin.snoc, fun h0 => ?_⟩
          have hnew : (fs ++ [f]) ++ Link.toSend { l with
              sending := some ⟨fs', lastTS⟩, wire := l.wire ++ [.frame f] } = fs ++ l.toSend := by
            rw [hold]
            simp [Link.toSend, hbroken]
          rw [hnew]
          refine ⟨(hz h0).1, fun hnil => ?_⟩
          rw [hold] at hnil
          simp at hnil
      · cases hs
        refine h.ofLink hses ?_ ?_ (fun l' hl' => by rw [hl] at hl'; cases hl'; rfl)
        · rintro g (hg | ⟨d, hd, -⟩)
          · exact h.settledFrames l hl g (.inl hg)
          · cases hd
        · refine .inr ⟨hstage, mark, fs, hin, fun h0 => ⟨fun g hg => ?_, fun _ => .inl rfl⟩⟩
          -- what is left on the wire has the same head
          have hg' : fs.head? = some g := by simpa [Link.toSend] using hg
          apply (hz h0).1 g
          rw [head?_append, hg']
          rfl
    · cases hs
  · cases hs

theorem watermarkInv_feedDone (h : WatermarkInv effect empty w)
    (hs : w.step effect .feedDone = some w') : WatermarkInv effect empty w' := by
  have hses := sessionInv_step h.session (a := .feedDone) trivial hs
  simp only [World.step] at hs
  split at hs
  · next l hl =>
    split at hs
    · next lastTS hsend =>
      cases hs
      refine h.ofLink hses ?_ ?_ (fun l' hl' => by rw [hl] at hl'; cases hl'; rfl)
      · rintro g (hg | ⟨d, hd, -⟩)
        · exact h.settledFrames l hl g (.inl hg)
        · cases hd
      · rcases h.link l hl with ⟨-, -, -, hnone⟩ | ⟨-, mark, fs, hin, hz⟩
        · rw [hsend] at hnone; cases hnone
        · have hold : l.toSend = [] := by simp [Link.toSend, hsend]
          refine .inr ⟨trivial, mark, fs, hin, fun h0 => ?_⟩
          obtain ⟨hz1, hz2⟩ := hz h0
          rw [hold] at hz1 hz2
          refine ⟨fun g hg => hz1 g (by simpa [Link.toSend] using hg), fun hnil => ?_⟩
          rcases hz2 (by simpa [Link.toSend] using hnil) with hb | ⟨hnone, -⟩
          · exact .inl hb
          · rw [hsend] at hnone; cases hnone
    · cases hs
  · cases hs

/-! ## Every step -/

theorem watermarkInv_master {e : Event} (h : WatermarkInv effect empty w)
    (hok : Delivers effect empty w (.master e)) (hs : w.step effect (.master e) = some w') :
    WatermarkInv effect empty w' := by
  obtain ⟨hclean, hkeep, hrestart⟩ := hok
  have hses := sessionInv_step h.session (a := .master e) hclean hs
  obtain ⟨m, hm, rfl⟩ := map_eq_some_iff.mp hs
  have hset := fun t ht => settledAt_step (t := t) h.session.master hm ht
  have hflush := flushInv_step h.session.master h.flush hkeep hm
  by_cases he : e = .restart
  · simp only [if_pos he] at hses ⊢
    exact (h.unlink (hrestart he)).ofMaster hses hflush (step_replId hm) (maxVersion_step hm) hset
  · simp only [if_neg he] at hses ⊢
    exact h.ofMaster hses hflush (step_replId hm) (maxVersion_step hm) hset

theorem watermarkInv_flushDB {batches : List (List Nat)} (h : WatermarkInv effect empty w)
    (hs : w.step effect (.flushDB batches) = some w') : WatermarkInv effect empty w' := by
  have hses := sessionInv_step h.session (a := .flushDB batches) trivial hs
  simp only [World.step] at hs
  split at hs
  · next hfree =>
    obtain ⟨m, hm, rfl⟩ := map_eq_some_iff.mp hs
    exact h.ofMaster hses (flushInv_flushDB h.session.master h.flush hfree.1 hfree.2 hm)
      (run_replId hm) (run_maxVersion hm) fun t ht => settledAt_run h.session.master hm ht
  · cases hs

theorem watermarkInv_step (hflush : ∀ s, effect ["FLUSHDB"] s = empty) {a : Action σ}
    (h : WatermarkInv effect empty w) (hok : Delivers effect empty w a)
    (hs : w.step effect a = some w') : WatermarkInv effect empty w' := by
  cases a with
  | master e => exact watermarkInv_master h hok hs
  | flushDB batches => exact watermarkInv_flushDB h hs
  | psync => exact watermarkInv_psync h hs
  | replLogCurrentTS => exact watermarkInv_replLogCurrentTS h hs
  | sendRDB rdb => exact watermarkInv_sendRDB h hok hs
  | catchUp => exact watermarkInv_catchUp h hs
  | feedRead => exact watermarkInv_feedRead hflush h hs
  | feedSend ok => exact watermarkInv_feedSend h hs
  | feedDone => exact watermarkInv_feedDone h hs
  | read r => exact watermarkInv_read h hok hs
  | disconnect => cases hs; exact h.unlink hok
  | replicaRestart =>
    have hses := sessionInv_step h.session (a := .replicaRestart) trivial hs
    cases hs
    exact ⟨hses, h.flush, (fun _ => nofun), fun hr => absurd rfl hr,
      (fun _ => nofun), (fun _ => nofun), fun hr => absurd rfl hr⟩

theorem WatermarkInv.watermarkExact (h : WatermarkInv effect empty w) :
    WatermarkExact effect empty w := by
  intro r hr
  have hne : w.replica.lastReplId ≠ none := by rw [hr]; simp
  refine ⟨h.replId r hr, ?_⟩
  split
  · next stage sending broken wire hl =>
    rcases h.link _ hl with ⟨-, hphase, -⟩ | ⟨-, mark, fs, hin, -⟩
    · cases hphase
    · simp only at hin
      cases hin with
      | rdb _ _ => exact ⟨_, rfl⟩
  · next hno =>
    refine h.exact hne fun l hl hp => ?_
    obtain ⟨stage, sending, broken, wire, phase⟩ := l
    simp only at hp
    exact hno stage sending broken wire (by rw [hl, hp])

end Steps

/-! ## Every run -/

/-- A master and a replica that have never met; the replica may hold any data. -/
def World.fresh (replId : Bytes) (store : σ) : World σ where
  master := .start replId
  link := none
  replica := ⟨none, 0, store, 0, 0, []⟩

theorem watermarkInv_fresh (effect : List Bytes → σ → σ) (empty : σ) (replId : Bytes) (store : σ) :
    WatermarkInv effect empty (.fresh replId store) where
  session := ⟨masterInv_start replId, by intro t args h; simp [World.fresh, Master.start] at h,
    (fun _ => nofun), fun h => absurd h (Nat.lt_irrefl 0)⟩
  flush := flushInv_start replId
  replId := fun _ => nofun
  settled := fun hr => absurd rfl hr
  settledFrames := fun _ => nofun
  link := fun _ => nofun
  exact := fun hr => absurd rfl hr

/-- A full resync, a frame, a lost connection, a write, a partial resync, a flush. -/
def fullThenPartial : List (Action (List (List Bytes))) :=
  (Event.whole 1 (.ok setA true)).map .master ++
    ([.psync, .replLogCurrentTS, .sendRDB [["SET", "a", "1"]], .read .ok, .read .ok, .catchUp] :
      List (Action (List (List Bytes)))) ++
    (Event.whole 2 (.ok setA true)).map .master ++
    ([.feedRead, .feedSend true, .read .ok, .feedDone, .disconnect] : List (Action (List (List Bytes)))) ++
    (Event.whole 3 (.ok setA true)).map .master ++
    ([.psync, .read .ok, .catchUp, .feedRead, .feedSend true, .read .ok, .flushDB [[1, 2, 3]]] :
      List (Action (List (List Bytes))))

/-- The connection breaks while the RDB of a full resync is read, and the replica asks again. -/
def rdbCutOff : List (Action (List (List Bytes))) := (Event.whole 1 (.ok setA true)).map .master ++
    ([.psync, .replLogCurrentTS, .sendRDB [["SET", "a", "1"]], .read .ok, .read .rdbReadError, .psync,
      .read .ok] : List (Action (List (List Bytes))))

def afterRdbCutOff : World (List (List Bytes)) :=
  (run (World.step journal) (.fresh "id" []) rdbCutOff).get (by decide +kernel)

end BoltDB.Replication
