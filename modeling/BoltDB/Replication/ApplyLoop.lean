import BoltDB.Replication.Session
import BoltDB.Store.TimeSeries

/-!
# The loop that applies feed frames

`readCommandLoop` (`reconnect.go`) for `REPLLOG` frames. A frame leaves the loop in one of four ways: it
is a tombstone, it is executed, its error is tolerated, or it stops the loop. All but the last count the
bytes of the frame, but a tolerated error does not move `lastAppliedTS`, so that the next frame of a
gapless stream looks like a gap.

* `applyFrame`, `applyFrames` — one round of the loop and all of them.
* `applyFrames_gapless` — what the loop does with frames at t + 1, t + 2, ….
-/

namespace BoltDB.Replication

open Bytes

variable {σ : Type}

/-! ## One round -/

/-- What `executeReplicatedCommand` leaves behind: the store, and the text of an error. -/
structure Executed (σ : Type) where
  store : σ
  err : Option Bytes

/-- The part of the `SlaveReconnector` that the loop moves. -/
structure Applier (σ : Type) where
  lastAppliedTS : Nat
  lastOffset : Int
  applySkipCount : Nat
  store : σ

/-- Why the loop returns. -/
inductive Stop
  | gap (e : FeedError)
  /-- "execute feed command failed". -/
  | execute (err : Bytes)
  deriving DecidableEq

/-- Only a missing key is tolerated. -/
def isTransientReplicationError (err : Bytes) : Bool := decide ("key not found" <:+: err)

/-- The bytes of a frame on the wire. -/
def frameBytes (f : Frame) : Nat :=
  (encodePropagateCommand ("REPLLOG" :: decimal f.ts :: f.args)).length

namespace Applier

/-- The frame counts as applied. -/
def advance (s : Applier σ) (f : Frame) (store : σ) : Applier σ :=
  { s with lastAppliedTS := f.ts, lastOffset := s.lastOffset + frameBytes f, store := store }

/-- The frame is skipped: its bytes count, its timestamp does not. -/
def skip (s : Applier σ) (f : Frame) (store : σ) : Applier σ :=
  { s with
    lastOffset := s.lastOffset + frameBytes f
    applySkipCount := s.applySkipCount + 1
    store := store }

end Applier

variable (exec : List Bytes → σ → Executed σ)

def applyFrame (s : Applier σ) (f : Frame) : Except Stop (Applier σ) :=
  match checkFeedTSGap s.lastAppliedTS f.ts with
  | .error e => .error (.gap e)
  | .ok _ =>
    if isNoop f.args then .ok (s.advance f s.store)
    else
      let r := exec f.args s.store
      match r.err with
      | none => .ok (s.advance f r.store)
      | some err =>
        if isTransientReplicationError err then .ok (s.skip f r.store)
        else .error (.execute err)

/-- The state after the frames that are consumed, and why the loop stops before the end. -/
def applyFrames (s : Applier σ) : List Frame → Applier σ × Option Stop
  | [] => (s, none)
  | f :: fs =>
    match applyFrame exec s f with
    | .ok s' => applyFrames s' fs
    | .error e => (s, some e)

/-! ## A gapless stream -/

/-- The frames of the commands, at t + 1, t + 2, …. -/
def framesAfter (t : Nat) : List (List Bytes) → List Frame
  | [] => []
  | args :: cmds => ⟨t + 1, args⟩ :: framesAfter (t + 1) cmds

/-- The loop stops at a command's error, or it consumes everything and its watermark is the last
timestamp. -/
def Consumed (s : Applier σ) (cmds : List (List Bytes)) : Prop :=
  (∃ err, (applyFrames exec s (framesAfter s.lastAppliedTS cmds)).2 = some (.execute err)) ∨
    (applyFrames exec s (framesAfter s.lastAppliedTS cmds)).2 = none ∧
      (applyFrames exec s (framesAfter s.lastAppliedTS cmds)).1.lastAppliedTS =
        s.lastAppliedTS + cmds.length

/-- No command of the stream, up to the first that stops the loop, ends in a tolerated error. -/
def NoneTolerated : σ → List (List Bytes) → Prop
  | _, [] => True
  | store, args :: cmds =>
    if isNoop args then NoneTolerated store cmds
    else
      match (exec args store).err with
      | none => NoneTolerated (exec args store).store cmds
      | some err => isTransientReplicationError err = false

variable {exec} {s : Applier σ}

/-- The next frame passes the gap check. -/
theorem checkFeedTSGap_succ (t : Nat) : checkFeedTSGap t (t + 1) = .ok () := by
  rw [checkFeedTSGap, if_neg]
  rintro ⟨-, hne⟩
  exact hne rfl

/-- A frame that is one too far does not. -/
theorem checkFeedTSGap_succ_succ {t : Nat} (ht : 0 < t) :
    checkFeedTSGap t (t + 1 + 1) = .error (.frameGap (t + 1 + 1) (t + 1)) := by
  rw [checkFeedTSGap, if_pos]
  exact ⟨ht, by omega⟩

variable {args : List Bytes}

theorem applyFrame_noop (h : isNoop args = true) : applyFrame exec s ⟨s.lastAppliedTS + 1, args⟩ =
      .ok (s.advance ⟨s.lastAppliedTS + 1, args⟩ s.store) := by
  simp [applyFrame, checkFeedTSGap_succ, h]

theorem applyFrame_executed (h : isNoop args = false) (herr : (exec args s.store).err = none) :
    applyFrame exec s ⟨s.lastAppliedTS + 1, args⟩ =
      .ok (s.advance ⟨s.lastAppliedTS + 1, args⟩ (exec args s.store).store) := by
  simp [applyFrame, checkFeedTSGap_succ, h, herr]

theorem applyFrame_tolerated {err : Bytes} (h : isNoop args = false)
    (herr : (exec args s.store).err = some err) (ht : isTransientReplicationError err = true) :
    applyFrame exec s ⟨s.lastAppliedTS + 1, args⟩ =
      .ok (s.skip ⟨s.lastAppliedTS + 1, args⟩ (exec args s.store).store) := by
  simp [applyFrame, checkFeedTSGap_succ, h, herr, ht]

theorem applyFrame_fatal {err : Bytes} (h : isNoop args = false)
    (herr : (exec args s.store).err = some err) (ht : isTransientReplicationError err = false) :
    applyFrame exec s ⟨s.lastAppliedTS + 1, args⟩ = .error (.execute err) := by
  simp [applyFrame, checkFeedTSGap_succ, h, herr, ht]

/-- An applied frame leaves the rest of a gapless stream gapless. -/
theorem consumed_cons_of_advance {cmds : List (List Bytes)} {store : σ}
    (h : applyFrame exec s ⟨s.lastAppliedTS + 1, args⟩ =
      .ok (s.advance ⟨s.lastAppliedTS + 1, args⟩ store)) :
    Consumed exec s (args :: cmds) ↔
      Consumed exec (s.advance ⟨s.lastAppliedTS + 1, args⟩ store) cmds := by
  have hrun : applyFrames exec s (framesAfter s.lastAppliedTS (args :: cmds)) =
      applyFrames exec (s.advance ⟨s.lastAppliedTS + 1, args⟩ store)
        (framesAfter (s.lastAppliedTS + 1) cmds) := by
    rw [framesAfter, applyFrames, h]
  have hts : (s.advance ⟨s.lastAppliedTS + 1, args⟩ store).lastAppliedTS = s.lastAppliedTS + 1 := rfl
  have hlen : s.lastAppliedTS + (args :: cmds).length = s.lastAppliedTS + 1 + cmds.length := by
    rw [List.length_cons]
    omega
  unfold Consumed
  rw [hrun, hts, hlen]

/-- After a tolerated error the watermark stays behind: the next frame is rejected as a gap, and
without a next frame the watermark is one short. -/
theorem not_consumed_cons_of_skip {cmds : List (List Bytes)} {store : σ}
    (hpos : 0 < s.lastAppliedTS)
    (h : applyFrame exec s ⟨s.lastAppliedTS + 1, args⟩ =
      .ok (s.skip ⟨s.lastAppliedTS + 1, args⟩ store)) :
    ¬ Consumed exec s (args :: cmds) := by
  unfold Consumed
  rw [framesAfter, applyFrames, h]
  cases cmds with
  | nil =>
    rintro (⟨err, herr⟩ | ⟨-, hts⟩)
    · cases herr
    · have hshort : s.lastAppliedTS = s.lastAppliedTS + 1 := hts
      omega
  | cons next cmds =>
    have hgap : applyFrame exec (s.skip ⟨s.lastAppliedTS + 1, args⟩ store)
        ⟨s.lastAppliedTS + 1 + 1, next⟩ =
          .error (.gap (.frameGap (s.lastAppliedTS + 1 + 1) (s.lastAppliedTS + 1))) := by
      have hcheck := checkFeedTSGap_succ_succ hpos
      unfold applyFrame
      rw [show (s.skip ⟨s.lastAppliedTS + 1, args⟩ store).lastAppliedTS = s.lastAppliedTS from rfl, hcheck]
    rw [framesAfter]
    dsimp only
    rw [applyFrames, hgap]
    rintro (⟨err, herr⟩ | ⟨hnone, -⟩)
    · cases herr
    · cases hnone

/-- **Gapless streams.** The loop consumes a gapless stream, or stops at a command's own error, exactly
when no command ends in a tolerated error. -/
theorem applyFrames_gapless (exec : List Bytes → σ → Executed σ) (s : Applier σ)
    (cmds : List (List Bytes)) (hpos : 0 < s.lastAppliedTS) :
    Consumed exec s cmds ↔ NoneTolerated exec s.store cmds := by
  induction cmds generalizing s with
  | nil =>
    -- nothing is read
    constructor
    · intro _
      exact trivial
    · intro _
      exact .inr ⟨rfl, rfl⟩
  | cons args cmds ih =>
    have hnext : ∀ store, 0 < (s.advance ⟨s.lastAppliedTS + 1, args⟩ store).lastAppliedTS := by
      intro store
      exact Nat.succ_pos _
    rw [NoneTolerated]
    cases hnoop : isNoop args with
    | true =>
      rw [consumed_cons_of_advance (applyFrame_noop hnoop), ih _ (hnext _)]
      rfl
    | false =>
      rw [if_neg Bool.false_ne_true]
      cases herr : (exec args s.store).err with
      | none =>
        rw [consumed_cons_of_advance (applyFrame_executed hnoop herr), ih _ (hnext _)]
        rfl
      | some err =>
        cases ht : isTransientReplicationError err with
        | true =>
          have hnot : ¬ Consumed exec s (args :: cmds) :=
            not_consumed_cons_of_skip hpos (applyFrame_tolerated hnoop herr ht)
          simp [hnot, ht]
        | false =>
          have hstop := applyFrame_fatal hnoop herr ht
          simp only [ht, iff_true]
          refine .inl ⟨err, ?_⟩
          rw [framesAfter, applyFrames, hstop]

/-! ## A store with time series -/

/-- `WriteCommand` for `TS.DEL`. -/
def executeTSDel (now : Nat) (args : List Bytes) (db : KeyValue.Db) : Executed KeyValue.Db :=
  match args with
  | [_, key, start, stop] =>
    match Store.TimeSeries.tsDel now key start stop db with
    | (.ok _, db') => ⟨db', none⟩
    -- of the texts only the one of a missing key makes a difference
    | (.error e, db') => ⟨db', some (if e = .keyNotFound then "key not found" else "ERR")⟩
  | _ => ⟨db, none⟩

/-- A store with one sample. -/
def oneSample : KeyValue.Db := (Store.TimeSeries.tsAdd 0 "k" 7 F64.zero ⟨[], 0⟩ ∅).2

/-- A series outlives its samples, so that it can be deleted from again. -/
theorem applyFrames_gapless_tombstone :
    0 < 5 ∧ Consumed (executeTSDel 0) ⟨5, 0, 0, oneSample⟩
      [["TS.DEL", "k", "-", "+"].map ascii, [ascii "NOOP"], ["TS.DEL", "k", "1", "9"].map ascii] := by
  refine ⟨by decide, ?_⟩
  refine (applyFrames_gapless (executeTSDel 0) ⟨5, 0, 0, oneSample⟩ _ (by decide)).mpr ?_
  have hfirst : (executeTSDel 0 (["TS.DEL", "k", "-", "+"].map ascii) oneSample).err = none := by
    decide +kernel
  have hsecond : (executeTSDel 0 (["TS.DEL", "k", "1", "9"].map ascii)
      (executeTSDel 0 (["TS.DEL", "k", "-", "+"].map ascii) oneSample).store).err = none := by
    decide +kernel
  have hdel : ∀ args, isNoop (ascii "TS.DEL" :: args) = false := fun _ => rfl
  have hnoop : isNoop [ascii "NOOP"] = true := by decide
  simp only [List.map_cons, List.map_nil] at hfirst hsecond ⊢
  simp [NoneTolerated, hdel, hnoop, hfirst, hsecond]

/-- `TS.DEL` of a key that is not there: the tombstone behind it is rejected as a gap. -/
theorem missing_key_then_gap :
    (applyFrames (executeTSDel 0) ⟨5, 0, 0, ∅⟩
        (framesAfter 5 [["TS.DEL", "k", "-", "+"].map ascii, [ascii "NOOP"]])).2 =
      some (.gap (.frameGap 7 6)) ∧
    ¬ Consumed (executeTSDel 0) ⟨5, 0, 0, ∅⟩ [["TS.DEL", "k", "-", "+"].map ascii, [ascii "NOOP"]] := by
  have hgap : (applyFrames (executeTSDel 0) ⟨5, 0, 0, ∅⟩
      (framesAfter 5 [["TS.DEL", "k", "-", "+"].map ascii, ["NOOP"]])).2 =
        some (.gap (.frameGap 7 6)) := by
    decide +kernel
  refine ⟨hgap, ?_⟩
  rintro (⟨err, herr⟩ | ⟨hnone, -⟩)
  · cases hgap.symm.trans herr
  · cases hgap.symm.trans hnone

end BoltDB.Replication
