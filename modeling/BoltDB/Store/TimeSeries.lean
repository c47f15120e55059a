import BoltDB.Store.Strings

/-!
# Time series

`timeseries.go`. A sample at a time is a record `TS:key:data:time`, with the time in decimal, so that
records are not in the order of time; a meta record holds the number of samples, the first and the last
time and the retention.
-/

namespace BoltDB.Store.TimeSeries

open Bytes KeyValue List Std.ExtTreeMap Int64

/-! ## Records -/

structure Meta where
  totalSamples : Int64
  firstTimestamp : Int64
  lastTimestamp : Int64
  retention : Int64
  encoding : Bytes
  deriving DecidableEq

/-- The meta data of a new series. -/
def newMeta : Meta := ⟨0, 0, 0, 0, "compressed"⟩

def int64ToBytes (n : Int64) : Bytes := uint64ToBytes n.toUInt64

def int64At (b : Bytes) (i : Nat) : Int64 :=
  (UInt64.ofNat (ofBigEndian ((b.drop i).take 8))).toInt64

/-- 48 bytes: a longer name of an encoding is cut. -/
def encodeTSMeta (m : Meta) : Bytes :=
  int64ToBytes m.totalSamples ++ int64ToBytes m.firstTimestamp ++ int64ToBytes m.lastTimestamp ++
    int64ToBytes m.retention ++ (m.encoding ++ List.replicate 16 0).take 16

def trimZeros (b : Bytes) : Bytes := (((b.dropWhile (· = 0)).reverse).dropWhile (· = 0)).reverse

def decodeTSMeta (b : Bytes) : Option Meta :=
  if b.length < 40 then none
  else some ⟨int64At b 0, int64At b 8, int64At b 16, int64At b 24, trimZeros (b.drop 32)⟩

def tsDataPrefix (key : Bytes) : Bytes := recordPrefix .timeSeries key ++ "data:"

def tsDataKey (key : Bytes) (timestamp : Int64) : Bytes :=
  tsDataPrefix key ++ formatInt timestamp.toInt

def encodeSample (timestamp : Int64) (value : F64) : Bytes :=
  int64ToBytes timestamp ++ uint64ToBytes value.bits

/-- The number in a sample. -/
def sampleValue (b : Bytes) : F64 := ⟨UInt64.ofNat (ofBigEndian ((b.drop 8).take 8))⟩

/-- The time in the name of a sample's record. -/
def timeOf (key p : Bytes) : Option Int64 := parseInt64 (p.drop (tsDataPrefix key).length)

def parseTimestamp (now : Nat) (ts : Bytes) : Option Int64 :=
  if ts = "*" then some (Int64.ofNat (unixMilli now))
  else if ts = "-" then some 0
  else if ts = "+" then some Int64.maxValue
  else parseInt64 ts

/-- A time of a range, or an error that names the end. -/
def parseBound (now : Nat) (which : String) (ts : Bytes) : View Err Int64 :=
  match parseTimestamp now ts with
  | some t => pure t
  | none => throw (.other s!"ERR invalid {which} timestamp")

def decodeMeta (e : Entry) : View Err Meta :=
  match decodeTSMeta e.value with
  | some m => pure m
  | none => throw (.other "invalid time series metadata size")

/-- The meta data of a series that has to be there. -/
def fetchMeta (key : Bytes) : View Err Meta := do
  match ← View.get (tsMetaKey key) with
  | none => throw .keyNotFound
  | some e => decodeMeta e

/-! ## Writing -/

structure AddOptions where
  onDuplicate : Bytes
  retention : Int64
  deriving DecidableEq

/-- The type of the key, which a new series gets with its meta data. -/
def openSeries (key : Bytes) : Txn Err Unit := do
  match ← Txn.get (typeOfKeyGet key) with
  | none => do
    Txn.set (typeOfKeyGet key) KeyType.timeSeries.name
    Txn.set (tsMetaKey key) (encodeTSMeta newMeta)
  | some e =>
    if e.value ≠ [] ∧ e.value ≠ KeyType.timeSeries.name then throw .wrongType else pure ()

def metaOrNew (key : Bytes) : View Err Meta := do
  match ← View.get (tsMetaKey key) with
  | none => return newMeta
  | some e => decodeMeta e

/-- The meta data with one more sample, whether or not there was one at that time. -/
def addSample (m : Meta) (timestamp : Int64) (o : AddOptions) : Meta where
  totalSamples := m.totalSamples + 1
  firstTimestamp :=
    if m.firstTimestamp = 0 ∨ timestamp < m.firstTimestamp then timestamp else m.firstTimestamp
  lastTimestamp := if m.lastTimestamp < timestamp then timestamp else m.lastTimestamp
  retention := if 0 < o.retention then o.retention else m.retention
  encoding := m.encoding

/-- The records of samples before a time. -/
def expired (key : Bytes) (minTimestamp : Int64) (es : List (Bytes × Entry)) : List Bytes :=
  (es.map Prod.fst).filter fun p => (timeOf key p).any (· < minTimestamp)

/-- Samples that are older than the retention go. -/
def applyRetention (key : Bytes) (m : Meta) (timestamp : Int64) : Txn Err Meta := do
  if 0 < m.retention then do
    let es ← Txn.scan (tsDataPrefix key)
    let old := expired key (timestamp - m.retention) es
    old.forM fun p => Txn.delete p
    return { m with totalSamples := m.totalSamples - Int64.ofNat old.length }
  else return m

def putSample (key : Bytes) (m : Meta) (timestamp : Int64) (value : F64) (o : AddOptions) :
    Txn Err Int64 := do
  Txn.set (tsDataKey key timestamp) (encodeSample timestamp value)
  let m ← applyRetention key (addSample m timestamp o) timestamp
  Txn.set (tsMetaKey key) (encodeTSMeta m)
  return timestamp

def tsAddTxn (key : Bytes) (timestamp : Int64) (value : F64) (o : AddOptions) : Txn Err Int64 := do
  openSeries key
  let m ← metaOrNew key
  let old ← Txn.get (tsDataKey key timestamp)
  if old.isSome ∧ o.onDuplicate = "block" then throw (.other "ERR duplicate timestamp")
  else if old.isSome ∧ o.onDuplicate = "skip" then return 0
  else putSample key m timestamp value o

/-- The records of samples in a range. -/
def inRange (key : Bytes) (start stop : Int64) (es : List (Bytes × Entry)) : List Bytes :=
  (es.map Prod.fst).filter fun p => (timeOf key p).any fun ts => start ≤ ts ∧ ts ≤ stop

/-- The meta data after a deletion. The new first time is that of the first record, which the iterator
shows as it was before the deletion. -/
def dropSamples (key : Bytes) (m : Meta) (es : List (Bytes × Entry)) (deleted : Nat) : Meta :=
  let total := m.totalSamples - Int64.ofNat deleted
  if 0 < total ∧ 0 < deleted then
    { m with
      totalSamples := total
      firstTimestamp := (es.findSome? fun e => timeOf key e.1).getD m.firstTimestamp }
  else if total = 0 then
    { m with totalSamples := total, firstTimestamp := 0, lastTimestamp := 0 }
  else { m with totalSamples := total }

def tsDelTxn (now : Nat) (key start stop : Bytes) : Txn Err Nat := do
  checkKeyType key .timeSeries
  let m ← fetchMeta key
  let startTS ← parseBound now "start" start
  let stopTS ← parseBound now "stop" stop
  let es ← Txn.scan (tsDataPrefix key)
  let old := inRange key startTS stopTS es
  old.forM fun p => Txn.delete p
  Txn.set (tsMetaKey key) (encodeTSMeta (dropSamples key m es old.length))
  return old.length

/-- A numeral with twenty places. -/
def padded (n : Int) : Bytes :=
  let digits := decimal n.natAbs
  let sign := if n < 0 then ascii "-" else []
  sign ++ List.replicate (20 - sign.length - digits.length) 48 ++ digits

/-- The time and the value that `TS.INCRBY` starts from: the sample is looked for under a numeral with
leading zeros, which no record has. -/
def incrBase (key : Bytes) (timestamp : Int64) : View Err (Int64 × F64) := do
  checkKeyType key .timeSeries
  let m ← fetchMeta key
  let ts := if timestamp = 0 ∨ timestamp = -1 then m.lastTimestamp else timestamp
  let es ← View.scan (tsDataPrefix key)
  return (ts,
    match es.find? fun e => compare e.1 (tsDataPrefix key ++ padded ts.toInt) ≠ .lt with
    | some e => if (timeOf key e.1).getD 0 = ts then sampleValue e.2.value else F64.zero
    | none => F64.zero)

/-! ## Methods -/

def tsAdd (now : Nat) (key : Bytes) (timestamp : Int64) (value : F64) (o : AddOptions) :
    Run Err Int64 := update now (tsAddTxn key timestamp value o)

def tsDel (now : Nat) (key start stop : Bytes) : Run Err Nat := update now (tsDelTxn now key start stop)

def tsIncrBy (now : Nat) (key : Bytes) (timestamp : Int64) (value : F64) (o : AddOptions) :
    Run Err Int64 := do
  let base ← view now (incrBase key timestamp)
  tsAdd now key base.1 (base.2.add value) o

/-! ## Footprints -/

section Footprints

variable {key : Bytes}

theorem isRecord_of_tsDataPrefix {p : Bytes} (h : tsDataPrefix key <+: p) :
    IsRecord .timeSeries key p :=
  isRecord_of_isPrefix rfl ((prefix_append _ _).trans h)

theorem touches_tsMetaKey (e : Option Entry) : Touches .timeSeries key (tsMetaKey key) e :=
  touches_record (isRecord_of_isPrefix rfl (prefix_append _ _))

/-- What a scan of the samples finds may be deleted. -/
theorem writes_deleteSamples {es : List (Bytes × Entry)} {P : Bytes → Bool}
    (hes : ∀ e ∈ es, tsDataPrefix key <+: e.1) :
    Writes (Touches .timeSeries key)
      (((es.map Prod.fst).filter P).forM fun p => (Txn.delete p : Txn Err Unit)) := by
  refine writes_forM fun p hp => writes_delete (touches_record ?_)
  obtain ⟨e, he, rfl⟩ := List.mem_map.mp (List.mem_filter.mp hp).1
  exact isRecord_of_tsDataPrefix (hes e he)

theorem writes_openSeries : Writes (Touches .timeSeries key) (openSeries key) := by
  refine writes_read fun e => ?_
  split
  · exact writes_bind (writes_set touches_typeOfKeyGet) fun _ => writes_set (touches_tsMetaKey _)
  · exact writes_ite writes_throw writes_pure

theorem writes_applyRetention (m : Meta) (timestamp : Int64) :
    Writes (Touches .timeSeries key) (applyRetention key m timestamp) :=
  writes_ite (writes_scan_bind fun _ hes => writes_map (writes_deleteSamples hes) _) writes_pure

theorem writes_tsAddTxn (timestamp : Int64) (value : F64) (o : AddOptions) :
    Writes (Touches .timeSeries key) (tsAddTxn key timestamp value o) := by
  refine writes_bind writes_openSeries fun _ => writes_read fun m => ?_
  refine writes_read fun old => writes_ite writes_throw (writes_ite writes_pure ?_)
  refine writes_bind (writes_set (touches_record ?_)) fun _ => ?_
  · exact isRecord_of_tsDataPrefix (prefix_append _ _)
  · exact writes_bind (writes_applyRetention _ _) fun _ =>
      writes_map (writes_set (touches_tsMetaKey _)) _

theorem writes_tsDelTxn (now : Nat) (start stop : Bytes) :
    Writes (Touches .timeSeries key) (tsDelTxn now key start stop) := by
  refine writes_read fun _ => writes_read fun m => writes_read fun startTS => ?_
  refine writes_read fun stopTS => writes_scan_bind fun es hes => ?_
  exact writes_bind (writes_deleteSamples hes) fun _ =>
    writes_map (writes_set (touches_tsMetaKey _)) _

end Footprints

/-! ## Names and contents of samples -/

section Samples

variable {key : Bytes} {timestamp : Int64}

theorem timeOf_tsDataKey (key : Bytes) (timestamp : Int64) :
    timeOf key (tsDataKey key timestamp) = some timestamp := by
  rw [timeOf, tsDataKey, drop_left, parseInt64_formatInt]

theorem tsDataKey_injective {t t' : Int64} (h : tsDataKey key t = tsDataKey key t') : t = t' := by
  have htime := timeOf_tsDataKey key t
  rw [h, timeOf_tsDataKey] at htime
  exact (Option.some.inj htime).symm

theorem sampleValue_encodeSample (timestamp : Int64) (value : F64) :
    sampleValue (encodeSample timestamp value) = value := by
  have hvalue : (uint64ToBytes value.bits).length = 8 := length_bigEndian _ _
  have hdrop : (encodeSample timestamp value).drop 8 = uint64ToBytes value.bits := by
    rfl
  have hlt : value.bits.toNat < 256 ^ 8 := value.bits.toNat_lt
  rw [sampleValue, hdrop, take_of_length_le (by omega), uint64ToBytes, ofBigEndian_bigEndian,
    Nat.mod_eq_of_lt hlt, UInt64.ofNat_toNat]

theorem tsDataPrefix_not_tsMetaKey (key : Bytes) : ¬ tsDataPrefix key <+: tsMetaKey key := by
  intro h
  have hshort : ascii "data:" <+: ascii "meta" := (prefix_append_right_inj _).mp h
  exact absurd hshort (by decide)

theorem tsDataPrefix_not_typeOfKeyGet (key : Bytes) : ¬ tsDataPrefix key <+: typeOfKeyGet key :=
  fun h => not_isRecord_typeOfKeyGet .timeSeries key key (isRecord_of_tsDataPrefix h)

/-- A transaction that writes one sample may also delete others. -/
def WritesSample (key : Bytes) (timestamp : Int64) (p : Bytes) (e : Option Entry) : Prop :=
  tsDataPrefix key <+: p → e = none ∨ p = tsDataKey key timestamp ∧ ∃ v, e = some ⟨v, 0⟩

theorem writesSample_tsMetaKey (e : Option Entry) : WritesSample key timestamp (tsMetaKey key) e :=
  fun h => absurd h (tsDataPrefix_not_tsMetaKey key)

theorem writes_tsAddTxn_sample (value : F64) (o : AddOptions) :
    Writes (WritesSample key timestamp) (tsAddTxn key timestamp value o) := by
  have hopen : Writes (WritesSample key timestamp) (openSeries key) := by
    refine writes_read fun e => ?_
    split
    · refine writes_bind (writes_set fun h => ?_) fun _ => writes_set (writesSample_tsMetaKey _)
      exact absurd h (tsDataPrefix_not_typeOfKeyGet key)
    · exact writes_ite writes_throw writes_pure
  have hretention : ∀ m, Writes (WritesSample key timestamp) (applyRetention key m timestamp) := by
    intro m
    refine writes_ite (writes_read fun es => ?_) writes_pure
    exact writes_map (writes_forM fun p _ => writes_delete fun _ => .inl rfl) _
  refine writes_bind hopen fun _ => writes_read fun m => ?_
  refine writes_read fun old => writes_ite writes_throw ?_
  refine writes_ite writes_pure ?_
  refine writes_bind (writes_set fun _ => .inr ⟨rfl, _, rfl⟩) fun _ => ?_
  exact writes_bind (hretention _) fun m =>
    writes_map (writes_set (writesSample_tsMetaKey _)) _

/-- The retention is counted back from the new sample, which therefore stays. -/
theorem writes_applyRetention_older (m : Meta) (hpos : 0 < timestamp) :
    Writes (fun p _ => p ≠ tsDataKey key timestamp) (applyRetention key m timestamp) := by
  unfold applyRetention
  by_cases hret : 0 < m.retention
  · rw [if_pos hret]
    refine writes_read fun es => ?_
    refine writes_map (writes_forM fun p hp => writes_delete ?_) _
    rintro rfl
    have hold : timestamp < timestamp - m.retention := by
      simpa [timeOf_tsDataKey] using (List.mem_filter.mp hp).2
    rw [lt_iff_toInt_lt] at hpos hret hold
    have htop := timestamp.toInt_lt
    have hretTop := m.retention.toInt_lt
    have hzero : (0 : Int64).toInt = 0 := rfl
    rw [toInt_sub, Int.bmod_eq_of_le (by omega) (by omega)] at hold
    omega
  · rw [if_neg hret]
    exact writes_pure

variable {db : Db}

/-- A sample that is added is there afterwards. -/
theorem tsAddTxn_sample {value : F64} {o : AddOptions} {n : Int64} {db' : Db} (hpos : 0 < timestamp)
    (hskip : o.onDuplicate ≠ "skip") (h : tsAddTxn key timestamp value o db = .ok (n, db')) :
    db'[tsDataKey key timestamp]? = some ⟨encodeSample timestamp value, 0⟩ := by
  obtain ⟨-, db₁, -, h⟩ := Txn.bind_eq_ok.mp h
  obtain ⟨m, -, h⟩ := Txn.lift_bind_eq_ok.mp h
  obtain ⟨old, db₂, -, h⟩ := Txn.bind_eq_ok.mp h
  by_cases hblock : old.isSome ∧ o.onDuplicate = "block"
  · rw [if_pos hblock] at h
    cases h
  · rw [if_neg hblock, if_neg fun hs => hskip hs.2, putSample, Txn.set_bind] at h
    obtain ⟨m', db₃, hretention, h⟩ := Txn.bind_eq_ok.mp h
    obtain ⟨-, rfl⟩ := Txn.pure_eq_ok.mp h
    have hmeta : tsDataKey key timestamp ≠ tsMetaKey key := fun heq =>
      tsDataPrefix_not_tsMetaKey key (heq ▸ prefix_append _ _)
    have hkept := writes_applyRetention_older _ hpos _ _ _ hretention (tsDataKey key timestamp)
    rw [getElem?_insert_ite, if_neg hmeta, hkept.resolve_right (fun hne => hne rfl),
      getElem?_insert_ite, if_pos rfl]

/-- The number at a time, 0 without a sample. -/
def sampleAt (key : Bytes) (timestamp : Int64) (db : Db) : F64 :=
  (db[tsDataKey key timestamp]?.map fun e => sampleValue e.value).getD F64.zero

/-- The records of the series are samples without an expiry, and the numeral of the time is the first
of those at positive times, in byte order. -/
structure Series (key : Bytes) (timestamp : Int64) (db : Db) : Prop where
  samples : ∀ p e, db[p]? = some e → tsDataPrefix key <+: p →
    e.expiresAt = 0 ∧ ∃ t, p = tsDataKey key t
  first : ∀ t, 0 < t → tsDataKey key t ∈ db →
    compare (formatInt t.toInt) (formatInt timestamp.toInt) ≠ .lt

theorem formatInt_of_pos (hpos : 0 < timestamp) :
    ∃ d ds, formatInt timestamp.toInt = d :: ds ∧ 48 < d := by
  have hpos' : 0 < timestamp.toInt := lt_iff_toInt_lt.mp hpos
  obtain ⟨d, ds, hhead, hd⟩ := decimalAux_head (n := timestamp.toInt.natAbs) (by omega)
    (Nat.lt_succ_self _)
  refine ⟨d, ds, ?_, hd⟩
  rw [formatInt, if_neg (by omega)]
  exact hhead

theorem padded_of_pos (hpos : 0 < timestamp) :
    ∃ n, padded timestamp.toInt = List.replicate n 48 ++ formatInt timestamp.toInt := by
  have hpos' : 0 < timestamp.toInt := lt_iff_toInt_lt.mp hpos
  have hneg : ¬ timestamp.toInt < 0 := by omega
  exact ⟨_, by rw [padded, formatInt, if_neg hneg]; rfl⟩

/-- The seek starts before the record of the time. -/
theorem formatInt_not_lt_padded (hpos : 0 < timestamp) :
    compare (formatInt timestamp.toInt) (padded timestamp.toInt) ≠ .lt := by
  obtain ⟨n, hpadded⟩ := padded_of_pos hpos
  rw [hpadded]
  cases n with
  | zero =>
    have hself : compare (formatInt timestamp.toInt) (formatInt timestamp.toInt) = .eq :=
      Std.ReflCmp.compare_self
    rw [replicate_zero, nil_append, hself]
    decide
  | succ n =>
    obtain ⟨d, ds, hhead, hd⟩ := formatInt_of_pos hpos
    rw [replicate_succ, cons_append, hhead, compare_cons_cons, Std.compare_eq_gt.mpr hd]
    simp

/-- The seek starts after the records of times that are not positive. -/
theorem formatInt_lt_padded {t : Int64} (hpos : 0 < timestamp) (ht : ¬ 0 < t) :
    compare (formatInt t.toInt) (padded timestamp.toInt) = .lt := by
  obtain ⟨n, hpadded⟩ := padded_of_pos hpos
  obtain ⟨d, ds, hhead, hd⟩ := formatInt_of_pos hpos
  have ht' : ¬ 0 < t.toInt := fun h => ht (lt_iff_toInt_lt.mpr h)
  rw [hpadded, hhead]
  by_cases hneg : t.toInt < 0
  · have hminus : formatInt t.toInt = 45 :: decimal t.toInt.natAbs := by
      rw [formatInt, if_pos hneg]
      rfl
    rw [hminus]
    cases n with
    | zero => exact compare_cons_of_lt (UInt8.lt_trans (by decide : (45 : UInt8) < 48) hd) _ _
    | succ n => exact compare_cons_of_lt (by decide : (45 : UInt8) < 48) _ _
  · have hzero : formatInt t.toInt = [48] := by
      rw [show t.toInt = 0 by omega]
      rfl
    rw [hzero]
    cases n with
    | zero => exact compare_cons_of_lt hd _ _
    | succ n =>
      cases n <;> rfl

/-- The first element with a property is no later than any other. -/
theorem find?_not_after {l : List (Bytes × Entry)} {P : Bytes × Entry → Bool} {e x : Bytes × Entry}
    (hsorted : l.Pairwise fun e f => compare e.1 f.1 = .lt) (hx : x ∈ l) (hpx : P x = true)
    (he : l.find? P = some e) : e = x ∨ compare e.1 x.1 = .lt := by
  obtain ⟨-, before, after, rfl, hbefore⟩ := find?_eq_some_iff_append.mp he
  rcases mem_append.mp hx with hmem | hmem
  · have := hbefore x hmem
    simp [hpx] at this
  · rcases mem_cons.mp hmem with rfl | hmem
    · exact .inl rfl
    · exact .inr (rel_of_pairwise_cons (pairwise_append.mp hsorted).2.1 hmem)

/-- The sample that the seek finds. -/
def seek (key : Bytes) (timestamp : Int64) (db : Db) : Option (Bytes × Entry) :=
  (scan (tsDataPrefix key) db).find? fun e =>
    compare e.1 (tsDataPrefix key ++ padded timestamp.toInt) ≠ .lt

theorem Series.seek_eq {e : Entry} (h : Series key timestamp db) (hpos : 0 < timestamp)
    (he : db[tsDataKey key timestamp]? = some e) :
    seek key timestamp db = some (tsDataKey key timestamp, e) := by
  have hmem : (tsDataKey key timestamp, e) ∈ scan (tsDataPrefix key) db :=
    mem_scan.mpr ⟨he, prefix_append _ _⟩
  have hfrom : decide (compare (tsDataKey key timestamp)
      (tsDataPrefix key ++ padded timestamp.toInt) ≠ .lt) = true := by
    rw [decide_eq_true_iff, tsDataKey, compare_append_left]
    exact formatInt_not_lt_padded hpos
  cases hseek : seek key timestamp db with
  | none => exact absurd hfrom (by simpa using find?_eq_none.mp hseek _ hmem)
  | some f =>
    rcases find?_not_after (sorted_scan _ _) hmem hfrom hseek with rfl | hlt
    · rfl
    · -- an earlier record that the seek reaches is at a positive time
      obtain ⟨hget, hdata⟩ := mem_scan.mp (mem_of_find?_eq_some hseek)
      obtain ⟨-, t, ht⟩ := h.samples f.1 f.2 hget hdata
      have hreached := find?_some hseek
      rw [decide_eq_true_iff, ht, tsDataKey, compare_append_left] at hreached
      rw [ht, tsDataKey, tsDataKey, compare_append_left] at hlt
      have hpos' : 0 < t := by
        by_contra hnot
        exact hreached (formatInt_lt_padded hpos hnot)
      have hin : tsDataKey key t ∈ db := by
        rw [← ht]
        exact mem_iff_isSome_getElem?.mpr (by rw [hget]; rfl)
      exact absurd hlt (h.first t hpos' hin)

/-- `TS.INCRBY` starts from the sample that is there. -/
theorem Series.incrBase_eq {base : Int64 × F64} (h : Series key timestamp db) (hpos : 0 < timestamp)
    (hbase : incrBase key timestamp db = .ok base) :
    base = (timestamp, sampleAt key timestamp db) := by
  obtain ⟨-, -, hbase⟩ := View.bind_eq_ok.mp hbase
  obtain ⟨m, -, hbase⟩ := View.bind_eq_ok.mp hbase
  have hexplicit : ¬ (timestamp = 0 ∨ timestamp = -1) := by
    rintro (rfl | rfl) <;> exact absurd hpos (by decide)
  rw [if_neg hexplicit] at hbase
  have hvalue : (timestamp, match seek key timestamp db with
      | some e => if (timeOf key e.1).getD 0 = timestamp then sampleValue e.2.value else F64.zero
      | none => F64.zero) = base := Except.ok.inj hbase
  rw [← hvalue, sampleAt]
  congr 1
  cases he : db[tsDataKey key timestamp]? with
  | some e =>
    rw [h.seek_eq hpos he]
    exact if_pos (by rw [timeOf_tsDataKey]; rfl)
  | none =>
    cases hseek : seek key timestamp db with
    | none => rfl
    | some f =>
      -- a record at another time
      obtain ⟨hget, hdata⟩ := mem_scan.mp (mem_of_find?_eq_some hseek)
      obtain ⟨-, t, ht⟩ := h.samples f.1 f.2 hget hdata
      refine if_neg fun heq => ?_
      rw [ht, timeOf_tsDataKey] at heq
      obtain rfl : t = timestamp := heq
      rw [← ht, hget] at he
      cases he

theorem mem_of_mem_visible {now : Nat} {p : Bytes} (h : p ∈ visible now db) : p ∈ db := by
  rw [mem_iff_isSome_getElem?, getElem?_visible] at h
  rw [mem_iff_isSome_getElem?]
  exact Option.isSome_of_isSome_filter _ _ h

theorem Series.visible (h : Series key timestamp db) (now : Nat) :
    Series key timestamp (visible now db) where
  samples p e he := by
    rw [getElem?_visible, Option.filter_eq_some_iff] at he
    exact h.samples p e he.1
  first t ht hmem := h.first t ht (mem_of_mem_visible hmem)

theorem Series.sampleAt_visible (h : Series key timestamp db) (now : Nat) :
    sampleAt key timestamp (KeyValue.visible now db) = sampleAt key timestamp db := by
  have hsame : (KeyValue.visible now db)[tsDataKey key timestamp]? = db[tsDataKey key timestamp]? := by
    rw [getElem?_visible]
    cases he : db[tsDataKey key timestamp]? with
    | none => rfl
    | some e =>
      have hexp := (h.samples _ e he (prefix_append _ _)).1
      rw [Option.filter_some, if_pos (by simp [Entry.live, hexp])]
  rw [sampleAt, sampleAt, hsame]

theorem Series.changes {db' : Db} (h : Series key timestamp db)
    (hw : Changes (WritesSample key timestamp) db db') : Series key timestamp db' where
  samples p e he hdata := by
    rcases hw p with hsame | hnew
    · exact h.samples p e (hsame.symm.trans he) hdata
    · rcases hnew hdata with hnone | ⟨hp, v, hv⟩
      · cases hnone.symm.trans he
      · cases hv.symm.trans he
        exact ⟨rfl, timestamp, hp⟩
  first t ht hmem := by
    rcases hw (tsDataKey key t) with hsame | hnew
    · rw [mem_iff_isSome_getElem?, hsame] at hmem
      exact h.first t ht (mem_iff_isSome_getElem?.mpr hmem)
    · rcases hnew (prefix_append _ _) with hnone | ⟨hp, -⟩
      · rw [mem_iff_isSome_getElem?, hnone] at hmem
        cases hmem
      · rw [tsDataKey_injective hp]
        simp

end Samples

end BoltDB.Store.TimeSeries
