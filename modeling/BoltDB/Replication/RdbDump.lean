import BoltDB.Replication.Rdb
import BoltDB.Store.Lists
import BoltDB.Store.SortedSets
import BoltDB.Store.TimeSeries

/-!
# Snapshots

`GenerateRDB`: one view of the store goes over the `TYPE_` records and reads the records of each key.
A `TYPE_` record never expires, and most methods leave it when they remove the last element of a
collection; the record that carries the expiry and the number of elements is another one. The snapshot
looks at that record for the expiry second only.

`snapshot_total_iff` says for which stores the snapshot has no error and holds the keys that are alive.
-/

namespace BoltDB.Replication.Rdb

open Bytes KeyValue Store List

/-! ## Reading -/

section Read

variable (c : Codec) (decodeGeoHash : UInt64 → F64 × F64)

def corrupt : Err := .other "corrupt compressed data"

def decompress (data : Bytes) : View Err Bytes :=
  match decompressData c data with
  | some v => pure v
  | none => throw corrupt

/-- `binary.BigEndian.Uint64`, which panics if there are less than eight bytes. -/
def uint64At (b : Bytes) : View Err UInt64 :=
  if b.length < 8 then throw .indexOutOfRange else pure (UInt64.ofNat (ofBigEndian (b.take 8)))

/-- A record that has to be there. -/
def fetch (p : Bytes) : View Err Bytes := do
  match ← View.get p with
  | some e => return e.value
  | none => throw .keyNotFound

/-- `readTTLFromValueTxn`. -/
def readTTLFromValue (key : Bytes) (t : KeyType) : View Err Int64 := do
  match ← View.get (getKeyValueKey key t) with
  | some e => return (UInt64.ofNat e.expiresAt).toInt64
  | none => return 0

/-- `readStringInTxn` and `readJSONInTxn`, by the record. -/
def readCompressed (p : Bytes) : View Err Bytes := do
  decompress c (← fetch p)

/-- The loop of `readListInTxn`: up to `n` nodes, until the chain ends or comes back. -/
def readNodes (key : Bytes) : Nat → Bytes → List Bytes → View Err (List Bytes)
  | 0, _, _ => pure []
  | n + 1, id, visited =>
    if id ∈ visited then pure []
    else do
      let v ← decompress c (← fetch (listKey key id))
      match ← View.get (listKey key (id ++ ":next")) with
      | none => return [v]
      | some next => return v :: (← readNodes key n next.value (id :: visited))

def readList (key : Bytes) : View Err (List Bytes) := do
  match ← View.get (listKey key "length") with
  | none => return []
  | some e => do
    let length := (← uint64At e.value).toInt64
    if length = 0 then return []
    else
      match ← View.get (listKey key "start") with
      | none => return []
      | some start =>
        if length < 0 ∨ Lists.maxStrings < length.toInt.toNat then throw .indexOutOfRange
        else readNodes c key length.toInt.toNat start.value []

def readHash (key : Bytes) : View Err (List (Bytes × Bytes)) := do
  let es ← View.scan (recordPrefix .hash key)
  (es.filter (·.1 ≠ hashCountKey key)).mapM fun e => do
    return (e.1.drop (recordPrefix .hash key).length, ← decompress c e.2.value)

def readSet (key : Bytes) : View Err (List Bytes) := do
  let es ← View.scan (setMemberKey key [])
  return es.map fun e => e.1.drop (setMemberKey key []).length

def readZSet (key : Bytes) : View Err (List (Bytes × F64)) := do
  let es ← View.scan (SortedSets.dataPrefix key)
  es.mapM fun e => do
    let _ ← uint64At e.2.value
    return (e.1.drop (SortedSets.dataPrefix key).length, SortedSets.decodeScore (e.2.value.take 8))

/-- Samples that are too short are left out. -/
def readTimeSeries (key : Bytes) : View Err (List (Int64 × F64)) := do
  let es ← View.scan (TimeSeries.tsDataPrefix key)
  return (es.filter (16 ≤ ·.2.value.length)).map fun e =>
    (TimeSeries.int64At e.2.value 0, TimeSeries.sampleValue e.2.value)

def geoIndexPrefix (key : Bytes) : Bytes := recordPrefix .geo key ++ "index:"

def readGeo (key : Bytes) : View Err (List (Bytes × F64 × F64)) := do
  let es ← View.scan (geoIndexPrefix key)
  es.mapM fun e => do
    return (e.1.drop (geoIndexPrefix key).length, decodeGeoHash (← uint64At e.2.value))

/-- Entries that are no JSON are left out. -/
def readStream (key : Bytes) : View Err (List (Bytes × Fields)) := do
  let es ← View.scan (streamDataPrefix key)
  return es.filterMap fun e => (c.json.unmarshalFields e.2.value).map fun fields =>
    (e.1.drop (streamDataPrefix key).length, fields)

/-- The part of a name after its last `:`. -/
def afterLastColon (p : Bytes) : Bytes := (p.reverse.takeWhile (· ≠ 58)).reverse

/-- A group without a name gets the end of the record's name. -/
def readStreamGroups (key : Bytes) : View Err (List StreamGroup) := do
  let es ← View.scan (streamGroupsPrefix key)
  return es.filterMap fun e => (c.json.unmarshalGroup e.2.value).map fun g =>
    if g.name = [] ∧ 58 ∈ e.1 then { g with name := afterLastColon e.1 } else g

def readValue (key : Bytes) : KeyType → View Err Value
  | .string => return .string (← readCompressed c (stringKey key))
  | .list => return .list (← readList c key)
  | .hash => return .hash (← readHash c key)
  | .set => return .set (← readSet key)
  | .sortedSet => return .zset (← readZSet key)
  | .stream => return .stream (← readStream c key) (← readStreamGroups c key)
  | .json => return .json (← readCompressed c (jsonKey key))
  | .timeSeries => return .timeSeries (← readTimeSeries key)
  | .geo => return .geo (← readGeo decodeGeoHash key)
  | .hyperLogLog => return .hll (← fetch (hllKey key))

/-! ## The snapshot -/

/-- What is written for one `TYPE_` record; a type that is not known is left out. -/
def readItem (e : Bytes × Entry) : View Err (Option Item) :=
  let key := e.1.drop (typeOfKeyGet []).length
  match KeyType.ofName e.2.value with
  | none => pure none
  | some t => do
    let ttl ← readTTLFromValue key t
    return some ⟨key, ttl, ← readValue c decodeGeoHash key t⟩

/-- What is written, in the order of the keys. -/
def snapshot : View Err (List Item) := do
  let es ← View.scan (typeOfKeyGet [])
  return (← es.mapM (readItem c decodeGeoHash)).filterMap id

def generateRDB (now : Nat) (db : Db) : Except Err Bytes :=
  (snapshot c decodeGeoHash (visible (unix now) db)).map file

end Read

/-! ## Keys that are alive -/

/-- The `TYPE_` record of the key names the type. -/
def HasType (key : Bytes) (t : KeyType) (db : Db) : Prop :=
  ∃ e, db[typeOfKeyGet key]? = some e ∧ KeyType.ofName e.value = some t

/-- What the value of the primary record says: a list, hash, set, sorted set or geo key has elements if
the number at its start is not 0. -/
def HasElements : KeyType → Bytes → Prop
  | .list, v | .hash, v | .set, v | .sortedSet, v | .geo, v => ofBigEndian (v.take 8) ≠ 0
  | .string, _ | .json, _ | .timeSeries, _ | .stream, _ | .hyperLogLog, _ => True

/-- The key has a type, its value is not expired, and it is no collection that was emptied. -/
def Alive (key : Bytes) (db : Db) : Prop :=
  ∃ t e, HasType key t db ∧ db[getKeyValueKey key t]? = some e ∧ HasElements t e.value

/-! ## Records that can be read -/

section Readable

variable (c : Codec)

/-- The first `n` nodes of a chain are there, up to the end of it or to a node that was there before. -/
def Linked (key : Bytes) (db : Db) : Nat → Bytes → List Bytes → Prop
  | 0, _, _ => True
  | n + 1, id, visited => id ∈ visited ∨
      ∃ e, db[listKey key id]? = some e ∧ (decompressData c e.value).isSome = true ∧
        ∀ next, db[listKey key (id ++ ":next")]? = some next →
          Linked key db n next.value (id :: visited)

/-- The number in a length record. -/
def storedLength (v : Bytes) : Int64 := (UInt64.ofNat (ofBigEndian (v.take 8))).toInt64

/-- The records that hold the value of a key are whole. -/
def Readable (key : Bytes) (db : Db) : KeyType → Prop
  | .string => ∀ e, db[stringKey key]? = some e → (decompressData c e.value).isSome = true
  | .json => ∀ e, db[jsonKey key]? = some e → (decompressData c e.value).isSome = true
  | .list => ∀ e, db[listKey key "length"]? = some e →
      8 ≤ e.value.length ∧ (storedLength e.value ≠ 0 →
        ∀ start, db[listKey key "start"]? = some start →
          0 ≤ storedLength e.value ∧ (storedLength e.value).toInt.toNat ≤ Lists.maxStrings ∧
            Linked c key db (storedLength e.value).toInt.toNat start.value [])
  | .hash => ∀ e ∈ scan (recordPrefix .hash key) db, e.1 ≠ hashCountKey key →
      (decompressData c e.2.value).isSome = true
  | .sortedSet => ∀ e ∈ scan (SortedSets.dataPrefix key) db, 8 ≤ e.2.value.length
  | .geo => ∀ e ∈ scan (geoIndexPrefix key) db, 8 ≤ e.2.value.length
  | .set | .timeSeries | .stream | .hyperLogLog => True

end Readable

section Total

variable {c : Codec} {decodeGeoHash : UInt64 → F64 × F64} {key : Bytes} {db : Db}

/-- A view that returns. -/
def Returns {α : Type} (m : View Err α) (db : Db) : Prop := ∃ a, m db = .ok a

variable {p : Bytes} {t : KeyType} {α : Type}

theorem returns_bind {β : Type} {m : View Err α} {f : α → View Err β} :
    Returns (m >>= f) db ↔ ∃ a, m db = .ok a ∧ Returns (f a) db := by
  constructor
  · rintro ⟨b, h⟩
    obtain ⟨a, ha, hb⟩ := View.bind_eq_ok.mp h
    exact ⟨a, ha, b, hb⟩
  · rintro ⟨a, ha, b, hb⟩
    exact ⟨b, View.bind_eq_ok.mpr ⟨a, ha, hb⟩⟩

theorem returns_pure (a : α) : Returns (pure a) db := ⟨a, rfl⟩

/-- What a result is turned into does not matter. -/
theorem returns_bind_pure {β : Type} {m : View Err α} {f : α → β} :
    Returns (m >>= fun a => pure (f a)) db ↔ Returns m db := by
  rw [returns_bind]
  exact ⟨fun ⟨a, ha, _⟩ => ⟨a, ha⟩, fun ⟨a, ha⟩ => ⟨a, ha, returns_pure _⟩⟩

theorem returns_decompress (db : Db) {data : Bytes} :
    Returns (decompress c data) db ↔ (decompressData c data).isSome = true := by
  unfold decompress
  cases decompressData c data with
  | none => exact ⟨fun ⟨_, h⟩ => (by cases h), nofun⟩
  | some v => exact ⟨fun _ => rfl, fun _ => returns_pure v⟩

theorem returns_uint64At {b : Bytes} : Returns (uint64At b) db ↔ 8 ≤ b.length := by
  unfold uint64At
  by_cases hlt : b.length < 8
  · rw [if_pos hlt]
    exact ⟨fun ⟨_, h⟩ => (by cases h), fun h => absurd hlt (Nat.not_lt.mpr h)⟩
  · rw [if_neg hlt]
    exact ⟨fun _ => Nat.not_lt.mp hlt, fun _ => returns_pure _⟩

theorem returns_get_bind {f : Option Entry → View Err α} :
    Returns (View.get p >>= f) db ↔ Returns (f db[p]?) db := Iff.rfl

theorem returns_scan_bind {pre : Bytes} {f : List (Bytes × Entry) → View Err α} :
    Returns (View.scan pre >>= f) db ↔ Returns (f (scan pre db)) db := Iff.rfl

theorem not_returns_throw {e : Err} : ¬ Returns (throw e : View Err α) db := by
  rintro ⟨_, h⟩
  cases h

theorem returns_fetch_bind {f : Bytes → View Err α} :
    Returns (fetch p >>= f) db ↔ ∃ e, db[p]? = some e ∧ Returns (f e.value) db := by
  rw [fetch, bind_assoc, returns_get_bind]
  cases hget : db[p]? with
  | none =>
    refine ⟨fun h => absurd h ?_, fun ⟨_, h, _⟩ => (by cases h)⟩
    exact not_returns_throw
  | some e =>
    exact ⟨fun h => ⟨e, rfl, h⟩, fun ⟨e', he', h⟩ => by cases he'; exact h⟩

theorem returns_mapM {β : Type} {f : α → View Err β} {l : List α} :
    Returns (l.mapM f) db ↔ ∀ a ∈ l, Returns (f a) db := View.mapM_ok_iff

theorem returns_readCompressed : Returns (readCompressed c p) db ↔
      ∃ e, db[p]? = some e ∧ (decompressData c e.value).isSome = true := by
  rw [readCompressed, returns_fetch_bind]
  simp only [returns_decompress]

theorem returns_decompress_bind {data : Bytes} {f : Bytes → View Err α} {P : Prop}
    (h : ∀ v, Returns (f v) db ↔ P) :
    Returns (decompress c data >>= f) db ↔ (decompressData c data).isSome = true ∧ P := by
  rw [returns_bind, ← returns_decompress db]
  constructor
  · rintro ⟨v, hv, hf⟩
    exact ⟨⟨v, hv⟩, (h v).mp hf⟩
  · rintro ⟨⟨v, hv⟩, hP⟩
    exact ⟨v, hv, (h v).mpr hP⟩

theorem returns_readNodes {n : Nat} {id : Bytes} {visited : List Bytes} :
    Returns (readNodes c key n id visited) db ↔ Linked c key db n id visited := by
  induction n generalizing id visited with
  | zero => exact ⟨fun _ => trivial, fun _ => returns_pure []⟩
  | succ n ih =>
    rw [readNodes, Linked]
    by_cases hid : id ∈ visited
    · rw [if_pos hid]
      exact ⟨fun _ => .inl hid, fun _ => returns_pure []⟩
    · rw [if_neg hid, returns_fetch_bind, or_iff_right hid]
      refine exists_congr fun e => and_congr_right fun _ => ?_
      refine returns_decompress_bind fun v => ?_
      rw [returns_get_bind]
      cases hnext : db[listKey key (id ++ ":next")]? with
      | none => exact ⟨fun _ => nofun, fun _ => returns_pure _⟩
      | some next =>
        rw [returns_bind_pure, ih]
        exact ⟨fun h next' hnext' => by cases hnext'; exact h, fun h => h next rfl⟩

theorem returns_uint64At_bind {b : Bytes} {f : UInt64 → View Err α} :
    Returns (uint64At b >>= f) db ↔
      8 ≤ b.length ∧ Returns (f (UInt64.ofNat (ofBigEndian (b.take 8)))) db := by
  unfold uint64At
  by_cases hlt : b.length < 8
  · rw [if_pos hlt]
    exact ⟨fun h => absurd h not_returns_throw, fun h => absurd hlt (Nat.not_lt.mpr h.1)⟩
  · rw [if_neg hlt]
    exact ⟨fun h => ⟨Nat.not_lt.mp hlt, h⟩, And.right⟩

theorem returns_readList : Returns (readList c key) db ↔ Readable c key db .list := by
  rw [readList, returns_get_bind, Readable]
  cases hlength : db[listKey key "length"]? with
  | none => exact ⟨fun _ => nofun, fun _ => returns_pure _⟩
  | some e =>
    simp only [Option.some.injEq, forall_eq']
    rw [returns_uint64At_bind]
    refine and_congr_right fun _ => ?_
    change Returns (if storedLength e.value = 0 then _ else _) db ↔ _
    by_cases hzero : storedLength e.value = 0
    · rw [if_pos hzero]
      exact ⟨fun _ h => absurd hzero h, fun _ => returns_pure _⟩
    rw [if_neg hzero, returns_get_bind]
    cases hstart : db[listKey key "start"]? with
    | none => exact ⟨fun _ _ => nofun, fun _ => returns_pure _⟩
    | some start =>
      simp only [Option.some.injEq, forall_eq']
      change Returns (if storedLength e.value < 0 ∨ Lists.maxStrings < (storedLength e.value).toInt.toNat
        then _ else _) db ↔ _
      by_cases hcap : storedLength e.value < 0 ∨ Lists.maxStrings < (storedLength e.value).toInt.toNat
      · rw [if_pos hcap]
        refine ⟨fun h => absurd h not_returns_throw, fun h => ?_⟩
        obtain ⟨hnonneg, hle, -⟩ := h hzero
        rcases hcap with hneg | hbig
        · exact absurd hneg (Int64.not_lt.mpr hnonneg)
        · exact absurd hbig (Nat.not_lt.mpr hle)
      · obtain ⟨hnonneg, hle⟩ := not_or.mp hcap
        rw [if_neg hcap]
        show Returns (readNodes c key (storedLength e.value).toInt.toNat start.value []) db ↔ _
        rw [returns_readNodes]
        exact ⟨fun h _ => ⟨Int64.not_lt.mp hnonneg, Nat.not_lt.mp hle, h⟩, fun h => (h hzero).2.2⟩

theorem returns_readHash : Returns (readHash c key) db ↔ Readable c key db .hash := by
  rw [readHash, returns_scan_bind, returns_mapM]
  simp only [returns_bind_pure, returns_decompress, mem_filter, decide_eq_true_eq, and_imp]
  rfl

theorem returns_readZSet : Returns (readZSet key) db ↔ Readable c key db .sortedSet := by
  rw [readZSet, returns_scan_bind, returns_mapM]
  simp only [returns_bind_pure, returns_uint64At]
  rfl

theorem returns_readGeo : Returns (readGeo decodeGeoHash key) db ↔ Readable c key db .geo := by
  rw [readGeo, returns_scan_bind, returns_mapM]
  simp only [returns_bind_pure, returns_uint64At]
  rfl

/-- A value that has to be there is not expired. -/
def Present (key : Bytes) (db : Db) (t : KeyType) : Prop :=
  t.isPlain = true → ∃ e, db[getKeyValueKey key t]? = some e

theorem returns_readValue :
    Returns (readValue c decodeGeoHash key t) db ↔ Present key db t ∧ Readable c key db t := by
  cases t with
  | string | json =>
    rw [readValue, returns_bind_pure, returns_readCompressed]
    constructor
    · rintro ⟨e, he, hdata⟩
      exact ⟨fun _ => ⟨e, he⟩, fun e' he' => by cases he.symm.trans he'; exact hdata⟩
    · rintro ⟨hpresent, hdata⟩
      obtain ⟨e, he⟩ := hpresent rfl
      exact ⟨e, he, hdata e he⟩
  | hyperLogLog =>
    rw [readValue, returns_fetch_bind]
    exact ⟨fun ⟨e, he, _⟩ => ⟨fun _ => ⟨e, he⟩, trivial⟩, fun ⟨h, _⟩ =>
      (h rfl).imp fun e he => ⟨he, returns_pure _⟩⟩
  | list =>
    rw [readValue, returns_bind_pure, returns_readList]
    exact ⟨fun h => ⟨nofun, h⟩, And.right⟩
  | hash =>
    rw [readValue, returns_bind_pure, returns_readHash]
    exact ⟨fun h => ⟨nofun, h⟩, And.right⟩
  | sortedSet =>
    rw [readValue, returns_bind_pure, returns_readZSet]
    exact ⟨fun h => ⟨nofun, h⟩, And.right⟩
  | geo =>
    rw [readValue, returns_bind_pure, returns_readGeo]
    exact ⟨fun h => ⟨nofun, h⟩, And.right⟩
  | set | timeSeries | stream => exact ⟨fun _ => ⟨nofun, trivial⟩, fun _ => ⟨_, rfl⟩⟩

theorem mem_scan_type {e : Bytes × Entry} :
    e ∈ scan (typeOfKeyGet []) db ↔ ∃ key, e.1 = typeOfKeyGet key ∧ db[typeOfKeyGet key]? = some e.2 := by
  rw [mem_scan]
  constructor
  · rintro ⟨hget, key, hkey⟩
    have hname : e.1 = typeOfKeyGet key := by rw [← hkey, typeOfKeyGet, append_nil, typeOfKeyGet]
    exact ⟨key, hname, hname ▸ hget⟩
  · rintro ⟨key, hname, hget⟩
    refine ⟨hname ▸ hget, key, ?_⟩
    rw [hname, typeOfKeyGet, append_nil, typeOfKeyGet]

/-- A key of a known type is written if its value can be read. -/
theorem readItem_eq_ok {e : Entry} {i : Option Item} :
    readItem c decodeGeoHash (typeOfKeyGet key, e) db = .ok i ↔
      match KeyType.ofName e.value with
      | none => i = none
      | some t => ∃ ttl v, readTTLFromValue key t db = .ok ttl ∧
          readValue c decodeGeoHash key t db = .ok v ∧ i = some ⟨key, ttl, v⟩ := by
  unfold readItem
  cases KeyType.ofName e.value with
  | none => exact ⟨fun h => (Except.ok.inj h).symm, fun h => by rw [h]; rfl⟩
  | some t =>
    constructor
    · intro h
      obtain ⟨ttl, httl, h⟩ := View.bind_eq_ok.mp h
      obtain ⟨v, hv, h⟩ := View.bind_eq_ok.mp h
      exact ⟨ttl, v, httl, hv, (Except.ok.inj h).symm⟩
    · rintro ⟨ttl, v, httl, hv, rfl⟩
      exact View.bind_eq_ok.mpr ⟨ttl, httl, View.bind_eq_ok.mpr ⟨v, hv, rfl⟩⟩

theorem returns_readTTLFromValue : Returns (readTTLFromValue key t) db := by
  rw [readTTLFromValue, returns_get_bind]
  cases db[getKeyValueKey key t]? <;> exact returns_pure _

/-- The snapshot returns if the values of all keys can be read. -/
theorem returns_snapshot : Returns (snapshot c decodeGeoHash) db ↔
    ∀ key t, HasType key t db → Present key db t ∧ Readable c key db t := by
  rw [snapshot, returns_scan_bind, returns_bind_pure, returns_mapM]
  constructor
  · rintro h key t ⟨e, he, ht⟩
    obtain ⟨i, hi⟩ := h (typeOfKeyGet key, e) (mem_scan_type.mpr ⟨key, rfl, he⟩)
    rw [readItem_eq_ok, ht] at hi
    obtain ⟨_, v, -, hv, -⟩ := hi
    exact returns_readValue.mp ⟨v, hv⟩
  · rintro h ⟨p, e⟩ he
    obtain ⟨key, rfl, he⟩ := mem_scan_type.mp he
    cases ht : KeyType.ofName e.value with
    | none => exact ⟨none, readItem_eq_ok.mpr (by rw [ht])⟩
    | some t =>
      obtain ⟨ttl, httl⟩ : Returns (readTTLFromValue key t) db := returns_readTTLFromValue
      obtain ⟨v, hv⟩ := returns_readValue.mpr (h key t ⟨e, he, ht⟩)
      exact ⟨some ⟨key, ttl, v⟩, readItem_eq_ok.mpr (by rw [ht]; exact ⟨ttl, v, httl, hv, rfl⟩)⟩

/-- The keys that are written are those of a known type. -/
theorem mem_keys_snapshot {items : List Item} (h : snapshot c decodeGeoHash db = .ok items) :
    key ∈ items.map Item.key ↔ ∃ t, HasType key t db := by
  obtain ⟨es, hes, h⟩ := View.bind_eq_ok.mp h
  cases hes
  obtain ⟨is, his, h⟩ := View.bind_eq_ok.mp h
  cases h
  rw [mem_map]
  constructor
  · rintro ⟨i, hi, rfl⟩
    rw [mem_filterMap] at hi
    obtain ⟨_, hi, rfl⟩ := hi
    obtain ⟨⟨p, e⟩, he, hread⟩ := (View.mem_of_mapM his).mp hi
    obtain ⟨key, rfl, he⟩ := mem_scan_type.mp he
    rw [readItem_eq_ok] at hread
    cases ht : KeyType.ofName e.value with
    | none =>
      rw [ht] at hread
      cases hread
    | some t =>
      rw [ht] at hread
      obtain ⟨_, _, -, -, hi⟩ := hread
      cases hi
      exact ⟨t, e, he, ht⟩
  · rintro ⟨t, e, he, ht⟩
    obtain ⟨i, hi⟩ := View.mapM_ok_iff.mp ⟨is, his⟩ (typeOfKeyGet key, e) (mem_scan_type.mpr ⟨key, rfl, he⟩)
    have hmem := (View.mem_of_mapM his).mpr ⟨_, mem_scan_type.mpr ⟨key, rfl, he⟩, hi⟩
    rw [readItem_eq_ok, ht] at hi
    obtain ⟨_, v, -, -, rfl⟩ := hi
    exact ⟨_, mem_filterMap.mpr ⟨_, hmem, rfl⟩, rfl⟩

theorem Alive.hasType (h : Alive key db) : ∃ t, HasType key t db := by
  obtain ⟨t, _, ht, -⟩ := h
  exact ⟨t, ht⟩

theorem HasType.unique {t' : KeyType} (h : HasType key t db) (h' : HasType key t' db) : t = t' := by
  obtain ⟨e, he, ht⟩ := h
  obtain ⟨e', he', ht'⟩ := h'
  cases he.symm.trans he'
  exact Option.some.inj (ht.symm.trans ht')

/-- A key that is alive has its primary record. -/
theorem Alive.present (h : Alive key db) (ht : HasType key t db) : Present key db t := by
  obtain ⟨t', e, ht', he, -⟩ := h
  cases ht.unique ht'
  exact fun _ => ⟨e, he⟩

end Total

/-- No error, and the file holds the keys that are alive. -/
def Total (c : Codec) (decodeGeoHash : UInt64 → F64 × F64) (now : Nat) (db : Db) : Prop :=
  ∃ items, snapshot c decodeGeoHash (visible (unix now) db) = .ok items ∧
    generateRDB c decodeGeoHash now db = .ok (file items) ∧
    ∀ key, key ∈ items.map Item.key ↔ Alive key (visible (unix now) db)

/-- The snapshot is total if and only if every key that has a type is alive and can be read. -/
theorem snapshot_total_iff (c : Codec) (decodeGeoHash : UInt64 → F64 × F64) (now : Nat) (db : Db) :
    Total c decodeGeoHash now db ↔ ∀ key t, HasType key t (visible (unix now) db) →
      Alive key (visible (unix now) db) ∧ Readable c key (visible (unix now) db) t := by
  constructor
  · rintro ⟨items, hsnapshot, -, hkeys⟩ key t ht
    have halive := (hkeys key).mp ((mem_keys_snapshot hsnapshot).mpr ⟨t, ht⟩)
    exact ⟨halive, (returns_snapshot.mp ⟨items, hsnapshot⟩ key t ht).2⟩
  · intro h
    obtain ⟨items, hsnapshot⟩ : Returns (snapshot c decodeGeoHash) (visible (unix now) db) :=
      returns_snapshot.mpr fun key t ht => ⟨(h key t ht).1.present ht, (h key t ht).2⟩
    refine ⟨items, hsnapshot, ?_, fun key => ?_⟩
    · rw [generateRDB, hsnapshot]
      rfl
    · rw [mem_keys_snapshot hsnapshot]
      exact ⟨fun ⟨t, ht⟩ => (h key t ht).1, Alive.hasType⟩

/-- `SETEX k 1 v` at time 0. -/
def expiring : Db := (Strings.Op.run uncompressed 0 "k" (.setEX "v" 1) ∅).2

/-- `RPUSH k v` and `LPOP k`. -/
def emptied : Db := (Lists.lPop 0 "k" (Lists.rPush 0 "k" ["v"] (fun _ => "n") ∅).2).2

def nowhere (_ : UInt64) : F64 × F64 := (F64.zero, F64.zero)

theorem emptied_type : HasType "k" .list (visible (unix 0) emptied) :=
  ⟨⟨KeyType.list.name, 0⟩, by decide +kernel, by decide⟩

theorem emptied_not_alive : ¬ Alive "k" (visible (unix 0) emptied) := by
  rintro ⟨t, e, ht, he, helements⟩
  cases ht.unique emptied_type
  have hlength : (visible (unix 0) emptied)[getKeyValueKey "k" .list]? =
      some ⟨uint64ToBytes 0, 0⟩ := by decide +kernel
  cases hlength.symm.trans he
  exact helements (by decide)

/-- Two seconds after `SETEX k 1 v` no snapshot can be made, and a list that was emptied is in it. -/
theorem expired_string_blocks_snapshot :
    generateRDB uncompressed nowhere 2000000000 expiring = .error .keyNotFound ∧
    ¬ Total uncompressed nowhere 2000000000 expiring ∧ ¬ Total uncompressed nowhere 0 emptied := by
  have herror : generateRDB uncompressed nowhere 2000000000 expiring = .error .keyNotFound := by
    decide +kernel
  refine ⟨herror, ?_, ?_⟩
  · rintro ⟨items, -, hok, -⟩
    cases herror.symm.trans hok
  · rintro ⟨items, hsnapshot, -, hkeys⟩
    exact emptied_not_alive ((hkeys _).mp ((mem_keys_snapshot hsnapshot).mpr ⟨.list, emptied_type⟩))

end BoltDB.Replication.Rdb
