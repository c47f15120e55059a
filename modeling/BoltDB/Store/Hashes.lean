import BoltDB.Store.Strings
import BoltDB.Store.Keyspace

/-!
# Hashes

`hash.go`. A field is a record `HASH:key:field`; the number of fields is a record as well, so that
`__count__` is no ordinary field. Readers take what follows the last `:` for the name of a field.
-/

namespace BoltDB.Store

open Bytes KeyValue List Std.ExtTreeMap

/-- A record that holds a `uint64`; 0 when it is missing. -/
def getCount (p : Bytes) : View Err UInt64 := do
  return ((← View.get p).map (bytesToUint64 ·.value)).getD 0

def setCount (p : Bytes) (n : UInt64) : Txn Err Unit := Txn.set p (uint64ToBytes n)

namespace Hashes

variable (c : Codec)

/-! ## Reading -/

def afterLastColon (b : Bytes) : Bytes := (b.reverse.takeWhile (· ≠ 58)).reverse

/-- The field that `splitHashKey` finds in a record's name. -/
def fieldOf (p : Bytes) : Bytes := afterLastColon (p.drop KeyType.hash.tag.length)

def countField : Bytes := "__count__"

def hGet (key field : Bytes) : View Err Bytes := do
  checkKeyTypeInline key .hash
  match ← View.get (hashKey key field) with
  | none => throw .keyNotFound
  | some e => getValueWithDecompression c e

def hLen (key : Bytes) : View Err UInt64 := do
  checkKeyType key .hash
  getCount (hashCountKey key)

def hExists (key field : Bytes) : View Err Bool := do
  checkKeyType key .hash
  return (← View.get (hashKey key field)).isSome

/-- Fields and values in the order of the records. -/
def fields (key : Bytes) : View Err (List (Bytes × Bytes)) := do
  let es ← View.scan (recordPrefix .hash key)
  (es.filter (fieldOf ·.1 ≠ countField)).foldlM (fun acc e => do
    return acc ++ [(fieldOf e.1, ← getValueWithDecompression c e.2)]) []

/-- `HGETALL`: of records with the same field the last one counts. -/
def hGetAll (key : Bytes) : View Err (Std.ExtTreeMap Bytes Bytes compare) := do
  checkKeyType key .hash
  return (← fields c key).foldl (fun m kv => m.insert kv.1 kv.2) ∅

def hVals (key : Bytes) : View Err (List Bytes) := do
  checkKeyType key .hash
  return (← fields c key).map Prod.snd

/-- `HMGET`, which does not look at the type of the key. -/
def hMGet (key : Bytes) (fields : List Bytes) : View Err (List (Option Bytes)) :=
  fields.mapM fun field => do
    match ← View.get (hashKey key field) with
    | none => return none
    | some e => return some (← getValueWithDecompression c e)

/-- `HSTRLEN`: the length of the value as it is stored. -/
def hStrLen (key field : Bytes) : View Err Nat := do
  checkKeyType key .hash
  return ((← View.get (hashKey key field)).map (·.value.length)).getD 0

/-- The loop of `HScan` over the records it comes by: fields and values as they are stored, and the
last name looked at if there are more. -/
def hScanLoop (pattern : Bytes) (pre : Nat) :
    Nat → List (Bytes × Entry) → Bytes → List (Bytes × Bytes) × Option Bytes
  | _, [], _ => ([], none)
  | 0, _ :: _, last => ([], some last)
  | n + 1, (p, e) :: es, _ =>
    let field := p.drop pre
    if field = countField then hScanLoop pattern pre (n + 1) es p
    else if scanMatches pattern field then
      let r := hScanLoop pattern pre n es p
      ((field, e.value) :: r.1, r.2)
    else hScanLoop pattern pre (n + 1) es p

/-- The records of a scan from the start, or from a bookmark on as long as they are the key's. -/
def hScanRecords (key : Bytes) : Option Bytes → View Err (List (Bytes × Entry))
  | none => View.scan (recordPrefix .hash key)
  | some last => do
    let all ← View.scan []
    return (all.filter fun e => compare e.1 last ≠ .lt).takeWhile
      fun e => (recordPrefix .hash key).isPrefixOf e.1

/-- `HSCAN` from the start or from a bookmark on. -/
def hScanFrom (key : Bytes) (bookmark : Option Bytes) (pattern : Bytes) (count : Int64) :
    View Err (List (Bytes × Bytes) × Option Bytes) := do
  match ← rawType key with
  | none => return ([], none)
  | some name =>
    if name ≠ [] ∧ name ≠ KeyType.hash.name then throw .wrongType
    else do
      let records ← hScanRecords key bookmark
      return hScanLoop pattern (recordPrefix .hash key).length
        (if count ≤ 0 then 10 else count.toInt.toNat) records []

/-! ## Writing -/

def hSetTxn (key field v : Bytes) : Txn Err Unit := do
  let old ← Txn.get (hashKey key field)
  checkKeyTypeInline key .hash
  Txn.set (typeOfKeyGet key) KeyType.hash.name
  setValueWithCompression c (hashKey key field) v
  let count ← getCount (hashCountKey key)
  setCount (hashCountKey key) (if old.isSome then count else count + 1)

/-- One field of `HDEL`, with the number of deleted fields and the count so far. -/
def hDelField (key : Bytes) (st : Nat × UInt64) (field : Bytes) : Txn Err (Nat × UInt64) := do
  if (← Txn.get (hashKey key field)).isSome then do
    Txn.delete (hashKey key field)
    return (st.1 + 1, if 0 < st.2 then st.2 - 1 else st.2)
  else return st

def hDelTxn (key : Bytes) (fields : List Bytes) : Txn Err Nat := do
  checkKeyTypeInline key .hash
  let count ← getCount (hashCountKey key)
  let st ← fields.foldlM (hDelField key) (0, count)
  if 0 < st.1 then do
    setCount (hashCountKey key) st.2
    return st.1
  else return 0

/-- One field of `HMSET`, with the number of new fields so far. -/
def hMSetField (key : Bytes) (newFields : Nat) (fv : Bytes × Bytes) : Txn Err Nat := do
  let old ← Txn.get (hashKey key fv.1)
  setValueWithCompression c (hashKey key fv.1) fv.2
  return if old.isSome then newFields else newFields + 1

/-- `HMSET`, which does not look at the type of the key. The fields are those of a map, in the order
of its iteration. -/
def hMSetTxn (key : Bytes) (fieldValues : List (Bytes × Bytes)) : Txn Err Unit := do
  Txn.set (typeOfKeyGet key) KeyType.hash.name
  let count ← getCount (hashCountKey key)
  let newFields ← fieldValues.foldlM (hMSetField c key) 0
  if 0 < newFields then setCount (hashCountKey key) (count + UInt64.ofNat newFields) else pure ()

/-- `HSETNX`, which does not look at the type of the key. -/
def hSetNXTxn (key field v : Bytes) : Txn Err Bool := do
  if (← Txn.get (hashKey key field)).isSome then return false
  else do
    Txn.set (typeOfKeyGet key) KeyType.hash.name
    setValueWithCompression c (hashKey key field) v
    let count ← getCount (hashCountKey key)
    setCount (hashCountKey key) (count + 1)
    return true

/-- The type check of `HINCRBY`, which writes the type of a new key. -/
def checkOrSetType (key : Bytes) : Txn Err Unit := do
  match ← Txn.get (typeOfKeyGet key) with
  | none => Txn.set (typeOfKeyGet key) KeyType.hash.name
  | some e => if e.value ≠ [] ∧ e.value ≠ KeyType.hash.name then throw .wrongType else pure ()

/-- A field replaced by what `f` makes of its value as it is stored. -/
def modifyField {α : Type} (key field : Bytes) (f : Option Bytes → Except Err (Bytes × α)) :
    Txn Err α := do
  checkOrSetType key
  let old ← Txn.get (hashKey key field)
  match f (old.map (·.value)) with
  | .error e => throw e
  | .ok (new, a) => do
    setValueWithCompression c (hashKey key field) new
    if old.isSome then return a
    else do
      let count ← getCount (hashCountKey key)
      setCount (hashCountKey key) (count + 1)
      return a

/-- A stored value is parsed as it is, compressed or not, and the sum wraps around. -/
def hIncrByTxn (key field : Bytes) (increment : Int64) : Txn Err Int64 :=
  modifyField c key field fun
    | none => .ok (formatInt increment.toInt, increment)
    | some v =>
      match parseInt64 v with
      | none => .error .notInteger
      | some n => .ok (formatInt (n + increment).toInt, n + increment)

def hIncrByFloatTxn (key field : Bytes) (increment : F64) : Txn Err F64 :=
  modifyField c key field fun
    | none => let x := F64.zero.add increment; .ok (x.formatFloat, x)
    | some v =>
      match F64.parseFloat v with
      | .error _ => .error .notFloat
      | .ok x => .ok ((x.add increment).formatFloat, x.add increment)

/-! ## Methods -/

def hSet (now : Nat) (key field v : Bytes) : Run Err Unit := update now (hSetTxn c key field v)

def hDel (now : Nat) (key : Bytes) (fields : List Bytes) : Run Err Nat :=
  update now (hDelTxn key fields)

def hMSet (now : Nat) (key : Bytes) (fieldValues : List (Bytes × Bytes)) : Run Err Unit :=
  update now (hMSetTxn c key fieldValues)

def hSetNX (now : Nat) (key field v : Bytes) : Run Err Bool := update now (hSetNXTxn c key field v)

def hIncrBy (now : Nat) (key field : Bytes) (increment : Int64) : Run Err Int64 :=
  update now (hIncrByTxn c key field increment)

def hIncrByFloat (now : Nat) (key field : Bytes) (increment : F64) : Run Err F64 :=
  update now (hIncrByFloatTxn c key field increment)

/-! ## Footprints -/

section Footprints

variable {c : Codec} {key : Bytes}

theorem touches_hashKey (field : Bytes) (e : Option Entry) :
    Touches .hash key (hashKey key field) e := touches_record (isRecord_hashKey key field)

theorem writes_setCount_hash (n : UInt64) :
    Writes (Touches .hash key) (setCount (hashCountKey key) n) := writes_set (touches_hashKey _ _)

theorem writes_hSetTxn (field v : Bytes) : Writes (Touches .hash key) (hSetTxn c key field v) := by
  refine writes_read fun old => writes_read fun _ => ?_
  refine writes_bind (writes_set touches_typeOfKeyGet) fun _ => ?_
  refine writes_bind (Strings.writes_setValueWithCompression (touches_hashKey field)) fun _ => ?_
  exact writes_read fun count => writes_setCount_hash _

theorem writes_hDelField (st : Nat × UInt64) (field : Bytes) :
    Writes (Touches .hash key) (hDelField key st field) := by
  refine writes_read fun old => writes_ite ?_ writes_pure
  exact writes_map (writes_delete (touches_hashKey field _)) _

theorem writes_hDelTxn (fields : List Bytes) : Writes (Touches .hash key) (hDelTxn key fields) := by
  refine writes_read fun _ => writes_read fun count => ?_
  refine writes_bind (writes_foldlM writes_hDelField _ _) fun st => ?_
  refine writes_ite ?_ writes_pure
  exact writes_map (writes_setCount_hash _) _

theorem writes_hMSetField (newFields : Nat) (fv : Bytes × Bytes) :
    Writes (Touches .hash key) (hMSetField c key newFields fv) := by
  refine writes_read fun old => ?_
  exact writes_map (Strings.writes_setValueWithCompression (touches_hashKey _)) _

theorem writes_hMSetTxn (fieldValues : List (Bytes × Bytes)) :
    Writes (Touches .hash key) (hMSetTxn c key fieldValues) := by
  refine writes_bind (writes_set touches_typeOfKeyGet) fun _ => ?_
  refine writes_read fun count => ?_
  refine writes_bind (writes_foldlM writes_hMSetField _ _) fun newFields => ?_
  exact writes_ite (writes_setCount_hash _) writes_pure

theorem writes_hSetNXTxn (field v : Bytes) :
    Writes (Touches .hash key) (hSetNXTxn c key field v) := by
  refine writes_read fun old => writes_ite writes_pure ?_
  refine writes_bind (writes_set touches_typeOfKeyGet) fun _ => ?_
  refine writes_bind (Strings.writes_setValueWithCompression (touches_hashKey field)) fun _ => ?_
  refine writes_read fun count => ?_
  exact writes_map (writes_setCount_hash _) _

theorem writes_checkOrSetType : Writes (Touches .hash key) (checkOrSetType key) := by
  refine writes_get_bind (writes_set touches_typeOfKeyGet) fun e => ?_
  exact writes_ite writes_throw writes_pure

theorem writes_modifyField {α : Type} (field : Bytes)
    (f : Option Bytes → Except Err (Bytes × α)) :
    Writes (Touches .hash key) (modifyField c key field f) := by
  refine writes_bind writes_checkOrSetType fun _ => writes_read fun old => ?_
  split
  · exact writes_throw
  · refine writes_bind (Strings.writes_setValueWithCompression (touches_hashKey field)) fun _ => ?_
    refine writes_ite writes_pure (writes_read fun count => ?_)
    exact writes_map (writes_setCount_hash _) _

theorem reads_getCount {R : Bytes → Prop} {p : Bytes} (h : R p) : Reads R (getCount p) :=
  reads_bind (reads_get h) fun _ => reads_pure

theorem views_hLen (key : Bytes) : Views .hash key (hLen key) :=
  views_checkKeyType (reads_getCount (isRecord_hashCountKey key))

theorem views_hGet (key field : Bytes) : Views .hash key (hGet c key field) := by
  refine views_checkKeyTypeInline ?_
  refine reads_bind (reads_get (isRecord_hashKey key field)) fun e => ?_
  split
  · exact reads_throw _
  · exact Strings.reads_getValueWithDecompression _

theorem views_hGetAll (key : Bytes) : Views .hash key (hGetAll c key) := by
  refine views_checkKeyType ?_
  refine reads_bind (reads_bind (reads_scan fun p hp => ?_) fun es => ?_) fun _ => reads_pure
  · exact isRecord_of_isPrefix rfl hp
  · exact reads_foldlM (fun _ _ => reads_bind (Strings.reads_getValueWithDecompression _)
      fun _ => reads_pure) _ _

end Footprints

/-! ## What is read and written -/

section Values

variable {c : Codec} {key : Bytes} {db : Db}

/-- What comes before a `:` does not matter. -/
theorem afterLastColon_append (b x : Bytes) :
    afterLastColon (b ++ ":" ++ x) = afterLastColon (":" ++ x) := by
  unfold afterLastColon
  rw [append_assoc, reverse_append, takeWhile_append, if_neg]
  intro hlen
  have hall := takeWhile_eq_self_iff.mp (( takeWhile_prefix _).eq_of_length hlen)
  have := hall 58 (by simp [ascii])
  simp at this

theorem afterLastColon_of_notMem {f : Bytes} (hf : 58 ∉ f) : afterLastColon (":" ++ f) = f := by
  have hall : ∀ x ∈ f.reverse, (x ≠ 58 : Bool) = true := by
    intro x hx
    rw [decide_eq_true_eq]
    rintro rfl
    exact hf (mem_reverse.mp hx)
  rw [afterLastColon, reverse_append, takeWhile_append_of_pos hall]
  simp [ascii]

/-- What follows the key decides the field. -/
theorem fieldOf_recordPrefix (key x : Bytes) :
    fieldOf (recordPrefix .hash key ++ x) = afterLastColon (":" ++ x) := by
  exact afterLastColon_append key x

theorem fieldOf_hashKey {field : Bytes} (hf : 58 ∉ field) :
    fieldOf (hashKey key field) = field := by
  rw [hashKey, fieldOf_recordPrefix, afterLastColon_of_notMem hf]

theorem fieldOf_hashKey_colon (key b : Bytes) : fieldOf (hashKey key (b ++ ":")) = [] := by
  rw [hashKey, fieldOf_recordPrefix, ← append_assoc, ← append_nil (_ ++ _ ++ _),
    afterLastColon_append]
  rfl

theorem fieldOf_hashCountKey (key : Bytes) : fieldOf (hashCountKey key) = countField :=
  fieldOf_hashKey (by decide)

theorem fields_apply (c : Codec) (key : Bytes) (db : Db) (g : Bytes × Entry → Bytes)
    (hg : ∀ e ∈ scan (recordPrefix .hash key) db, fieldOf e.1 ≠ countField →
      decompressData c e.2.value = some (g e)) :
    fields c key db = .ok (((scan (recordPrefix .hash key) db).filter
      (fieldOf ·.1 ≠ countField)).map fun e => (fieldOf e.1, g e)) := by
  have hfold : ∀ (es : List (Bytes × Entry)) (acc : List (Bytes × Bytes)),
      (∀ e ∈ es, decompressData c e.2.value = some (g e)) →
      (es.foldlM (fun acc e => do return acc ++ [(fieldOf e.1, ← getValueWithDecompression c e.2)])
        acc : View Err _) db = .ok (acc ++ es.map fun e => (fieldOf e.1, g e)) := by
    intro es
    induction es with
    | nil =>
      intro acc _
      rw [map_nil, append_nil]
      rfl
    | cons e es ih =>
      intro acc h
      have hhead : getValueWithDecompression c e.2 = pure (g e) := by
        rw [getValueWithDecompression, h e mem_cons_self]
      rw [foldlM_cons, hhead]
      show (es.foldlM _ (acc ++ [(fieldOf e.1, g e)]) : View Err _) db = _
      rw [ih _ fun e' he' => h e' (mem_cons_of_mem e he'), append_assoc]
      rfl
  have hrun := hfold ((scan (recordPrefix .hash key) db).filter (fieldOf ·.1 ≠ countField)) []
  refine hrun ?_
  intro e he
  obtain ⟨hmem, hne⟩ := List.mem_filter.mp he
  exact hg e hmem (of_decide_eq_true hne)

theorem mem_foldl_insert {l : List (Bytes × Bytes)} {m : Std.ExtTreeMap Bytes Bytes compare}
    {f : Bytes} :
    f ∈ l.foldl (fun m kv => m.insert kv.1 kv.2) m ↔ f ∈ m ∨ ∃ v, (f, v) ∈ l := by
  induction l generalizing m with
  | nil => simp
  | cons kv l ih =>
    rw [foldl_cons, ih, mem_insert, Std.LawfulEqCmp.compare_eq_iff_eq]
    constructor
    · rintro ((rfl | h) | ⟨v, hv⟩)
      · exact .inr ⟨kv.2, mem_cons_self⟩
      · exact .inl h
      · exact .inr ⟨v, mem_cons_of_mem kv hv⟩
    · rintro (h | ⟨v, hv⟩)
      · exact .inl (.inr h)
      · rcases mem_cons.mp hv with rfl | hv
        · exact .inl (.inl rfl)
        · exact .inr ⟨v, hv⟩

/-- The fields of a hash are those that can be told from the names of its records. -/
theorem hGetAll_spec (htype : ∀ e, db[typeOfKeyGet key]? = some e → e.value = KeyType.hash.name)
    (hvalue : ∀ p e, recordPrefix .hash key <+: p → db[p]? = some e → fieldOf p ≠ countField →
      e.value = []) :
    ∃ m, hGetAll c key db = .ok m ∧ ∀ f, f ∈ m ↔ f ≠ countField ∧
      ∃ p e, recordPrefix .hash key <+: p ∧ db[p]? = some e ∧ fieldOf p = f := by
  have hfields := fields_apply c key db (fun _ => []) (by
    intro e he hne
    obtain ⟨hget, hp⟩ := mem_scan.mp he
    rw [hvalue e.1 e.2 hp hget hne]
    rfl)
  refine ⟨(((scan (recordPrefix .hash key) db).filter (fieldOf ·.1 ≠ countField)).map
    fun e => (fieldOf e.1, [])).foldl (fun m kv => m.insert kv.1 kv.2) ∅, ?_, ?_⟩
  · rw [hGetAll, View.bind_apply, checkKeyType_apply, if_pos htype]
    exact View.bind_of_ok hfields
  · intro f
    rw [mem_foldl_insert]
    constructor
    · rintro (h | ⟨v, hv⟩)
      · exact absurd h not_mem_empty
      · obtain ⟨e, he, heq⟩ := List.mem_map.mp hv
        obtain ⟨hmem, hne⟩ := List.mem_filter.mp he
        obtain ⟨hget, hp⟩ := mem_scan.mp hmem
        cases heq
        exact ⟨of_decide_eq_true hne, e.1, e.2, hp, hget, rfl⟩
    · rintro ⟨hne, p, e, hp, hget, rfl⟩
      refine .inr ⟨[], List.mem_map.mpr ⟨(p, e), List.mem_filter.mpr ⟨?_, ?_⟩, rfl⟩⟩
      · exact mem_scan.mpr ⟨hget, hp⟩
      · exact decide_eq_true hne

/-- The store after a field with an empty value is written. -/
def withField (key field : Bytes) (n : UInt64) (db : Db) : Db :=
  ((db.insert (typeOfKeyGet key) ⟨KeyType.hash.name, 0⟩).insert (hashKey key field) ⟨[], 0⟩).insert
    (hashCountKey key) ⟨uint64ToBytes n, 0⟩

theorem hSetTxn_spec (field : Bytes)
    (htype : ∀ e, db[typeOfKeyGet key]? = some e → e.value = KeyType.hash.name) :
    ∃ n, hSetTxn c key field [] db = .ok ((), withField key field n db) := by
  have hstored : storedValue c [] = some [] := by
    rw [storedValue]
    simp [shouldCompress]
  have hcheck : checkKeyTypeInline key .hash db = .ok () := by
    rw [checkKeyTypeInline_apply, if_pos fun e he => .inl (htype e he)]
  rw [hSetTxn, Txn.get_bind, Txn.lift_bind_ok hcheck, setValueWithCompression, hstored]
  exact ⟨_, rfl⟩

end Values

/-! ## The methods that write one key -/

inductive Op
  | hSet (field v : Bytes)
  | hDel (fields : List Bytes)
  | hMSet (fieldValues : List (Bytes × Bytes))
  | hSetNX (field v : Bytes)
  | hIncrBy (field : Bytes) (increment : Int64)
  | hIncrByFloat (field : Bytes) (increment : F64)

def Op.run (now : Nat) (key : Bytes) : Op → Run Err Unit
  | hSet field v => Hashes.hSet c now key field v
  | hDel fields => void (Hashes.hDel now key fields)
  | hMSet fieldValues => Hashes.hMSet c now key fieldValues
  | hSetNX field v => void (Hashes.hSetNX c now key field v)
  | hIncrBy field increment => void (Hashes.hIncrBy c now key field increment)
  | hIncrByFloat field increment => void (Hashes.hIncrByFloat c now key field increment)

theorem Op.commits (now : Nat) (key : Bytes) (op : Op) :
    Commits (unix now) (Touches .hash key) (op.run c now key) := by
  cases op with
  | hSet field v => exact commits_touches (writes_hSetTxn field v)
  | hDel fields => exact commits_void (commits_touches (writes_hDelTxn fields))
  | hMSet fieldValues => exact commits_touches (writes_hMSetTxn fieldValues)
  | hSetNX field v => exact commits_void (commits_touches (writes_hSetNXTxn field v))
  | hIncrBy field increment => exact commits_void (commits_touches (writes_modifyField field _))
  | hIncrByFloat field increment =>
    exact commits_void (commits_touches (writes_modifyField field _))

end Hashes

end BoltDB.Store
