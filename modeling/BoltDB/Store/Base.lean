import BoltDB.Store.Keys

/-!
# Key management

`base.go` and `del.go`: existence, types, expiry and deletion. A time is a number of nanoseconds
since the Unix epoch; badger compares expiry times in seconds.

A transaction on one key writes under the names of that key: `Touches` says which of them, and that
a `TYPE_` record never expires.
-/

namespace BoltDB.Store

open Bytes KeyValue

inductive Err
  | wrongType
  | keyNotFound
  | noSuchKey
  | unknownKeyType (name : Bytes)
  | notInteger
  | notFloat
  | overflow
  | nanOrInfinity
  | invalidMeta
  | indexOutOfRange
  | other (text : String)
  deriving DecidableEq

/-- `time.Now().Unix()`. -/
def unix (now : Nat) : Nat := now / 1000000000

/-- `time.Now().UnixMilli()`. -/
def unixMilli (now : Nat) : Nat := now / 1000000

/-- `retryUpdate`, for a single writer. -/
def update {α : Type} (now : Nat) (m : Txn Err α) : Run Err α := Run.update (unix now) m

/-- `db.View`. -/
def view {α : Type} (now : Nat) (m : View Err α) : Run Err α := Run.view (unix now) m

/-- A run for what it writes. -/
def void {α : Type} (m : Run Err α) : Run Err Unit := do
  let _ ← m
  return ()

theorem void_snd {α : Type} (m : Run Err α) (db : Db) : (void m db).2 = (m db).2 :=
  Run.bind_snd (I := fun db' => db' = (m db).2) (fun _ _ => rfl) fun _ _ => rfl

/-! ## Types -/

/-- The name in the `TYPE_` record. -/
def rawType (key : Bytes) : View Err (Option Bytes) := do
  return (← View.get (typeOfKeyGet key)).map (·.value)

def checkKeyType (key : Bytes) (t : KeyType) : View Err Unit := do
  match ← rawType key with
  | none => pure ()
  | some name => if name = t.name then pure () else throw .wrongType

/-- The check written out in most methods, which lets an empty name pass. -/
def checkKeyTypeInline (key : Bytes) (t : KeyType) : View Err Unit := do
  match ← rawType key with
  | none => pure ()
  | some name => if name ≠ [] ∧ name ≠ t.name then throw .wrongType else pure ()

/-- `EXISTS`. -/
def keyExists (key : Bytes) : View Err Bool := do
  return (← View.get (typeOfKeyGet key)).isSome

/-- `TYPE`. -/
def keyTypeName (key : Bytes) : View Err String := do
  match ← rawType key with
  | none => return "none"
  | some name =>
    match KeyType.ofName name with
    | some .string => return "string"
    | some .list => return "list"
    | some .hash => return "hash"
    | some .set => return "set"
    | some .sortedSet => return "zset"
    | some .json => return "json"
    | some .timeSeries => return "ts"
    | some .stream => return "stream"
    | some .hyperLogLog => return "string"
    | some .geo => return "zset"
    | none => return "none"

/-! ## Deletion -/

/-- The data records that `Del` and `Rename` delete for a type. -/
def deleteRecords (t : KeyType) (key : Bytes) : Txn Err Unit :=
  if t.isPlain then Txn.delete (t.tag ++ key) else Txn.deleteByPrefix (recordPrefix t key)

/-- The data records of a key whose `TYPE_` record holds `name`. A geo key has a sorted set as
well. -/
def deleteData (key name : Bytes) : Txn Err Unit :=
  match KeyType.ofName name with
  | some .geo => do
    deleteRecords .geo key
    deleteRecords .sortedSet key
  | some t => deleteRecords t key
  | none => pure ()

def delTxn (key : Bytes) : Txn Err Nat := do
  match ← Txn.get (typeOfKeyGet key) with
  | none => return 0
  | some e => do
    deleteData key e.value
    Txn.delete (typeOfKeyGet key)
    return 1

/-- `DEL` of one key: how many keys were deleted. -/
def del (now : Nat) (key : Bytes) : Run Err Nat := update now (delTxn key)

def delString (now : Nat) (key : Bytes) : Run Err Unit := update now do
  Txn.delete (typeOfKeyGet key)
  Txn.delete (stringKey key)

/-! ## Expiry -/

/-- The transaction of `Expire` and `PExpire`: the primary record is written again with an
expiry. -/
def expireTxn (key : Bytes) (expiresAt : Nat) : Txn Err Bool := do
  match ← Txn.get (typeOfKeyGet key) with
  | none => return false
  | some e =>
    match KeyType.ofName e.value with
    | none => throw (.unknownKeyType e.value)
    | some t =>
      match ← Txn.get (getKeyValueKey key t) with
      | none => return false
      | some v => do
        Txn.setEntry (getKeyValueKey key t) ⟨v.value, expiresAt⟩
        return true

/-- The expiry second of `Expire`. -/
def expireSecond (now : Nat) (seconds : Int64) : Nat := (unix now + seconds.toUInt64.toNat) % 2 ^ 64

/-- The expiry second of `PExpire`: a part of a second counts as one. -/
def pExpireSecond (now : Nat) (milliseconds : Int64) : Nat :=
  let ms := milliseconds.toUInt64.toNat
  (unix now + ms / 1000 + if ms % 1000 = 0 then 0 else 1) % 2 ^ 64

def delForExpiry (now : Nat) (key : Bytes) : Run Err Bool := do
  return (← del now key) > 0

def expire (now : Nat) (key : Bytes) (seconds : Int64) : Run Err Bool :=
  if seconds ≤ 0 then delForExpiry now key
  else update now (expireTxn key (expireSecond now seconds))

def expireAt (now : Nat) (key : Bytes) (timestamp : Int64) : Run Err Bool :=
  let ttl := timestamp - Int64.ofNat (unix now)
  if ttl ≤ 0 then delForExpiry now key else expire now key ttl

def pExpire (now : Nat) (key : Bytes) (milliseconds : Int64) : Run Err Bool :=
  if milliseconds ≤ 0 then delForExpiry now key
  else update now (expireTxn key (pExpireSecond now milliseconds))

def pExpireAt (now : Nat) (key : Bytes) (timestampMillis : Int64) : Run Err Bool :=
  let ttl := timestampMillis - Int64.ofNat (unixMilli now)
  if ttl ≤ 0 then delForExpiry now key else pExpire now key ttl

def persistTxn (key : Bytes) : Txn Err Bool := do
  match ← Txn.get (typeOfKeyGet key) with
  | none => throw .keyNotFound
  | some e =>
    match KeyType.ofName e.value with
    | none => throw (.unknownKeyType e.value)
    | some t =>
      match ← Txn.get (getKeyValueKey key t) with
      | none => throw .keyNotFound
      | some v =>
        if v.expiresAt = 0 then return false
        else do
          Txn.set (getKeyValueKey key t) v.value
          return true

/-- `PERSIST`; a missing key is no error. -/
def persist (now : Nat) (key : Bytes) : Run Err Bool :=
  tryCatch (update now (persistTxn key)) fun e => if e = .keyNotFound then pure false else throw e

/-- The primary record of a key, if it has a type and the record is there. -/
def primary (key : Bytes) : View Err (Option Entry) := do
  match ← rawType key with
  | none => return none
  | some name =>
    match KeyType.ofName name with
    | none => throw (.unknownKeyType name)
    | some t => View.get (getKeyValueKey key t)

/-- `TTL`, in seconds: -2 without a key, -1 without an expiry. -/
def ttl (now : Nat) (key : Bytes) : View Err Int := do
  match ← primary key with
  | none => return -2
  | some v => return if v.expiresAt = 0 then -1 else
      let left := Int64.ofInt ((v.expiresAt : Int) - unix now)
      if left < 0 then -2 else left.toInt

/-! ## Footprints -/

/-- What a transaction for a type may do to a key: name that type in the `TYPE_` record, and write
data records of that type. -/
def Touches (t : KeyType) (key p : Bytes) (e : Option Entry) : Prop :=
  p = typeOfKeyGet key ∧ e = some ⟨t.name, 0⟩ ∨ IsRecord t key p

/-- As `Touches`, for transactions that also delete the `TYPE_` record. -/
def MayRemove (t : KeyType) (key p : Bytes) (e : Option Entry) : Prop :=
  p = typeOfKeyGet key ∧ (e = some ⟨t.name, 0⟩ ∨ e = none) ∨ IsRecord t key p

/-- What any transaction on a key may do. -/
def Owned (key p : Bytes) (e : Option Entry) : Prop :=
  p = typeOfKeyGet key ∧ (∀ x, e = some x → ∃ t : KeyType, x = ⟨t.name, 0⟩) ∨ ∃ t, IsRecord t key p

variable {t : KeyType} {key p : Bytes} {e : Option Entry}

theorem Touches.mayRemove (h : Touches t key p e) : MayRemove t key p e := by
  rcases h with ⟨hp, he⟩ | h
  · exact .inl ⟨hp, .inl he⟩
  · exact .inr h

theorem MayRemove.owned (h : MayRemove t key p e) : Owned key p e := by
  rcases h with ⟨hp, rfl | rfl⟩ | h
  · refine .inl ⟨hp, ?_⟩
    rintro x ⟨⟩
    exact ⟨t, rfl⟩
  · exact .inl ⟨hp, fun _ => nofun⟩
  · exact .inr ⟨t, h⟩

theorem Touches.owned (h : Touches t key p e) : Owned key p e := h.mayRemove.owned

theorem Owned.owns (h : Owned key p e) : Owns key p := h.imp And.left id

@[simp] theorem touches_typeOfKeyGet : Touches t key (typeOfKeyGet key) (some ⟨t.name, 0⟩) :=
  .inl ⟨rfl, rfl⟩

theorem touches_record (h : IsRecord t key p) : Touches t key p e := .inr h

theorem owned_record (h : IsRecord t key p) : Owned key p e := .inr ⟨t, h⟩

theorem owned_typeOfKeyGet_none : Owned key (typeOfKeyGet key) none :=
  .inl ⟨rfl, fun _ => nofun⟩

theorem writes_deleteRecords {W : Bytes → Option Entry → Prop}
    (h : ∀ p, IsRecord t key p → W p none) : Writes W (deleteRecords t key) := by
  unfold deleteRecords
  split
  · next hplain =>
    apply writes_delete
    apply h
    rw [IsRecord, if_pos hplain]
  · next hplain =>
    apply writes_deleteByPrefix
    intro p hp
    exact h p (isRecord_of_isPrefix (by simpa using hplain) hp)

theorem writes_deleteData {W : Bytes → Option Entry → Prop} (name : Bytes)
    (h : ∀ t p, IsRecord t key p → W p none) : Writes W (deleteData key name) := by
  unfold deleteData
  split
  · exact writes_bind (writes_deleteRecords (h _)) fun _ => writes_deleteRecords (h _)
  · exact writes_deleteRecords (h _)
  · exact writes_pure

theorem writes_delTxn (key : Bytes) : Writes (Owned key) (delTxn key) := by
  refine writes_get_bind writes_pure fun e => ?_
  refine writes_bind (writes_deleteData _ fun t p hp => owned_record hp) fun _ => ?_
  exact writes_map (writes_delete owned_typeOfKeyGet_none) _

theorem writes_expireTxn (key : Bytes) (expiresAt : Nat) :
    Writes (Owned key) (expireTxn key expiresAt) := by
  refine writes_get_bind writes_pure fun e => ?_
  dsimp only
  split
  · exact writes_throw
  · refine writes_get_bind writes_pure fun v => ?_
    exact writes_map (writes_setEntry (owned_record (isRecord_getKeyValueKey key _))) _

theorem writes_persistTxn (key : Bytes) : Writes (Owned key) (persistTxn key) := by
  refine writes_get_bind writes_throw fun e => ?_
  dsimp only
  split
  · exact writes_throw
  · refine writes_get_bind writes_throw fun v => writes_ite writes_pure ?_
    exact writes_map (writes_set (owned_record (isRecord_getKeyValueKey key _))) _

section Commits

variable {α : Type} {now : Nat}

theorem commits_void {W : Bytes → Option Entry → Prop} {m : Run Err α}
    (h : Commits (unix now) W m) : Commits (unix now) W (void m) :=
  commits_bind h fun _ => commits_pure

-- A `TYPE_` record does not expire, so no such record is hidden when it is written.
theorem commits_touches {m : Txn Err α} (h : Writes (Touches t key) m) :
    Commits (unix now) (Touches t key) (update now m) := by
  refine commits_update h ?_
  rintro p e (⟨hp, he⟩ | hp) hlive
  · cases he
    cases hlive
  · exact .inr hp

theorem commits_mayRemove {m : Txn Err α} (h : Writes (MayRemove t key) m) :
    Commits (unix now) (MayRemove t key) (update now m) := by
  refine commits_update h ?_
  rintro p e (⟨hp, he⟩ | hp) hlive
  · exact .inl ⟨hp, .inr rfl⟩
  · exact .inr hp

theorem commits_owned {m : Txn Err α} (h : Writes (Owned key) m) :
    Commits (unix now) (Owned key) (update now m) := by
  refine commits_update h ?_
  rintro p e (⟨hp, he⟩ | hp) hlive
  · exact .inl ⟨hp, fun _ => nofun⟩
  · exact .inr hp

theorem commits_del (key : Bytes) : Commits (unix now) (Owned key) (del now key) :=
  commits_owned (writes_delTxn key)

theorem commits_delString (key : Bytes) :
    Commits (unix now) (MayRemove .string key) (delString now key) := by
  refine commits_mayRemove ?_
  refine writes_bind (writes_delete (.inl ⟨rfl, .inr rfl⟩)) fun _ => ?_
  exact writes_delete (.inr (isRecord_stringKey key))

theorem commits_delForExpiry (key : Bytes) : Commits (unix now) (Owned key) (delForExpiry now key) :=
  commits_bind (commits_del key) fun _ => commits_pure

theorem commits_expire (key : Bytes) (seconds : Int64) :
    Commits (unix now) (Owned key) (expire now key seconds) :=
  commits_ite (commits_delForExpiry key) (commits_owned (writes_expireTxn key _))

theorem commits_expireAt (key : Bytes) (timestamp : Int64) :
    Commits (unix now) (Owned key) (expireAt now key timestamp) :=
  commits_ite (commits_delForExpiry key) (commits_expire key _)

theorem commits_pExpire (key : Bytes) (milliseconds : Int64) :
    Commits (unix now) (Owned key) (pExpire now key milliseconds) :=
  commits_ite (commits_delForExpiry key) (commits_owned (writes_expireTxn key _))

theorem commits_pExpireAt (key : Bytes) (timestampMillis : Int64) :
    Commits (unix now) (Owned key) (pExpireAt now key timestampMillis) :=
  commits_ite (commits_delForExpiry key) (commits_pExpire key _)

theorem commits_persist (key : Bytes) : Commits (unix now) (Owned key) (persist now key) :=
  commits_tryCatch (commits_owned (writes_persistTxn key))
    fun _ => commits_ite commits_pure (commits_throw _)

end Commits

theorem owns_typeOfKeyGet (key : Bytes) : Owns key (typeOfKeyGet key) := .inl rfl

theorem IsRecord.owns (h : IsRecord t key p) : Owns key p := .inr ⟨t, h⟩

theorem reads_rawType (key : Bytes) : Reads (Owns key) (rawType key) :=
  reads_bind (reads_get (owns_typeOfKeyGet key)) fun _ => reads_pure

/-- The view looks at the `TYPE_` record, and at records of the type only if that record does not
name another type. -/
def Views {α : Type} (t : KeyType) (key : Bytes) (m : View Err α) : Prop :=
  ∀ db db' : Db, db[typeOfKeyGet key]? = db'[typeOfKeyGet key]? →
    ((∀ e, db[typeOfKeyGet key]? = some e → e.value = t.name ∨ e.value = []) →
      ∀ p, IsRecord t key p → db[p]? = db'[p]?) → m db = m db'

theorem Views.reads {α : Type} {m : View Err α} (h : Views t key m) : Reads (Owns key) m :=
  fun db db' heq => h db db' (heq _ (owns_typeOfKeyGet key)) fun _ p hp => heq p hp.owns

theorem rawType_apply (key : Bytes) (db : Db) :
    rawType key db = .ok (db[typeOfKeyGet key]?.map (·.value)) := rfl

section

variable {α : Type} {body : View Err α}

theorem checkKeyType_apply (t : KeyType) (key : Bytes) (db : Db) : checkKeyType key t db =
      if ∀ e, db[typeOfKeyGet key]? = some e → e.value = t.name then .ok ()
      else .error .wrongType := by
  rw [checkKeyType, View.bind_apply, rawType_apply]
  cases db[typeOfKeyGet key]? with
  | none =>
    rfl
  | some e =>
    show (if e.value = t.name then pure () else throw Err.wrongType : View Err Unit) db = _
    by_cases h : e.value = t.name
    · rw [if_pos h, if_pos (by simpa using h)]
      rfl
    · rw [if_neg h, if_neg (by simpa using h)]
      rfl

theorem checkKeyTypeInline_apply (t : KeyType) (key : Bytes) (db : Db) :
    checkKeyTypeInline key t db =
      if ∀ e, db[typeOfKeyGet key]? = some e → e.value = t.name ∨ e.value = [] then .ok ()
      else .error .wrongType := by
  rw [checkKeyTypeInline, View.bind_apply, rawType_apply]
  cases db[typeOfKeyGet key]? with
  | none =>
    rfl
  | some e =>
    show (if e.value ≠ [] ∧ e.value ≠ t.name then throw Err.wrongType else pure () :
      View Err Unit) db = _
    by_cases h : e.value ≠ [] ∧ e.value ≠ t.name
    · rw [if_pos h, if_neg (by simpa using h.symm)]
      rfl
    · rw [if_neg h, if_pos (by simp; tauto)]
      rfl

theorem checkKeyType_of_type {x : Nat} {db : Db}
    (h : db[typeOfKeyGet key]? = some ⟨t.name, x⟩) : checkKeyType key t db = .ok () := by
  rw [checkKeyType_apply, if_pos (by simp [h])]

theorem checkKeyTypeInline_of_type {x : Nat} {db : Db}
    (h : db[typeOfKeyGet key]? = some ⟨t.name, x⟩) : checkKeyTypeInline key t db = .ok () := by
  rw [checkKeyTypeInline_apply, if_pos (by simp [h])]

theorem views_checkKeyType (h : Reads (IsRecord t key) body) :
    Views t key (do checkKeyType key t; body) := by
  intro db db' htype heq
  rw [View.bind_apply, View.bind_apply, checkKeyType_apply, checkKeyType_apply, ← htype]
  by_cases hc : ∀ e, db[typeOfKeyGet key]? = some e → e.value = t.name
  · rw [if_pos hc]
    exact h db db' (heq fun e he => .inl (hc e he))
  · rw [if_neg hc]

theorem views_checkKeyTypeInline (h : Reads (IsRecord t key) body) :
    Views t key (do checkKeyTypeInline key t; body) := by
  intro db db' htype heq
  rw [View.bind_apply, View.bind_apply, checkKeyTypeInline_apply, checkKeyTypeInline_apply, ← htype]
  by_cases hc : ∀ e, db[typeOfKeyGet key]? = some e → e.value = t.name ∨ e.value = []
  · rw [if_pos hc]
    exact h db db' (heq hc)
  · rw [if_neg hc]

end

theorem reads_keyExists (key : Bytes) : Reads (Owns key) (keyExists key) :=
  reads_bind (reads_get (owns_typeOfKeyGet key)) fun _ => reads_pure

theorem reads_keyTypeName (key : Bytes) : Reads (Owns key) (keyTypeName key) := by
  refine reads_bind (reads_rawType key) fun name => ?_
  split
  · exact reads_pure
  · split <;> exact reads_pure

theorem reads_primary (key : Bytes) : Reads (Owns key) (primary key) := by
  refine reads_bind (reads_rawType key) fun name => ?_
  split
  · exact reads_pure
  · split
    · exact reads_throw _
    · exact reads_get (isRecord_getKeyValueKey key _).owns

theorem reads_ttl (now : Nat) (key : Bytes) : Reads (Owns key) (ttl now key) := by
  refine reads_bind (reads_primary key) fun v => ?_
  split <;> exact reads_pure

end BoltDB.Store
