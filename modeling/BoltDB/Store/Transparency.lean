import BoltDB.Store.Hashes

/-!
# Which values come back as they were written

A compressed value is marked by four magic bytes in front of it (`compression.go`), and a value is
compressed only if that makes it shorter. Readers take any stored value that starts with magic bytes
for a compressed one, so a value that is stored as it is and happens to start with them is decoded
all the same. `MSET` and `BITOP` never compress; `HSTRLEN` and `HSCAN` never decompress.
-/

namespace BoltDB.Store

open Bytes KeyValue List Std.ExtTreeMap Option

/-! ## Compression -/

/-- Decoding undoes encoding, for every algorithm. -/
def Codec.RoundTrips (c : Codec) : Prop := ∀ t x z, c.encode t x = some z → c.decode t z = some x

/-- The value is stored in compressed form. -/
def Compresses (c : Codec) (v : Bytes) : Prop :=
  shouldCompress c v = true ∧ ∃ z ∈ compressData c v, z.length < v.length

instance (c : Codec) (v : Bytes) : Decidable (Compresses c v) := by
  unfold Compresses
  infer_instance

/-- The magic bytes say which algorithm is to be used. -/
theorem decompressData_magic (c : Codec) {t : CompressionType} (h : t ≠ .none) (z : Bytes) :
    decompressData c (compressionMagic t ++ z) = c.decode t z := by
  cases t with
  | none => exact absurd rfl h
  | lz4 | zstd | snappy => rfl

variable {c : Codec}

theorem decompressData_compressData (hc : c.RoundTrips) {v z : Bytes}
    (hshould : shouldCompress c v = true) (hz : compressData c v = some z) :
    decompressData c z = some v := by
  have hand := Bool.and_eq_true_iff.mp hshould
  have htype : c.compressionType ≠ .none := by simpa using hand.1
  have hne : v ≠ [] := by
    rintro rfl
    simp at hand
  rw [compressData, if_neg (by simp [htype, hne])] at hz
  obtain ⟨y, hy, rfl⟩ := map_eq_some_iff.mp hz
  rw [decompressData_magic c htype]
  exact hc _ _ _ hy

/-- A value is stored compressed and shorter, or as it is. -/
theorem storedValue_cases (hc : c.RoundTrips) {v z : Bytes} (h : storedValue c v = some z) :
    Compresses c v ∧ z.length < v.length ∧ decompressData c z = some v ∨
      ¬ Compresses c v ∧ z = v := by
  rw [storedValue] at h
  split at h
  case isFalse hshould =>
    refine .inr ⟨fun hcomp => hshould hcomp.1, (Option.some.inj h).symm⟩
  case isTrue hshould =>
    obtain ⟨y, hy, heq⟩ := map_eq_some_iff.mp h
    split at heq
    case isTrue hle =>
      refine .inr ⟨?_, heq.symm⟩
      rintro ⟨-, y', hy', hlt⟩
      rw [hy] at hy'
      cases hy'
      omega
    case isFalse hlt =>
      subst heq
      refine .inl ⟨⟨hshould, y, hy, by omega⟩, by omega, ?_⟩
      exact decompressData_compressData hc hshould hy

/-- What is stored decodes to the value exactly when it was compressed or decodes to itself. -/
theorem decompressData_stored_iff (hc : c.RoundTrips) {v z : Bytes} (h : storedValue c v = some z) :
    decompressData c z = some v ↔ Compresses c v ∨ decompressData c v = some v := by
  rcases storedValue_cases hc h with ⟨hcomp, -, hdec⟩ | ⟨hnot, rfl⟩
  · simp [hcomp, hdec]
  · simp [hnot]

theorem setValueWithCompression_eq_ok {p v : Bytes} {db db' : Db} {u : Unit}
    (h : setValueWithCompression c p v db = .ok (u, db')) :
    ∃ z, storedValue c v = some z ∧ db' = db.insert p ⟨z, 0⟩ := by
  rw [setValueWithCompression] at h
  cases hz : storedValue c v with
  | none =>
    rw [hz] at h
    cases h
  | some z =>
    rw [hz] at h
    cases h
    exact ⟨z, rfl, rfl⟩

namespace Strings

/-! ## Writing a string -/

inductive Writer
  | set (v : Bytes)
  | setEX (v : Bytes) (seconds : Int64)
  | setNX (v : Bytes)
  | getSet (v : Bytes)
  | mSet (pairs : List (Bytes × Bytes))
  | append (v : Bytes)
  | setRange (offset : Int64) (v : Bytes)
  | bitOp (op : Bytes) (keys : List Bytes)

namespace Writer

def run (c : Codec) (now : Nat) (key : Bytes) : Writer → Run Err Unit
  | set v => Strings.set c now key v
  | setEX v seconds => Strings.setEX c now key v seconds
  | setNX v => void (Strings.setNX c now key v)
  | getSet v => void (Strings.getSet c now key v)
  | mSet pairs => Strings.mSet now pairs
  | append v => void (Strings.append c now key v)
  | setRange offset v => void (Strings.setRange c now key offset v)
  | bitOp op keys => void (Strings.bitOp c now op key keys)

/-- `MSET` and `BITOP` store their value as it is. -/
def isRaw : Writer → Bool
  | mSet _ | bitOp _ _ => true
  | _ => false

/-- The bytes a writer is to leave under the key, given the store it reads: `none` if it leaves the
key alone. -/
def bytes (c : Codec) (key : Bytes) : Writer → View Err (Option Bytes)
  | set v | setEX v _ | getSet v => return some v
  | setNX v => do
    return if (← View.get (stringKey key)).isSome then none else some v
  | mSet pairs => return (pairs.reverse.find? (·.1 = key)).map Prod.snd
  | append v => do
    return some ((← getStringBytes c key) ++ v)
  | setRange offset v => do
    return splice (← getStringBytes c key) v offset.toInt
  | bitOp op keys => do
    let sources ← keys.foldlM (fun acc key => do return acc ++ [← getStringBytes c key]) []
    let maxLen := (sources.map List.length).foldl max 0
    return ((List.range maxLen).mapM fun i => bitOpByte op (sources.map (·.getD i 0))).toOption

end Writer

/-- The records of a string key. -/
structure Stored (db : Db) (key z : Bytes) (expiresAt : Nat) : Prop where
  type : db[typeOfKeyGet key]? = some ⟨KeyType.string.name, 0⟩
  value : db[stringKey key]? = some ⟨z, expiresAt⟩

section Writers

variable {c : Codec} {key : Bytes} {db db' : Db}

theorem typeOfKeyGet_ne_stringKey (key key' : Bytes) : typeOfKeyGet key ≠ stringKey key' :=
  typeOfKeyGet_ne_tag_append key .string key'

theorem stored_insert (db : Db) (key z : Bytes) (expiresAt : Nat) :
    Stored ((db.insert (typeOfKeyGet key) ⟨KeyType.string.name, 0⟩).insert (stringKey key)
      ⟨z, expiresAt⟩) key z expiresAt where
  type := by
    rw [getElem?_insert_ite, if_neg (typeOfKeyGet_ne_stringKey key key), getElem?_insert_ite,
      if_pos rfl]
  value := by rw [getElem?_insert_ite, if_pos rfl]

variable {v : Bytes} {now : Nat} {u : Unit}

theorem put_spec (h : put c key v db = .ok (u, db')) :
    ∃ z, storedValue c v = some z ∧ Stored db' key z 0 := by
  obtain ⟨z, hz, rfl⟩ := setValueWithCompression_eq_ok h
  exact ⟨z, hz, stored_insert _ _ _ _⟩

theorem put_pure_spec {α : Type} {a b : α} (h : (put c key v >>= fun _ => pure a) db = .ok (b, db')) :
    ∃ z expiresAt, Stored db' key z expiresAt ∧ storedValue c v = some z := by
  obtain ⟨u, db₁, hput, hpure⟩ := Txn.bind_eq_ok.mp h
  cases hpure
  obtain ⟨z, hz, hs⟩ := put_spec hput
  exact ⟨z, 0, hs, hz⟩

theorem putRaw_spec (h : putRaw key v db = .ok (u, db')) : Stored db' key v 0 := by
  cases h
  exact stored_insert _ _ _ _

theorem setWithTTLTxn_spec {ttl : Int} (h : setWithTTLTxn c now key v ttl db = .ok (u, db')) :
    ∃ z expiresAt, Stored db' key z expiresAt ∧ storedValue c v = some z := by
  obtain ⟨-, -, hval⟩ := Txn.lift_bind_eq_ok.mp h
  rw [setEntryWithCompression] at hval
  cases hz : storedValue c v with
  | none =>
    rw [hz] at hval
    cases hval
  | some z =>
    rw [hz] at hval
    cases hval
    exact ⟨z, _, stored_insert _ _ _ _, rfl⟩

/-- Another key of the same `MSET` has other records. -/
theorem stored_putRaw_of_ne {key' z : Bytes} {expiresAt : Nat} (hne : key ≠ key')
    (hs : Stored db key z expiresAt) (h : putRaw key' v db = .ok (u, db')) :
    Stored db' key z expiresAt := by
  cases h
  have htype : typeOfKeyGet key ≠ typeOfKeyGet key' := fun heq => hne (typeOfKeyGet_injective heq)
  have hvalue : stringKey key ≠ stringKey key' := fun heq => hne (append_cancel_left heq)
  constructor
  · rw [getElem?_insert_ite, if_neg (typeOfKeyGet_ne_stringKey key key'), getElem?_insert_ite,
      if_neg htype]
    exact hs.type
  · rw [getElem?_insert_ite, if_neg hvalue, getElem?_insert_ite,
      if_neg (typeOfKeyGet_ne_stringKey key' key).symm]
    exact hs.value

/-- Of several pairs with the same key, `MSET` leaves the value of the last one. -/
theorem mSetTxn_spec {pairs : List (Bytes × Bytes)} (h : mSetTxn pairs db = .ok (u, db'))
    (hv : (pairs.reverse.find? (·.1 = key)).map Prod.snd = some v) : Stored db' key v 0 := by
  obtain ⟨kv, hkv, rfl⟩ := map_eq_some_iff.mp hv
  rw [mSetTxn, Txn.forM_eq_foldlM] at h
  refine Txn.foldlM_last (fun kv => kv.1 = key) (fun kv db => Stored db key kv.2 0) ?_ ?_ h hkv
  · intro a _ db _ db' hsame hput
    obtain rfl : a.1 = key := by simpa using hsame
    exact putRaw_spec hput
  · intro a₀ a _ db _ db' hne hstored hput
    exact stored_putRaw_of_ne (by simpa [eq_comm] using hne) hstored hput

theorem void_update_eq_ok {α : Type} {m : Txn Err α} (h : void (update now m) db = (.ok u, db')) :
    ∃ a, m (visible (unix now) db) = .ok (a, db') := by
  obtain ⟨a, db₁, hm, hpure⟩ := Run.bind_eq_ok.mp h
  cases hpure
  exact ⟨a, Run.update_eq_ok.mp hm⟩

/-- What a writer leaves under its key. -/
theorem Writer.run_spec {w : Writer} (hrun : w.run c now key db = (.ok (), db'))
    (hv : w.bytes c key (visible (unix now) db) = .ok (some v)) :
    ∃ z expiresAt, Stored db' key z expiresAt ∧
      if w.isRaw then z = v else storedValue c v = some z := by
  cases w with
  | set v' =>
    cases hv
    obtain ⟨-, -, hput⟩ := Txn.lift_bind_eq_ok.mp (Run.update_eq_ok.mp hrun)
    obtain ⟨z, hz, hs⟩ := put_spec hput
    exact ⟨z, 0, hs, hz⟩
  | setEX v' seconds =>
    cases hv
    exact setWithTTLTxn_spec (Run.update_eq_ok.mp hrun)
  | setNX v' =>
    obtain ⟨b, hm⟩ := void_update_eq_ok hrun
    obtain ⟨old, hold, hif⟩ := Txn.lift_bind_eq_ok.mp hm
    cases hold
    obtain ⟨old, hold, hret⟩ := View.bind_eq_ok.mp hv
    cases hold
    split at hret
    case isTrue => cases hret
    case isFalse hnone =>
      cases hret
      rw [if_neg hnone] at hif
      exact put_pure_spec hif
  | getSet v' =>
    cases hv
    obtain ⟨old, hm⟩ := void_update_eq_ok hrun
    obtain ⟨_, _, htxn⟩ := Txn.lift_bind_eq_ok.mp hm
    exact put_pure_spec htxn
  | mSet pairs =>
    have hfind : (pairs.reverse.find? (·.1 = key)).map Prod.snd = some v := Except.ok.inj hv
    exact ⟨v, 0, mSetTxn_spec (Run.update_eq_ok.mp hrun) hfind, rfl⟩
  | append v' =>
    obtain ⟨n, hm⟩ := void_update_eq_ok hrun
    obtain ⟨old, hold, hm⟩ := Txn.lift_bind_eq_ok.mp hm
    obtain ⟨_, _, htxn⟩ := Txn.lift_bind_eq_ok.mp hm
    obtain ⟨old', hold', hret⟩ := View.bind_eq_ok.mp hv
    rw [hold] at hold'
    cases hold'
    cases hret
    exact put_pure_spec htxn
  | setRange offset v' =>
    obtain ⟨n, hm⟩ := void_update_eq_ok hrun
    obtain ⟨old, hold, htxn⟩ := Txn.lift_bind_eq_ok.mp hm
    obtain ⟨old', hold', hret⟩ := View.bind_eq_ok.mp hv
    rw [hold] at hold'
    cases hold'
    have hsplice : splice old v' offset.toInt = some v := Except.ok.inj hret
    rw [hsplice] at htxn
    exact put_pure_spec htxn
  | bitOp op keys =>
    obtain ⟨n, hm⟩ := void_update_eq_ok hrun
    obtain ⟨sources, hsources, hret⟩ := View.bind_eq_ok.mp hv
    rw [bitOpTxn] at hm
    split at hm
    case isTrue => cases hm
    case isFalse =>
      obtain ⟨sources', hsources', htxn⟩ := Txn.lift_bind_eq_ok.mp hm
      rw [hsources] at hsources'
      cases hsources'
      have hresult : ((List.range ((sources.map List.length).foldl max 0)).mapM fun i =>
          bitOpByte op (sources.map (·.getD i 0))).toOption = some v := Except.ok.inj hret
      cases hr : (List.range ((sources.map List.length).foldl max 0)).mapM fun i =>
          bitOpByte op (sources.map (·.getD i 0)) with
      | error e =>
        rw [hr] at hresult
        cases hresult
      | ok result =>
        rw [hr] at hresult
        cases hresult
        rw [hr] at htxn
        obtain ⟨u, db₁, hput, hpure⟩ := Txn.bind_eq_ok.mp htxn
        cases hpure
        exact ⟨v, 0, putRaw_spec hput, rfl⟩

end Writers

/-! ## Reading a string -/

/-- The bytes of `GETRANGE`. -/
def slice (v : Bytes) (start stop : Int64) : Bytes :=
  let first := fromEnd v.length start.toInt 0
  let last := min (fromEnd v.length stop.toInt (-1)) (v.length - 1)
  if last < first then [] else (v.take (last + 1).toNat).drop first.toNat

/-- Every reader returns `v`, or a part of it, or its length. `MGET` of several keys returns it at
the key's place. -/
structure Returned (c : Codec) (now : Nat) (key v : Bytes) (db : Db) : Prop where
  get : view now (Strings.get c key) db = (.ok v, db)
  mGet : view now (Strings.mGet c [key]) db = (.ok [v], db)
  mGet_at : ∀ (keys values : List Bytes) (i : Nat), view now (Strings.mGet c keys) db = (.ok values, db) →
    keys[i]? = some key → values[i]? = some v
  getRange : ∀ start stop, view now (Strings.getRange c key start stop) db =
    (.ok (slice v start stop), db)
  strLen : view now (Strings.strLen c key) db = (.ok v.length, db)
  getSet : ∀ new, (storedValue c new).isSome → (Strings.getSet c now key new db).1 = .ok v

section Readers

variable {c : Codec} {key z v : Bytes} {db : Db} {expiresAt : Nat}

section Stored

variable (h : Stored db key z expiresAt)

include h

theorem Stored.visible {now : Nat} (hlive : stringKey key ∈ visible now db) :
    Stored (visible now db) key z expiresAt where
  type := by
    rw [getElem?_visible, h.type]
    rfl
  value := by
    have hsome := mem_iff_isSome_getElem?.mp hlive
    rw [getElem?_visible, h.value] at hsome ⊢
    rw [isSome_filter] at hsome
    exact filter_eq_some_iff.mpr ⟨rfl, by simpa using hsome⟩

theorem Stored.value_eq (hz : decompressData c z = some v) :
    Strings.value c key db = .ok (some v) := value_of_some h.value hz

theorem Stored.value_error (hz : decompressData c z = none) :
    Strings.value c key db = .error (.other "decompress error") := by
  rw [Strings.value, View.bind_apply, View.get, h.value]
  show (getValueWithDecompression c ⟨z, expiresAt⟩ >>= fun a => pure (some a) : View Err _) db = _
  rw [getValueWithDecompression, hz]
  rfl

theorem Stored.checkKeyType :
    Store.checkKeyType key .string db = .ok () := checkKeyType_of_type h.type

theorem Stored.checkKeyTypeInline :
    Store.checkKeyTypeInline key .string db = .ok () := checkKeyTypeInline_of_type h.type

theorem Stored.getStringBytes_eq (hz : decompressData c z = some v) :
    getStringBytes c key db = .ok v := by
  rw [getStringBytes, View.bind_of_ok (h.value_eq hz)]
  rfl

/-- `GET` decodes what is stored. -/
theorem Stored.get_eq_ok_iff : Strings.get c key db = .ok v ↔ decompressData c z = some v := by
  rw [Strings.get, View.bind_of_ok h.checkKeyTypeInline, View.bind_apply]
  cases hz : decompressData c z with
  | none =>
    rw [h.value_error hz]
    simp
  | some w =>
    rw [h.value_eq hz]
    show Except.ok w = Except.ok v ↔ _
    simp

end Stored

/-- One key of `MGET`. -/
def mGetKey (c : Codec) (key : Bytes) : View Err Bytes := do
  match ← rawType key with
  | none => return []
  | some name =>
    if name ≠ [] ∧ name ≠ KeyType.string.name then throw .wrongType
    else return (← Strings.value c key).getD []

theorem Stored.mGetKey_eq (h : Stored db key z expiresAt) (hz : decompressData c z = some v) :
    mGetKey c key db = .ok v := by
  have hraw : rawType key db = .ok (some KeyType.string.name) := by
    rw [rawType_apply, h.type]
    rfl
  rw [mGetKey, View.bind_apply, hraw]
  show (if KeyType.string.name ≠ [] ∧ KeyType.string.name ≠ KeyType.string.name then
    throw .wrongType else Strings.value c key >>= fun a => pure (a.getD []) : View Err Bytes) db = _
  rw [if_neg (by simp), View.bind_apply, h.value_eq hz]
  rfl

/-- All readers return the value exactly when what is stored decodes to it. -/
theorem returned_iff {now : Nat} (h : Stored (visible (unix now) db) key z expiresAt) :
    Returned c now key v db ↔ decompressData c z = some v := by
  constructor
  · intro hret
    exact h.get_eq_ok_iff.mp (congrArg Prod.fst hret.get)
  · intro hz
    have hmGet : ∀ keys, Strings.mGet c keys = keys.mapM (mGetKey c) := fun _ => rfl
    refine ⟨?_, ?_, ?_, ?_, ?_, ?_⟩
    · exact Prod.ext (h.get_eq_ok_iff.mpr hz) rfl
    · refine Prod.ext ?_ rfl
      show Strings.mGet c [key] (visible (unix now) db) = .ok [v]
      rw [hmGet, mapM_cons, View.bind_apply, h.mGetKey_eq hz]
      rfl
    · intro keys values i hread hkey
      have hvalues : keys.mapM (mGetKey c) (visible (unix now) db) = .ok values :=
        congrArg Prod.fst hread
      obtain ⟨b, hb, hi⟩ := View.mapM_getElem? hvalues hkey
      rw [h.mGetKey_eq hz] at hb
      cases hb
      exact hi
    · intro start stop
      refine Prod.ext ?_ rfl
      show Strings.getRange c key start stop (visible (unix now) db) = _
      rw [Strings.getRange, View.bind_of_ok h.checkKeyType, View.bind_of_ok (h.getStringBytes_eq hz)]
      rfl
    · refine Prod.ext ?_ rfl
      show Strings.strLen c key (visible (unix now) db) = _
      rw [Strings.strLen, View.bind_of_ok h.checkKeyType, View.bind_of_ok (h.getStringBytes_eq hz)]
      rfl
    · intro new hnew
      obtain ⟨y, hy⟩ := isSome_iff_exists.mp hnew
      have htxn : ∃ db', getSetTxn c key new (visible (unix now) db) = .ok (v, db') := by
        rw [getSetTxn, Txn.lift_bind_ok (h.value_eq hz), put, setValueWithCompression, hy]
        exact ⟨_, rfl⟩
      obtain ⟨db', hdb'⟩ := htxn
      exact congrArg Prod.fst (Run.update_eq_ok.mpr hdb')

end Readers

end Strings

namespace Hashes

/-! ## Writing a field -/

inductive Writer
  | hSet (v : Bytes)
  | hMSet (fieldValues : List (Bytes × Bytes))
  | hSetNX (v : Bytes)

namespace Writer

def run (c : Codec) (now : Nat) (key field : Bytes) : Writer → Run Err Unit
  | hSet v => Hashes.hSet c now key field v
  | hMSet fieldValues => Hashes.hMSet c now key fieldValues
  | hSetNX v => void (Hashes.hSetNX c now key field v)

/-- The bytes a writer is to leave under the field, given the store it reads: `none` if it leaves
the field alone. -/
def bytes (key field : Bytes) : Writer → View Err (Option Bytes)
  | hSet v => return some v
  | hMSet fieldValues => return (fieldValues.reverse.find? (·.1 = field)).map Prod.snd
  | hSetNX v => do
    return if (← View.get (hashKey key field)).isSome then none else some v

end Writer

/-- The records of a hash with a field. -/
structure Stored (db : Db) (key field z : Bytes) : Prop where
  type : db[typeOfKeyGet key]? = some ⟨KeyType.hash.name, 0⟩
  value : db[hashKey key field]? = some ⟨z, 0⟩

section Writers

variable {c : Codec} {key field z : Bytes} {db db' : Db}

theorem hashKey_injective {f f' : Bytes} (h : hashKey key f = hashKey key f') : f = f' :=
  append_cancel_left h

/-- A record of another field, the count for instance, leaves the field alone. -/
theorem Stored.insert_of_ne {f : Bytes} {e : Entry} (h : Stored db key field z) (hne : field ≠ f) :
    Stored (db.insert (hashKey key f) e) key field z where
  type := by
    rw [getElem?_insert_ite]
    exact h.type
  value := by
    rw [getElem?_insert_ite, if_neg fun heq => hne (hashKey_injective heq)]
    exact h.value

theorem stored_insert (htype : db[typeOfKeyGet key]? = some ⟨KeyType.hash.name, 0⟩) :
    Stored (db.insert (hashKey key field) ⟨z, 0⟩) key field z where
  type := by
    rw [getElem?_insert_ite]
    exact htype
  value := by rw [getElem?_insert_ite, if_pos rfl]

theorem type_insert (db : Db) (key : Bytes) :
    (db.insert (typeOfKeyGet key) ⟨KeyType.hash.name, 0⟩)[typeOfKeyGet key]? =
      some ⟨KeyType.hash.name, 0⟩ := by
  rw [getElem?_insert_ite, if_pos rfl]

variable {v : Bytes}

/-- The type, the field and the count are written. -/
theorem setField_stored {α : Type} {next : UInt64 → UInt64} {a b : α}
    (hfield : field ≠ countField) (h : (do
      Txn.set (typeOfKeyGet key) KeyType.hash.name
      setValueWithCompression c (hashKey key field) v
      let count ← getCount (hashCountKey key)
      setCount (hashCountKey key) (next count)
      return a : Txn Err α) db = .ok (b, db')) :
    ∃ z, storedValue c v = some z ∧ Stored db' key field z := by
  rw [Txn.set_bind] at h
  obtain ⟨_, db₂, hval, h⟩ := Txn.bind_eq_ok.mp h
  obtain ⟨z, hz, rfl⟩ := setValueWithCompression_eq_ok hval
  cases h
  exact ⟨z, hz, (stored_insert (type_insert db key)).insert_of_ne hfield⟩

theorem hSetTxn_stored {u : Unit} (hfield : field ≠ countField)
    (h : hSetTxn c key field v db = .ok (u, db')) :
    ∃ z, storedValue c v = some z ∧ Stored db' key field z := by
  obtain ⟨old, _, h⟩ := Txn.lift_bind_eq_ok.mp h
  obtain ⟨_, _, h⟩ := Txn.lift_bind_eq_ok.mp h
  exact setField_stored hfield h

theorem hSetNXTxn_stored (hfield : field ≠ countField) (hnone : ¬ (db[hashKey key field]?).isSome)
    {b : Bool} (h : hSetNXTxn c key field v db = .ok (b, db')) :
    ∃ z, storedValue c v = some z ∧ Stored db' key field z := by
  obtain ⟨old, hold, h⟩ := Txn.lift_bind_eq_ok.mp h
  cases hold
  rw [if_neg hnone] at h
  exact setField_stored hfield h

theorem hMSetField_eq_ok {fv : Bytes × Bytes} {n n' : Nat}
    (h : hMSetField c key n fv db = .ok (n', db')) :
    ∃ z, storedValue c fv.2 = some z ∧ db' = db.insert (hashKey key fv.1) ⟨z, 0⟩ := by
  obtain ⟨old, _, h⟩ := Txn.lift_bind_eq_ok.mp h
  obtain ⟨_, db₁, hval, h⟩ := Txn.bind_eq_ok.mp h
  cases h
  exact setValueWithCompression_eq_ok hval

theorem hMSetTxn_stored {fieldValues : List (Bytes × Bytes)} {u : Unit}
    (hfield : field ≠ countField) (h : hMSetTxn c key fieldValues db = .ok (u, db'))
    (hv : (fieldValues.reverse.find? (·.1 = field)).map Prod.snd = some v) :
    ∃ z, storedValue c v = some z ∧ Stored db' key field z := by
  obtain ⟨fv, hfv, rfl⟩ := map_eq_some_iff.mp hv
  rw [hMSetTxn, Txn.set_bind] at h
  obtain ⟨count, _, h⟩ := Txn.lift_bind_eq_ok.mp h
  obtain ⟨newFields, db₂, hfold, h⟩ := Txn.bind_eq_ok.mp h
  have htype : db₂[typeOfKeyGet key]? = some ⟨KeyType.hash.name, 0⟩ := by
    refine Txn.foldlM_keeps (I := fun db => db[typeOfKeyGet key]? = some ⟨KeyType.hash.name, 0⟩)
      ?_ (type_insert db key) hfold
    intro a _ n db n' db' hdb hstep
    obtain ⟨z, _, rfl⟩ := hMSetField_eq_ok hstep
    rw [getElem?_insert_ite]
    exact hdb
  obtain ⟨z, hz, hvalue⟩ : ∃ z, storedValue c fv.2 = some z ∧
      db₂[hashKey key field]? = some ⟨z, 0⟩ := by
    refine Txn.foldlM_last (fun fv => fv.1 = field)
      (fun fv db => ∃ z, storedValue c fv.2 = some z ∧ db[hashKey key field]? = some ⟨z, 0⟩)
      ?_ ?_ hfold hfv
    · intro a n db n' db' hsame hstep
      obtain ⟨z, hz, rfl⟩ := hMSetField_eq_ok hstep
      obtain rfl : a.1 = field := by simpa using hsame
      exact ⟨z, hz, by rw [getElem?_insert_ite, if_pos rfl]⟩
    · rintro a₀ a n db n' db' hne ⟨z, hz, hdb⟩ hstep
      obtain ⟨y, _, rfl⟩ := hMSetField_eq_ok hstep
      have hne' : field ≠ a.1 := by simpa [eq_comm] using hne
      exact ⟨z, hz, by rw [getElem?_insert_ite, if_neg fun heq => hne' (hashKey_injective heq), hdb]⟩
  refine ⟨z, hz, ?_⟩
  split at h
  · cases h
    exact Stored.insert_of_ne ⟨htype, hvalue⟩ hfield
  · cases h
    exact ⟨htype, hvalue⟩

/-- What a writer leaves under its field, unless the field is the count. -/
theorem Writer.run_spec {w : Writer} {now : Nat} (hfield : field ≠ countField)
    (hrun : w.run c now key field db = (.ok (), db'))
    (hv : w.bytes key field (visible (unix now) db) = .ok (some v)) :
    ∃ z, storedValue c v = some z ∧ Stored db' key field z := by
  cases w with
  | hSet v' =>
    cases hv
    exact hSetTxn_stored hfield (Run.update_eq_ok.mp hrun)
  | hMSet fieldValues =>
    exact hMSetTxn_stored hfield (Run.update_eq_ok.mp hrun) (Except.ok.inj hv)
  | hSetNX v' =>
    obtain ⟨b, hm⟩ := Strings.void_update_eq_ok hrun
    obtain ⟨old, hold, hret⟩ := View.bind_eq_ok.mp hv
    cases hold
    split at hret
    case isTrue => cases hret
    case isFalse hnone =>
      cases hret
      exact hSetNXTxn_stored hfield hnone hm

end Writers

/-! ## Reading a field -/

/-- The records `HGETALL` and `HVALS` look at, in the order of their names. -/
def fieldRecords (key : Bytes) (db : Db) : List (Bytes × Entry) :=
  (scan (recordPrefix .hash key) db).filter (fieldOf ·.1 ≠ countField)

/-- Every reader returns `v` for the field, or its length. `HMGET` of several fields and `HVALS`
return it at the field's place, and `HSCAN` reports the field with `v` and with nothing else. -/
structure Returned (c : Codec) (now : Nat) (key field v : Bytes) (db : Db) : Prop where
  hGet : view now (Hashes.hGet c key field) db = (.ok v, db)
  hMGet : view now (Hashes.hMGet c key [field]) db = (.ok [some v], db)
  hMGet_at : ∀ (fields : List Bytes) (values : List (Option Bytes)) (i : Nat),
    view now (Hashes.hMGet c key fields) db = (.ok values, db) →
    fields[i]? = some field → values[i]? = some (some v)
  hGetAll : ∃ m : Std.ExtTreeMap Bytes Bytes compare,
    view now (Hashes.hGetAll c key) db = (.ok m, db) ∧ m[field]? = some v
  hVals : ∃ (values : List Bytes) (i : Nat) (e : Entry),
    view now (Hashes.hVals c key) db = (.ok values, db) ∧
    (fieldRecords key (visible (unix now) db))[i]? = some (hashKey key field, e) ∧
    values[i]? = some v
  hStrLen : view now (Hashes.hStrLen key field) db = (.ok v.length, db)
  hScan : ∃ bookmark pattern count fs next,
    view now (hScanFrom key bookmark pattern count) db = (.ok (fs, next), db) ∧ (field, v) ∈ fs
  hScan_only : ∀ bookmark pattern count fs next u,
    view now (hScanFrom key bookmark pattern count) db = (.ok (fs, next), db) →
    (field, u) ∈ fs → u = v

/-- The other records of the hash do not get in the way: all of them can be decoded, and the last
one that reads as this field (a name that ends in `:` and the field reads so, too) holds `v`. -/
structure Undisturbed (c : Codec) (key field v : Bytes) (db : Db) : Prop where
  decodes : ∀ e ∈ fieldRecords key db, (decompressData c e.2.value).isSome
  last : ((fieldRecords key db).filter (fieldOf ·.1 = field)).getLast?.bind
    (decompressData c ·.2.value) = some v

section Readers

variable {c : Codec} {key field z v : Bytes} {db : Db}

theorem Stored.visible (now : Nat) (h : Stored db key field z) :
    Stored (visible now db) key field z where
  type := by
    rw [getElem?_visible, h.type]
    rfl
  value := by
    rw [getElem?_visible, h.value]
    rfl

theorem Stored.checkKeyType (h : Stored db key field z) :
    Store.checkKeyType key .hash db = .ok () := checkKeyType_of_type h.type

theorem Stored.checkKeyTypeInline (h : Stored db key field z) :
    Store.checkKeyTypeInline key .hash db = .ok () := checkKeyTypeInline_of_type h.type

/-! ### One field -/

/-- `HGET` decodes what is stored. -/
theorem Stored.hGet_eq_ok_iff (h : Stored db key field z) :
    Hashes.hGet c key field db = .ok v ↔ decompressData c z = some v := by
  rw [Hashes.hGet, View.bind_of_ok h.checkKeyTypeInline, View.bind_apply, View.get, h.value]
  show getValueWithDecompression c ⟨z, 0⟩ db = .ok v ↔ _
  rw [getValueWithDecompression]
  cases decompressData c z with
  | none =>
    show Except.error _ = Except.ok v ↔ _
    simp
  | some w =>
    show Except.ok w = Except.ok v ↔ _
    simp

/-- One field of `HMGET`. -/
def hMGetField (c : Codec) (key field : Bytes) : View Err (Option Bytes) := do
  match ← View.get (hashKey key field) with
  | none => return none
  | some e => return some (← getValueWithDecompression c e)

theorem Stored.hMGetField_eq (h : Stored db key field z) (hz : decompressData c z = some v) :
    hMGetField c key field db = .ok (some v) := by
  rw [hMGetField, View.bind_apply, View.get, h.value]
  show (getValueWithDecompression c ⟨z, 0⟩ >>= fun a => pure (some a) : View Err _) db = _
  rw [getValueWithDecompression, hz]
  rfl

/-- `HSTRLEN` measures what is stored. -/
theorem Stored.hStrLen_eq (h : Stored db key field z) :
    Hashes.hStrLen key field db = .ok z.length := by
  rw [Hashes.hStrLen, View.bind_of_ok h.checkKeyType, View.bind_apply, View.get, h.value]
  rfl

/-! ### All fields -/

theorem notMem_afterLastColon (b : Bytes) : 58 ∉ afterLastColon b := by
  rw [afterLastColon, mem_reverse]
  intro hmem
  have := mem_takeWhile_imp hmem
  simp at this

/-- What a record reads as. -/
def readAs (c : Codec) (e : Bytes × Entry) : Bytes × Bytes :=
  (fieldOf e.1, (decompressData c e.2.value).getD [])

variable {es : List (Bytes × Entry)}

theorem decodes_of_foldlM {acc l : List (Bytes × Bytes)}
    (h : (es.foldlM (fun acc e => do return acc ++ [(fieldOf e.1, ← getValueWithDecompression c e.2)])
      acc : View Err _) db = .ok l) : ∀ e ∈ es, (decompressData c e.2.value).isSome := by
  induction es generalizing acc with
  | nil => simp
  | cons e es ih =>
    obtain ⟨acc', hhead, hrest⟩ := View.bind_eq_ok.mp h
    obtain ⟨v, hv, -⟩ := View.bind_eq_ok.mp hhead
    refine forall_mem_cons.mpr ⟨?_, ih hrest⟩
    rw [getValueWithDecompression] at hv
    cases hdec : decompressData c e.2.value with
    | none =>
      rw [hdec] at hv
      cases hv
    | some w => rfl

/-- `HGETALL` and `HVALS` go through as long as every record decodes. -/
theorem fields_eq_ok_iff {l : List (Bytes × Bytes)} : fields c key db = .ok l ↔
      (∀ e ∈ fieldRecords key db, (decompressData c e.2.value).isSome) ∧
        l = (fieldRecords key db).map (readAs c) := by
  have happly : (∀ e ∈ fieldRecords key db, (decompressData c e.2.value).isSome) →
      fields c key db = .ok ((fieldRecords key db).map (readAs c)) := by
    intro hall
    refine fields_apply c key db (fun e => (decompressData c e.2.value).getD []) ?_
    intro e he hne
    have hsome := hall e (List.mem_filter.mpr ⟨he, decide_eq_true hne⟩)
    exact (some_get hsome).symm.trans (by rw [get_eq_getD])
  constructor
  · intro h
    have hall := decodes_of_foldlM h
    rw [happly hall] at h
    exact ⟨hall, (Except.ok.inj h).symm⟩
  · rintro ⟨hall, rfl⟩
    exact happly hall

/-- Of several pairs with one field the map keeps the last. -/
theorem getElem?_foldl_insert (l : List (Bytes × Bytes)) (m : Std.ExtTreeMap Bytes Bytes compare)
    (f : Bytes) :
    (l.foldl (fun m kv => m.insert kv.1 kv.2) m)[f]? =
      ((l.filter (·.1 = f)).getLast?.map Prod.snd).or m[f]? := by
  induction l generalizing m with
  | nil => simp
  | cons kv l ih =>
    rw [foldl_cons, ih, Std.ExtTreeMap.getElem?_insert]
    simp only [Std.LawfulEqCmp.compare_eq_iff_eq]
    by_cases hkv : kv.1 = f
    · rw [if_pos hkv, filter_cons_of_pos (by simpa using hkv), getLast?_cons]
      cases (l.filter (·.1 = f)).getLast? <;> rfl
    · rw [if_neg hkv, filter_cons_of_neg (by simpa using hkv)]

theorem hGetAll_eq_ok {m : Std.ExtTreeMap Bytes Bytes compare}
    (h : Hashes.hGetAll c key db = .ok m) :
    (∀ e ∈ fieldRecords key db, (decompressData c e.2.value).isSome) ∧
      m = ((fieldRecords key db).map (readAs c)).foldl (fun m kv => m.insert kv.1 kv.2) ∅ := by
  obtain ⟨_, _, h⟩ := View.bind_eq_ok.mp h
  obtain ⟨l, hl, hm⟩ := View.bind_eq_ok.mp h
  obtain ⟨hall, rfl⟩ := fields_eq_ok_iff.mp hl
  exact ⟨hall, (Except.ok.inj hm).symm⟩

theorem hGetAll_eq (h : Stored db key field z)
    (hall : ∀ e ∈ fieldRecords key db, (decompressData c e.2.value).isSome) :
    Hashes.hGetAll c key db =
      .ok (((fieldRecords key db).map (readAs c)).foldl (fun m kv => m.insert kv.1 kv.2) ∅) := by
  rw [Hashes.hGetAll, View.bind_of_ok h.checkKeyType,
    View.bind_of_ok (fields_eq_ok_iff.mpr ⟨hall, rfl⟩)]
  rfl

theorem hVals_eq (h : Stored db key field z)
    (hall : ∀ e ∈ fieldRecords key db, (decompressData c e.2.value).isSome) :
    Hashes.hVals c key db = .ok (((fieldRecords key db).map (readAs c)).map Prod.snd) := by
  rw [Hashes.hVals, View.bind_of_ok h.checkKeyType,
    View.bind_of_ok (fields_eq_ok_iff.mpr ⟨hall, rfl⟩)]
  rfl

/-- The value that `HGETALL` puts under a field is that of the last record that reads so. -/
theorem getElem?_readAs (hall : ∀ e ∈ fieldRecords key db, (decompressData c e.2.value).isSome) :
    (((fieldRecords key db).map (readAs c)).foldl (fun m kv => m.insert kv.1 kv.2)
      (∅ : Std.ExtTreeMap Bytes Bytes compare))[field]? =
      ((fieldRecords key db).filter (fieldOf ·.1 = field)).getLast?.bind
        (decompressData c ·.2.value) := by
  have hfilter : ((fieldRecords key db).map (readAs c)).filter (·.1 = field) =
      ((fieldRecords key db).filter (fieldOf ·.1 = field)).map (readAs c) := by
    rw [List.filter_map]
    rfl
  rw [getElem?_foldl_insert, hfilter, getLast?_map, getElem?_empty, or_none]
  cases hlast : ((fieldRecords key db).filter (fieldOf ·.1 = field)).getLast? with
  | none => rfl
  | some e =>
    have hmem : e ∈ fieldRecords key db := List.mem_of_mem_filter (mem_of_getLast? hlast)
    obtain ⟨w, hw⟩ := isSome_iff_exists.mp (hall e hmem)
    simp [readAs, hw]

/-! ### Pages of a scan -/

theorem mem_hScanLoop {pattern : Bytes} {pre n : Nat} {last : Bytes} {fv : Bytes × Bytes}
    (h : fv ∈ (hScanLoop pattern pre n es last).1) :
    ∃ e ∈ es, e.1.drop pre = fv.1 ∧ e.2.value = fv.2 := by
  induction es generalizing n last with
  | nil => cases n <;> simp [hScanLoop] at h
  | cons e es ih =>
    have hrest : ∀ {n last}, fv ∈ (hScanLoop pattern pre n es last).1 →
        ∃ e' ∈ e :: es, e'.1.drop pre = fv.1 ∧ e'.2.value = fv.2 := by
      intro n last hmem
      obtain ⟨e', he', heq⟩ := ih hmem
      exact ⟨e', mem_cons_of_mem e he', heq⟩
    cases n with
    | zero => simp [hScanLoop] at h
    | succ n =>
      rw [hScanLoop] at h
      split at h
      · exact hrest h
      · split at h
        · rcases mem_cons.mp h with rfl | hmem
          · exact ⟨e, mem_cons_self, rfl, rfl⟩
          · exact hrest hmem
        · exact hrest h

theorem mem_hScanRecords {bookmark : Option Bytes} (h : hScanRecords key bookmark db = .ok es)
    {e : Bytes × Entry} (he : e ∈ es) : db[e.1]? = some e.2 ∧ recordPrefix .hash key <+: e.1 := by
  cases bookmark with
  | none =>
    cases h
    exact mem_scan.mp he
  | some last =>
    obtain ⟨all, hall, hes⟩ := View.bind_eq_ok.mp h
    cases hall
    cases hes
    have hpre := mem_takeWhile_imp he
    have hmem := List.mem_of_mem_filter ((takeWhile_sublist _).subset he)
    exact ⟨(mem_scan.mp hmem).1, isPrefixOf_iff_prefix.mp hpre⟩

/-- What a page reports for a field is what is stored. -/
theorem Stored.eq_of_mem_hScan (h : Stored db key field z) {bookmark : Option Bytes}
    {pattern : Bytes} {count : Int64} {fs : List (Bytes × Bytes)} {next : Option Bytes} {u : Bytes}
    (hscan : hScanFrom key bookmark pattern count db = .ok (fs, next)) (hu : (field, u) ∈ fs) :
    u = z := by
  have hraw : rawType key db = .ok (some KeyType.hash.name) := by
    rw [rawType_apply, h.type]
    rfl
  rw [hScanFrom, View.bind_apply, hraw] at hscan
  change (if KeyType.hash.name ≠ [] ∧ KeyType.hash.name ≠ KeyType.hash.name then
    throw .wrongType else hScanRecords key bookmark >>= _ : View Err _) db = _ at hscan
  obtain ⟨es, hes, hloop⟩ := View.bind_eq_ok.mp hscan
  have hfs : (hScanLoop pattern (recordPrefix .hash key).length
      (if count ≤ 0 then 10 else count.toInt.toNat) es []).1 = fs :=
    congrArg Prod.fst (Except.ok.inj hloop)
  rw [← hfs] at hu
  obtain ⟨e, he, hname, hvalue⟩ := mem_hScanLoop hu
  obtain ⟨hget, rest, hrest⟩ := mem_hScanRecords hes he
  rw [← hrest, drop_left] at hname
  subst hname
  rw [← hrest] at hget
  have hentry : e.2 = ⟨z, 0⟩ := (Option.some.inj (h.value.symm.trans hget)).symm
  rw [hentry] at hvalue
  exact hvalue.symm

/-- A list in strict order, from one of its elements on. -/
theorem filter_ge_eq_cons {l : List (Bytes × Entry)} {x : Bytes × Entry}
    (hsorted : l.Pairwise fun e f => compare e.1 f.1 = .lt) (hx : x ∈ l) :
    ∃ rest, l.filter (fun e => compare e.1 x.1 ≠ .lt) = x :: rest := by
  induction l with
  | nil => simp at hx
  | cons a l ih =>
    obtain ⟨hhead, htail⟩ := pairwise_cons.mp hsorted
    rcases mem_cons.mp hx with rfl | hx
    · refine ⟨_, filter_cons_of_pos ?_⟩
      simp [Std.ReflCmp.compare_self]
    · rw [filter_cons_of_neg (by simp [hhead x hx])]
      exact ih htail hx

/-- The page that starts at the field's record reports it. -/
theorem Stored.hScan_at (h : Stored db key field z) (hfield : field ≠ countField) :
    ∃ fs next, hScanFrom key (some (hashKey key field)) [] 1 db = .ok (fs, next) ∧
      (field, z) ∈ fs := by
  have hraw : rawType key db = .ok (some KeyType.hash.name) := by
    rw [rawType_apply, h.type]
    rfl
  have hmem : (hashKey key field, (⟨z, 0⟩ : Entry)) ∈ scan [] db :=
    mem_scan.mpr ⟨h.value, nil_prefix⟩
  obtain ⟨rest, hrest⟩ := filter_ge_eq_cons (sorted_scan [] db) hmem
  have hpre : (recordPrefix .hash key).isPrefixOf (hashKey key field) = true :=
    isPrefixOf_iff_prefix.mpr (prefix_append _ _)
  have hrecords : hScanRecords key (some (hashKey key field)) db =
      .ok ((hashKey key field, ⟨z, 0⟩) ::
        rest.takeWhile fun e => (recordPrefix .hash key).isPrefixOf e.1) := by
    show Except.ok (((scan [] db).filter _).takeWhile _) = _
    rw [hrest, takeWhile_cons, hpre]
    rfl
  have hdrop : (hashKey key field).drop (recordPrefix .hash key).length = field := drop_left
  rw [hScanFrom, View.bind_apply, hraw]
  show ∃ fs next, (if KeyType.hash.name ≠ [] ∧ KeyType.hash.name ≠ KeyType.hash.name then
    throw .wrongType else hScanRecords key (some (hashKey key field)) >>= _ : View Err _) db =
      .ok (fs, next) ∧ _
  rw [if_neg (by simp), View.bind_apply, hrecords]
  have hpage : ∀ es, (field, z) ∈ (hScanLoop [] (recordPrefix .hash key).length 1
      ((hashKey key field, ⟨z, 0⟩) :: es) []).1 := by
    intro es
    rw [hScanLoop]
    simp [hdrop, hfield, scanMatches]
  exact ⟨_, _, rfl, hpage _⟩

/-! ### All readers -/

/-- All readers return the value exactly when it is stored as it is, decodes to itself, and its
field can be told from the other records. -/
theorem returned_iff {now : Nat} (hstored : field ≠ countField → Stored db key field z)
    (hz : z = v ∨ z.length < v.length) :
    Returned c now key field v db ↔
      field ≠ countField ∧ 58 ∉ field ∧ z = v ∧ decompressData c v = some v ∧
        Undisturbed c key field v (visible (unix now) db) := by
  constructor
  · intro h
    obtain ⟨m, hm, hlast⟩ := h.hGetAll
    obtain ⟨hall, rfl⟩ := hGetAll_eq_ok (congrArg Prod.fst hm)
    rw [getElem?_readAs hall] at hlast
    -- some record reads as this field, so it is not the count and has no `:`
    obtain ⟨e, he, -⟩ := bind_eq_some_iff.mp hlast
    obtain ⟨hmem, hname⟩ := List.mem_filter.mp (mem_of_getLast? he)
    obtain ⟨-, hne⟩ := List.mem_filter.mp hmem
    obtain rfl : fieldOf e.1 = field := of_decide_eq_true hname
    have hcount : fieldOf e.1 ≠ countField := of_decide_eq_true hne
    have hs := (hstored hcount).visible (unix now)
    have hlen : z.length = v.length :=
      Except.ok.inj (hs.hStrLen_eq.symm.trans (congrArg Prod.fst h.hStrLen))
    obtain rfl : z = v := hz.resolve_right (by omega)
    refine ⟨hcount, notMem_afterLastColon _, rfl, ?_, hall, hlast⟩
    exact hs.hGet_eq_ok_iff.mp (congrArg Prod.fst h.hGet)
  · rintro ⟨hcount, hcolon, rfl, hdec, hclear⟩
    have hs := (hstored hcount).visible (unix now)
    have hmGet : ∀ fields, Hashes.hMGet c key fields = fields.mapM (hMGetField c key) :=
      fun _ => rfl
    refine ⟨?_, ?_, ?_, ?_, ?_, ?_, ?_, ?_⟩
    · exact Prod.ext (hs.hGet_eq_ok_iff.mpr hdec) rfl
    · refine Prod.ext ?_ rfl
      show Hashes.hMGet c key [field] (visible (unix now) db) = .ok [some z]
      rw [hmGet, mapM_cons, View.bind_apply, hs.hMGetField_eq hdec]
      rfl
    · intro fields values i hread hi
      have hvalues : fields.mapM (hMGetField c key) (visible (unix now) db) = .ok values :=
        congrArg Prod.fst hread
      obtain ⟨b, hb, hi⟩ := View.mapM_getElem? hvalues hi
      rw [hs.hMGetField_eq hdec] at hb
      cases hb
      exact hi
    · refine ⟨_, Prod.ext (hGetAll_eq hs hclear.decodes) rfl, ?_⟩
      rw [getElem?_readAs hclear.decodes]
      exact hclear.last
    · have hmem : (hashKey key field, (⟨z, 0⟩ : Entry)) ∈
          fieldRecords key (visible (unix now) db) := by
        refine List.mem_filter.mpr ⟨mem_scan.mpr ⟨hs.value, prefix_append _ _⟩, ?_⟩
        simpa [fieldOf_hashKey hcolon] using hcount
      obtain ⟨i, hi⟩ := getElem?_of_mem hmem
      refine ⟨_, i, _, Prod.ext (hVals_eq hs hclear.decodes) rfl, hi, ?_⟩
      simp [hi, readAs, hdec]
    · exact Prod.ext hs.hStrLen_eq rfl
    · obtain ⟨fs, next, hscan, hmem⟩ := hs.hScan_at hcount
      exact ⟨_, _, _, fs, next, Prod.ext hscan rfl, hmem⟩
    · intro bookmark pattern count fs next u hscan hmem
      exact hs.eq_of_mem_hScan (congrArg Prod.fst hscan) hmem

end Readers

end Hashes

/-! ## Which values are transparent -/

/-- **Value transparency.** Whatever algorithm is configured: after a successful write of `v` to a
string, every reader returns `v` (its parts, its length) exactly when `v` was compressed or does not
decode to something else; after a write to a hash field, every reader returns `v` exactly when `v`
was *not* compressed, does not decode to something else, and the field is told apart from the count
and from the hash's other records. -/
theorem value_transparency (c : Codec) (hc : c.RoundTrips) :
    (∀ (w : Strings.Writer) (key v : Bytes) (db db' : Db) (written read : Nat),
      w.run c written key db = (.ok (), db') →
      w.bytes c key (visible (unix written) db) = .ok (some v) →
      stringKey key ∈ visible (unix read) db' →
      (Strings.Returned c read key v db' ↔
        w.isRaw = false ∧ Compresses c v ∨ decompressData c v = some v)) ∧
    ∀ (w : Hashes.Writer) (key field v : Bytes) (db db' : Db) (written read : Nat),
      w.run c written key field db = (.ok (), db') →
      w.bytes key field (visible (unix written) db) = .ok (some v) →
      (Hashes.Returned c read key field v db' ↔
        field ≠ Hashes.countField ∧ 58 ∉ field ∧ ¬ Compresses c v ∧ decompressData c v = some v ∧
          Hashes.Undisturbed c key field v (visible (unix read) db')) := by
  constructor
  · intro w key v db db' written read hrun hv hlive
    obtain ⟨z, expiresAt, hstored, hz⟩ := Strings.Writer.run_spec hrun hv
    rw [Strings.returned_iff (hstored.visible hlive)]
    cases hraw : w.isRaw with
    | true =>
      rw [hraw, if_pos rfl] at hz
      simp [hz]
    | false =>
      rw [hraw] at hz
      rw [decompressData_stored_iff hc hz]
      simp
  · intro w key field v db db' written read hrun hv
    by_cases hfield : field = Hashes.countField
    · rw [Hashes.returned_iff (fun h => absurd hfield h) (.inl rfl)]
      simp [hfield]
    · obtain ⟨z, hz, hstored⟩ := Hashes.Writer.run_spec hfield hrun hv
      rcases storedValue_cases hc hz with ⟨hcomp, hlt, -⟩ | ⟨hnot, rfl⟩
      · rw [Hashes.returned_iff (fun _ => hstored) (.inr hlt)]
        have hne : z ≠ v := fun heq => by rw [heq] at hlt; omega
        simp [hcomp, hne]
      · rw [Hashes.returned_iff (fun _ => hstored) (.inl rfl)]
        simp [hnot]

theorem uncompressed_roundTrips : uncompressed.RoundTrips := by
  rintro t x z ⟨⟩
  rfl

/-- An ordinary value is transparent, in a string and in a field of a hash. -/
theorem value_transparency_plain :
    (∃ db', Strings.Writer.run uncompressed 0 (ascii "k") (.set (ascii "v")) ∅ = (.ok (), db') ∧
      Strings.Returned uncompressed 0 (ascii "k") (ascii "v") db') ∧
    ∃ db', Hashes.Writer.run uncompressed 0 (ascii "h") (ascii "f") (.hSet (ascii "v")) ∅ = (.ok (), db') ∧
      Hashes.Returned uncompressed 0 (ascii "h") (ascii "f") (ascii "v") db' := by
  have htransparent := value_transparency uncompressed uncompressed_roundTrips
  constructor
  · refine ⟨_, rfl, (htransparent.1 (.set "v") _ _ ∅ _ 0 0 rfl rfl ?_).mpr (.inr ?_)⟩
    · decide +kernel
    · decide +kernel
  · refine ⟨_, rfl, (htransparent.2 (.hSet "v") _ _ _ ∅ _ 0 0 rfl rfl).mpr ?_⟩
    exact ⟨by decide, by decide, by decide +kernel, by decide +kernel,
      ⟨by decide +kernel, by decide +kernel⟩⟩

/-- A lossless codec that packs one value into a byte. -/
def packing : Codec :=
  { uncompressed with
    compressionType := .zstd
    encode := fun _ x => if x = List.replicate 64 0 then some [0] else some (1 :: x)
    decode := fun _ z =>
      match z with
      | 0 :: _ => some (List.replicate 64 0)
      | _ :: x => some x
      | [] => none }

/-- `SET k ZSTD` does not read back, and `HSTRLEN` of 64 zero bytes is the length of their
compressed form. -/
theorem magic_value_lost :
    (∃ db', Strings.Writer.run packing 0 (ascii "k") (.set (ascii "ZSTD")) ∅ = (.ok (), db') ∧
      (view 0 (Strings.get packing (ascii "k")) db').1 ≠ .ok (ascii "ZSTD")) ∧
    ∃ db', Hashes.Writer.run packing 0 (ascii "h") (ascii "f") (.hSet (List.replicate 64 0)) ∅ =
        (.ok (), db') ∧
      view 0 (Hashes.hStrLen (ascii "h") (ascii "f")) db' = (.ok 5, db') := by
  refine ⟨⟨_, rfl, ?_⟩, ⟨_, rfl, ?_⟩⟩
  · decide +kernel
  · exact Prod.ext (by decide +kernel) rfl

end BoltDB.Store
