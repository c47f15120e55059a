import BoltDB.Replication.Wire
import BoltDB.Store.Base

/-!
# Replay of an expiry

`Expire` and `PExpire` log `PEXPIREAT key E*1000` for the second `E` that they store, whatever command they
were called by (`base.go`). A replica turns the time into what is left of it by one reading of its clock, in
`PExpireAt`, and back into a second by another one, in `PExpire`.

* `Call.run`, `Call.record` — the four commands with both readings of the clock, and what they log.
* `pExpireSecond_replayed` — the second that the replica stores is later by the seconds between its readings.
* `expiry_replay_identity` — it is `E` exactly if the readings fall into one second.
-/

namespace BoltDB.Store

open Bytes KeyValue Int64

namespace ExpiryReplay

/-! ## Commands with two readings of the clock -/

/-- `ExpireAt`, which reads the clock at `t₁`, and `Expire` at `t₂`. -/
def expireAt (t₁ t₂ : Nat) (key : Bytes) (timestamp : Int64) : Run Err Bool :=
  let ttl := timestamp - Int64.ofNat (unix t₁)
  if ttl ≤ 0 then delForExpiry t₂ key else expire t₂ key ttl

/-- `PExpireAt`, which reads the clock at `t₁`, and `PExpire` at `t₂`. -/
def pExpireAt (t₁ t₂ : Nat) (key : Bytes) (timestampMillis : Int64) : Run Err Bool :=
  let ttl := timestampMillis - Int64.ofNat (unixMilli t₁)
  if ttl ≤ 0 then delForExpiry t₂ key else pExpire t₂ key ttl

inductive Call
  | expire (seconds : Int64)
  | pExpire (milliseconds : Int64)
  | expireAt (timestamp : Int64)
  | pExpireAt (timestampMillis : Int64)

def Call.run (t₁ t₂ : Nat) (key : Bytes) : Call → Run Err Bool
  | .expire seconds => Store.expire t₂ key seconds
  | .pExpire milliseconds => Store.pExpire t₂ key milliseconds
  | .expireAt timestamp => ExpiryReplay.expireAt t₁ t₂ key timestamp
  | .pExpireAt timestampMillis => ExpiryReplay.pExpireAt t₁ t₂ key timestampMillis

/-- The variable `expiresAt` of `Expire`; `none` where the key is deleted. -/
def expireVar (t : Nat) (seconds : Int64) : Option Nat :=
  if seconds ≤ 0 then none else some (expireSecond t seconds)

/-- The variable `expiresAt` of `PExpire`. -/
def pExpireVar (t : Nat) (milliseconds : Int64) : Option Nat :=
  if milliseconds ≤ 0 then none else some (pExpireSecond t milliseconds)

def Call.expiresAt (t₁ t₂ : Nat) : Call → Option Nat
  | .expire seconds => expireVar t₂ seconds
  | .pExpire milliseconds => pExpireVar t₂ milliseconds
  | .expireAt timestamp => expireVar t₂ (timestamp - Int64.ofNat (unix t₁))
  | .pExpireAt timestampMillis => pExpireVar t₂ (timestampMillis - Int64.ofNat (unixMilli t₁))

/-- The record of a successful call that stores an expiry. `expiresAt * 1000` is a `uint64`. -/
def record (key : Bytes) (expiresAt : Nat) : List Bytes :=
  if expiresAt = 0 then ["NOOP"]
  else ["PEXPIREAT", key, decimal (expiresAt * 1000 % 2 ^ 64)]

/-- `DEL` where the key is deleted. -/
def Call.record (t₁ t₂ : Nat) (key : Bytes) (c : Call) : List Bytes :=
  match c.expiresAt t₁ t₂ with
  | none => ["DEL", key]
  | some expiresAt => ExpiryReplay.record key expiresAt

/-- `WriteCommand` for the records above, with the replica's readings of its clock. A number that does not
parse is replaced by the one that `strconv.ParseInt` returns with its error. -/
def replay (r₁ r₂ : Nat) : List Bytes → Run Err Unit
  | [cmd, key, millis] =>
    if cmd = "PEXPIREAT" then void (pExpireAt r₁ r₂ key (parseInt64OrNearest millis)) else pure ()
  | [cmd, key] => if cmd = "DEL" then void (del r₂ key) else pure ()
  | _ => pure ()

/-! ## The stored second -/

/-- The key has a type and the record of it that carries the expiry, with this second. -/
def Expires (key : Bytes) (db : Db) (expiresAt : Nat) : Prop :=
  ∃ e t v, db[typeOfKeyGet key]? = some e ∧ KeyType.ofName e.value = some t ∧
    db[getKeyValueKey key t]? = some ⟨v, expiresAt⟩

variable {key : Bytes} {db : Db} {E : Nat}

theorem Expires.unique {E' : Nat} (h : Expires key db E) (h' : Expires key db E') : E = E' := by
  obtain ⟨e, t, v, htype, hname, hrec⟩ := h
  obtain ⟨e', t', v', htype', hname', hrec'⟩ := h'
  rw [htype] at htype'
  cases htype'
  rw [hname] at hname'
  cases hname'
  rw [hrec] at hrec'
  cases hrec'
  rfl

theorem typeOfKeyGet_ne_getKeyValueKey (key : Bytes) (t : KeyType) :
    typeOfKeyGet key ≠ getKeyValueKey key t := by
  intro h
  exact not_isRecord_typeOfKeyGet t key key (h ▸ isRecord_getKeyValueKey key t)

variable {db' : Db}

/-- A successful transaction has stored its second. -/
theorem expires_of_expireTxn (h : expireTxn key E db = .ok (true, db')) : Expires key db' E := by
  rcases Txn.get_bind_eq_ok.mp h with ⟨-, h⟩ | ⟨e, htype, h⟩
  · cases h
  dsimp only at h
  cases hname : KeyType.ofName e.value with
  | none =>
    rw [hname] at h
    cases h
  | some t =>
    rw [hname] at h
    rcases Txn.get_bind_eq_ok.mp h with ⟨-, h⟩ | ⟨v, -, h⟩
    · cases h
    · cases h
      refine ⟨e, t, v.value, ?_, hname, ?_⟩
      · rw [getElem?_insert_ite, if_neg (typeOfKeyGet_ne_getKeyValueKey key t), htype]
      · rw [getElem?_insert_ite, if_pos rfl]

/-- The transaction succeeds on a key that carries an expiry, or could. -/
theorem expireTxn_of_expires {E' : Nat} (h : Expires key db E') :
    ∃ db', expireTxn key E db = .ok (true, db') := by
  obtain ⟨e, t, v, htype, hname, hrec⟩ := h
  refine ⟨db.insert (getKeyValueKey key t) ⟨v, E⟩, ?_⟩
  refine Txn.get_bind_eq_ok.mpr (.inr ⟨e, htype, ?_⟩)
  dsimp only
  rw [hname]
  exact Txn.get_bind_eq_ok.mpr (.inr ⟨_, hrec, rfl⟩)

/-- A deleted key has no type. -/
theorem typeOfKeyGet_delTxn {n : Nat} (h : delTxn key db = .ok (n, db')) :
    db'[typeOfKeyGet key]? = none := by
  rcases Txn.get_bind_eq_ok.mp h with ⟨htype, h⟩ | ⟨e, -, h⟩
  · cases h
    exact htype
  · obtain ⟨-, db₁, -, h⟩ := Txn.bind_eq_ok.mp h
    cases h
    rw [getElem?_erase_ite, if_pos rfl]

theorem deleteRecords_ok (t : KeyType) (key : Bytes) (db : Db) :
    ∃ db', deleteRecords t key db = .ok ((), db') := by
  unfold deleteRecords
  split
  · exact ⟨_, rfl⟩
  · exact ⟨_, rfl⟩

theorem deleteData_ok (key name : Bytes) (db : Db) : ∃ db', deleteData key name db = .ok ((), db') := by
  unfold deleteData
  cases KeyType.ofName name with
  | none => exact ⟨db, rfl⟩
  | some t =>
    cases t with
    | geo =>
      obtain ⟨db₁, h₁⟩ := deleteRecords_ok .geo key db
      obtain ⟨db₂, h₂⟩ := deleteRecords_ok .sortedSet key db₁
      exact ⟨db₂, Txn.bind_eq_ok.mpr ⟨_, _, h₁, h₂⟩⟩
    | _ => exact deleteRecords_ok _ key db

theorem delTxn_ok (key : Bytes) (db : Db) : ∃ n db', delTxn key db = .ok (n, db') := by
  cases hget : db[typeOfKeyGet key]? with
  | none => exact ⟨0, db, Txn.get_bind_eq_ok.mpr (.inl ⟨hget, rfl⟩)⟩
  | some e =>
    obtain ⟨db₁, h₁⟩ := deleteData_ok key e.value db
    exact ⟨1, db₁.erase (typeOfKeyGet key),
      Txn.get_bind_eq_ok.mpr (.inr ⟨e, hget, Txn.bind_eq_ok.mpr ⟨_, _, h₁, rfl⟩⟩)⟩

/-- After a deletion the key has no type. -/
theorem typeOfKeyGet_delForExpiry (now : Nat) (key : Bytes) (db : Db) :
    (delForExpiry now key db).2[typeOfKeyGet key]? = none := by
  obtain ⟨n, db', hdel⟩ := delTxn_ok key (visible (unix now) db)
  have hrun : del now key db = (.ok n, db') := Run.update_eq_ok.mpr hdel
  rw [delForExpiry, Run.bind_of_ok hrun]
  exact typeOfKeyGet_delTxn hdel

theorem not_expires_of_delForExpiry {now : Nat} {r : Except Err Bool}
    (h : delForExpiry now key db = (r, db')) : ¬ Expires key db' E := by
  rintro ⟨e, t, v, htype, -⟩
  have hnone := typeOfKeyGet_delForExpiry now key db
  rw [h] at hnone
  rw [hnone] at htype
  cases htype

/-! ## The master -/

theorem expireVar_of_expires {t : Nat} {seconds : Int64}
    (hrun : Store.expire t key seconds db = (.ok true, db')) (h : Expires key db' E) :
    expireVar t seconds = some E := by
  unfold Store.expire at hrun
  unfold expireVar
  split at hrun
  · exact absurd h (not_expires_of_delForExpiry hrun)
  · next hpos =>
    rw [if_neg hpos, (expires_of_expireTxn (Run.update_eq_ok.mp hrun)).unique h]

theorem pExpireVar_of_expires {t : Nat} {milliseconds : Int64}
    (hrun : Store.pExpire t key milliseconds db = (.ok true, db')) (h : Expires key db' E) :
    pExpireVar t milliseconds = some E := by
  unfold Store.pExpire at hrun
  unfold pExpireVar
  split at hrun
  · exact absurd h (not_expires_of_delForExpiry hrun)
  · next hpos =>
    rw [if_neg hpos, (expires_of_expireTxn (Run.update_eq_ok.mp hrun)).unique h]

/-- The second that a call stores is the one that it logs. -/
theorem Call.expiresAt_of_expires {c : Call} {t₁ t₂ : Nat}
    (hrun : c.run t₁ t₂ key db = (.ok true, db')) (h : Expires key db' E) :
    c.expiresAt t₁ t₂ = some E := by
  cases c with
  | expire seconds => exact expireVar_of_expires hrun h
  | pExpire milliseconds => exact pExpireVar_of_expires hrun h
  | expireAt timestamp =>
    simp only [Call.run, ExpiryReplay.expireAt] at hrun
    split at hrun
    · exact absurd h (not_expires_of_delForExpiry hrun)
    · exact expireVar_of_expires hrun h
  | pExpireAt timestampMillis =>
    simp only [Call.run, ExpiryReplay.pExpireAt] at hrun
    split at hrun
    · exact absurd h (not_expires_of_delForExpiry hrun)
    · exact pExpireVar_of_expires hrun h

/-! ## The replica -/

theorem unixMilli_div (now : Nat) : unixMilli now / 1000 = unix now := by
  rw [unixMilli, unix, Nat.div_div_eq_div_mul]

theorem toNat_toUInt64 {n : Int64} (h : 0 ≤ n.toInt) : n.toUInt64.toNat = n.toInt.toNat := by
  have hint : n.toInt = n.toBitVec.toInt := rfl
  have hnat : n.toUInt64.toNat = n.toBitVec.toNat := rfl
  rw [hint] at h ⊢
  rw [hnat]
  rw [BitVec.toInt_eq_toNat_cond] at h ⊢
  split at h
  · next hlt => rw [if_pos hlt, Int.toNat_natCast]
  · next hge =>
    omega

/-- What is left of the logged time. -/
theorem toInt_ttl {r : Nat} (hE : E * 1000 < 2 ^ 63) (hr : r < 2 ^ 63) :
    (Int64.ofNat (E * 1000) - Int64.ofNat (unixMilli r)).toInt = (E * 1000 : Int) - unixMilli r := by
  have hmilli : unixMilli r < 2 ^ 63 := by
    unfold unixMilli
    omega
  have hsub : Int64.ofNat (E * 1000) - Int64.ofNat (unixMilli r) =
      Int64.ofInt ((E * 1000 : Int) - unixMilli r) := by
    rw [ofInt_sub]
    rfl
  rw [hsub]
  apply toInt_ofInt_of_le
  · omega
  · omega

/-- The second that the replica stores is later than the logged one by the seconds between its two
readings. -/
theorem pExpireSecond_replayed {r₁ r₂ : Nat} (hE : E * 1000 < 2 ^ 63) (hr : r₁ ≤ r₂)
    (hr₂ : r₂ < 2 ^ 63) (hbefore : unix r₁ < E) :
    pExpireSecond r₂ (Int64.ofNat (E * 1000) - Int64.ofNat (unixMilli r₁)) =
      E + (unix r₂ - unix r₁) := by
  have hmilli := unixMilli_div r₁
  have hmono : unix r₁ ≤ unix r₂ := Nat.div_le_div_right hr
  have hsmall : unix r₂ < 2 ^ 40 := by
    unfold unix
    omega
  have hint := toInt_ttl hE (lt_of_le_of_lt hr hr₂)
  generalize Int64.ofNat (E * 1000) - Int64.ofNat (unixMilli r₁) = ttl at hint
  have hnat : ttl.toUInt64.toNat = E * 1000 - unixMilli r₁ := by
    rw [toNat_toUInt64 (by omega)]
    omega
  rw [pExpireSecond]
  split <;> omega

/-- The record of a second that can be read back. -/
theorem replay_record {r₁ r₂ : Nat} (hpos : 0 < E) (hE : E * 1000 < 2 ^ 63) :
    replay r₁ r₂ (record key E) = void (pExpireAt r₁ r₂ key (Int64.ofNat (E * 1000))) := by
  have hmod : E * 1000 % 2 ^ 64 = E * 1000 := Nat.mod_eq_of_lt (by omega)
  rw [record, if_neg (by omega), replay, if_pos rfl, hmod, parseInt64OrNearest_decimal hE]

/-- Before the second, the replica stores one that is as much later as its second reading. -/
theorem replay_before {E' r₁ r₂ : Nat} {replica : Db} (hE : E * 1000 < 2 ^ 63) (hr : r₁ ≤ r₂)
    (hr₂ : r₂ < 2 ^ 63) (hkey : Expires key (visible (unix r₂) replica) E') (hbefore : unix r₁ < E) :
    ∃ db, replay r₁ r₂ (record key E) replica = (.ok (), db) ∧
      Expires key db (E + (unix r₂ - unix r₁)) := by
  have hint := toInt_ttl hE (lt_of_le_of_lt hr hr₂)
  have hmilli := unixMilli_div r₁
  have hpos : ¬ Int64.ofNat (E * 1000) - Int64.ofNat (unixMilli r₁) ≤ 0 := by
    rw [le_iff_toInt_le]
    have : (0 : Int64).toInt = 0 := rfl
    omega
  obtain ⟨db, hdb⟩ := expireTxn_of_expires (E := E + (unix r₂ - unix r₁)) hkey
  refine ⟨db, ?_, expires_of_expireTxn hdb⟩
  have hrun : pExpireAt r₁ r₂ key (Int64.ofNat (E * 1000)) replica = (.ok true, db) := by
    rw [pExpireAt, if_neg hpos, pExpire, if_neg hpos, pExpireSecond_replayed hE hr hr₂ hbefore]
    exact Run.update_eq_ok.mpr hdb
  rw [replay_record (by omega) hE, void, Run.bind_of_ok hrun]
  rfl

/-- From the second on, the replica deletes the key. -/
theorem replay_after {r₁ r₂ : Nat} (hpos : 0 < E) (hE : E * 1000 < 2 ^ 63) (hr₁ : r₁ < 2 ^ 63)
    (hafter : E ≤ unix r₁) (replica : Db) :
    (replay r₁ r₂ (record key E) replica).2[typeOfKeyGet key]? = none := by
  have hint := toInt_ttl hE hr₁
  have hmilli := unixMilli_div r₁
  have hpast : Int64.ofNat (E * 1000) - Int64.ofNat (unixMilli r₁) ≤ 0 := by
    rw [le_iff_toInt_le]
    have : (0 : Int64).toInt = 0 := rfl
    omega
  rw [replay_record hpos hE, void_snd, pExpireAt, if_pos hpast]
  exact typeOfKeyGet_delForExpiry r₂ key replica

/-- **Expiry replay.** A replica that replays the record of a call, which has stored the second `E`, before
that second stores `E` exactly if both readings of its clock fall into one second. From `E` on it deletes the
key. -/
theorem expiry_replay_identity (c : Call) (key : Bytes) (t₁ t₂ E : Nat) (db db' : Db)
    (hrun : c.run t₁ t₂ key db = (.ok true, db')) (hset : Expires key db' E) (hpos : 0 < E)
    (hE : E * 1000 < 2 ^ 63) (r₁ r₂ : Nat) (hr : r₁ ≤ r₂) (hr₂ : r₂ < 2 ^ 63) (replica : Db) :
    (unix r₁ < E → ∀ E', Expires key (visible (unix r₂) replica) E' →
      ((∃ db, replay r₁ r₂ (c.record t₁ t₂ key) replica = (.ok (), db) ∧ Expires key db E) ↔
        unix r₁ = unix r₂)) ∧
    (E ≤ unix r₁ → (replay r₁ r₂ (c.record t₁ t₂ key) replica).2[typeOfKeyGet key]? = none) := by
  have hrecord : c.record t₁ t₂ key = record key E := by
    rw [Call.record, Call.expiresAt_of_expires hrun hset]
  rw [hrecord]
  constructor
  · intro hbefore E' hkey
    obtain ⟨db₁, hreplay, hstored⟩ := replay_before hE hr hr₂ hkey hbefore
    have hmono : unix r₁ ≤ unix r₂ := Nat.div_le_div_right hr
    constructor
    · rintro ⟨db₂, hreplay', hsame⟩
      rw [hreplay] at hreplay'
      cases hreplay'
      have := hstored.unique hsame
      omega
    · intro hsecond
      refine ⟨db₁, hreplay, ?_⟩
      rwa [hsecond, Nat.sub_self, Nat.add_zero] at hstored
  · intro hafter
    exact replay_after hpos hE (lt_of_le_of_lt hr hr₂) hafter replica

/-- A store with the string `k`. -/
def stored : Db :=
  ((∅ : Db).insert (typeOfKeyGet "k") ⟨KeyType.string.name, 0⟩).insert (stringKey "k")
    ⟨"v", 0⟩

/-- The store after `EXPIRE k 5` in second 10. -/
def expiring : Db := ((Call.expire 5).run 10000000000 10000000000 "k" stored).2

theorem expires_stored (now : Nat) : Expires "k" (visible now stored) 0 := by
  refine ⟨⟨KeyType.string.name, 0⟩, .string, "v", ?_, rfl, ?_⟩
  · rw [getElem?_visible, stored, getElem?_insert_ite, if_neg (by decide), getElem?_insert_ite,
      if_pos rfl]
    rfl
  · rw [getElem?_visible]
    rfl

theorem expires_expiring : Expires "k" expiring 15 :=
  ⟨⟨KeyType.string.name, 0⟩, .string, "v", by decide +kernel, rfl, by decide +kernel⟩

theorem run_expiring :
    (Call.expire 5).run 10000000000 10000000000 "k" stored = (.ok true, expiring) :=
  Prod.ext (by decide +kernel) rfl

theorem expiry_replay_identity_same_second :
    ∃ db, replay 10999500000 10999900000
        ((Call.expire 5).record 10000000000 10000000000 (ascii "k")) stored = (.ok (), db) ∧
      Expires (ascii "k") db 15 :=
  ((expiry_replay_identity (.expire 5) "k" _ _ 15 stored expiring run_expiring expires_expiring
    (by decide) (by decide) 10999500000 10999900000 (by decide) (by decide) stored).1 (by decide) 0
    (expires_stored _)).mpr (by decide)

/-- `EXPIRE k 5` in second 10 stores the second 15. A replica that reads its clock at 10.9995 s and again at
11.0005 s stores the second 16. -/
theorem expiry_replayed_a_second_late :
    Expires (ascii "k") expiring 15 ∧
      ∃ db, replay 10999500000 11000500000
          ((Call.expire 5).record 10000000000 10000000000 (ascii "k")) stored = (.ok (), db) ∧
        Expires (ascii "k") db 16 := by
  refine ⟨expires_expiring, _, Prod.ext (by decide +kernel) rfl, ?_⟩
  exact ⟨⟨KeyType.string.name, 0⟩, .string, "v", by decide +kernel, rfl, by decide +kernel⟩

end ExpiryReplay

end BoltDB.Store
