import BoltDB.Store.Renaming
import BoltDB.Store.Typed

/-!
# Keys after their expiry

The expiry of a key is that of one of its records (`getKeyValueKey`). The `TYPE_` record, which
`EXISTS`, `TYPE`, `KEYS`, `SCAN` and `DBSIZE` look at, never expires, so a key that is given an
instant to come goes on existing after it. Only where the instant has passed when it is given do the
methods delete the key, and then its other records with it, but those of another type that an earlier
value has left behind.
-/

namespace BoltDB.Store

open Bytes KeyValue Std.ExtTreeMap Renaming

/-! ## What an expired key should look like -/

variable {key : Bytes} {c : Codec}

theorem owns_iff_mem_all {p : Bytes} :
    Owns key p ↔ p = typeOfKeyGet key ∨ ∃ t ∈ KeyType.all, IsRecord t key p := by
  have hall : ∀ t : KeyType, t ∈ KeyType.all := by
    intro t
    cases t <;> decide
  exact ⟨Or.imp id fun ⟨t, h⟩ => ⟨t, hall t, h⟩, Or.imp id fun ⟨t, _, h⟩ => ⟨t, h⟩⟩

instance (key p : Bytes) : Decidable (Owns key p) := decidable_of_iff' _ owns_iff_mem_all

/-- The store without any record of a key. -/
def without (key : Bytes) (db : Db) : Db := db.filter fun p _ => !decide (Owns key p)

/-- Every read, every listing and every write on the key goes as if the key were absent. A write works
on what is visible at its time. -/
structure AnswersAbsent (c : Codec) (now : Nat) (key : Bytes) (db : Db) : Prop where
  reads : ∀ r : Read, r.at c now key db = r.at c now key (without key db)
  listings : ∀ l : Listing, l.answer (visible (unix now) db) =
    l.answer (visible (unix now) (without key db))
  writes : ∀ (op : KeyOp) (r : Read), r.at c now key (op.run c now key (visible (unix now) db)).2 =
    r.at c now key (op.run c now key (visible (unix now) (without key db))).2

/-! ## The methods that give an expiry -/

inductive ExpiryCall
  | setWithTTL (v : Bytes) (ttl : Int)
  | setEX (v : Bytes) (seconds : Int64)
  | pSetEX (v : Bytes) (milliseconds : Int64)
  | expire (seconds : Int64)
  | expireAt (timestamp : Int64)
  | pExpire (milliseconds : Int64)
  | pExpireAt (timestampMillis : Int64)

namespace ExpiryCall

/-- The answer is whether the key has been given the expiry; the writers of strings have no other. -/
def run (c : Codec) (now : Nat) (key : Bytes) : ExpiryCall → Run Err Bool
  | setWithTTL v ttl => do
    Strings.setWithTTL c now key v ttl
    return true
  | setEX v seconds => do
    Strings.setEX c now key v seconds
    return true
  | pSetEX v milliseconds => do
    Strings.pSetEX c now key v milliseconds
    return true
  | expire seconds => Store.expire now key seconds
  | expireAt timestamp => Store.expireAt now key timestamp
  | pExpire milliseconds => Store.pExpire now key milliseconds
  | pExpireAt timestampMillis => Store.pExpireAt now key timestampMillis

/-- The instant has passed when the call is made. -/
def Deletes (now : Nat) : ExpiryCall → Prop
  | expire seconds => seconds ≤ 0
  | expireAt timestamp => timestamp - Int64.ofNat (unix now) ≤ 0
  | pExpire milliseconds => milliseconds ≤ 0
  | pExpireAt timestampMillis => timestampMillis - Int64.ofNat (unixMilli now) ≤ 0
  | _ => False

end ExpiryCall

/-! ## What it looks like -/

section

variable {now : Nat} {db db' : Db}

theorem keyExists_apply (key : Bytes) (db : Db) :
    keyExists key db = .ok db[typeOfKeyGet key]?.isSome := rfl

theorem exist_at (c : Codec) (now : Nat) (key : Bytes) (db : Db) : Read.exist.at c now key db =
    .ok (.flag (visible (unix now) db)[typeOfKeyGet key]?.isSome) := by
  show Read.exist.answer c now key _ = _
  rw [Read.answer, View.bind_apply, keyExists_apply]
  rfl

theorem getElem?_without (key : Bytes) (db : Db) (p : Bytes) :
    (without key db)[p]? = if Owns key p then none else db[p]? := by
  rw [without, getElem?_filter']
  split
  · next h => cases db[p]? <;> simp [h]
  · next h => cases db[p]? <;> simp [h]

theorem getElem?_visible_without (key : Bytes) (db : Db) (p : Bytes) :
    (visible (unix now) (without key db))[p]? =
      if Owns key p then none else (visible (unix now) db)[p]? := by
  rw [getElem?_visible, getElem?_visible, getElem?_without]
  split <;> rfl

/-- A method that gives the key a type if a record is there. Any of the methods in the other files
may look at its records so. -/
def typedBy (p : Bytes) : Method where
  txn _ key := do
    match ← Txn.get p with
    | none => return ()
    | some _ => Txn.set (typeOfKeyGet key) KeyType.string.name
  writes _ key := by
    refine writes_get_bind writes_pure fun e => ?_
    exact writes_set (.inl ⟨rfl, fun x hx => ⟨.string, (Option.some.inj hx).symm⟩⟩)

theorem typedBy_run (hget : (visible (unix now) db)[typeOfKeyGet key]? = none) (p : Bytes) :
    Read.exist.at c now key ((KeyOp.other (typedBy p)).run c now key (visible (unix now) db)).2 =
      .ok (.flag (visible (unix now) db)[p]?.isSome) := by
  have hrun : ∀ {db'}, (typedBy p).txn now key (visible (unix now) db) = .ok ((), db') →
      (KeyOp.other (typedBy p)).run c now key (visible (unix now) db) = (.ok (), db') := by
    intro db' h
    refine Run.update_eq_ok.mpr ?_
    rw [visible_visible]
    exact h
  cases hp : (visible (unix now) db)[p]? with
  | none =>
    rw [hrun (Txn.get_bind_eq_ok.mpr (.inl ⟨hp, rfl⟩)), exist_at, visible_visible, hget]
  | some e =>
    rw [hrun (Txn.get_bind_eq_ok.mpr (.inr ⟨e, hp, rfl⟩)), exist_at, getElem?_visible,
      getElem?_insert_ite, if_pos rfl]
    rfl

theorem isNone_of_flag {e : Option Entry}
    (h : (.ok (.flag e.isSome) : Except Err Answer) = .ok (.flag false)) : e = none := by
  cases e with
  | none => rfl
  | some e => cases h

/-- **An absent key** answers as one exactly if no record of it is visible. -/
theorem answersAbsent_iff : AnswersAbsent c now key db ↔
    ∀ p, Owns key p → (visible (unix now) db)[p]? = none := by
  constructor
  · rintro ⟨hreads, -, hwrites⟩ p hp
    have htype : (visible (unix now) db)[typeOfKeyGet key]? = none := by
      have hread := hreads .exist
      rw [exist_at, exist_at, getElem?_visible_without, if_pos (owns_typeOfKeyGet key)] at hread
      exact isNone_of_flag hread
    have hwrite := hwrites (.other (typedBy p)) .exist
    rw [typedBy_run htype, typedBy_run, getElem?_visible_without, if_pos hp] at hwrite
    · exact isNone_of_flag hwrite
    · rw [getElem?_visible_without, if_pos (owns_typeOfKeyGet key)]
  · intro h
    have hsame : visible (unix now) (without key db) = visible (unix now) db := by
      refine ext_getElem? fun p => ?_
      rw [getElem?_visible_without]
      split
      · next hp => rw [h p hp]
      · rfl
    refine ⟨fun r => ?_, fun l => ?_, fun op r => ?_⟩
    · rw [Read.at, Read.at, hsame]
    · rw [hsame]
    · rw [hsame]

theorem not_answersAbsent_of_type {e : Entry} (htype : db[typeOfKeyGet key]? = some e)
    (hexpiry : e.expiresAt = 0) : ¬ AnswersAbsent c now key db := by
  intro h
  have hnone := answersAbsent_iff.mp h _ (owns_typeOfKeyGet key)
  rw [getElem?_visible, htype] at hnone
  simp [Option.filter, Entry.live, hexpiry] at hnone

/-! ## After a call -/

/-- The type outlives the expiry that a string is given. -/
theorem type_setWithTTL {v : Bytes} {ttl : Int}
    (h : Strings.setWithTTL c now key v ttl db = (.ok (), db')) :
    db'[typeOfKeyGet key]? = some ⟨KeyType.string.name, 0⟩ := by
  have htxn := Run.update_eq_ok.mp h
  obtain ⟨-, -, htxn⟩ := Txn.lift_bind_eq_ok.mp htxn
  rw [Txn.set_bind, setEntryWithCompression] at htxn
  cases hstored : storedValue c v with
  | none =>
    rw [hstored] at htxn
    cases htxn
  | some z =>
    rw [hstored] at htxn
    cases htxn
    have hne : typeOfKeyGet key ≠ stringKey key := typeOfKeyGet_ne_tag_append key .string key
    rw [getElem?_insert_ite, if_neg hne,
      getElem?_insert_ite, if_pos rfl]

/-- The other methods leave the type alone where they set an expiry. -/
theorem type_expireTxn {E : Nat} (h : expireTxn key E db = .ok (true, db')) :
    ∃ e, db[typeOfKeyGet key]? = some e ∧ db'[typeOfKeyGet key]? = some e := by
  rcases Txn.get_bind_eq_ok.mp h with ⟨-, h⟩ | ⟨e, htype, h⟩
  · cases h
  refine ⟨e, htype, ?_⟩
  dsimp only at h
  cases hname : KeyType.ofName e.value with
  | none =>
    rw [hname] at h
    cases h
  | some t =>
    rw [hname] at h
    rcases Txn.get_bind_eq_ok.mp h with ⟨-, h⟩ | ⟨v, -, h⟩
    · cases h
    · cases h
      rw [getElem?_insert_ite, if_neg, htype]
      intro heq
      exact not_isRecord_typeOfKeyGet t key key (heq ▸ isRecord_getKeyValueKey key t)

theorem not_answersAbsent_of_expireTxn {E later : Nat} (hreach : Reachable c now db)
    (h : update now (expireTxn key E) db = (.ok true, db')) : ¬ AnswersAbsent c later key db' := by
  obtain ⟨e, htype, htype'⟩ := type_expireTxn (Run.update_eq_ok.mp h)
  obtain ⟨t, rfl⟩ := hreach.typed key e htype
  exact not_answersAbsent_of_type htype' rfl

/-- A key whose expiry is to come exists at every later time. -/
theorem ExpiryCall.not_answersAbsent {call : ExpiryCall} {later : Nat} (hreach : Reachable c now db)
    (hrun : call.run c now key db = (.ok true, db')) (h : ¬ call.Deletes now) :
    ¬ AnswersAbsent c later key db' := by
  have hstring : ∀ {v ttl}, (do Strings.setWithTTL c now key v ttl; return true : Run Err Bool) db =
      (.ok true, db') → ¬ AnswersAbsent c later key db' := by
    intro v ttl hrun
    obtain ⟨u, db₁, hset, hrun⟩ := Run.bind_eq_ok.mp hrun
    cases hrun
    exact not_answersAbsent_of_type (type_setWithTTL hset) rfl
  have hexpire : ∀ {seconds : Int64}, ¬ seconds ≤ 0 →
      Store.expire now key seconds db = (.ok true, db') → ¬ AnswersAbsent c later key db' := by
    intro seconds hpos hrun
    rw [Store.expire, if_neg hpos] at hrun
    exact not_answersAbsent_of_expireTxn hreach hrun
  have hpExpire : ∀ {milliseconds : Int64}, ¬ milliseconds ≤ 0 →
      Store.pExpire now key milliseconds db = (.ok true, db') →
        ¬ AnswersAbsent c later key db' := by
    intro milliseconds hpos hrun
    rw [Store.pExpire, if_neg hpos] at hrun
    exact not_answersAbsent_of_expireTxn hreach hrun
  cases call with
  | setWithTTL v ttl => exact hstring hrun
  | setEX v seconds => exact hstring hrun
  | pSetEX v milliseconds => exact hstring hrun
  | expire seconds => exact hexpire h hrun
  | expireAt timestamp => exact hexpire h ((congrFun (if_neg h) db).symm.trans hrun)
  | pExpire milliseconds => exact hpExpire h hrun
  | pExpireAt timestampMillis => exact hpExpire h ((congrFun (if_neg h) db).symm.trans hrun)

theorem ExpiryCall.run_of_deletes {call : ExpiryCall} (h : call.Deletes now) :
    call.run c now key db = delForExpiry now key db := by
  cases call with
  | setWithTTL v ttl => exact h.elim
  | setEX v seconds => exact h.elim
  | pSetEX v milliseconds => exact h.elim
  | expire seconds => exact congrFun (if_pos h) db
  | expireAt timestamp => exact congrFun (if_pos h) db
  | pExpire milliseconds => exact congrFun (if_pos h) db
  | pExpireAt timestampMillis => exact congrFun (if_pos h) db

/-- What `DEL` leaves of a key: the records of other types. -/
theorem getElem?_delForExpiry {answer : Bool} (hrun : delForExpiry now key db = (.ok answer, db')) :
    db'[typeOfKeyGet key]? = none ∧ ∀ t p, IsRecord t key p →
      (Stores (visible (unix now) db) key t → db'[p]? = none) ∧
      (¬ Stores (visible (unix now) db) key t → db'[p]? = (visible (unix now) db)[p]?) := by
  obtain ⟨n, db₁, hdel, hrun⟩ := Run.bind_eq_ok.mp hrun
  cases hrun
  obtain ⟨db₂, hdest, htype, hgone, hkept⟩ := deleteDestination_spec key (visible (unix now) db)
  obtain ⟨n', hdel'⟩ := delTxn_of_deleteDestination hdest
  obtain ⟨-, rfl⟩ : n = n' ∧ db' = db₂ := by
    have h := (Run.update_eq_ok.mp hdel).symm.trans hdel'
    simpa using h
  refine ⟨htype, fun t p hp => ⟨fun hstores => hgone p ⟨t, hstores, hp⟩, fun hstores => ?_⟩⟩
  refine hkept p ?_ ?_
  · rintro rfl
    exact not_isRecord_typeOfKeyGet t key key hp
  · rintro ⟨g, hg, hpg⟩
    exact hstores (hpg.type_eq hp ▸ hg)

/-- What was hidden before is hidden later. -/
theorem visible_visible_of_le {now later : Nat} (hle : now ≤ later) (db : Db) :
    visible later (visible now db) = visible later db := by
  refine ext_getElem? fun p => ?_
  rw [getElem?_visible, getElem?_visible, getElem?_visible]
  cases db[p]? with
  | none => rfl
  | some e =>
    have hlive : e.live later = true → e.live now = true := by
      simp only [Entry.live, Bool.or_eq_true, decide_eq_true_eq]
      omega
    simp only [Option.filter]
    grind

/-- After `SETEX session 1 x`. -/
def session (now : Nat) : Db := ((ExpiryCall.setEX "x" 1).run uncompressed now "session" ∅).2

end

end BoltDB.Store
