import BoltDB.Server.Handlers
import BoltDB.Store.Transparency

/-!
# Conditional writes

`SET k v NX`, `GETDEL k`, `SET k v GET` and `TS.INCRBY` look at the store in one call and write in
another. What they promise holds in every interleaving in which no client acts between the two calls
of another.
-/

namespace BoltDB.Server

open Bytes KeyValue Store Interleaving Transition

/-! ## Calls -/

section Calls

variable {α : Type} {ok : Nat → Prop} {db db' : Db} {b : Resp} {m : Nat → Run Err α}

theorem solo_storeCall {k : Except Err α → Program} (h : Solo ok (call m k) db (.ret b) db') :
    ∃ t, ok t ∧ Solo ok (k (m t db).1) (m t db).2 (.ret b) db' := solo_perform (f := m) h

theorem solo_callOr {wrap : Err → Resp} {k : α → Program}
    (h : Solo ok (callOr wrap m k) db (.ret b) db') :
    ∃ t, ok t ∧ ((∃ e, (m t db).1 = .error e ∧ b = wrap e ∧ db' = (m t db).2) ∨
      ∃ a, (m t db).1 = .ok a ∧ Solo ok (k a) (m t db).2 (.ret b) db') := by
  obtain ⟨t, ht, hsolo⟩ := solo_storeCall h
  refine ⟨t, ht, ?_⟩
  cases hr : (m t db).1 with
  | error e =>
    rw [hr] at hsolo
    obtain ⟨heq, hdb⟩ := solo_ret hsolo
    cases heq
    exact .inl ⟨e, rfl, rfl, hdb⟩
  | ok a =>
    rw [hr] at hsolo
    exact .inr ⟨a, rfl, hsolo⟩

/-- A last call, after which the reply is known. -/
theorem solo_callOr_ret {wrap : Err → Resp} {reply : α → Resp}
    (h : Solo ok (callOr wrap m fun a => .ret (reply a)) db (.ret b) db') :
    ∃ t, ok t ∧ db' = (m t db).2 ∧
      ((∃ e, (m t db).1 = .error e ∧ b = wrap e) ∨ ∃ a, (m t db).1 = .ok a ∧ b = reply a) := by
  obtain ⟨t, ht, ⟨e, he, hb, hdb⟩ | ⟨a, ha, hsolo⟩⟩ := solo_callOr h
  · exact ⟨t, ht, hdb, .inl ⟨e, he, hb⟩⟩
  · obtain ⟨heq, hdb⟩ := solo_ret hsolo
    cases heq
    exact ⟨t, ht, hdb, .inr ⟨a, ha, rfl⟩⟩

end Calls

/-! ## One string key -/

section StringKey

variable {c : Codec} {key z v : Bytes} {db db' : Db} {t : Nat}

/-- The key has neither a type nor a string. -/
def Absent (key : Bytes) (t : Nat) (db : Db) : Prop :=
  (visible (unix t) db)[typeOfKeyGet key]? = none ∧ (visible (unix t) db)[stringKey key]? = none

theorem live_of_le {now later : Nat} {e : Entry} (hle : now ≤ later) (h : e.live later = true) :
    e.live now = true := by
  simp only [Entry.live, Bool.or_eq_true, decide_eq_true_eq] at h ⊢
  omega

/-- What is hidden stays hidden. -/
theorem hidden_later {p : Bytes} {now later : Nat} (hle : now ≤ later)
    (h : (visible now db)[p]? = none) : (visible later db)[p]? = none := by
  rw [getElem?_visible, Option.filter_eq_none_iff] at h ⊢
  intro e he hlive
  exact h e he (live_of_le hle hlive)

theorem Absent.later {t₀ : Nat} (hle : t₀ ≤ t) (h : Absent key t₀ db) : Absent key t db :=
  have hunix : unix t₀ ≤ unix t := Nat.div_le_div_right hle
  ⟨hidden_later hunix h.1, hidden_later hunix h.2⟩

/-- A string without an expiry is seen at all times. -/
theorem stored_visible (h : Strings.Stored db key z 0) (now : Nat) :
    Strings.Stored (visible now db) key z 0 where
  type := by
    rw [getElem?_visible, h.type]
    rfl
  value := by
    rw [getElem?_visible, h.value]
    rfl

theorem get_missing (h : db[stringKey key]? = none) :
    Strings.get c key db = .error .keyNotFound ∨ Strings.get c key db = .error .wrongType := by
  have hvalue : Strings.value c key db = .ok none := by
    rw [Strings.value, View.bind_apply, View.get, h]
    rfl
  rw [Strings.get, View.bind_apply, checkKeyTypeInline_apply]
  by_cases htype : ∀ e, db[typeOfKeyGet key]? = some e → e.value = KeyType.string.name ∨ e.value = []
  · left
    rw [if_pos htype]
    exact View.bind_of_ok hvalue
  · right
    rw [if_neg htype]

theorem get_stored (h : Strings.Stored db key z 0) :
    (∃ v, decompressData c z = some v ∧ Strings.get c key db = .ok v) ∨
      Strings.get c key db = .error (.other "decompress error") := by
  cases hz : decompressData c z with
  | some v => exact .inl ⟨v, rfl, h.get_eq_ok_iff.mpr hz⟩
  | none =>
    right
    rw [Strings.get, View.bind_of_ok h.checkKeyTypeInline, View.bind_apply, h.value_error hz]

/-- A transaction that fails changes nothing. -/
theorem update_error {α : Type} {m : Txn Err α} {e : Err} (h : (update t m db).1 = .error e) :
    (update t m db).2 = db := by
  unfold update Run.update at h ⊢
  cases hm : m (visible (unix t) db) with
  | error e => rfl
  | ok r =>
    rw [hm] at h
    cases h

theorem update_ok {α : Type} {m : Txn Err α} {a : α} (h : (update t m db).1 = .ok a) :
    m (visible (unix t) db) = .ok (a, (update t m db).2) :=
  Run.update_eq_ok.mp (Prod.ext h rfl)

theorem setTxn_spec {u : Unit} (h : Strings.setTxn c key v db = .ok (u, db')) :
    ∃ z, storedValue c v = some z ∧ Strings.Stored db' key z 0 := by
  obtain ⟨-, -, hput⟩ := Txn.lift_bind_eq_ok.mp h
  exact Strings.put_spec hput

/-- `SET` of a key without a type writes it, if the value can be compressed. -/
theorem setTxn_absent (h : db[typeOfKeyGet key]? = none) (hz : storedValue c v = some z) :
    ∃ db', Strings.setTxn c key v db = .ok ((), db') := by
  refine ⟨(db.insert (typeOfKeyGet key) ⟨KeyType.string.name, 0⟩).insert (stringKey key) ⟨z, 0⟩, ?_⟩
  have hcheck : checkKeyTypeInline key .string db = .ok () := by
    rw [checkKeyTypeInline_apply, if_pos (by simp [h])]
  rw [Strings.setTxn, Txn.lift_bind_ok hcheck, Strings.put, setValueWithCompression, hz]
  rfl

theorem setNXTxn_stored (h : Strings.Stored db key z 0) :
    Strings.setNXTxn c key v db = .ok (false, db) := by
  have hget : (Txn.get (stringKey key) : Txn Err _) db = .ok (some ⟨z, 0⟩, db) :=
    Txn.ofView_eq_ok.mpr ⟨congrArg _ h.value, rfl⟩
  rw [Strings.setNXTxn, Txn.bind_apply, hget]
  rfl

theorem setNXTxn_absent (h : db[stringKey key]? = none) (hz : storedValue c v = some z) :
    ∃ db', Strings.setNXTxn c key v db = .ok (true, db') ∧ Strings.Stored db' key z 0 := by
  have hget : (Txn.get (stringKey key) : Txn Err _) db = .ok (none, db) :=
    Txn.ofView_eq_ok.mpr ⟨congrArg _ h, rfl⟩
  refine ⟨_, ?_, Strings.stored_insert db key z 0⟩
  rw [Strings.setNXTxn, Txn.bind_of_ok hget]
  show (Strings.put c key v >>= fun _ => pure true : Txn Err Bool) db = _
  rw [Strings.put, setValueWithCompression, hz]
  rfl

/-- `DEL` of a string. -/
theorem delTxn_stored {n : Nat} (h : Strings.Stored db key z 0)
    (hdel : delTxn key db = .ok (n, db')) : db'[stringKey key]? = none := by
  have hget : (Txn.get (typeOfKeyGet key) : Txn Err _) db =
      .ok (some ⟨KeyType.string.name, 0⟩, db) := Txn.ofView_eq_ok.mpr ⟨congrArg _ h.type, rfl⟩
  have hdata : deleteData key KeyType.string.name = Txn.delete (stringKey key) := rfl
  rw [delTxn, Txn.bind_apply, hget] at hdel
  change (deleteData key KeyType.string.name >>= fun _ => Txn.delete (typeOfKeyGet key) >>=
    fun _ => pure 1 : Txn Err Nat) db = _ at hdel
  rw [hdata] at hdel
  obtain ⟨-, rfl⟩ := Txn.pure_eq_ok.mp hdel
  rw [getElem?_erase_ite, getElem?_erase_ite, if_pos rfl, ite_self]

end StringKey

section Handlers

variable {c : Codec} {respVersion start : Nat} {key z v : Bytes} {db db' : Db} {b : Resp}
  {ok : Nat → Prop}

/-- `SET` reads the key: what it takes for the old value, or an error that is the reply. -/
theorem view_get (t : Nat) : view t (Strings.get c key) db =
    (Strings.get c key (visible (unix t) db), db) := rfl

theorem solo_setKeyWithOpts {o : SetOptions}
    (h : Solo ok (setKeyWithOpts c respVersion key v o) db (.ret b) db') :
    ∃ t, ok t ∧ ((∃ w, Strings.get c key (visible (unix t) db) = .ok w ∧
          Solo ok (setKey c respVersion key v o (some w)) db (.ret b) db') ∨
        ∃ e, Strings.get c key (visible (unix t) db) = .error e ∧
          if e = .keyNotFound ∨ e = .wrongType then
            Solo ok (setKey c respVersion key v o none) db (.ret b) db'
          else b = wrapStoreError e ∧ db' = db) := by
  obtain ⟨t, ht, hsolo⟩ := solo_storeCall h
  refine ⟨t, ht, ?_⟩
  rw [view_get] at hsolo
  cases hget : Strings.get c key (visible (unix t) db) with
  | ok w =>
    rw [hget] at hsolo
    exact .inl ⟨w, rfl, hsolo⟩
  | error e =>
    rw [hget] at hsolo
    change Solo ok (if e = .keyNotFound ∨ e = .wrongType then _ else _) db _ _ at hsolo
    refine .inr ⟨e, rfl, ?_⟩
    by_cases he : e = .keyNotFound ∨ e = .wrongType
    · rw [if_pos he] at hsolo ⊢
      exact hsolo
    · rw [if_neg he] at hsolo ⊢
      obtain ⟨heq, hdb⟩ := solo_ret hsolo
      cases heq
      exact ⟨rfl, hdb⟩

/-- The write, if the options do not forbid it and leave the expiry alone. -/
theorem solo_setKey {o : SetOptions} {old : Option Bytes} (hkeep : o.keepTTL = false)
    (httl : o.ttl = 0) (hgo : (o.nx && old.isSome || o.xx && old.isNone) = false)
    (h : Solo ok (setKey c respVersion key v o old) db (.ret b) db') :
    ∃ t, ok t ∧ db' = (Strings.set c t key v db).2 ∧
      ((∃ e, (Strings.set c t key v db).1 = .error e ∧ b = wrapStoreError e) ∨
        (Strings.set c t key v db).1 = .ok () ∧ b = setReply respVersion o old) := by
  rw [setKey, hgo, hkeep, httl] at h
  obtain ⟨t, ht, hdb, hreply⟩ := solo_callOr_ret h
  refine ⟨t, ht, hdb, hreply.imp id ?_⟩
  rintro ⟨_, hok, hb⟩
  exact ⟨hok, hb⟩

theorem nilBulkString_ne_ok (respVersion : Nat) : nilBulkString respVersion ≠ .ok := by
  unfold nilBulkString
  split <;> simp [Resp.ok]

/-- A key that is there is left alone by `NX`. -/
theorem solo_setKey_nx {w : Bytes}
    (h : Solo ok (setKey c respVersion key v { nx := true } (some w)) db (.ret b) db') :
    b = nilBulkString respVersion ∧ db' = db := by
  obtain ⟨heq, hdb⟩ := solo_ret h
  cases heq
  exact ⟨rfl, hdb⟩

end Handlers

/-! ## Creating a key -/

inductive CreateRequest
  | setNX (v : Bytes)
  | set (respVersion start : Nat) (v : Bytes)

namespace CreateRequest

def program (c : Codec) (key : Bytes) : CreateRequest → Program
  | setNX v => handleSETNX c [key, v]
  | set respVersion start v => handleSET c respVersion start [key, v, "NX"]

def value : CreateRequest → Bytes
  | setNX v | set _ _ v => v

/-- The reply of the client that has created the key. -/
def success : CreateRequest → Resp
  | setNX _ => .integer 1
  | set _ _ _ => .ok

variable {c : Codec} {key z : Bytes} {db db' : Db} {b : Resp} {t₀ : Nat}

theorem program_absent {q : CreateRequest} (hdb : Absent key t₀ db)
    (hz : storedValue c q.value = some z)
    (h : Solo (t₀ ≤ ·) (q.program c key) db (.ret b) db') :
    b = q.success ∧ Strings.Stored db' key z 0 := by
  cases q with
  | setNX v =>
    obtain ⟨t, ht, rfl, hreply⟩ := solo_callOr_ret h
    obtain ⟨db₁, htxn, hstored⟩ := setNXTxn_absent (hdb.later ht).2 hz
    have hrun : Strings.setNX c t key v db = (.ok true, db₁) := Run.update_eq_ok.mpr htxn
    rw [hrun] at hreply ⊢
    rcases hreply with ⟨e, he, -⟩ | ⟨a, ha, rfl⟩
    · cases he
    · cases ha
      exact ⟨rfl, hstored⟩
  | set respVersion start v =>
    change Solo _ (setKeyWithOpts c respVersion key v { nx := true }) db _ _ at h
    obtain ⟨t, ht, ⟨w, hget, -⟩ | ⟨e, hget, hrest⟩⟩ := solo_setKeyWithOpts h
    · rcases get_missing (c := c) (hdb.later ht).2 with hmiss | hmiss <;> cases hget.symm.trans hmiss
    · have he : e = .keyNotFound ∨ e = .wrongType := by
        rcases get_missing (c := c) (hdb.later ht).2 with hmiss | hmiss
        · cases hget.symm.trans hmiss
          exact .inl rfl
        · cases hget.symm.trans hmiss
          exact .inr rfl
      rw [if_pos he] at hrest
      obtain ⟨t', ht', rfl, hreply⟩ := solo_setKey rfl rfl rfl hrest
      obtain ⟨db₁, htxn⟩ := setTxn_absent (hdb.later ht').1 hz
      have hrun : Strings.set c t' key v db = (.ok (), db₁) := Run.update_eq_ok.mpr htxn
      obtain ⟨z', hz', hstored⟩ := setTxn_spec htxn
      cases hz.symm.trans hz'
      rw [hrun] at hreply ⊢
      rcases hreply with ⟨e, he, -⟩ | ⟨-, rfl⟩
      · cases he
      · exact ⟨rfl, hstored⟩

theorem program_stored {q : CreateRequest} (hdb : Strings.Stored db key z 0)
    (h : Solo (t₀ ≤ ·) (q.program c key) db (.ret b) db') :
    b ≠ q.success ∧ Strings.Stored db' key z 0 := by
  cases q with
  | setNX v =>
    obtain ⟨t, ht, rfl, hreply⟩ := solo_callOr_ret h
    have hrun : Strings.setNX c t key v db = (.ok false, visible (unix t) db) :=
      Run.update_eq_ok.mpr (setNXTxn_stored (stored_visible hdb _))
    rw [hrun] at hreply ⊢
    rcases hreply with ⟨e, he, -⟩ | ⟨a, ha, rfl⟩
    · cases he
    · cases ha
      exact ⟨by simp [success], stored_visible hdb _⟩
  | set respVersion start v =>
    change Solo _ (setKeyWithOpts c respVersion key v { nx := true }) db _ _ at h
    obtain ⟨t, ht, ⟨w, hget, hrest⟩ | ⟨e, hget, hrest⟩⟩ := solo_setKeyWithOpts h
    · obtain ⟨rfl, rfl⟩ := solo_setKey_nx hrest
      exact ⟨nilBulkString_ne_ok respVersion, hdb⟩
    · -- the stored bytes cannot be decompressed
      rcases get_stored (c := c) (stored_visible hdb (unix t)) with ⟨w, -, hw⟩ | he
      · cases hget.symm.trans hw
      · cases hget.symm.trans he
        obtain ⟨rfl, rfl⟩ := hrest
        exact ⟨by simp [success, wrapStoreError, wrapLogError, Resp.ok], hdb⟩

end CreateRequest

section Create

variable {ι : Type} [DecidableEq ι] {c : Codec} {key : Bytes} {t₀ : Nat} {db : Db}

/-- Nobody has created the key, or one client has. -/
def Created (c : Codec) (key : Bytes) (t₀ : Nat) (q : ι → CreateRequest) (db : Db)
    (r : ι → Option Resp) : Prop :=
  (∀ i, r i = none) ∧ Absent key t₀ db ∨
    ∃ i z, storedValue c (q i).value = some z ∧ Strings.Stored db key z 0 ∧
      r i = some (q i).success ∧ ∀ j, j ≠ i → r j ≠ some (q j).success

theorem created_solo {q : ι → CreateRequest} (hc : ∀ i, (storedValue c (q i).value).isSome)
    {db db' : Db} {r : ι → Option Resp} {i : ι} {b : Resp} (h : Created c key t₀ q db r)
    (hi : r i = none) (hsolo : Solo (t₀ ≤ ·) ((q i).program c key) db (.ret b) db') :
    Created c key t₀ q db' (Function.update r i (some b)) := by
  rcases h with ⟨hnone, habsent⟩ | ⟨k, z, hz, hstored, hk, hothers⟩
  · -- the first client to be done has created it
    obtain ⟨z, hz⟩ := Option.isSome_iff_exists.mp (hc i)
    obtain ⟨rfl, hstored⟩ := CreateRequest.program_absent habsent hz hsolo
    refine .inr ⟨i, z, hz, hstored, Function.update_self .., fun j hj => ?_⟩
    rw [Function.update_of_ne hj, hnone j]
    simp
  · obtain ⟨hb, hstored'⟩ := CreateRequest.program_stored hstored hsolo
    have hki : k ≠ i := by
      rintro rfl
      rw [hi] at hk
      cases hk
    refine .inr ⟨k, z, hz, hstored', by rw [Function.update_of_ne hki, hk], fun j hj => ?_⟩
    by_cases hji : j = i
    · subst hji
      simpa using hb
    · rw [Function.update_of_ne hji]
      exact hothers j hj

end Create

/-! ## Taking the value of a key -/

/-- The value a key holds, as readers see it. -/
def heldValue (c : Codec) (key : Bytes) (db : Db) : Option Bytes :=
  db[stringKey key]?.bind fun e => decompressData c e.value

/-- What readers see of a value that is written. -/
def readBack (c : Codec) (v : Bytes) : Option Bytes := (storedValue c v).bind (decompressData c)

/-- The key holds no string, or one that does not expire. -/
def Plain (key : Bytes) (db : Db) : Prop :=
  db[stringKey key]? = none ∨ ∃ z, Strings.Stored db key z 0

inductive TakeRequest
  | getDel (respVersion : Nat)
  | setGet (respVersion start : Nat) (v : Bytes)

namespace TakeRequest

def program (c : Codec) (key : Bytes) : TakeRequest → Program
  | getDel respVersion => handleGETDEL c respVersion [key]
  | setGet respVersion start v => handleSET c respVersion start [key, v, "GET"]

/-- What the key holds after the request. -/
def written (c : Codec) : TakeRequest → Option Bytes
  | getDel _ => none
  | setGet _ _ v => readBack c v

end TakeRequest

section Take

variable {c : Codec} {respVersion : Nat} {key z v : Bytes} {db db' : Db} {b : Resp} {t : Nat}
  {ok : Nat → Prop}

theorem heldValue_stored (h : Strings.Stored db key z 0) :
    heldValue c key db = decompressData c z := by
  rw [heldValue, h.value]
  rfl

theorem heldValue_missing (h : db[stringKey key]? = none) : heldValue c key db = none := by
  rw [heldValue, h]
  rfl

theorem Plain.visible (h : Plain key db) (now : Nat) : Plain key (visible now db) := by
  rcases h with hnone | ⟨z, hz⟩
  · left
    rw [getElem?_visible, hnone]
    rfl
  · exact .inr ⟨z, stored_visible hz now⟩

theorem heldValue_visible (h : Plain key db) (now : Nat) :
    heldValue c key (KeyValue.visible now db) = heldValue c key db := by
  rcases h with hnone | ⟨z, hz⟩
  · rw [heldValue_missing hnone, heldValue_missing]
    rw [getElem?_visible, hnone]
    rfl
  · rw [heldValue_stored hz, heldValue_stored (stored_visible hz now)]

/-- `GET` returns what the key holds. -/
theorem get_plain {r : Except Err Bytes} (h : Plain key db) (hr : Strings.get c key db = r) :
    (∃ w z, Strings.Stored db key z 0 ∧ heldValue c key db = some w ∧ r = .ok w) ∨
      ∃ e, r = .error e := by
  rcases h with hnone | ⟨z, hz⟩
  · rcases get_missing (c := c) hnone with he | he <;> exact .inr ⟨_, hr.symm.trans he⟩
  · rcases get_stored (c := c) hz with ⟨w, hw, hget⟩ | he
    · exact .inl ⟨w, z, hz, (heldValue_stored hz).trans hw, hr.symm.trans hget⟩
    · exact .inr ⟨_, hr.symm.trans he⟩

/-- `SET` replaces the value or fails. -/
theorem set_cases (c : Codec) (t : Nat) (key v : Bytes) (db : Db) :
    (∃ e, (Strings.set c t key v db).1 = .error e) ∧ (Strings.set c t key v db).2 = db ∨
      (Strings.set c t key v db).1 = .ok () ∧ Plain key (Strings.set c t key v db).2 ∧
        heldValue c key (Strings.set c t key v db).2 = readBack c v := by
  cases hrun : (Strings.set c t key v db).1 with
  | error e => exact .inl ⟨⟨e, rfl⟩, update_error hrun⟩
  | ok u =>
    obtain ⟨z, hz, hstored⟩ := setTxn_spec (update_ok hrun)
    have hread : readBack c v = decompressData c z := by
      rw [readBack, hz]
      rfl
    exact .inr ⟨rfl, .inr ⟨z, hstored⟩, (heldValue_stored hstored).trans hread.symm⟩

/-- `DEL` removes the value or fails. -/
theorem del_cases (t : Nat) (hdb : Strings.Stored db key z 0) :
    (∃ e, (del t key db).1 = .error e) ∧ (del t key db).2 = db ∨
      ∃ n, (del t key db).1 = .ok n ∧ (del t key db).2[stringKey key]? = none := by
  cases hrun : (del t key db).1 with
  | error e => exact .inl ⟨⟨e, rfl⟩, update_error hrun⟩
  | ok n => exact .inr ⟨n, rfl, delTxn_stored (stored_visible hdb _) (update_ok hrun)⟩

theorem nilBulkString_ne_bulk (respVersion : Nat) (x : Bytes) :
    nilBulkString respVersion ≠ .bulk x := by
  unfold nilBulkString
  split <;> simp

theorem wrapStoreError_ne_bulk (e : Err) (x : Bytes) : wrapStoreError e ≠ .bulk x := by
  unfold wrapStoreError
  split <;> simp [wrapLogError, Resp.wrongType, Resp.err]

/-- The reply is no value and the key holds what it held or what the request has written; or the reply
is the value that the key held, and the key holds what the request has written. -/
def Taken (c : Codec) (key : Bytes) (q : TakeRequest) (db : Db) (b : Resp) (db' : Db) : Prop :=
  (∀ x, b ≠ .bulk x) ∧
      (heldValue c key db' = heldValue c key db ∨ heldValue c key db' = q.written c) ∨
    ∃ w, b = .bulk w ∧ heldValue c key db = some w ∧ heldValue c key db' = q.written c

theorem solo_getDel (hdb : Plain key db)
    (h : Solo ok ((TakeRequest.getDel respVersion).program c key) db (.ret b) db') :
    Plain key db' ∧ Taken c key (.getDel respVersion) db b db' := by
  rw [TakeRequest.program] at h
  obtain ⟨t, -, hsolo⟩ := solo_storeCall h
  rw [view_get] at hsolo
  rcases get_plain (hdb.visible (unix t)) rfl with ⟨w, z, -, hheld, hget⟩ | ⟨e, hget⟩
  · rw [hget] at hsolo
    rw [heldValue_visible hdb] at hheld
    obtain ⟨z, hz⟩ : ∃ z, Strings.Stored db key z 0 := by
      refine hdb.resolve_left fun hnone => ?_
      rw [heldValue_missing hnone] at hheld
      cases hheld
    obtain ⟨t', -, rfl, hreply⟩ := solo_callOr_ret hsolo
    rcases del_cases t' hz with ⟨⟨e, he⟩, hsame⟩ | ⟨n, hn, hgone⟩
    · rw [hsame]
      rcases hreply with ⟨e', -, rfl⟩ | ⟨n, hn, -⟩
      · exact ⟨hdb, .inl ⟨by simp [wrapLogError], .inl rfl⟩⟩
      · cases he.symm.trans hn
    · rcases hreply with ⟨e, he, -⟩ | ⟨-, -, rfl⟩
      · cases he.symm.trans hn
      · exact ⟨.inl hgone, .inr ⟨w, rfl, hheld, heldValue_missing hgone⟩⟩
  · rw [hget] at hsolo
    obtain ⟨heq, rfl⟩ := solo_ret hsolo
    injection heq with hb
    refine ⟨hdb, .inl ⟨fun x => ?_, .inl rfl⟩⟩
    rw [hb]
    by_cases hmissing : e = .keyNotFound
    · rw [if_pos hmissing]
      exact nilBulkString_ne_bulk respVersion x
    · rw [if_neg hmissing]
      exact wrapStoreError_ne_bulk e x

/-- The write of `SET key v GET` after the old value was read. -/
theorem solo_setGet_write {start : Nat} {old : Option Bytes} (hdb : Plain key db)
    (hold : ∀ w, old = some w → heldValue c key db = some w)
    (h : Solo ok (setKey c respVersion key v { get := true } old) db (.ret b) db') :
    Plain key db' ∧ Taken c key (.setGet respVersion start v) db b db' := by
  obtain ⟨t, -, rfl, hreply⟩ := solo_setKey rfl rfl rfl h
  rcases set_cases c t key v db with ⟨⟨e, he⟩, hsame⟩ | ⟨hok, hplain, hheld⟩
  · rw [hsame]
    rcases hreply with ⟨e', -, rfl⟩ | ⟨hok, -⟩
    · exact ⟨hdb, .inl ⟨wrapStoreError_ne_bulk e', .inl rfl⟩⟩
    · cases he.symm.trans hok
  · refine ⟨hplain, ?_⟩
    rcases hreply with ⟨e, he, -⟩ | ⟨-, rfl⟩
    · cases he.symm.trans hok
    · cases old with
      | none => exact .inl ⟨nilBulkString_ne_bulk respVersion, .inr hheld⟩
      | some w => exact .inr ⟨w, rfl, hold w rfl, hheld⟩

theorem take_solo {q : TakeRequest} (hdb : Plain key db)
    (h : Solo ok (q.program c key) db (.ret b) db') :
    Plain key db' ∧ Taken c key q db b db' := by
  cases q with
  | getDel respVersion => exact solo_getDel hdb h
  | setGet respVersion start v =>
    change Solo ok (setKeyWithOpts c respVersion key v { get := true }) db _ _ at h
    obtain ⟨t, -, ⟨w, hget, hrest⟩ | ⟨e, -, hrest⟩⟩ := solo_setKeyWithOpts h
    · refine solo_setGet_write hdb (fun w' hw' => ?_) hrest
      cases hw'
      rcases get_plain (hdb.visible (unix t)) hget with ⟨w', -, -, hheld, hw⟩ | ⟨e, he⟩
      · cases hw
        rwa [heldValue_visible hdb] at hheld
      · cases he
    · by_cases he : e = .keyNotFound ∨ e = .wrongType
      · rw [if_pos he] at hrest
        exact solo_setGet_write hdb (fun w hw => by cases hw) hrest
      · rw [if_neg he] at hrest
        obtain ⟨rfl, rfl⟩ := hrest
        exact ⟨hdb, .inl ⟨wrapStoreError_ne_bulk e, .inl rfl⟩⟩

variable {ι : Type} [Fintype ι] [DecidableEq ι]

/-- Every value that was returned or is still held was there at first or was written by a client. -/
def Accounted (c : Codec) (key : Bytes) (q : ι → TakeRequest) (db₀ db : Db) (r : ι → Option Resp) :
    Prop :=
  Plain key db ∧ ∀ x, (Finset.univ.filter fun i => r i = some (.bulk x)).card +
        (if heldValue c key db = some x then 1 else 0) ≤
      (if heldValue c key db₀ = some x then 1 else 0) +
        (Finset.univ.filter fun i => (r i).isSome ∧ (q i).written c = some x).card

theorem accounted_solo {q : ι → TakeRequest} {db₀ : Db} {r : ι → Option Resp} {i : ι}
    (h : Accounted c key q db₀ db r) (hi : r i = none)
    (hsolo : Solo ok ((q i).program c key) db (.ret b) db') :
    Accounted c key q db₀ db' (Function.update r i (some b)) := by
  obtain ⟨hplain, htaken⟩ := take_solo h.1 hsolo
  refine ⟨hplain, fun x => ?_⟩
  have hcount := h.2 x
  rw [card_update hi b (fun _ o => o = some (.bulk x)) (by simp),
    card_update hi b (fun j o => o.isSome ∧ (q j).written c = some x) (by simp)]
  simp only [Option.some.injEq, Option.isSome_some, true_and]
  rcases htaken with ⟨hb, hheld | hheld⟩ | ⟨w, rfl, hw, hheld⟩
  · rw [if_neg (hb x), hheld]
    omega
  · rw [if_neg (hb x), hheld]
    omega
  · rw [hw] at hcount
    rw [hheld]
    simp only [Option.some.injEq, Resp.bulk.injEq] at hcount ⊢
    omega

end Take

/-! ## Counting in a time series -/

section Count

variable {ι : Type} [Fintype ι] [DecidableEq ι] {key : Bytes} {ts : Int64} {db db' : Db} {b : Resp}
  {ok : Nat → Prop}

/-- The reply of `TS.INCRBY` is a time if the sample was written. -/
def Resp.isInteger : Resp → Bool
  | .integer _ => true
  | _ => false

theorem isInteger_incrError (e : Err) : (incrError e).isInteger = false := by
  unfold incrError
  split
  · rfl
  · split <;> rfl

theorem incr_solo {x : F64} {o : TimeSeries.AddOptions} (hdb : TimeSeries.Series key ts db)
    (hpos : 0 < ts) (hskip : o.onDuplicate ≠ "skip")
    (h : Solo ok (tsIncrBy key ts x o) db (.ret b) db') :
    TimeSeries.Series key ts db' ∧ TimeSeries.sampleAt key ts db' =
        if b.isInteger then (TimeSeries.sampleAt key ts db).add x
        else TimeSeries.sampleAt key ts db := by
  obtain ⟨t, -, ⟨e, -, rfl, rfl⟩ | ⟨base, hbase, hsolo⟩⟩ := solo_callOr h
  · rw [isInteger_incrError]
    exact ⟨hdb, rfl⟩
  · have hsample := (hdb.visible (unix t)).incrBase_eq hpos hbase
    rw [hdb.sampleAt_visible] at hsample
    subst hsample
    obtain ⟨t', -, rfl, ⟨e, he, rfl⟩ | ⟨n, hn, rfl⟩⟩ := solo_callOr_ret hsolo
    · have hsame : (TimeSeries.tsAdd t' key ts ((TimeSeries.sampleAt key ts db).add x) o db).2 = db :=
        update_error he
      rw [isInteger_incrError]
      exact hsame.symm ▸ ⟨hdb, rfl⟩
    · have htxn := update_ok hn
      refine ⟨(hdb.visible _).changes (TimeSeries.writes_tsAddTxn_sample _ _ _ _ _ htxn), ?_⟩
      refine (congrArg (fun e => (Option.map _ e).getD F64.zero)
        (TimeSeries.tsAddTxn_sample hpos hskip htxn)).trans ?_
      exact TimeSeries.sampleValue_encodeSample _ _

/-- The sample has grown once for every client that reported success. -/
def Grown (key : Bytes) (ts : Int64) (db₀ db : Db) (r : ι → Option Resp) : Prop :=
  TimeSeries.Series key ts db ∧ TimeSeries.sampleAt key ts db =
      (F64.add · F64.one)^[(Finset.univ.filter fun i => (r i).any Resp.isInteger).card]
        (TimeSeries.sampleAt key ts db₀)

theorem grown_solo {o : ι → TimeSeries.AddOptions} {db₀ : Db} {r : ι → Option Resp} {i : ι}
    (hpos : 0 < ts) (hskip : ∀ i, (o i).onDuplicate ≠ "skip") (h : Grown key ts db₀ db r)
    (hi : r i = none) (hsolo : Solo ok (tsIncrBy key ts F64.one (o i)) db (.ret b) db') :
    Grown key ts db₀ db' (Function.update r i (some b)) := by
  obtain ⟨hseries, hsample⟩ := incr_solo h.1 hpos (hskip i) hsolo
  refine ⟨hseries, ?_⟩
  rw [hsample, h.2, card_update hi b (fun _ x => x.any Resp.isInteger) (by simp)]
  cases hb : b.isInteger with
  | false => simp [hb]
  | true => simp [hb, Function.iterate_succ_apply']

/-- `TS.INCRBY key 1`, with options. -/
theorem handleTSINCRBY_one {opts : List Bytes} {o : TimeSeries.AddOptions}
    (h : parseIncrOptions {} opts = .ok ⟨ts, o⟩) :
    handleTSINCRBY (key :: "1" :: opts) = tsIncrBy key ts F64.one o := by
  have hone : F64.parseFloat "1" = .ok F64.one := by decide +kernel
  rw [handleTSINCRBY, hone, h]

end Count

/-! ## Exclusive runs -/

/-- A run in which no client acts between two calls of another, from a time on. -/
def ExclusiveRun {ι : Type} [DecidableEq ι] (progs : ι → Program) (t₀ : Nat) (db : Db)
    (as : List (ι × Nat)) (cfg : Config ι Nat Db Resp) : Prop :=
  Meets (step progs) (fun c l => Exclusive c l ∧ t₀ ≤ l.2) (.init db) as ∧
    run (step progs) (.init db) as = some cfg

/-- If no client acts between the two calls of another: of the clients that create a key one succeeds
and the key holds its value; every value is returned to one client at most; and a sample has grown by
the number of increments. -/
theorem conditional_writes_exclusive {ι : Type} [Fintype ι] [DecidableEq ι] [Nonempty ι] (c : Codec)
    (key : Bytes) (t₀ : Nat) (db : Db) (as : List (ι × Nat)) (cfg : Config ι Nat Db Resp) :
    (∀ q : ι → CreateRequest, Absent key t₀ db → (∀ i, (storedValue c (q i).value).isSome) →
      ExclusiveRun (fun i => (q i).program c key) t₀ db as cfg → (∀ i, (cfg.result i).isSome) →
      ∃ i z, cfg.result i = some (q i).success ∧ (∀ j, j ≠ i → cfg.result j ≠ some (q j).success) ∧
        storedValue c (q i).value = some z ∧ Strings.Stored cfg.state key z 0) ∧
    (∀ q : ι → TakeRequest, Plain key db →
      ExclusiveRun (fun i => (q i).program c key) t₀ db as cfg → (∀ i, (cfg.result i).isSome) →
      ∀ x, (Finset.univ.filter fun i => cfg.result i = some (.bulk x)).card ≤
        (if heldValue c key db = some x then 1 else 0) +
          (Finset.univ.filter fun i => (q i).written c = some x).card) ∧
    ∀ (ts : Int64) (opts : ι → List Bytes) (o : ι → TimeSeries.AddOptions),
      TimeSeries.Series key ts db → 0 < ts →
      (∀ i, parseIncrOptions {} (opts i) = .ok ⟨ts, o i⟩ ∧ (o i).onDuplicate ≠ ascii "skip") →
      ExclusiveRun (fun i => handleTSINCRBY (key :: ascii "1" :: opts i)) t₀ db as cfg →
      (∀ i, ∃ n, cfg.result i = some (.integer n)) →
      TimeSeries.sampleAt key ts cfg.state =
        (F64.add · F64.one)^[Fintype.card ι] (TimeSeries.sampleAt key ts db) := by
  refine ⟨fun q habsent hc hrun hdone => ?_, fun q hplain hrun hdone x => ?_,
    fun ts opts o hseries hpos hopts hrun hdone => ?_⟩
  · have hcreated : Created c key t₀ q cfg.state cfg.result :=
      exclusive_rule (fun _ _ _ _ _ h hi hsolo => created_solo hc h hi hsolo)
        (.inl ⟨fun _ => rfl, habsent⟩) hrun.1 hrun.2 (quiet_of_done hdone)
    rcases hcreated with ⟨hnone, -⟩ | ⟨i, z, hz, hstored, hi, hothers⟩
    · obtain ⟨i⟩ := ‹Nonempty ι›
      have hi := hdone i
      rw [hnone i] at hi
      cases hi
    · exact ⟨i, z, hi, hothers, hz, hstored⟩
  · have haccounted : Accounted c key q db cfg.state cfg.result :=
      exclusive_rule (fun _ _ _ _ _ h hi hsolo => accounted_solo h hi hsolo)
        ⟨hplain, fun x => by simp⟩ hrun.1 hrun.2 (quiet_of_done hdone)
    have hcount := haccounted.2 x
    simp only [hdone, true_and] at hcount
    omega
  · have hquiet : cfg.Quiet := quiet_of_done fun i => by
      obtain ⟨n, hn⟩ := hdone i
      rw [hn]
      rfl
    have hgrown : Grown key ts db cfg.state cfg.result := by
      refine exclusive_rule (fun _ _ i _ _ h hi hsolo => ?_) ⟨hseries, by simp⟩ hrun.1 hrun.2 hquiet
      rw [handleTSINCRBY_one (hopts i).1] at hsolo
      exact grown_solo hpos (fun i => (hopts i).2) h hi hsolo
    have hall : (Finset.univ.filter fun i => (cfg.result i).any Resp.isInteger) = Finset.univ := by
      refine Finset.filter_true_of_mem fun i _ => ?_
      obtain ⟨n, hn⟩ := hdone i
      rw [hn]
      rfl
    rw [hgrown.2, hall, Finset.card_univ]

/-- A key that holds a string. -/
def stringDb : Db :=
  ((∅ : Db).insert (typeOfKeyGet "k") ⟨KeyType.string.name, 0⟩).insert (stringKey "k")
    ⟨"x", 0⟩

/-- An empty series. -/
def seriesDb : Db := ((∅ : Db).insert (typeOfKeyGet "k") ⟨KeyType.timeSeries.name, 0⟩).insert
    (tsMetaKey "k") ⟨TimeSeries.encodeTSMeta TimeSeries.newMeta, 0⟩

theorem series_seriesDb (ts : Int64) : TimeSeries.Series "k" ts seriesDb := by
  have hnone : ∀ p, TimeSeries.tsDataPrefix "k" <+: p → seriesDb[p]? = none := by
    intro p hp
    have hmeta : p ≠ tsMetaKey "k" := by
      rintro rfl
      exact TimeSeries.tsDataPrefix_not_tsMetaKey _ hp
    have htype : p ≠ typeOfKeyGet "k" := by
      rintro rfl
      exact TimeSeries.tsDataPrefix_not_typeOfKeyGet _ hp
    rw [seriesDb, getElem?_insert_ite, if_neg hmeta, getElem?_insert_ite, if_neg htype]
    rfl
  constructor
  · intro p e he hp
    cases (hnone p hp).symm.trans he
  · exact fun _ _ => nofun

/-- Two clients, and the commands they send. -/
def creators (i : Bool) : CreateRequest := .set 2 0 (if i then "a" else "b")

def takers (_ : Bool) : TakeRequest := .getDel 2

def increment : List Bytes := ["TIMESTAMP", "5"]

def counters (_ : Bool) : Program := handleTSINCRBY ("k" :: "1" :: increment)

theorem exclusiveRun_get {progs : Bool → Program} {db : Db} {as : List (Bool × Nat)}
    (hmeets : Meets (step progs) (fun c l => Exclusive c l ∧ 0 ≤ l.2) (.init db) as)
    (hrun : (run (step progs) (.init db) as).isSome) :
    ExclusiveRun progs 0 db as ((run (step progs) (.init db) as).get hrun) :=
  ⟨hmeets, (Option.some_get hrun).symm⟩

/-- Two clients, one after the other. -/
theorem conditional_writes_exclusive_two :
    (∃ cfg, ExclusiveRun (fun i => (creators i).program uncompressed (ascii "k")) 0 ∅
        [(false, 0), (false, 0), (true, 0)] cfg ∧
      ∃ i z, cfg.result i = some (creators i).success ∧
        (∀ j, j ≠ i → cfg.result j ≠ some (creators j).success) ∧
        storedValue uncompressed (creators i).value = some z ∧
        Strings.Stored cfg.state (ascii "k") z 0) ∧
    (∃ cfg, ExclusiveRun (fun i => (takers i).program uncompressed (ascii "k")) 0 stringDb
        [(false, 0), (false, 0), (true, 0)] cfg ∧
      ∀ x, (Finset.univ.filter fun i => cfg.result i = some (.bulk x)).card ≤
        (if heldValue uncompressed (ascii "k") stringDb = some x then 1 else 0) +
          (Finset.univ.filter fun i => (takers i).written uncompressed = some x).card) ∧
    ∃ cfg, ExclusiveRun counters 0 seriesDb [(false, 0), (false, 0), (true, 0), (true, 0)] cfg ∧
      TimeSeries.sampleAt (ascii "k") 5 cfg.state =
        (F64.add · F64.one)^[Fintype.card Bool] (TimeSeries.sampleAt (ascii "k") 5 seriesDb) := by
  refine ⟨⟨_, exclusiveRun_get (by decide +kernel) (by decide +kernel), ?_⟩,
    ⟨_, exclusiveRun_get (by decide +kernel) (by decide +kernel), ?_⟩,
    ⟨_, exclusiveRun_get (by decide +kernel) (by decide +kernel), ?_⟩⟩
  · refine (conditional_writes_exclusive uncompressed "k" 0 ∅ _ _).1 creators ?_ ?_
      (exclusiveRun_get (by decide +kernel) (by decide +kernel)) (by decide +kernel)
    · exact ⟨by rw [visible_empty]; rfl, by rw [visible_empty]; rfl⟩
    · decide
  · refine (conditional_writes_exclusive uncompressed "k" 0 stringDb _ _).2.1 takers ?_
      (exclusiveRun_get (by decide +kernel) (by decide +kernel)) (by decide +kernel)
    exact .inr ⟨"x", Strings.stored_insert _ _ _ _⟩
  · refine (conditional_writes_exclusive uncompressed "k" 0 seriesDb _ _).2.2 5
      (fun _ => increment) (fun _ => ⟨[], 0⟩) (series_seriesDb 5) (by decide) (fun _ => ?_)
      (exclusiveRun_get (by decide +kernel) (by decide +kernel)) ?_
    · exact ⟨by decide +kernel, by decide⟩
    · intro i
      exact ⟨5, by revert i; decide +kernel⟩

/-- Both clients read before either writes: both create the key, both take its value, and one
increment is lost. An increment of a sample that is not the first in byte order starts from 0. -/
theorem conditional_writes_interleaved :
    ((run (step fun i => (creators i).program uncompressed (ascii "k")) (.init ∅)
        [(false, 0), (true, 0), (false, 0), (true, 0)]).map fun c => (c.result false, c.result true)) =
      some (some (creators false).success, some (creators true).success) ∧
    ((run (step fun i => (takers i).program uncompressed (ascii "k")) (.init stringDb)
        [(false, 0), (true, 0), (false, 0), (true, 0)]).map fun c => (c.result false, c.result true)) =
      some (some (.bulk (ascii "x")), some (.bulk (ascii "x"))) ∧
    ((run (step counters) (.init seriesDb) [(false, 0), (true, 0), (false, 0), (true, 0)]).map
        fun c => (c.result false, c.result true, TimeSeries.sampleAt (ascii "k") 5 c.state)) =
      some (some (.integer 5), some (.integer 5), F64.one) ∧
    ((run (step counters) (.init (seriesDb.insert (TimeSeries.tsDataKey (ascii "k") 1)
        ⟨TimeSeries.encodeSample 1 F64.one, 0⟩)) [(false, 0), (false, 0), (true, 0), (true, 0)]).map
        fun c => (c.result false, c.result true, TimeSeries.sampleAt (ascii "k") 5 c.state)) =
      some (some (.integer 5), some (.integer 5), F64.one) := by
  refine ⟨?_, ?_, ?_, ?_⟩ <;> decide +kernel

end BoltDB.Server
