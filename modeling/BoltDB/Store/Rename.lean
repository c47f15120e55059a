import BoltDB.Store.Strings

/-!
# Renaming

`rename.go`. The records of the old key are copied to names with the new key, and then everything
under the old key's prefix is deleted.
-/

namespace BoltDB.Store

open Bytes KeyValue List

/-- The expiry of a copied record: what is left of it, added to the time. -/
def keptExpiry (now : Nat) (e : Entry) : Nat :=
  let left := Strings.duration ((e.expiresAt - unix now) * 1000000000)
  if unix now < e.expiresAt ∧ 0 < left then withTTL now left else 0

def copyEntry (now : Nat) (p : Bytes) (e : Entry) : Txn Err Unit :=
  Txn.setEntry p ⟨e.value, keptExpiry now e⟩

def copyKeysByPrefix (now : Nat) (t : KeyType) (key newKey : Bytes) : Txn Err Unit := do
  let es ← Txn.scan (recordPrefix t key)
  es.forM fun e =>
    copyEntry now (recordPrefix t newKey ++ e.1.drop (recordPrefix t key).length) e.2

/-- `RENAME` of a key with one data record, which has to be there. -/
def renamePlain (now : Nat) (t : KeyType) (key newKey : Bytes) : Txn Err Unit := do
  match ← Txn.get (t.tag ++ key) with
  | none => throw .keyNotFound
  | some e => do
    Txn.set (typeOfKeyGet newKey) t.name
    copyEntry now (t.tag ++ newKey) e
    Txn.delete (typeOfKeyGet key)
    Txn.delete (t.tag ++ key)

def renameCollection (now : Nat) (t : KeyType) (key newKey : Bytes) : Txn Err Unit := do
  copyKeysByPrefix now t key newKey
  Txn.set (typeOfKeyGet newKey) t.name
  Txn.deleteByPrefix (recordPrefix t key)
  Txn.delete (typeOfKeyGet key)

def renameGeo (now : Nat) (key newKey : Bytes) : Txn Err Unit := do
  copyKeysByPrefix now .geo key newKey
  copyKeysByPrefix now .sortedSet key newKey
  Txn.set (typeOfKeyGet newKey) KeyType.geo.name
  Txn.deleteByPrefix (recordPrefix .geo key)
  Txn.deleteByPrefix (recordPrefix .sortedSet key)
  Txn.delete (typeOfKeyGet key)

/-- The new key, whatever its type, is deleted first. -/
def deleteDestination (newKey : Bytes) : Txn Err Unit := do
  match ← Txn.get (typeOfKeyGet newKey) with
  | none => pure ()
  | some e => do
    deleteData newKey e.value
    Txn.delete (typeOfKeyGet newKey)

def renameData (now : Nat) (key newKey : Bytes) : KeyType → Txn Err Unit
  | .geo => renameGeo now key newKey
  | t => if t.isPlain then renamePlain now t key newKey else renameCollection now t key newKey

def renameTxn (now : Nat) (key newKey : Bytes) : Txn Err Unit := do
  match ← Txn.get (typeOfKeyGet key) with
  | none => throw .noSuchKey
  | some e => do
    deleteDestination newKey
    match KeyType.ofName e.value with
    | none => do
      Txn.set (typeOfKeyGet newKey) e.value
      Txn.delete (typeOfKeyGet key)
    | some t => renameData now key newKey t

/-- `RENAME`; with the same name twice nothing is looked at. The clock is read once, where the source asks
it again for the time that is left to a record. -/
def rename (now : Nat) (key newKey : Bytes) : Run Err Unit :=
  if key = newKey then pure () else update now (renameTxn now key newKey)

/-- `RENAMENX`: the rename is a transaction of its own inside the check. -/
def renameNX (now : Nat) (key newKey : Bytes) : Run Err Bool := do
  if ← view now (keyExists newKey) then return false
  else do
    rename now key newKey
    return true

/-! ## What a rename leaves -/

section Moved

variable {now : Nat} {t : KeyType} {key newKey : Bytes} {db : Db}

theorem copyKeysByPrefix_spec (now : Nat) (t : KeyType) (key newKey : Bytes) (db : Db) :
    ∃ db', copyKeysByPrefix now t key newKey db = .ok ((), db') ∧
      (∀ x e, db[recordPrefix t key ++ x]? = some e →
        db'[recordPrefix t newKey ++ x]? = some ⟨e.value, keptExpiry now e⟩) ∧
      ∀ p, (∀ x, p = recordPrefix t newKey ++ x → db[recordPrefix t key ++ x]? = none) →
        db'[p]? = db[p]? := by
  have hinj : ∀ e ∈ scan (recordPrefix t key) db, ∀ f ∈ scan (recordPrefix t key) db,
      recordPrefix t newKey ++ e.1.drop (recordPrefix t key).length =
        recordPrefix t newKey ++ f.1.drop (recordPrefix t key).length → e = f := by
    intro e he f hf heq
    obtain ⟨hget, x, hx⟩ := mem_scan.mp he
    obtain ⟨hget', y, hy⟩ := mem_scan.mp hf
    have hxy : x = y := by
      have := append_cancel_left heq
      rwa [← hx, ← hy, drop_left, drop_left] at this
    have hname : e.1 = f.1 := by rw [← hx, ← hy, hxy]
    rw [hname, hget'] at hget
    exact Prod.ext hname (Option.some.inj hget).symm
  obtain ⟨db', hrun, hin, hout⟩ := Txn.forM_setEntry db hinj
    (ε := Err) (g := fun e => (⟨e.2.value, keptExpiry now e.2⟩ : Entry))
  refine ⟨db', hrun, ?_, ?_⟩
  · intro x e he
    have := hin (recordPrefix t key ++ x, e) (mem_scan.mpr ⟨he, prefix_append _ _⟩)
    rwa [drop_left] at this
  · intro p hp
    apply hout
    rintro f hf rfl
    obtain ⟨hget, y, hy⟩ := mem_scan.mp hf
    have := hp y (by rw [← hy, drop_left])
    rw [hy, hget] at this
    cases this

/-- `db'` is `db` with the records of a collection moved to another key. -/
structure Moved (now : Nat) (t : KeyType) (key newKey : Bytes) (db db' : Db) : Prop where
  gone : ∀ p, recordPrefix t key <+: p → db'[p]? = none
  oldType : db'[typeOfKeyGet key]? = none
  newType : db'[typeOfKeyGet newKey]? = some ⟨t.name, 0⟩
  copied : ∀ x e, db[recordPrefix t key ++ x]? = some e →
    ¬ recordPrefix t key <+: recordPrefix t newKey ++ x →
    db'[recordPrefix t newKey ++ x]? = some ⟨e.value, keptExpiry now e⟩
  kept : ∀ p, p ≠ typeOfKeyGet key → p ≠ typeOfKeyGet newKey → ¬ recordPrefix t key <+: p →
    (∀ x, p = recordPrefix t newKey ++ x → db[recordPrefix t key ++ x]? = none) → db'[p]? = db[p]?

theorem not_recordPrefix_typeOfKeyGet (t : KeyType) (key key' : Bytes) :
    ¬ recordPrefix t key <+: typeOfKeyGet key' := by
  rintro ⟨x, hx⟩
  apply typeOfKeyGet_ne_tag_append key' t (key ++ ":" ++ x)
  rw [← hx, recordPrefix]
  simp

theorem recordPrefix_append_ne_typeOfKeyGet (t : KeyType) (key x key' : Bytes) :
    recordPrefix t key ++ x ≠ typeOfKeyGet key' :=
  fun h => not_recordPrefix_typeOfKeyGet t key key' (h ▸ prefix_append _ _)

theorem renameCollection_spec (now : Nat) (t : KeyType) (db : Db) (hne : key ≠ newKey) :
    ∃ db', renameCollection now t key newKey db = .ok ((), db') ∧ Moved now t key newKey db db' := by
  obtain ⟨db₁, hrun, hcopy, hkeep⟩ := copyKeysByPrefix_spec now t key newKey db
  have htypes : typeOfKeyGet newKey ≠ typeOfKeyGet key := fun h => hne (typeOfKeyGet_injective h).symm
  refine ⟨((db₁.insert (typeOfKeyGet newKey) ⟨t.name, 0⟩).filter
    fun k _ => !(recordPrefix t key).isPrefixOf k).erase (typeOfKeyGet key), ?_, ?_⟩
  · rw [renameCollection, Txn.bind_apply, hrun]
    rfl
  · constructor
    · intro p hp
      rw [getElem?_erase_ite, getElem?_erasePrefix, if_pos hp, ite_self]
    · rw [getElem?_erase_ite, if_pos rfl]
    · rw [getElem?_erase_ite, if_neg htypes, getElem?_erasePrefix,
        if_neg (not_recordPrefix_typeOfKeyGet _ _ _), getElem?_insert_ite, if_pos rfl]
    · intro x e he hx
      rw [getElem?_erase_ite, if_neg (recordPrefix_append_ne_typeOfKeyGet _ _ _ _),
        getElem?_erasePrefix, if_neg hx, getElem?_insert_ite,
        if_neg (recordPrefix_append_ne_typeOfKeyGet _ _ _ _), hcopy x e he]
    · intro p hold hnew hp hx
      rw [getElem?_erase_ite, if_neg hold, getElem?_erasePrefix, if_neg hp, getElem?_insert_ite,
        if_neg hnew, hkeep p hx]

/-- The store without a collection at a key. -/
def withoutKey (t : KeyType) (key : Bytes) (db : Db) : Db :=
  (db.filter fun p _ => !(recordPrefix t key).isPrefixOf p).erase (typeOfKeyGet key)

theorem getElem?_withoutKey (t : KeyType) (key : Bytes) (db : Db) (p : Bytes) :
    (withoutKey t key db)[p]? =
      if p = typeOfKeyGet key ∨ recordPrefix t key <+: p then none else db[p]? := by
  rw [withoutKey, getElem?_erase_ite, getElem?_erasePrefix]
  by_cases h : p = typeOfKeyGet key <;> by_cases h' : recordPrefix t key <+: p <;> simp [h, h']

theorem deleteDestination_absent (h : db[typeOfKeyGet newKey]? = none) :
    deleteDestination newKey db = .ok ((), db) := by
  simp only [deleteDestination, Txn.get_bind, h]
  rfl

theorem deleteDestination_hash {expiresAt : Nat}
    (h : db[typeOfKeyGet newKey]? = some ⟨KeyType.hash.name, expiresAt⟩) :
    deleteDestination newKey db = .ok ((), withoutKey .hash newKey db) := by
  simp only [deleteDestination, Txn.get_bind, h]
  rfl

/-- A hash is moved after the destination is gone. -/
theorem renameTxn_hash {expiresAt : Nat} {db₁ : Db} (now : Nat) (hne : key ≠ newKey)
    (h : db[typeOfKeyGet key]? = some ⟨KeyType.hash.name, expiresAt⟩)
    (hdest : deleteDestination newKey db = .ok ((), db₁)) :
    ∃ db', renameTxn now key newKey db = .ok ((), db') ∧ Moved now .hash key newKey db₁ db' := by
  obtain ⟨db', hrun, hmoved⟩ := renameCollection_spec now .hash db₁ hne
  refine ⟨db', ?_, hmoved⟩
  simp only [renameTxn, Txn.get_bind, h]
  exact (Txn.bind_of_ok hdest).trans hrun

variable {db' : Db}

/-- A plain key's data record is not anyone's `TYPE_` record. -/
theorem typeOfKeyGet_renamePlain (h : renamePlain now t key newKey db = .ok ((), db')) :
    db'[typeOfKeyGet key]? = none := by
  rcases Txn.get_bind_eq_ok.mp h with ⟨-, h⟩ | ⟨e, -, h⟩
  · cases h
  · cases h
    rw [getElem?_erase_ite, getElem?_erase_ite, if_pos rfl, ite_self]

theorem typeOfKeyGet_renameData (hne : key ≠ newKey)
    (h : renameData now key newKey t db = .ok ((), db')) : db'[typeOfKeyGet key]? = none := by
  have hcollection : ∀ t, renameCollection now t key newKey db = .ok ((), db') →
      db'[typeOfKeyGet key]? = none := by
    intro t h
    obtain ⟨db₁, hrun, hmoved⟩ := renameCollection_spec now t db hne
    rw [h] at hrun
    cases hrun
    exact hmoved.oldType
  cases t with
  | geo =>
    obtain ⟨-, db₁, -, h⟩ := Txn.bind_eq_ok.mp h
    obtain ⟨-, db₂, -, h⟩ := Txn.bind_eq_ok.mp h
    cases h
    rw [getElem?_erase_ite, if_pos rfl]
  | string | json | hyperLogLog => exact typeOfKeyGet_renamePlain h
  | list | hash | set | sortedSet | stream | timeSeries => exact hcollection _ h

/-- A rename that succeeds finds its key, and the key is gone afterwards. -/
theorem typeOfKeyGet_renameTxn (hne : key ≠ newKey)
    (h : renameTxn now key newKey db = .ok ((), db')) :
    db[typeOfKeyGet key]? ≠ none ∧ db'[typeOfKeyGet key]? = none := by
  rcases Txn.get_bind_eq_ok.mp h with ⟨-, h⟩ | ⟨e, hget, h⟩
  · cases h
  · refine ⟨by simp [hget], ?_⟩
    obtain ⟨-, db₁, -, h⟩ := Txn.bind_eq_ok.mp h
    cases ht : KeyType.ofName e.value with
    | none =>
      rw [ht] at h
      cases h
      rw [getElem?_erase_ite, if_pos rfl]
    | some t =>
      rw [ht] at h
      exact typeOfKeyGet_renameData hne h

theorem renameTxn_absent (h : db[typeOfKeyGet key]? = none) :
    renameTxn now key newKey db = .error .noSuchKey := by
  simp only [renameTxn, Txn.get_bind, h]
  rfl

end Moved

/-! ## Footprints -/

section Footprints

variable {now : Nat} {key newKey : Bytes}

/-- What a rename may do. -/
def OwnedEither (key newKey p : Bytes) (e : Option Entry) : Prop := Owned key p e ∨ Owned newKey p e

variable {t : KeyType}

theorem isRecord_plain (h : t.isPlain = true) : IsRecord t key (t.tag ++ key) := by
  rw [IsRecord, if_pos h]

theorem writes_copyKeysByPrefix (h : t.isPlain = false) :
    Writes (OwnedEither key newKey) (copyKeysByPrefix now t key newKey) := by
  refine writes_read fun es => writes_forM fun e _ => writes_setEntry ?_
  exact .inr (owned_record (isRecord_of_isPrefix h (prefix_append _ _)))

theorem writes_set_newType (t : KeyType) :
    Writes (OwnedEither key newKey) (Txn.set (typeOfKeyGet newKey) t.name : Txn Err Unit) :=
  writes_set (.inr (touches_typeOfKeyGet (t := t)).owned)

theorem writes_delete_oldType :
    Writes (OwnedEither key newKey) (Txn.delete (typeOfKeyGet key) : Txn Err Unit) :=
  writes_delete (.inl owned_typeOfKeyGet_none)

theorem writes_deleteByPrefix_old (h : t.isPlain = false) :
    Writes (OwnedEither key newKey) (Txn.deleteByPrefix (recordPrefix t key) : Txn Err Unit) :=
  writes_deleteByPrefix fun _ hp => .inl (owned_record (isRecord_of_isPrefix h hp))

theorem writes_renamePlain (h : t.isPlain = true) :
    Writes (OwnedEither key newKey) (renamePlain now t key newKey) := by
  refine writes_get_bind writes_throw fun e => ?_
  refine writes_bind (writes_set_newType _) fun _ => ?_
  refine writes_bind (writes_setEntry (.inr (owned_record (isRecord_plain h)))) fun _ => ?_
  refine writes_bind writes_delete_oldType fun _ => ?_
  exact writes_delete (.inl (owned_record (isRecord_plain h)))

theorem writes_renameCollection (h : t.isPlain = false) :
    Writes (OwnedEither key newKey) (renameCollection now t key newKey) := by
  refine writes_bind (writes_copyKeysByPrefix h) fun _ => ?_
  refine writes_bind (writes_set_newType _) fun _ => ?_
  exact writes_bind (writes_deleteByPrefix_old h) fun _ => writes_delete_oldType

theorem writes_renameGeo : Writes (OwnedEither key newKey) (renameGeo now key newKey) := by
  refine writes_bind (writes_copyKeysByPrefix rfl) fun _ => ?_
  refine writes_bind (writes_copyKeysByPrefix rfl) fun _ => ?_
  refine writes_bind (writes_set_newType _) fun _ => ?_
  refine writes_bind (writes_deleteByPrefix_old rfl) fun _ => ?_
  exact writes_bind (writes_deleteByPrefix_old rfl) fun _ => writes_delete_oldType

theorem writes_deleteDestination : Writes (OwnedEither key newKey) (deleteDestination newKey) := by
  refine writes_get_bind writes_pure fun e => ?_
  refine writes_bind (writes_deleteData _ fun t p hp => .inr (owned_record hp)) fun _ => ?_
  exact writes_delete (.inr owned_typeOfKeyGet_none)

theorem writes_renameData (t : KeyType) :
    Writes (OwnedEither key newKey) (renameData now key newKey t) := by
  unfold renameData
  split
  · exact writes_renameGeo
  · split
    · next h => exact writes_renamePlain h
    · next h => exact writes_renameCollection (by simpa using h)

/-- The names of the two keys. -/
def OwnsEither (key newKey p : Bytes) (_ : Option Entry) : Prop := Owns key p ∨ Owns newKey p

theorem OwnedEither.ownsEither {p : Bytes} {e : Option Entry} (h : OwnedEither key newKey p e) :
    OwnsEither key newKey p e := h.imp Owned.owns Owned.owns

theorem writes_renameTxn : Writes (OwnsEither key newKey) (renameTxn now key newKey) := by
  refine writes_get_bind writes_throw fun e => ?_
  refine writes_bind (writes_deleteDestination.mono fun p e h => h.ownsEither) fun _ => ?_
  split
  · refine writes_bind (writes_set (.inr (owns_typeOfKeyGet newKey))) fun _ => ?_
    exact writes_delete (.inl (owns_typeOfKeyGet key))
  · exact (writes_renameData _).mono fun p e h => h.ownsEither

end Footprints

end BoltDB.Store
