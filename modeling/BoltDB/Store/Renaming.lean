import BoltDB.Store.Rename

/-!
# What `RENAME` is for

A key is its type and, by kind, its data records. After `RENAME` the new name should have the old
one's, the old name none, and every other key what it had. `Correct` says so of a store and two
names, and `Separate` says when it is so: records are found by a prefix that ends in `:`, and the
records of a key whose name goes on after such a prefix have it too.
-/

namespace BoltDB.Store.Renaming

open Bytes KeyValue List

/-! ## The keys of a store -/

/-- The kinds of data records that a key of a type has; a geo key has a sorted set as well. -/
def families : KeyType → List KeyType
  | .geo => [.geo, .sortedSet]
  | t => [t]

/-- The name of a data record of a key. A key of a plain type has one data record. -/
def recordName (f : KeyType) (key x : Bytes) : Bytes :=
  if f.isPlain then f.tag ++ key else recordPrefix f key ++ x

/-- The type of the key has this kind of data records. -/
def Stores (db : Db) (key : Bytes) (f : KeyType) : Prop :=
  ∃ e t, db[typeOfKeyGet key]? = some e ∧ KeyType.ofName e.value = some t ∧ f ∈ families t

/-- `db'` is `db` with a key under a new name. Of the old name it says that the
`TYPE_` record is gone. -/
structure Renamed (key newKey : Bytes) (db db' : Db) : Prop where
  type : db'[typeOfKeyGet newKey]?.map Entry.value = db[typeOfKeyGet key]?.map Entry.value
  value : ∀ f x, Stores db key f → db'[recordName f newKey x]? = db[recordName f key x]?
  gone : db'[typeOfKeyGet key]? = none
  replaced : ∀ f x, Stores db newKey f → ¬ Stores db key f → db'[recordName f newKey x]? = none
  others : ∀ k, k ≠ key → k ≠ newKey → db'[typeOfKeyGet k]? = db[typeOfKeyGet k]? ∧
    ∀ f x, Stores db k f → db'[recordName f k x]? = db[recordName f k x]?

/-- A rename that succeeds renames, and one that fails changes nothing. -/
def Correct (now : Nat) (key newKey : Bytes) (db : Db) : Prop :=
  match rename now key newKey db with
  | (.ok _, db') =>
    if key = newKey then db' = db else Renamed key newKey (visible (unix now) db) db'
  | (.error _, db') => db' = db

/-! ## When it is -/

/-- The records that go when the key goes. -/
def Removes (db : Db) (key p : Bytes) : Prop := ∃ f, Stores db key f ∧ IsRecord f key p

/-- What the rename needs is there: the type and, for a plain one, the data record. -/
def Found (db : Db) (key : Bytes) : Prop := ∃ e, db[typeOfKeyGet key]? = some e ∧
    ∀ t, KeyType.ofName e.value = some t → t.isPlain = true → db[t.tag ++ key]? ≠ none

/-- The record `p` of a third key stays as it is: the old key does not take it along, and the new
key neither takes it away nor puts another one in its place. -/
structure Spared (key newKey : Bytes) (db : Db) (f : KeyType) (p : Bytes) : Prop where
  left : db[p]? ≠ none → ¬ Removes db key p
  replaced : ∀ y e, Stores db key f → p = recordName f newKey y →
    db[recordName f key y]? = some e → db[p]? = some e
  swept : db[p]? ≠ none → Removes db newKey p →
    ∃ y, Stores db key f ∧ p = recordName f newKey y ∧ db[recordName f key y]? ≠ none

/-- No record of the key goes with the old destination, no copy of one goes with the key itself,
and `keptExpiry` gives its expiry again; nothing else is left under the new name; and
third keys are spared. -/
structure Separate (now : Nat) (key newKey : Bytes) (db : Db) : Prop where
  kept : ∀ f x e, Stores db key f → db[recordName f key x]? = some e →
    ¬ Removes db newKey (recordName f key x) ∧ ¬ Removes db key (recordName f newKey x) ∧
      keptExpiry now e = e.expiresAt
  clean : ∀ f x, Stores db key f → db[recordName f key x]? = none →
    db[recordName f newKey x]? ≠ none →
    Removes db newKey (recordName f newKey x) ∨ Removes db key (recordName f newKey x)
  others : ∀ k f x, k ≠ key → k ≠ newKey → Stores db k f → Spared key newKey db f (recordName f k x)

/-! ## Names -/

section Names

variable {f g : KeyType} {key key' x y p : Bytes} {db : Db}

theorem isRecord_iff : IsRecord f key p ↔ ∃ x, p = recordName f key x := by
  unfold IsRecord recordName
  cases f.isPlain with
  | true => simp
  | false =>
    constructor
    · rintro ⟨x, rfl⟩
      exact ⟨x, rfl⟩
    · rintro ⟨x, rfl⟩
      exact ⟨x, rfl⟩

theorem isRecord_recordName (f : KeyType) (key x : Bytes) : IsRecord f key (recordName f key x) :=
  isRecord_iff.mpr ⟨x, rfl⟩

theorem recordName_ne_typeOfKeyGet (f : KeyType) (key x key' : Bytes) :
    recordName f key x ≠ typeOfKeyGet key' := by
  intro h
  have := isRecord_recordName f key x
  rw [h] at this
  exact not_isRecord_typeOfKeyGet f key key' this

theorem family_eq (h : recordName f key x = recordName g key' y) : f = g :=
  (isRecord_recordName f key x).type_eq (h ▸ isRecord_recordName g key' y)

/-- Two suffixes that give one name under a key give one name under every key. -/
theorem recordName_congr (h : recordName f key x = recordName f key y) (key' : Bytes) :
    recordName f key' x = recordName f key' y := by
  unfold recordName at h ⊢
  cases hplain : f.isPlain with
  | true => rfl
  | false =>
    rw [hplain] at h
    have hxy : x = y := append_cancel_left h
    rw [hxy]

theorem stores_iff {e : Entry} {t : KeyType} (h : db[typeOfKeyGet key]? = some e)
    (ht : KeyType.ofName e.value = some t) : Stores db key f ↔ f ∈ families t := by
  constructor
  · rintro ⟨e', t', h', ht', hf⟩
    rw [h] at h'
    cases h'
    rw [ht] at ht'
    cases ht'
    exact hf
  · intro hf
    exact ⟨e, t, h, ht, hf⟩

theorem Removes.stores (h : Removes db key (recordName f key' x)) : Stores db key f := by
  obtain ⟨g, hg, hrecord⟩ := h
  obtain rfl := hrecord.type_eq (isRecord_recordName f key' x)
  exact hg

theorem Stores.removes (h : Stores db key f) (x : Bytes) : Removes db key (recordName f key x) :=
  ⟨f, h, isRecord_recordName f key x⟩

theorem not_removes_typeOfKeyGet (db : Db) (key key' : Bytes) :
    ¬ Removes db key (typeOfKeyGet key') := by
  rintro ⟨f, -, h⟩
  exact not_isRecord_typeOfKeyGet f key key' h

end Names

/-! ## What the transaction leaves -/

section Transaction

variable {now : Nat} {t : KeyType} {key newKey : Bytes} {db db' : Db}

theorem deleteRecords_spec (t : KeyType) (key : Bytes) (db : Db) :
    ∃ db', deleteRecords t key db = .ok ((), db') ∧
      ∀ p, db'[p]? = if IsRecord t key p then none else db[p]? := by
  unfold deleteRecords
  cases hplain : t.isPlain with
  | true =>
    refine ⟨db.erase (t.tag ++ key), rfl, fun p => ?_⟩
    rw [getElem?_erase_ite]
    simp only [IsRecord, hplain, if_true]
  | false =>
    refine ⟨_, rfl, fun p => ?_⟩
    rw [getElem?_erasePrefix]
    simp only [IsRecord, hplain, Bool.false_eq_true, if_false]

theorem deleteData_spec (key : Bytes) {name : Bytes} (h : KeyType.ofName name = some t) (db : Db) :
    ∃ db', deleteData key name db = .ok ((), db') ∧
      ∀ p, db'[p]? = if ∃ f ∈ families t, IsRecord f key p then none else db[p]? := by
  unfold deleteData
  rw [h]
  have single : families t = [t] → ∃ db', deleteRecords t key db = .ok ((), db') ∧
      ∀ p, db'[p]? = if ∃ f ∈ families t, IsRecord f key p then none else db[p]? := by
    intro hfamilies
    rw [hfamilies]
    simp only [mem_singleton, exists_eq_left]
    exact deleteRecords_spec t key db
  cases t with
  | geo =>
    obtain ⟨db₁, hrun₁, hget₁⟩ := deleteRecords_spec .geo key db
    obtain ⟨db₂, hrun₂, hget₂⟩ := deleteRecords_spec .sortedSet key db₁
    refine ⟨db₂, Txn.bind_eq_ok.mpr ⟨_, _, hrun₁, hrun₂⟩, fun p => ?_⟩
    rw [hget₂, hget₁]
    by_cases hgeo : IsRecord .geo key p <;> by_cases hset : IsRecord .sortedSet key p <;>
      simp [families, hgeo, hset]
  | _ => exact single rfl

/-- The destination's data records go, and its type. -/
theorem deleteDestination_spec (newKey : Bytes) (db : Db) :
    ∃ db', deleteDestination newKey db = .ok ((), db') ∧ db'[typeOfKeyGet newKey]? = none ∧
      (∀ p, Removes db newKey p → db'[p]? = none) ∧
      ∀ p, p ≠ typeOfKeyGet newKey → ¬ Removes db newKey p → db'[p]? = db[p]? := by
  cases hget : db[typeOfKeyGet newKey]? with
  | none =>
    refine ⟨db, deleteDestination_absent hget, hget, ?_, fun _ _ _ => rfl⟩
    rintro p ⟨f, ⟨e, t, he, -⟩, -⟩
    rw [hget] at he
    cases he
  | some e =>
    have hrun : ∀ {db₁}, deleteData newKey e.value db = .ok ((), db₁) →
        deleteDestination newKey db = .ok ((), db₁.erase (typeOfKeyGet newKey)) := by
      intro db₁ h
      simp only [deleteDestination, Txn.get_bind, hget]
      exact Txn.bind_eq_ok.mpr ⟨(), db₁, h, rfl⟩
    cases ht : KeyType.ofName e.value with
    | none =>
      have hdelete : deleteData newKey e.value db = .ok ((), db) := by
        rw [deleteData, ht]
        rfl
      refine ⟨_, hrun hdelete, ?_, ?_, ?_⟩
      · rw [getElem?_erase_ite, if_pos rfl]
      · rintro p ⟨f, ⟨e', t, he', ht', -⟩, -⟩
        rw [hget] at he'
        cases he'
        rw [ht] at ht'
        cases ht'
      · intro p hp _
        rw [getElem?_erase_ite, if_neg hp]
    | some t =>
      obtain ⟨db₁, hdelete, hdb₁⟩ := deleteData_spec newKey ht db
      have hremoves : ∀ p, Removes db newKey p ↔ ∃ f ∈ families t, IsRecord f newKey p := by
        intro p
        simp only [Removes, stores_iff hget ht]
      refine ⟨_, hrun hdelete, ?_, ?_, ?_⟩
      · rw [getElem?_erase_ite, if_pos rfl]
      · intro p hp
        rw [getElem?_erase_ite, hdb₁, if_pos ((hremoves p).mp hp), ite_self]
      · intro p hp hremove
        rw [getElem?_erase_ite, if_neg hp, hdb₁, if_neg fun h => hremove ((hremoves p).mpr h)]

/-- `DEL` leaves what a rename leaves of its destination. -/
theorem delTxn_of_deleteDestination (h : deleteDestination key db = .ok ((), db')) :
    ∃ n, delTxn key db = .ok (n, db') := by
  rcases Txn.get_bind_eq_ok.mp h with ⟨hget, h⟩ | ⟨e, hget, h⟩
  · cases h
    exact ⟨0, Txn.get_bind_eq_ok.mpr (.inl ⟨hget, rfl⟩)⟩
  · obtain ⟨u, db₁, hdelete, h⟩ := Txn.bind_eq_ok.mp h
    cases h
    exact ⟨1, Txn.get_bind_eq_ok.mpr (.inr ⟨e, hget, Txn.bind_eq_ok.mpr ⟨u, db₁, hdelete, rfl⟩⟩)⟩

/-- `db'` is `db` with the records of some kinds moved from one key to another. -/
structure Moves (now : Nat) (fs : List KeyType) (name key newKey : Bytes) (db db' : Db) : Prop where
  gone : ∀ p, (∃ f ∈ fs, IsRecord f key p) → db'[p]? = none
  oldType : db'[typeOfKeyGet key]? = none
  newType : db'[typeOfKeyGet newKey]? = some ⟨name, 0⟩
  copied : ∀ f ∈ fs, ∀ x e, db[recordName f key x]? = some e →
    ¬ (∃ g ∈ fs, IsRecord g key (recordName f newKey x)) →
    db'[recordName f newKey x]? = some ⟨e.value, keptExpiry now e⟩
  kept : ∀ p, p ≠ typeOfKeyGet key → p ≠ typeOfKeyGet newKey → ¬ (∃ f ∈ fs, IsRecord f key p) →
    (∀ f ∈ fs, ∀ x, p = recordName f newKey x → db[recordName f key x]? = none) →
    db'[p]? = db[p]?

theorem recordName_plain (h : t.isPlain = true) (key x : Bytes) :
    recordName t key x = t.tag ++ key := by rw [recordName, if_pos h]

theorem recordName_collection (h : t.isPlain = false) (key x : Bytes) :
    recordName t key x = recordPrefix t key ++ x := by rw [recordName, h]; rfl

theorem isRecord_collection (h : t.isPlain = false) {p : Bytes} :
    IsRecord t key p ↔ recordPrefix t key <+: p := by rw [IsRecord, h]; rfl

theorem moves_collection (h : t.isPlain = false) (hmoved : Moved now t key newKey db db') :
    Moves now [t] t.name key newKey db db' := by
  refine ⟨?_, hmoved.oldType, hmoved.newType, ?_, ?_⟩
  · simp only [mem_singleton, exists_eq_left, isRecord_collection h]
    exact hmoved.gone
  · simp only [mem_singleton, exists_eq_left, forall_eq, isRecord_collection h,
      recordName_collection h]
    exact hmoved.copied
  · simp only [mem_singleton, exists_eq_left, forall_eq, isRecord_collection h,
      recordName_collection h]
    exact hmoved.kept

theorem moves_plain (h : t.isPlain = true) (hne : key ≠ newKey)
    (hrun : renamePlain now t key newKey db = .ok ((), db')) :
    Moves now [t] t.name key newKey db db' := by
  have htypes : typeOfKeyGet newKey ≠ typeOfKeyGet key := fun h => hne (typeOfKeyGet_injective h).symm
  have hnames : t.tag ++ newKey ≠ t.tag ++ key := fun h => hne (append_cancel_left h).symm
  rcases Txn.get_bind_eq_ok.mp hrun with ⟨-, hrun⟩ | ⟨e, hget, hrun⟩
  · cases hrun
  · cases hrun
    have hrecord : ∀ p, IsRecord t key p ↔ p = t.tag ++ key := by
      intro p
      rw [IsRecord, if_pos h]
    constructor
    · simp only [mem_singleton, exists_eq_left, hrecord]
      rintro p rfl
      rw [getElem?_erase_ite, if_pos rfl]
    · rw [getElem?_erase_ite, getElem?_erase_ite, if_pos rfl, ite_self]
    · rw [getElem?_erase_ite, if_neg (typeOfKeyGet_ne_tag_append _ _ _), getElem?_erase_ite,
        if_neg htypes, getElem?_insert_ite, if_neg (typeOfKeyGet_ne_tag_append _ _ _),
        getElem?_insert_ite, if_pos rfl]
    · simp only [mem_singleton, forall_eq, recordName_plain h]
      intro x e' he' _
      rw [hget] at he'
      cases he'
      rw [getElem?_erase_ite, if_neg hnames, getElem?_erase_ite,
        if_neg (typeOfKeyGet_ne_tag_append _ _ _).symm, getElem?_insert_ite, if_pos rfl]
    · simp only [mem_singleton, exists_eq_left, forall_eq, hrecord, recordName_plain h]
      intro p hold hnew hp hx
      have hcopy : p ≠ t.tag ++ newKey := by
        intro hp
        have := hx [] hp
        rw [hget] at this
        cases this
      rw [getElem?_erase_ite, if_neg hp, getElem?_erase_ite, if_neg hold, getElem?_insert_ite,
        if_neg hcopy, getElem?_insert_ite, if_neg hnew]

/-- A geo key has records of two kinds, and neither copy meets the other. -/
theorem moves_geo (hne : key ≠ newKey) (hrun : renameGeo now key newKey db = .ok ((), db')) :
    Moves now [.geo, .sortedSet] KeyType.geo.name key newKey db db' := by
  have htypes : typeOfKeyGet newKey ≠ typeOfKeyGet key := fun h => hne (typeOfKeyGet_injective h).symm
  obtain ⟨db₁, hrun₁, hcopy₁, hkeep₁⟩ := copyKeysByPrefix_spec now .geo key newKey db
  obtain ⟨db₂, hrun₂, hcopy₂, hkeep₂⟩ := copyKeysByPrefix_spec now .sortedSet key newKey db₁
  have happ : ∀ {m m' : Txn Err Unit} {d d' : Db}, m d = .ok ((), d') →
      (m >>= fun _ => m') d = m' d' := by
    intro m m' d d' h
    rw [Txn.bind_apply, h]
  rw [renameGeo, happ hrun₁, happ hrun₂] at hrun
  have hget : ∀ p, db'[p]? = if p = typeOfKeyGet key then none
      else if recordPrefix .sortedSet key <+: p then none
      else if recordPrefix .geo key <+: p then none
      else if p = typeOfKeyGet newKey then some ⟨KeyType.geo.name, 0⟩ else db₂[p]? := by
    cases hrun
    intro p
    rw [getElem?_erase_ite, getElem?_erasePrefix, getElem?_erasePrefix, getElem?_insert_ite]
  have hfamilies : ∀ {x y k k' : Bytes}, recordPrefix .geo k ++ x ≠ recordPrefix .sortedSet k' ++ y := by
    intro x y k k' h
    have := (isRecord_of_isPrefix (t := .geo) rfl (prefix_append (recordPrefix .geo k) x)).type_eq
      (h ▸ isRecord_of_isPrefix (t := .sortedSet) rfl (prefix_append _ y))
    cases this
  have hgeo : ∀ {p}, IsRecord .geo key p ↔ recordPrefix .geo key <+: p := isRecord_collection rfl
  have hset : ∀ {p}, IsRecord .sortedSet key p ↔ recordPrefix .sortedSet key <+: p :=
    isRecord_collection rfl
  constructor
  · simp only [mem_cons, not_mem_nil, or_false, exists_eq_or_imp, exists_eq_left, hgeo, hset]
    rintro p (hp | hp)
    · rw [hget, if_pos hp, ite_self, ite_self]
    · rw [hget, if_pos hp, ite_self]
  · rw [hget, if_pos rfl]
  · rw [hget, if_neg htypes, if_neg (not_recordPrefix_typeOfKeyGet _ _ _),
      if_neg (not_recordPrefix_typeOfKeyGet _ _ _), if_pos rfl]
  · simp only [mem_cons, not_mem_nil, or_false, exists_eq_or_imp, exists_eq_left, hgeo,
      hset, forall_eq_or_imp, forall_eq, recordName_collection (t := .geo) rfl,
      recordName_collection (t := .sortedSet) rfl, not_or]
    constructor
    · rintro x e he ⟨hx, hx'⟩
      rw [hget, if_neg (recordPrefix_append_ne_typeOfKeyGet _ _ _ _), if_neg hx', if_neg hx,
        if_neg (recordPrefix_append_ne_typeOfKeyGet _ _ _ _),
        hkeep₂ _ fun y hy => absurd hy hfamilies, hcopy₁ x e he]
    · rintro x e he ⟨hx, hx'⟩
      rw [hget, if_neg (recordPrefix_append_ne_typeOfKeyGet _ _ _ _), if_neg hx', if_neg hx,
        if_neg (recordPrefix_append_ne_typeOfKeyGet _ _ _ _), hcopy₂ x e]
      rw [hkeep₁ _ fun y hy => absurd hy.symm hfamilies, he]
  · simp only [mem_cons, not_mem_nil, or_false, exists_eq_or_imp, exists_eq_left, hgeo,
      hset, forall_eq_or_imp, forall_eq, recordName_collection (t := .geo) rfl,
      recordName_collection (t := .sortedSet) rfl, not_or]
    rintro p hold hnew ⟨hp, hp'⟩ ⟨hx, hx'⟩
    rw [hget, if_neg hold, if_neg hp', if_neg hp, if_neg hnew, hkeep₂, hkeep₁ p hx]
    intro x hpx
    rw [hkeep₁ _ fun y hy => absurd hy.symm hfamilies, hx' x hpx]

theorem moves_renameData (hne : key ≠ newKey)
    (hrun : renameData now key newKey t db = .ok ((), db')) :
    Moves now (families t) t.name key newKey db db' := by
  have collection : ∀ t, t.isPlain = false → renameCollection now t key newKey db = .ok ((), db') →
      Moves now [t] t.name key newKey db db' := by
    intro t ht h
    obtain ⟨db₁, hrun₁, hmoved⟩ := renameCollection_spec now t db hne
    rw [h] at hrun₁
    cases hrun₁
    exact moves_collection ht hmoved
  cases t with
  | geo => exact moves_geo hne hrun
  | string | json | hyperLogLog => exact moves_plain rfl hne hrun
  | list | hash | set | sortedSet | stream | timeSeries => exact collection _ rfl hrun

/-- What a rename that succeeds leaves of a store. -/
structure Outcome (now : Nat) (key newKey : Bytes) (db db' : Db) : Prop where
  oldType : db'[typeOfKeyGet key]? = none
  newType : db'[typeOfKeyGet newKey]?.map Entry.value = db[typeOfKeyGet key]?.map Entry.value
  types : ∀ k, k ≠ key → k ≠ newKey → db'[typeOfKeyGet k]? = db[typeOfKeyGet k]?
  left : ∀ p, Removes db key p → db'[p]? = none
  copied : ∀ f x e, Stores db key f → db[recordName f key x]? = some e →
    ¬ Removes db newKey (recordName f key x) → ¬ Removes db key (recordName f newKey x) →
    db'[recordName f newKey x]? = some ⟨e.value, keptExpiry now e⟩
  swept : ∀ p, ¬ Removes db key p → Removes db newKey p →
    (∀ f x, Stores db key f → p = recordName f newKey x →
      db[recordName f key x]? = none ∨ Removes db newKey (recordName f key x)) → db'[p]? = none
  kept : ∀ p, (∀ k, p ≠ typeOfKeyGet k) → ¬ Removes db key p → ¬ Removes db newKey p →
    (∀ f x, Stores db key f → p = recordName f newKey x →
      db[recordName f key x]? = none ∨ Removes db newKey (recordName f key x)) → db'[p]? = db[p]?

theorem outcome_of_moves {fs : List KeyType} {e : Entry} {db₁ : Db}
    (htype : db[typeOfKeyGet key]? = some e) (hfs : ∀ f, Stores db key f ↔ f ∈ fs)
    (hswept : ∀ p, Removes db newKey p → db₁[p]? = none)
    (hrest : ∀ p, p ≠ typeOfKeyGet newKey → ¬ Removes db newKey p → db₁[p]? = db[p]?)
    (hmoves : Moves now fs e.value key newKey db₁ db') : Outcome now key newKey db db' := by
  have hremoves : ∀ p, Removes db key p ↔ ∃ f ∈ fs, IsRecord f key p := by
    intro p
    simp only [Removes, hfs]
  -- No record of the old key that the copy loop sees has gone with the destination.
  have hseen : ∀ p, (∀ f x, Stores db key f → p = recordName f newKey x →
      db[recordName f key x]? = none ∨ Removes db newKey (recordName f key x)) →
      ∀ f ∈ fs, ∀ x, p = recordName f newKey x → db₁[recordName f key x]? = none := by
    intro p hp f hf x hx
    by_cases hremove : Removes db newKey (recordName f key x)
    · exact hswept _ hremove
    · rw [hrest _ (recordName_ne_typeOfKeyGet f key x newKey) hremove]
      exact (hp f x ((hfs f).mpr hf) hx).resolve_right hremove
  have hkept : ∀ p, p ≠ typeOfKeyGet key → p ≠ typeOfKeyGet newKey → ¬ Removes db key p →
      (∀ f x, Stores db key f → p = recordName f newKey x →
        db[recordName f key x]? = none ∨ Removes db newKey (recordName f key x)) →
      db'[p]? = db₁[p]? := by
    intro p hold hnew hp hcopy
    exact hmoves.kept p hold hnew (fun h => hp ((hremoves p).mpr h)) (hseen p hcopy)
  constructor
  · exact hmoves.oldType
  · rw [hmoves.newType, htype]
    rfl
  · intro k hk hk'
    have hold : typeOfKeyGet k ≠ typeOfKeyGet key := fun h => hk (typeOfKeyGet_injective h)
    have hnew : typeOfKeyGet k ≠ typeOfKeyGet newKey := fun h => hk' (typeOfKeyGet_injective h)
    rw [hkept _ hold hnew (not_removes_typeOfKeyGet db key k) fun f x _ h =>
      absurd h.symm (recordName_ne_typeOfKeyGet f newKey x k)]
    exact hrest _ hnew (not_removes_typeOfKeyGet db newKey k)
  · intro p hp
    exact hmoves.gone p ((hremoves p).mp hp)
  · intro f x e' hf he' hnew hold
    apply hmoves.copied f ((hfs f).mp hf) x e'
    · rw [hrest _ (recordName_ne_typeOfKeyGet f key x newKey) hnew, he']
    · exact fun h => hold ((hremoves _).mpr h)
  · intro p hold hnew hcopy
    have htypes : ∀ k, p ≠ typeOfKeyGet k := by
      rintro k rfl
      exact not_removes_typeOfKeyGet db newKey k hnew
    rw [hkept p (htypes key) (htypes newKey) hold hcopy, hswept p hnew]
  · intro p htypes hold hnew hcopy
    rw [hkept p (htypes key) (htypes newKey) hold hcopy, hrest p (htypes newKey) hnew]

theorem renameTxn_eq {e : Entry} (h : db[typeOfKeyGet key]? = some e) :
    renameTxn now key newKey db = (do
      deleteDestination newKey
      match KeyType.ofName e.value with
      | none => do
        Txn.set (typeOfKeyGet newKey) e.value
        Txn.delete (typeOfKeyGet key)
      | some t => renameData now key newKey t : Txn Err Unit) db := by
  rw [renameTxn, Txn.get_bind]
  generalize db[typeOfKeyGet key]? = found at h ⊢
  subst h
  rfl

theorem outcome_renameTxn (hne : key ≠ newKey)
    (hrun : renameTxn now key newKey db = .ok ((), db')) : Outcome now key newKey db db' := by
  have htypes : typeOfKeyGet newKey ≠ typeOfKeyGet key := fun h => hne (typeOfKeyGet_injective h).symm
  cases hget : db[typeOfKeyGet key]? with
  | none =>
    rw [renameTxn_absent hget] at hrun
    cases hrun
  | some e =>
    rw [renameTxn_eq hget] at hrun
    obtain ⟨db₁, hdest, -, hswept, hrest⟩ := deleteDestination_spec newKey db
    rw [Txn.bind_apply, hdest] at hrun
    cases ht : KeyType.ofName e.value with
    | none =>
      rw [ht] at hrun
      cases hrun
      have hfs : ∀ f, Stores db key f ↔ f ∈ ([] : List KeyType) := by
        intro f
        simp only [not_mem_nil, iff_false]
        rintro ⟨e', t, he', ht', -⟩
        rw [hget] at he'
        cases he'
        rw [ht] at ht'
        cases ht'
      refine outcome_of_moves hget hfs hswept hrest ⟨nofun, ?_, ?_, nofun, ?_⟩
      · rw [getElem?_erase_ite, if_pos rfl]
      · rw [getElem?_erase_ite, if_neg htypes, getElem?_insert_ite, if_pos rfl]
      · intro p hold hnew _ _
        rw [getElem?_erase_ite, if_neg hold, getElem?_insert_ite, if_neg hnew]
    | some t =>
      rw [ht] at hrun
      refine outcome_of_moves hget (fun f => stores_iff hget ht) hswept hrest ?_
      rw [KeyType.eq_name_of_ofName ht]
      exact moves_renameData hne hrun

theorem renamePlain_ok_iff : (∃ db', renamePlain now t key newKey db = .ok ((), db')) ↔
    db[t.tag ++ key]? ≠ none := by
  rw [renamePlain, Txn.get_bind]
  cases hget : db[t.tag ++ key]? with
  | none =>
    constructor
    · rintro ⟨db', h⟩
      cases h
    · intro h
      exact absurd rfl h
  | some e => exact ⟨fun _ => Option.some_ne_none e, fun _ => ⟨_, rfl⟩⟩

theorem renameData_ok_iff : (∃ db', renameData now key newKey t db = .ok ((), db')) ↔
    (t.isPlain = true → db[t.tag ++ key]? ≠ none) := by
  cases t with
  | geo =>
    obtain ⟨db₁, hrun₁, -⟩ := copyKeysByPrefix_spec now .geo key newKey db
    obtain ⟨db₂, hrun₂, -⟩ := copyKeysByPrefix_spec now .sortedSet key newKey db₁
    exact ⟨fun _ => nofun,
      fun _ => ⟨_, Txn.bind_eq_ok.mpr ⟨_, _, hrun₁, Txn.bind_eq_ok.mpr ⟨_, _, hrun₂, rfl⟩⟩⟩⟩
  | string | json | hyperLogLog =>
    exact renamePlain_ok_iff.trans ⟨fun h _ => h, fun h => h rfl⟩
  | list | hash | set | sortedSet | stream | timeSeries =>
    obtain ⟨db₁, hrun, -⟩ := copyKeysByPrefix_spec now _ key newKey db
    exact ⟨fun _ => nofun, fun _ => ⟨_, Txn.bind_eq_ok.mpr ⟨_, _, hrun, rfl⟩⟩⟩

/-- The transaction fails for want of the key or of a plain key's data record, and for nothing
else. -/
theorem renameTxn_ok_iff (now : Nat) (hne : key ≠ newKey) :
    (∃ db', renameTxn now key newKey db = .ok ((), db')) ↔ Found db key := by
  cases hget : db[typeOfKeyGet key]? with
  | none =>
    rw [renameTxn_absent hget]
    constructor
    · rintro ⟨db', h⟩
      cases h
    · rintro ⟨e, he, -⟩
      rw [hget] at he
      cases he
  | some e =>
    have hfound : Found db key ↔
        ∀ t, KeyType.ofName e.value = some t → t.isPlain = true → db[t.tag ++ key]? ≠ none := by
      simp [Found, hget]
    obtain ⟨db₁, hdest, -, -, hrest⟩ := deleteDestination_spec newKey db
    rw [renameTxn_eq hget, hfound, Txn.bind_apply, hdest]
    cases ht : KeyType.ofName e.value with
    | none =>
      constructor
      · intro _ t ht'
        cases ht'
      · intro _
        exact ⟨_, rfl⟩
    | some t =>
      have hdata : t.isPlain = true → db₁[t.tag ++ key]? = db[t.tag ++ key]? := by
        intro hplain
        apply hrest _ (typeOfKeyGet_ne_tag_append newKey t key).symm
        -- A plain key's record is no other key's.
        rintro ⟨f, -, hf⟩
        obtain rfl := hf.type_eq (isRecord_plain hplain)
        rw [IsRecord, if_pos hplain] at hf
        exact hne (append_cancel_left hf)
      constructor
      · intro h t' ht' hplain
        cases ht'
        rw [← hdata hplain]
        exact renameData_ok_iff.mp h hplain
      · intro h
        apply renameData_ok_iff.mpr
        intro hplain
        rw [hdata hplain]
        exact h t rfl hplain

end Transaction

/-! ## Correctness -/

section Correctness

variable {now : Nat} {key newKey : Bytes} {db db' : Db}

/-- A name that is a copy of nothing, when a suffix stands for no record. -/
theorem no_copy {f : KeyType} {x : Bytes}
    (h : db[recordName f key x]? = none ∨ Removes db newKey (recordName f key x)) (g : KeyType)
    (y : Bytes) (hname : recordName f newKey x = recordName g newKey y) :
    db[recordName g key y]? = none ∨ Removes db newKey (recordName g key y) := by
  obtain rfl := family_eq hname
  rwa [← recordName_congr hname key]

theorem Outcome.separate (h : Outcome now key newKey db db') (hr : Renamed key newKey db db') :
    Separate now key newKey db := by
  have hkept : ∀ f x e, Stores db key f → db[recordName f key x]? = some e →
      ¬ Removes db newKey (recordName f key x) ∧ ¬ Removes db key (recordName f newKey x) ∧
        keptExpiry now e = e.expiresAt := by
    intro f x e hf he
    have hvalue : db'[recordName f newKey x]? = some e := (hr.value f x hf).trans he
    have hleft : ¬ Removes db key (recordName f newKey x) := by
      intro hremove
      rw [h.left _ hremove] at hvalue
      cases hvalue
    have hswept : ¬ Removes db newKey (recordName f key x) := by
      intro hremove
      rw [h.swept _ hleft (hremove.stores.removes x) fun g y _ =>
        no_copy (.inr hremove) g y] at hvalue
      cases hvalue
    rw [h.copied f x e hf he hswept hleft] at hvalue
    exact ⟨hswept, hleft, congrArg Entry.expiresAt (Option.some.inj hvalue)⟩
  refine ⟨hkept, ?_, ?_⟩
  · intro f x hf hnone hstale
    by_contra hremove
    obtain ⟨hnew, hold⟩ := not_or.mp hremove
    apply hstale
    rw [← h.kept _ (recordName_ne_typeOfKeyGet f newKey x) hold hnew fun g y _ =>
      no_copy (.inl hnone) g y, hr.value f x hf, hnone]
  · intro k f x hk hk' hf
    have hsame : db'[recordName f k x]? = db[recordName f k x]? := (hr.others k hk hk').2 f x hf
    have hleft : db[recordName f k x]? ≠ none → ¬ Removes db key (recordName f k x) := by
      intro hrecord hremove
      rw [← hsame] at hrecord
      exact hrecord (h.left _ hremove)
    refine ⟨hleft, ?_, ?_⟩
    · intro y e hkey hname he
      rw [← hsame, hname, hr.value f y hkey, he]
    · intro hrecord hremove
      by_contra hcopy
      rw [← hsame] at hrecord
      apply hrecord
      apply h.swept _ (hleft (hsame ▸ hrecord)) hremove
      intro g y hg hname
      obtain rfl := family_eq hname
      by_contra hcopied
      exact hcopy ⟨y, hg, hname, fun hnone => hcopied (.inl hnone)⟩

theorem Outcome.renamed (h : Outcome now key newKey db db') (hs : Separate now key newKey db) :
    Renamed key newKey db db' := by
  have hcopied : ∀ f x e, Stores db key f → db[recordName f key x]? = some e →
      db'[recordName f newKey x]? = some e := by
    intro f x e hf he
    obtain ⟨hnew, hold, hexpiry⟩ := hs.kept f x e hf he
    rw [h.copied f x e hf he hnew hold, hexpiry]
  refine ⟨h.newType, ?_, h.oldType, ?_, fun k hk hk' => ⟨h.types k hk hk', ?_⟩⟩
  · intro f x hf
    cases he : db[recordName f key x]? with
    | some e => exact hcopied f x e hf he
    | none =>
      have hcopy : ∀ g y, Stores db key g → recordName f newKey x = recordName g newKey y →
          db[recordName g key y]? = none ∨ Removes db newKey (recordName g key y) :=
        fun g y _ => no_copy (.inl he) g y
      by_cases hold : Removes db key (recordName f newKey x)
      · exact h.left _ hold
      · by_cases hnew : Removes db newKey (recordName f newKey x)
        · exact h.swept _ hold hnew hcopy
        · rw [h.kept _ (recordName_ne_typeOfKeyGet f newKey x) hold hnew hcopy]
          by_contra hstale
          exact (hs.clean f x hf he hstale).elim hnew hold
  · intro f x hnew hold
    apply h.swept _ (fun hremove => hold hremove.stores) (hnew.removes x)
    intro g y hg hname
    obtain rfl := family_eq hname
    exact absurd hg hold
  · intro f x hf
    obtain ⟨hleft, hreplaced, hswept⟩ := hs.others k f x hk hk' hf
    by_cases hold : Removes db key (recordName f k x)
    · rw [h.left _ hold]
      by_contra hrecord
      exact hleft (Ne.symm hrecord) hold
    · by_cases hcopy : ∃ y, Stores db key f ∧ recordName f k x = recordName f newKey y ∧
          db[recordName f key y]? ≠ none
      · obtain ⟨y, hkey, hname, hrecord⟩ := hcopy
        obtain ⟨e, he⟩ := Option.ne_none_iff_exists'.mp hrecord
        rw [hreplaced y e hkey hname he, hname, hcopied f y e hkey he]
      · have hnone : ∀ g y, Stores db key g → recordName f k x = recordName g newKey y →
            db[recordName g key y]? = none ∨ Removes db newKey (recordName g key y) := by
          intro g y hg hname
          obtain rfl := family_eq hname
          by_contra hcopied
          exact hcopy ⟨y, hg, hname, fun hnone => hcopied (.inl hnone)⟩
        by_cases hnew : Removes db newKey (recordName f k x)
        · rw [h.swept _ hold hnew hnone]
          by_contra hrecord
          exact hcopy (hswept (Ne.symm hrecord) hnew)
        · exact h.kept _ (recordName_ne_typeOfKeyGet f k x) hold hnew hnone

/-- `RENAME` is correct just where the names involved are separate. -/
theorem rename_correct_iff (now : Nat) (key newKey : Bytes) (db : Db) :
    Correct now key newKey db ↔
      (key ≠ newKey → Found (visible (unix now) db) key →
        Separate now key newKey (visible (unix now) db)) := by
  by_cases hne : key = newKey
  · subst hne
    have hrun : rename now key key db = (.ok (), db) := by
      rw [rename, if_pos rfl]
      rfl
    simp [Correct, hrun]
  · have hrename : rename now key newKey db = update now (renameTxn now key newKey) db := by
      rw [rename, if_neg hne]
    cases hrun : renameTxn now key newKey (visible (unix now) db) with
    | error e =>
      have hfailed : rename now key newKey db = (.error e, db) :=
        hrename.trans (Run.update_of_error hrun)
      have hfound : ¬ Found (visible (unix now) db) key := by
        intro hfound
        obtain ⟨db', hok⟩ := (renameTxn_ok_iff now hne).mpr hfound
        rw [hrun] at hok
        cases hok
      simp [Correct, hfailed, hfound]
    | ok r =>
      obtain ⟨⟨⟩, db'⟩ := r
      have hok : rename now key newKey db = (.ok (), db') :=
        hrename.trans (Run.update_eq_ok.mpr hrun)
      have hfound : Found (visible (unix now) db) key :=
        (renameTxn_ok_iff now hne).mp ⟨db', hrun⟩
      have houtcome := outcome_renameTxn hne hrun
      have hcorrect : Correct now key newKey db ↔ Renamed key newKey (visible (unix now) db) db' := by
        simp only [Correct, hok, hne, if_false]
      rw [hcorrect]
      constructor
      · intro hrenamed _ _
        exact houtcome.separate hrenamed
      · intro hseparate
        exact houtcome.renamed (hseparate hne hfound)

theorem Removes.key_cases {f : KeyType} {k x : Bytes} (h : Removes db key (recordName f k x)) :
    key = k ∨ Overlap key k := by
  obtain ⟨g, -, hrecord⟩ := h
  obtain rfl := hrecord.type_eq (isRecord_recordName f k x)
  exact hrecord.key_cases (isRecord_recordName _ k x)

/-- Names that do not go on from one another are separate, if expiries are carried over and no
record is left under the new name. -/
theorem separate_of_not_overlap (hne : key ≠ newKey) (hoverlap : ¬ Overlap key newKey)
    (hothers : ∀ k f, k ≠ key → k ≠ newKey → Stores db k f → ¬ Overlap key k ∧ ¬ Overlap newKey k)
    (hexpiry : ∀ f x e, Stores db key f → db[recordName f key x]? = some e →
      keptExpiry now e = e.expiresAt)
    (hclean : ∀ f x, Stores db key f → db[recordName f newKey x]? ≠ none → Stores db newKey f) :
    Separate now key newKey db := by
  constructor
  · intro f x e hf he
    refine ⟨?_, ?_, hexpiry f x e hf he⟩
    · intro hremove
      exact hremove.key_cases.elim (fun h => hne h.symm) fun h => hoverlap h.symm
    · intro hremove
      exact hremove.key_cases.elim hne hoverlap
  · intro f x hf _ hstale
    exact .inl ((hclean f x hf hstale).removes x)
  · intro k f x hk hk' hf
    obtain ⟨hkey, hnew⟩ := hothers k f hk hk' hf
    have hname : ∀ y, recordName f k x ≠ recordName f newKey y := by
      intro y hy
      have hrecord := isRecord_recordName f newKey y
      rw [← hy] at hrecord
      exact (hrecord.key_cases (isRecord_recordName f k x)).elim (fun h => hk' h.symm) hnew
    refine ⟨?_, ?_, ?_⟩
    · intro _ hremove
      exact hremove.key_cases.elim (fun h => hk h.symm) hkey
    · intro y e _ hy
      exact absurd hy (hname y)
    · intro _ hremove
      exact absurd hremove.key_cases (not_or.mpr ⟨fun h => hk' h.symm, hnew⟩)

end Correctness

/-- A hash `a` with one field. -/
def hashAtA : Db := ((∅ : Db).insert (typeOfKeyGet "a") ⟨KeyType.hash.name, 0⟩).insert
    (hashKey "a" "f") ⟨"v", 0⟩

/-- `RENAME a a:b` leaves a hash `a:b` without its field. -/
theorem rename_loses_field : ¬ Correct 0 (ascii "a") (ascii "a:b") hashAtA := by
  intro h
  have hrun : rename 0 "a" "a:b" hashAtA =
      (.ok (), (rename 0 "a" "a:b" hashAtA).2) :=
    Prod.ext (by decide +kernel) rfl
  rw [Correct, hrun] at h
  have hstores : Stores (visible (unix 0) hashAtA) "a" .hash :=
    ⟨⟨KeyType.hash.name, 0⟩, .hash, by decide +kernel, rfl, by decide⟩
  have hvalue := Renamed.value (h : Renamed _ _ _ _) .hash "f" hstores
  revert hvalue
  decide +kernel

end BoltDB.Store.Renaming
