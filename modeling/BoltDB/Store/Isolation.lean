import BoltDB.Store.Commands

/-!
# Keys and their neighbours

A method on one key leaves what can be read of another key alone, as long as neither key is the
other followed by `:` and more. Where one is, a hash field of the first is a hash field of the
second: `HASH:user:1:name` is the field `1:name` of `user` and the field `name` of `user:1`.
-/

namespace BoltDB.Store

open Bytes KeyValue Hashes List

/-- In every reachable state, every read of `key` answers the same before and after. -/
def Undisturbed (c : Codec) (key : Bytes) (m : Nat → Run Err Unit) : Prop :=
  ∀ now db, Reachable c now db → ∀ r : Read, r.at c now key (m now db).2 = r.at c now key db

/-! ## Keys apart -/

theorem not_owns_of_not_overlap {key key' p : Bytes} (hne : key ≠ key') (h : ¬ Overlap key key')
    (hp : Owns key' p) : ¬ Owns key p := by
  intro hown
  rcases hown.key_cases hp with heq | hover
  · exact hne heq
  · exact h hover

theorem KeyOp.undisturbed {c : Codec} {key key' : Bytes} (hne : key ≠ key')
    (h : ¬ Overlap key key') (op : KeyOp) : Undisturbed c key' fun now => op.run c now key := by
  intro now db _ r
  refine (r.reads c now key').eq_of_commits (op.commits c now key) ?_ db
  exact fun p e hp hown => not_owns_of_not_overlap hne h hp hown.owns

theorem commits_rename (now : Nat) (key newKey : Bytes) :
    Commits (unix now) (OwnsEither key newKey) (rename now key newKey) :=
  commits_ite commits_pure (commits_update writes_renameTxn fun _ _ h _ => h)

theorem rename_undisturbed {c : Codec} {key newKey key' : Bytes} (hne : key ≠ key')
    (hnew : newKey ≠ key') (h : ¬ Overlap key key') (h' : ¬ Overlap newKey key') :
    Undisturbed c key' fun now => rename now key newKey := by
  intro now db _ r
  refine (r.reads c now key').eq_of_commits (commits_rename now key newKey) ?_ db
  intro p e hp hown
  rcases hown with hown | hown
  · exact not_owns_of_not_overlap hne h hp hown
  · exact not_owns_of_not_overlap hnew h' hp hown

/-! ## Stores with empty fields -/

/-- No entry expires, and the fields of hashes have empty values. -/
structure Blank (db : Db) : Prop where
  permanent : ∀ {p : Bytes} {e : Entry}, db[p]? = some e → e.expiresAt = 0
  value : ∀ {key p : Bytes} {e : Entry}, db[p]? = some e → recordPrefix .hash key <+: p → fieldOf p ≠ countField →
    e.value = []

/-- Some record makes `f` a field of `key`. -/
def HasField (key f : Bytes) (db : Db) : Prop :=
  f ≠ countField ∧ ∃ p e, recordPrefix .hash key <+: p ∧ db[p]? = some e ∧ fieldOf p = f

theorem blank_empty : Blank ∅ where
  permanent h := by cases h
  value h := by cases h

variable {db : Db}

theorem Blank.visible (h : Blank db) (now : Nat) : visible now db = db := by
  apply Std.ExtTreeMap.ext_getElem?
  intro p
  rw [getElem?_visible]
  cases hget : db[p]? with
  | none => rfl
  | some e =>
    rw [Option.filter_some, Entry.live, h.permanent hget]
    rfl

theorem getElem?_withField (key field : Bytes) (n : UInt64) (db : Db) (p : Bytes) :
    (withField key field n db)[p]? =
      if p = hashCountKey key then some ⟨uint64ToBytes n, 0⟩
      else if p = hashKey key field then some ⟨[], 0⟩
      else if p = typeOfKeyGet key then some ⟨KeyType.hash.name, 0⟩ else db[p]? := by
  rw [withField, getElem?_insert_ite, getElem?_insert_ite, getElem?_insert_ite]

theorem Blank.withField (h : Blank db) (key field : Bytes) (n : UInt64) :
    Blank (withField key field n db) := by
  constructor
  · intro p e he
    rw [getElem?_withField] at he
    split at he
    · cases he; rfl
    · split at he
      · cases he; rfl
      · split at he
        · cases he; rfl
        · exact h.permanent he
  · intro key' p e he hp hf
    rw [getElem?_withField] at he
    split at he
    · next hcount => exact absurd (hcount ▸ fieldOf_hashCountKey key) hf
    · split at he
      · cases he; rfl
      · split at he
        · next htype => exact absurd (htype ▸ hp) (not_recordPrefix_typeOfKeyGet _ _ _)
        · exact h.value he hp hf

theorem keptExpiry_permanent {e : Entry} (h : e.expiresAt = 0) (now : Nat) :
    keptExpiry now e = 0 := by
  rw [keptExpiry, h]
  exact if_neg fun hlt => Nat.not_lt_zero _ hlt.1

theorem Moved.getElem?_cases {now : Nat} {t : KeyType} {key newKey : Bytes} {db' : Db}
    (h : Moved now t key newKey db db') {p : Bytes} {e : Entry} (he : db'[p]? = some e) :
    p = typeOfKeyGet newKey ∧ e = ⟨t.name, 0⟩ ∨
      (∃ x e', p = recordPrefix t newKey ++ x ∧ db[recordPrefix t key ++ x]? = some e' ∧
        e = ⟨e'.value, keptExpiry now e'⟩) ∨ db[p]? = some e := by
  by_cases hold : p = typeOfKeyGet key
  · rw [hold, h.oldType] at he
    cases he
  by_cases hnew : p = typeOfKeyGet newKey
  · rw [hnew, h.newType] at he
    exact .inl ⟨hnew, (Option.some.inj he).symm⟩
  by_cases hp : recordPrefix t key <+: p
  · rw [h.gone p hp] at he
    cases he
  by_cases hcopy : ∃ x e', p = recordPrefix t newKey ++ x ∧ db[recordPrefix t key ++ x]? = some e'
  · obtain ⟨x, e', rfl, hget⟩ := hcopy
    rw [h.copied x e' hget hp] at he
    exact .inr (.inl ⟨x, e', rfl, hget, (Option.some.inj he).symm⟩)
  · rw [h.kept p hold hnew hp] at he
    · exact .inr (.inr he)
    · intro x hx
      cases hget : db[recordPrefix t key ++ x]? with
      | none => rfl
      | some e' => exact absurd ⟨x, e', hx, hget⟩ hcopy

theorem Blank.moved {now : Nat} {key newKey : Bytes} {db' : Db} (h : Blank db)
    (hmoved : Moved now .hash key newKey db db') : Blank db' := by
  constructor
  · intro p e he
    rcases hmoved.getElem?_cases he with ⟨-, rfl⟩ | ⟨x, e', -, hget, rfl⟩ | hget
    · rfl
    · exact keptExpiry_permanent (h.permanent hget) now
    · exact h.permanent hget
  · intro key' p e he hp hf
    rcases hmoved.getElem?_cases he with ⟨rfl, -⟩ | ⟨x, e', rfl, hget, rfl⟩ | hget
    · exact absurd hp (not_recordPrefix_typeOfKeyGet _ _ _)
    · apply h.value hget (prefix_append _ _)
      rwa [fieldOf_recordPrefix] at hf ⊢
    · exact h.value hget hp hf

theorem Blank.withoutKey (h : Blank db) (key : Bytes) : Blank (withoutKey .hash key db) := by
  have hsub : ∀ {p : Bytes} {e : Entry}, (Store.withoutKey .hash key db)[p]? = some e → db[p]? = some e := by
    intro p e he
    rw [getElem?_withoutKey] at he
    split at he
    · cases he
    · exact he
  exact ⟨fun he => h.permanent (hsub he), fun he => h.value (hsub he)⟩

/-! ## What the methods do there -/

section Runs

variable {c : Codec} {now : Nat} {key : Bytes} {db : Db}

theorem Blank.hSet (h : Blank db) (c : Codec) (now : Nat) (key field : Bytes)
    (htype : ∀ e, db[typeOfKeyGet key]? = some e → e.value = KeyType.hash.name) :
    ∃ n, ((KeyOp.hash (.hSet field [])).run c now key db).2 = Hashes.withField key field n db := by
  obtain ⟨n, hn⟩ := hSetTxn_spec (c := c) field htype
  refine ⟨n, ?_⟩
  show (Run.update (unix now) (hSetTxn c key field []) db).2 = _
  rw [Run.update, h.visible, hn]

theorem Blank.rename {newKey : Bytes} {db₁ : Db} {expiresAt : Nat} (h : Blank db) (now : Nat)
    (hne : key ≠ newKey) (htype : db[typeOfKeyGet key]? = some ⟨KeyType.hash.name, expiresAt⟩)
    (hdest : deleteDestination newKey db = .ok ((), db₁)) :
    Moved now .hash key newKey db₁ (Store.rename now key newKey db).2 := by
  obtain ⟨db', hrun, hmoved⟩ := renameTxn_hash now hne htype hdest
  have : (Store.rename now key newKey db).2 = db' := by
    rw [Store.rename, if_neg hne]
    show (Run.update (unix now) (renameTxn now key newKey) db).2 = _
    rw [Run.update, h.visible, hrun]
  rwa [this]

/-- `HGETALL` tells apart stores whose fields differ. -/
theorem Blank.hasField_iff {db' : Db} (h : Blank db) (h' : Blank db')
    (htype : db[typeOfKeyGet key]? = none) (htype' : db'[typeOfKeyGet key]? = none)
    (heq : Read.hGetAll.at c now key db' = Read.hGetAll.at c now key db) (f : Bytes) :
    HasField key f db' ↔ HasField key f db := by
  have hspec : ∀ d : Db, Blank d → d[typeOfKeyGet key]? = none →
      ∃ m : Std.ExtTreeMap Bytes Bytes compare,
        Read.hGetAll.at c now key d = .ok (.fields m.toList) ∧ ∀ f, f ∈ m ↔ HasField key f d := by
    intro d hd ht
    have hpass : ∀ e, d[typeOfKeyGet key]? = some e → e.value = KeyType.hash.name := by
      intro e he
      rw [ht] at he
      cases he
    obtain ⟨m, hm, hmem⟩ := hGetAll_spec (c := c) hpass fun p e hp he => hd.value he hp
    refine ⟨m, ?_, hmem⟩
    show Read.hGetAll.answer c now key (KeyValue.visible (unix now) d) = _
    rw [hd.visible, Read.answer, View.bind_apply, hm]
    rfl
  obtain ⟨m, hm, hmem⟩ := hspec db h htype
  obtain ⟨m', hm', hmem'⟩ := hspec db' h' htype'
  rw [hm, hm'] at heq
  have hmm : m' = m := Std.ExtTreeMap.ext_toList (.of_eq (Answer.fields.inj (Except.ok.inj heq)))
  rw [← hmem, ← hmem', hmm]

end Runs

/-! ## Keys that overlap -/

section Overlapping

variable {c : Codec} {key newKey key' : Bytes}

theorem recordPrefix_hash_extends (h : Extends key key') :
    ∃ x, recordPrefix .hash key' = hashKey key (x ++ ":") := by
  obtain ⟨x, rfl⟩ := h
  exact ⟨x, by simp [recordPrefix, hashKey]⟩

/-- Some field of the one hash is a field of the other, with an empty name. -/
theorem Overlap.hashKey (h : Overlap key key') :
    ∃ field, recordPrefix .hash key' <+: hashKey key field ∧ fieldOf (hashKey key field) = [] := by
  rcases h with h | h
  · obtain ⟨x, hx⟩ := recordPrefix_hash_extends h
    exact ⟨x ++ ":", hx ▸ prefix_rfl, fieldOf_hashKey_colon _ x⟩
  · obtain ⟨x, hx⟩ := recordPrefix_hash_extends h
    refine ⟨[], ?_, fieldOf_hashKey (by decide)⟩
    rw [Store.hashKey, append_nil, hx]
    exact prefix_append _ _

variable {field : Bytes} {db : Db} {n : UInt64}

theorem hasField_withField {f : Bytes} (hf : f ≠ countField)
    (hp : recordPrefix .hash key' <+: hashKey key field) (hfield : fieldOf (hashKey key field) = f) :
    HasField key' f (withField key field n db) := by
  have hcount : hashKey key field ≠ hashCountKey key := by
    intro heq
    rw [heq, fieldOf_hashCountKey] at hfield
    exact hf hfield.symm
  refine ⟨hf, hashKey key field, ⟨[], 0⟩, hp, ?_, hfield⟩
  rw [getElem?_withField, if_neg hcount, if_pos rfl]

theorem withField_typeOfKeyGet : (withField key field n db)[typeOfKeyGet key']? =
      if key' = key then some ⟨KeyType.hash.name, 0⟩ else db[typeOfKeyGet key']? := by
  have hrec : ∀ f, typeOfKeyGet key' ≠ hashKey key f := fun f h =>
    recordPrefix_append_ne_typeOfKeyGet _ _ _ _ h.symm
  have hcount : typeOfKeyGet key' ≠ hashCountKey key := hrec _
  rw [getElem?_withField, if_neg hcount, if_neg (hrec field)]
  congr 1
  exact propext ⟨typeOfKeyGet_injective, congrArg typeOfKeyGet⟩

theorem withField_other (hne : key ≠ key') :
    (withField key field n db)[typeOfKeyGet key']? = db[typeOfKeyGet key']? := by
  rw [withField_typeOfKeyGet, if_neg hne.symm]

theorem withField_self :
    (withField key field n db)[typeOfKeyGet key]? = some ⟨KeyType.hash.name, 0⟩ := by
  rw [withField_typeOfKeyGet, if_pos rfl]

theorem not_hasField_empty (f : Bytes) : ¬ HasField key f ∅ := by
  rintro ⟨-, p, e, -, he, -⟩
  cases he

theorem not_undisturbed_hSet (hne : key ≠ key') (h : Overlap key key') :
    ∃ op : KeyOp, ¬ Undisturbed c key' fun now => op.run c now key := by
  obtain ⟨field, hp, hfield⟩ := h.hashKey
  refine ⟨.hash (.hSet field []), fun hund => ?_⟩
  obtain ⟨n, hn⟩ := blank_empty.hSet c 0 key field fun _ => nofun
  have heq := hund 0 ∅ (.init 0) .hGetAll
  simp only [hn] at heq
  have hiff := blank_empty.hasField_iff (blank_empty.withField key field n) rfl
    (withField_other hne) heq []
  exact not_hasField_empty [] (hiff.mp (hasField_withField (by decide) hp hfield))

end Overlapping

/-! ## Renaming next to an overlapping key -/

section Renaming

variable {c : Codec} {key newKey key' : Bytes}

/-- A rename that leaves a key alone moves no field in or out of it. -/
theorem Undisturbed.hasField_iff {db db₁ : Db}
    (h : Undisturbed c key' fun now => rename now key newKey) (hreach : Reachable c 0 db)
    (hne : key ≠ newKey) (hkey : key ≠ key') (hnew : newKey ≠ key')
    (hdb : Blank db) (hdb₁ : Blank db₁)
    (htype : db[typeOfKeyGet key]? = some ⟨KeyType.hash.name, 0⟩)
    (hother : db[typeOfKeyGet key']? = none) (hother₁ : db₁[typeOfKeyGet key']? = none)
    (hdest : deleteDestination newKey db = .ok ((), db₁)) :
    ∃ db', Moved 0 .hash key newKey db₁ db' ∧ ∀ f, HasField key' f db' ↔ HasField key' f db := by
  have hmoved := hdb.rename 0 hne htype hdest
  refine ⟨_, hmoved, fun f => ?_⟩
  refine hdb.hasField_iff (hdb₁.moved hmoved) hother ?_ (h 0 db hreach .hGetAll) f
  rw [hmoved.kept, hother₁]
  · exact fun hc => hkey (typeOfKeyGet_injective hc).symm
  · exact fun hc => hnew (typeOfKeyGet_injective hc).symm
  · exact not_recordPrefix_typeOfKeyGet _ _ _
  · exact fun x hx => absurd hx.symm (recordPrefix_append_ne_typeOfKeyGet _ _ _ _)

/-- The same from a store with one field. -/
theorem Undisturbed.hasField_withField
    (h : Undisturbed c key' fun now => rename now key newKey)
    (hne : key ≠ newKey) (hkey : key ≠ key') (hnew : newKey ≠ key') (field : Bytes) :
    ∃ n db', Moved 0 .hash key newKey (withField key field n ∅) db' ∧
      ∀ f, HasField key' f db' ↔ HasField key' f (withField key field n ∅) := by
  obtain ⟨n, hn⟩ := blank_empty.hSet c 0 key field fun _ => nofun
  have hreach : Reachable c 0 (withField key field n ∅) :=
    hn ▸ Reachable.step (.single key (.hash (.hSet field []))) (.init 0)
  have hblank := blank_empty.withField key field n
  exact ⟨n, h.hasField_iff hreach hne hkey hnew hblank hblank withField_self (withField_other hkey)
    (withField_other hkey) (deleteDestination_absent (withField_other hne))⟩

theorem withField_empty_cases {field p : Bytes} {n : UInt64} {e : Entry}
    (h : (withField key field n ∅)[p]? = some e) :
    p = typeOfKeyGet key ∨ p = hashKey key field ∨ p = hashCountKey key := by
  rw [getElem?_withField] at h
  split at h
  · next hp => exact .inr (.inr hp)
  · split at h
    · next hp => exact .inr (.inl hp)
    · split at h
      · next hp => exact .inl hp
      · cases h

theorem recordPrefix_hash_cases {p : Bytes} (h : recordPrefix .hash key <+: p)
    (h' : recordPrefix .hash key' <+: p) : key = key' ∨ Overlap key key' :=
  IsRecord.key_cases (t := .hash) (isRecord_of_isPrefix rfl h) (isRecord_of_isPrefix rfl h')

/-- The hash of `key` takes the fields of `key'` along. -/
theorem not_undisturbed_of_extends (hne : key ≠ newKey) (hkey : key ≠ key') (hnew : newKey ≠ key')
    (h : Extends key key') : ¬ Undisturbed c key' fun now => rename now key newKey := by
  intro hund
  obtain ⟨x, hx⟩ := recordPrefix_hash_extends h
  obtain ⟨n, db', hmoved, hiff⟩ := hund.hasField_withField hne hkey hnew (x ++ ":")
  have hbefore : HasField key' [] (withField key (x ++ ":") n ∅) :=
    hasField_withField (by decide) (hx ▸ prefix_rfl) (fieldOf_hashKey_colon _ x)
  obtain ⟨-, p, e, hp, he, -⟩ := (hiff []).mpr hbefore
  rw [hmoved.gone p] at he
  · cases he
  · refine List.IsPrefix.trans ?_ hp
    rw [hx]
    exact prefix_append _ _

/-- A field of `key'` is part of the hash of `key`, and goes away with it. -/
theorem not_undisturbed_of_extended (hne : key ≠ newKey) (hkey : key ≠ key')
    (hnew : newKey ≠ key') (h : Extends key' key) (hnot : ¬ Extends key' newKey) :
    ¬ Undisturbed c key' fun now => rename now key newKey := by
  intro hund
  obtain ⟨x, hx⟩ := recordPrefix_hash_extends h
  obtain ⟨n, db', hmoved, hiff⟩ := hund.hasField_withField hne hkey hnew []
  have hbefore : HasField key' [] (withField key [] n ∅) := by
    refine hasField_withField (by decide) ?_ (fieldOf_hashKey (by decide))
    rw [hashKey, append_nil, hx]
    exact prefix_append _ _
  obtain ⟨-, p, e, hp, he, -⟩ := (hiff []).mpr hbefore
  have hgone : ¬ recordPrefix .hash key <+: p := by
    intro hc
    rw [hmoved.gone p hc] at he
    cases he
  rcases hmoved.getElem?_cases he with ⟨rfl, -⟩ | ⟨y, e', rfl, hget, -⟩ | hget
  · exact not_recordPrefix_typeOfKeyGet _ _ _ hp
  · -- the copies have no `:` after the new key, so they are fields of that key only
    have hy : 58 ∉ y := by
      rcases withField_empty_cases hget with hc | hc | hc
      · exact absurd hc (recordPrefix_append_ne_typeOfKeyGet _ _ _ _)
      · obtain rfl := append_cancel_left hc
        exact not_mem_nil
      · obtain rfl := append_cancel_left hc
        decide
    rcases recordPrefix_hash_cases hp (prefix_append _ _) with rfl | hover | ⟨z, rfl⟩
    · exact hnew rfl
    · exact hnot hover
    · obtain ⟨w, hw⟩ := hp
      have : y = z ++ ":" ++ w := by
        simp only [recordPrefix, append_assoc] at hw
        simpa using (append_cancel_left (append_cancel_left
          (append_cancel_left hw))).symm
      rw [this] at hy
      simp [ascii] at hy
  · rcases withField_empty_cases hget with rfl | rfl | rfl
    · exact not_recordPrefix_typeOfKeyGet _ _ _ hp
    · exact hgone (prefix_append _ _)
    · exact hgone (prefix_append _ _)

/-- A field of the hash of `key` arrives under a name that is a field of `key'`. -/
theorem not_undisturbed_of_newKey_extends (hne : key ≠ newKey) (hkey : key ≠ key')
    (hnew : newKey ≠ key') (h : Extends newKey key') (hnot : ¬ Overlap key key') :
    ¬ Undisturbed c key' fun now => rename now key newKey := by
  intro hund
  obtain ⟨x, hx⟩ := recordPrefix_hash_extends h
  obtain ⟨n, db', hmoved, hiff⟩ := hund.hasField_withField hne hkey hnew (x ++ ":")
  have apart : ∀ p, recordPrefix .hash key <+: p → ¬ recordPrefix .hash key' <+: p := by
    intro p hp hp'
    rcases recordPrefix_hash_cases hp hp' with rfl | hover
    · exact hkey rfl
    · exact hnot hover
  have hget : (withField key (x ++ ":") n ∅)[hashKey key (x ++ ":")]? = some ⟨[], 0⟩ := by
    rw [getElem?_withField, if_neg, if_pos rfl]
    intro hc
    have := fieldOf_hashKey_colon key x
    rw [hc, fieldOf_hashCountKey] at this
    cases this
  have hafter : HasField key' [] db' := by
    refine ⟨by decide, _, _, ?_, hmoved.copied _ _ hget ?_, fieldOf_hashKey_colon _ x⟩
    · exact hx ▸ prefix_rfl
    · intro hc
      exact apart _ hc (hx ▸ prefix_rfl)
  obtain ⟨-, p, e, hp, he, -⟩ := (hiff []).mp hafter
  rcases withField_empty_cases he with rfl | rfl | rfl
  · exact not_recordPrefix_typeOfKeyGet _ _ _ hp
  · exact apart _ (prefix_append _ _) hp
  · exact apart _ (prefix_append _ _) hp

theorem HasField.withField {f : Bytes} {db : Db} (h : HasField key' f db) (key field : Bytes)
    (n : UInt64) : HasField key' f (withField key field n db) := by
  obtain ⟨hf, p, e, hp, he, hfield⟩ := h
  have hsome : ∃ e', (Hashes.withField key field n db)[p]? = some e' := by
    rw [getElem?_withField, he]
    split
    · exact ⟨_, rfl⟩
    · split
      · exact ⟨_, rfl⟩
      · split
        · exact ⟨_, rfl⟩
        · exact ⟨e, rfl⟩
  obtain ⟨e', he'⟩ := hsome
  exact ⟨hf, p, e', hp, he', hfield⟩

/-- When the hash with the field `b` is gone, no record has that field. -/
theorem fieldOf_ne_of_withoutKey {n m : UInt64} {k p : Bytes} {e : Entry}
    (hk : recordPrefix .hash k <+: p)
    (he : (withoutKey .hash newKey
      (withField key [] n (withField newKey "b" m ∅)))[p]? = some e) :
    fieldOf p ≠ "b" := by
  intro hf
  rw [getElem?_withoutKey] at he
  split at he
  · cases he
  · next hp =>
    rw [getElem?_withField] at he
    split at he
    · next hc =>
      rw [hc, fieldOf_hashCountKey] at hf
      cases hf
    · split at he
      · next hc =>
        rw [hc, fieldOf_hashKey (by decide)] at hf
        cases hf
      · split at he
        · next hc => exact not_recordPrefix_typeOfKeyGet _ _ _ (hc ▸ hk)
        · rcases withField_empty_cases he with hc | hc | hc
          · exact hp (.inl hc)
          · exact hp (.inr (hc ▸ prefix_append _ _))
          · exact hp (.inr (hc ▸ prefix_append _ _))

/-- The old value of the new key, which is deleted, has a field of `key'`. -/
theorem not_undisturbed_of_newKey_extended (hne : key ≠ newKey) (hkey : key ≠ key')
    (hnew : newKey ≠ key') (h : Extends key' newKey) :
    ¬ Undisturbed c key' fun now => rename now key newKey := by
  intro hund
  have hb : fieldOf (hashKey newKey "b") = "b" := fieldOf_hashKey (by decide)
  obtain ⟨x, hx⟩ := recordPrefix_hash_extends h
  obtain ⟨m, hm⟩ := blank_empty.hSet c 0 newKey "b" fun _ => nofun
  have hfirst := blank_empty.withField newKey "b" m
  have htype₁ : (withField newKey "b" m ∅)[typeOfKeyGet key]? = none := withField_other hne.symm
  obtain ⟨n, hn⟩ := hfirst.hSet c 0 key [] fun e he => by rw [htype₁] at he; cases he
  have hblank := hfirst.withField key [] n
  generalize hdb : withField key [] n (withField newKey "b" m ∅) = db at hn hblank
  have hreach : Reachable c 0 db := by
    have := Reachable.step (.single newKey (.hash (.hSet "b" []))) (.init (c := c) 0)
    exact hn ▸ Reachable.step (.single key (.hash (.hSet [] []))) (hm ▸ this)
  have htype : db[typeOfKeyGet key]? = some ⟨KeyType.hash.name, 0⟩ := hdb ▸ withField_self
  have htypeNew : db[typeOfKeyGet newKey]? = some ⟨KeyType.hash.name, 0⟩ := by
    rw [← hdb, withField_other hne, withField_self]
  have hother : db[typeOfKeyGet key']? = none := by
    rw [← hdb, withField_other hkey, withField_other hnew]
    rfl
  have hother₁ : (withoutKey .hash newKey db)[typeOfKeyGet key']? = none := by
    rw [getElem?_withoutKey, hother, ite_self]
  obtain ⟨db', hmoved, hiff⟩ := hund.hasField_iff hreach hne hkey hnew hblank
    (hblank.withoutKey newKey) htype hother hother₁ (deleteDestination_hash htypeNew)
  have hbefore : HasField key' "b" db := by
    rw [← hdb]
    refine HasField.withField (hasField_withField (by decide) ?_ hb) key [] n
    refine List.IsPrefix.trans ?_ (prefix_append _ _)
    rw [hx]
    exact prefix_append _ _
  obtain ⟨-, p, e, hp, he, hf⟩ := (hiff "b").mpr hbefore
  rcases hmoved.getElem?_cases he with ⟨rfl, -⟩ | ⟨y, e', rfl, hget, -⟩ | hget
  · exact not_recordPrefix_typeOfKeyGet _ _ _ hp
  · rw [← hdb] at hget
    refine fieldOf_ne_of_withoutKey (prefix_append _ _) hget ?_
    rw [fieldOf_recordPrefix] at hf ⊢
    exact hf
  · rw [← hdb] at hget
    exact fieldOf_ne_of_withoutKey hp hget hf

theorem not_undisturbed_rename (hne : key ≠ newKey) (hkey : key ≠ key') (hnew : newKey ≠ key')
    (h : Overlap key key' ∨ Overlap newKey key') :
    ¬ Undisturbed c key' fun now => rename now key newKey := by
  by_cases hext : Extends key' newKey
  · exact not_undisturbed_of_newKey_extended hne hkey hnew hext
  by_cases hover : Overlap key key'
  · rcases hover with hover | hover
    · exact not_undisturbed_of_extends hne hkey hnew hover
    · exact not_undisturbed_of_extended hne hkey hnew hover hext
  · have hover' := (h.resolve_left hover).resolve_right hext
    exact not_undisturbed_of_newKey_extends hne hkey hnew hover' hover

end Renaming

/-! ## The two together -/

/-- The methods on one key leave another key alone if and only if the two do not overlap; a rename
leaves a third key alone if and only if it overlaps neither the old nor the new name. -/
theorem undisturbed_iff_not_overlap (c : Codec) {key key' : Bytes} (hne : key ≠ key') :
    ((∀ op : KeyOp, Undisturbed c key' fun now => op.run c now key) ↔ ¬ Overlap key key') ∧
    ∀ newKey, newKey ≠ key' →
      ((Undisturbed c key' fun now => rename now key newKey) ↔
        key = newKey ∨ ¬ Overlap key key' ∧ ¬ Overlap newKey key') := by
  refine ⟨⟨fun h hover => ?_, fun h op => op.undisturbed hne h⟩, fun newKey hnew => ⟨fun h => ?_, ?_⟩⟩
  · obtain ⟨op, hop⟩ := not_undisturbed_hSet (c := c) hne hover
    exact hop (h op)
  · by_cases hsame : key = newKey
    · exact .inl hsame
    · refine .inr (not_or.mp fun hover => ?_)
      exact not_undisturbed_rename hsame hne hnew hover h
  · rintro (rfl | ⟨h, h'⟩)
    · intro now db _ r
      show r.at c now key' (rename now key key db).2 = _
      rw [rename, if_pos rfl]
      rfl
    · exact rename_undisturbed hne hnew h h'

theorem undisturbed_a_b :
    (∀ op : KeyOp,
      Undisturbed uncompressed (ascii "b") fun now => op.run uncompressed now (ascii "a")) ∧
      Undisturbed uncompressed (ascii "b") fun now => rename now (ascii "a") (ascii "c") :=
  have h := undisturbed_iff_not_overlap uncompressed (show ascii "a" ≠ ascii "b" by decide)
  ⟨h.1.mpr (by decide), (h.2 "c" (by decide)).mpr (.inr (by decide))⟩

/-- The hash `user:1` with a name, then the hash `user` with an age. -/
def twoUsers (now : Nat) : Db := ((KeyOp.hash (.hSet "age" "7")).run uncompressed now "user"
    ((KeyOp.hash (.hSet "name" "bob")).run uncompressed now "user:1" ∅).2).2

theorem reachable_twoUsers (now : Nat) : Reachable uncompressed now (twoUsers now) :=
  .step (.single _ _) (.step (.single _ _) (.init now))

/-- `DEL user` empties `user:1`: its `HLEN` goes from 1 to 0. -/
theorem del_user_disturbs_user_1 :
    ascii "user" ≠ ascii "user:1" ∧ ¬ Undisturbed uncompressed (ascii "user:1")
      fun now => KeyOp.del.run uncompressed now (ascii "user") := by
  refine ⟨by decide, fun h => ?_⟩
  have hsame := h 1700000000000000000 _ (reachable_twoUsers _) .hLen
  have hbefore : Read.hLen.at uncompressed 1700000000000000000 "user:1"
      (twoUsers 1700000000000000000) = .ok (.count 1) := by decide +kernel
  have hafter : Read.hLen.at uncompressed 1700000000000000000 "user:1"
      (KeyOp.del.run uncompressed 1700000000000000000 "user"
        (twoUsers 1700000000000000000)).2 = .ok (.count 0) := by decide +kernel
  rw [hbefore, hafter] at hsame
  cases hsame

end BoltDB.Store
