import BoltDB.Store.Cleanup

/-!
# When cleaning up is safe

`NextStartup` leaves every live key alone if and only if every key with a type has its primary record
and, for collections, the part of its name before the first `:` is such a key as well.
-/

namespace BoltDB.Store

open Bytes KeyValue Std.ExtTreeMap

/-! ## Live keys -/

def HasType (db : Db) (key : Bytes) (t : KeyType) : Prop := db[typeOfKeyGet key]? = some ⟨t.name, 0⟩

/-- A record of a live key: the `TYPE_` record and the data records of its type. A geo key has a
sorted set as well. -/
def Belongs (db : Db) (key p : Bytes) : Prop := ∃ t, HasType db key t ∧
    (p = typeOfKeyGet key ∨ IsRecord t key p ∨ t = .geo ∧ IsRecord .sortedSet key p)

/-- Cleaning up changes no answer about a live key, whatever the method, and what it deletes belongs
to no live key. -/
structure CleanupSafe (c : Codec) (now : Nat) (db : Db) : Prop where
  answers : ∀ key, (visible (unix now) db)[typeOfKeyGet key]? ≠ none → ∀ r : Read,
    r.at c now key (nextStartup now db).2 = r.at c now key db
  views : ∀ key t, HasType (visible (unix now) db) key t → ∀ (α : Type) (m : View Err α),
    Views t key m → m (visible (unix now) (nextStartup now db).2) = m (visible (unix now) db)
  deletes : ∀ p, (visible (unix now) db)[p]? ≠ none →
    (visible (unix now) (nextStartup now db).2)[p]? = none →
    ∀ key, ¬ Belongs (visible (unix now) db) key p

/-- The key has a type and its primary record. -/
def Anchored (db : Db) (key : Bytes) : Prop :=
  ∃ t, HasType db key t ∧ db[getKeyValueKey key t]? ≠ none

def Recoverable (db : Db) : Prop := ∀ key t, HasType db key t → Anchored db key ∧
    (t.isPlain = false → (t = .timeSeries → head key ≠ "rule") → Anchored db (head key))

/-! ## What stays -/

section Stays

variable {db db₁ db' : Db} {key : Bytes} {t : KeyType}

theorem HasType.unique {t' : KeyType} (h : HasType db key t) (h' : HasType db key t') : t = t' := by
  rw [HasType, h] at h'
  exact KeyType.name_injective (congrArg Entry.value (Option.some.inj h'))

theorem bare_iff (h : HasType db key t) : Bare db (typeOfKeyGet key) ↔ ¬ Anchored db key := by
  constructor
  · rintro ⟨key', t', e, hkey, hget, hname, hnone⟩ ⟨t'', htype, hprimary⟩
    obtain rfl := typeOfKeyGet_injective hkey
    rw [htype] at hget
    obtain rfl := Option.some.inj hget
    rw [KeyType.ofName_name] at hname
    obtain rfl := Option.some.inj hname
    exact hprimary hnone
  · intro hnot
    refine ⟨key, t, _, rfl, h, KeyType.ofName_name t, ?_⟩
    by_contra hprimary
    exact hnot ⟨t, h, hprimary⟩

theorem absent_of_not_anchored (hswept : Swept (Bare db) db db₁) (htyped : Typed db)
    (h : ¬ Anchored db key) : Absent db₁ key := by
  cases hget : db[typeOfKeyGet key]? with
  | none =>
    have hnot : ¬ Bare db (typeOfKeyGet key) := by
      rintro ⟨_, _, e, -, he, -⟩
      rw [hget] at he
      cases he
    rw [Absent, (hswept _).2 hnot, hget]
  | some e =>
    obtain ⟨t, rfl⟩ := htyped key e hget
    exact (hswept _).1 ((bare_iff hget).mpr h)

theorem Anchored.getElem?_eq (hswept : Swept (Bare db) db db₁) (h : Anchored db key) :
    db₁[typeOfKeyGet key]? = db[typeOfKeyGet key]? := by
  have hanchored := h
  obtain ⟨t, htype, -⟩ := h
  exact (hswept _).2 fun hbare => (bare_iff htype).mp hbare hanchored

theorem Anchored.not_absent (hswept : Swept (Bare db) db db₁) (h : Anchored db key) :
    ¬ Absent db₁ key := by
  have heq := h.getElem?_eq hswept
  obtain ⟨t, htype, -⟩ := h
  rw [Absent, heq, htype]
  exact Option.some_ne_none _

theorem head_append_colon (key x : Bytes) : head (key ++ ":" ++ x) = head key := by
  induction key with
  | nil => simp [head, ascii]
  | cons b key ih =>
    rw [List.cons_append, List.cons_append, head, head, List.takeWhile_cons, List.takeWhile_cons]
    split
    · exact congrArg (b :: ·) ih
    · rfl

/-- The records of a collection's key start like those of the first part of its name. -/
theorem recordPrefix_head (t : KeyType) (key x : Bytes) :
    ∃ y, recordPrefix t key ++ x = recordPrefix t (head key) ++ y := by
  have hcolon : 58 ∈ key ++ ":" ++ x := by simp [ascii]
  obtain ⟨y, hy⟩ := head_eq_append hcolon
  rw [head_append_colon] at hy
  refine ⟨y, ?_⟩
  simp only [recordPrefix, List.append_assoc] at hy ⊢
  rw [hy]

theorem IsRecord.append {p : Bytes} (h : IsRecord t key p) (ht : t.isPlain = false) :
    ∃ x, p = recordPrefix t key ++ x := by
  rw [IsRecord, ht, if_neg Bool.false_ne_true] at h
  obtain ⟨x, hx⟩ := h
  exact ⟨x, hx.symm⟩

/-- An orphan's key is the record's key, or the first part of it. -/
theorem Orphan.absent {t' : KeyType} {p : Bytes} (h : Orphan t' db p) (hp : IsRecord t key p) :
    t.isPlain = true ∧ Absent db key ∨
      t.isPlain = false ∧ Absent db (head key) ∧ (t = .timeSeries → head key ≠ "rule") := by
  have ht : t' = t := by
    obtain ⟨x, hx⟩ := h.tag_append
    obtain ⟨y, hy⟩ := hp.tag_append
    exact (tag_append_inj (hx.symm.trans hy)).1
  subst ht
  unfold Orphan at h
  split at h
  · next hplain =>
    obtain ⟨key', hkey', habs⟩ := h
    rw [IsRecord, if_pos hplain] at hp
    obtain rfl := List.append_cancel_left (hp.symm.trans hkey')
    exact .inl ⟨hplain, habs⟩
  · next hplain =>
    obtain ⟨key', x, hx, hcolon, habs, hrule⟩ := h
    have hcoll : t'.isPlain = false := by simpa using hplain
    obtain ⟨y, rfl⟩ := hp.append hcoll
    have hhead : head key = key' := by
      have := congrArg (fun b => head (b.drop t'.tag.length)) hx
      simp only [drop_tag_recordPrefix, head_append hcolon] at this
      rwa [head_append_colon] at this
    subst hhead
    exact .inr ⟨hcoll, habs, hrule⟩

/-- Nothing of a live key is deleted. -/
theorem Recoverable.getElem?_eq (h : Recoverable db) (hswept : Swept (Bare db) db db₁)
    (hswept' : Swept (fun p => ∃ t, Orphan t db₁ p) db₁ db') {p : Bytes} (hp : Belongs db key p) :
    db'[p]? = db[p]? := by
  obtain ⟨t, htype, hp⟩ := hp
  obtain ⟨hkey, hhead⟩ := h key t htype
  have hdata : ∀ s, IsRecord s key p → (s = t ∨ t = .geo ∧ s = .sortedSet) → db'[p]? = db[p]? := by
    intro s hs hst
    rw [(hswept' p).2, (hswept p).2]
    · rintro ⟨key', _, _, rfl, -⟩
      exact not_isRecord_typeOfKeyGet s key key' hs
    · rintro ⟨t', horphan⟩
      rcases horphan.absent hs with ⟨-, habs⟩ | ⟨hcoll, habs, hrule⟩
      · exact hkey.not_absent hswept habs
      · refine (hhead ?_ ?_).not_absent hswept habs
        · rcases hst with rfl | ⟨rfl, -⟩
          · exact hcoll
          · rfl
        · rcases hst with rfl | ⟨rfl, -⟩
          · exact hrule
          · exact nofun
  rcases hp with rfl | hp | ⟨hgeo, hp⟩
  · rw [(hswept' _).2 fun ⟨t', ht'⟩ => not_orphan_typeOfKeyGet key ht', hkey.getElem?_eq hswept]
  · exact hdata t hp (.inl rfl)
  · exact hdata _ hp (.inr ⟨hgeo, rfl⟩)

/-- Where the condition fails, a record of a live key is deleted. -/
theorem recoverable_of_belongs (htyped : Typed db) (hswept : Swept (Bare db) db db₁)
    (hswept' : Swept (fun p => ∃ t, Orphan t db₁ p) db₁ db')
    (h : ∀ p, db[p]? ≠ none → db'[p]? = none → ∀ key, ¬ Belongs db key p) : Recoverable db := by
  intro key t htype
  have hkey : Anchored db key := by
    by_contra hnot
    have hgone : db'[typeOfKeyGet key]? = none := by
      rw [(hswept' _).2 fun ⟨t', ht'⟩ => not_orphan_typeOfKeyGet key ht']
      exact absent_of_not_anchored hswept htyped hnot
    refine h _ ?_ hgone key ⟨t, htype, .inl rfl⟩
    rw [htype]
    exact Option.some_ne_none _
  refine ⟨hkey, fun hcoll hrule => ?_⟩
  by_contra hnot
  obtain ⟨t', htype', hprimary⟩ := hkey
  obtain rfl := htype.unique htype'
  have hrec := isRecord_getKeyValueKey key t
  obtain ⟨x, hx⟩ := hrec.append hcoll
  obtain ⟨y, hy⟩ := recordPrefix_head t key x
  refine h _ hprimary ((hswept' _).1 ⟨t, ?_⟩) key ⟨t, htype, .inr (.inl hrec)⟩
  rw [Orphan, hcoll, if_neg Bool.false_ne_true]
  exact ⟨head key, y, hx.trans hy, notMem_head key,
    absent_of_not_anchored hswept htyped hnot, hrule⟩

end Stays

/-! ## Answers -/

section Answers

variable {db db' : Db} {key : Bytes} {t : KeyType}

theorem Views.eq_of_hasType {α : Type} {t' : KeyType} {m : View Err α} (h : Views t' key m)
    (htype : HasType db key t) (htype' : HasType db' key t)
    (heq : ∀ p, IsRecord t key p → db'[p]? = db[p]?) : m db' = m db := by
  refine h db' db (htype'.trans htype.symm) fun hname p hp => ?_
  have ht : t' = t := by
    rcases hname _ htype' with hc | hc
    · exact (KeyType.name_injective hc).symm
    · exact absurd hc (by cases t <;> decide)
  exact heq p (ht ▸ hp)

/-- An answer about a key depends on its type and the records of that type. -/
theorem Read.eq_of_hasType (c : Codec) (now : Nat) (r : Read) (htype : HasType db key t)
    (htype' : HasType db' key t) (heq : ∀ p, IsRecord t key p → db'[p]? = db[p]?) :
    r.answer c now key db' = r.answer c now key db := by
  have ret : ∀ {α : Type} {m : View Err α} {f : α → Answer}, m db' = m db →
      (do return f (← m) : View Err Answer) db' = (do return f (← m) : View Err Answer) db := by
    intro α m f hm
    rw [View.bind_apply, View.bind_apply, hm]
    rfl
  have hraw : rawType key db' = rawType key db := by
    rw [rawType_apply, rawType_apply, htype, htype']
  cases r with
  | type =>
    apply ret
    rw [keyTypeName, View.bind_apply, View.bind_apply, hraw, rawType_apply, htype]
    cases t <;> rfl
  | exist =>
    apply ret
    show (Except.ok db'[typeOfKeyGet key]?.isSome : Except Err Bool) = .ok db[typeOfKeyGet key]?.isSome
    rw [htype, htype']
  | ttl =>
    apply ret
    have hprimary : primary key db' = primary key db := by
      rw [primary, View.bind_apply, View.bind_apply, hraw, rawType_apply, htype]
      dsimp only [Option.map_some, Option.getD_some]
      rw [KeyType.ofName_name]
      show Except.ok db'[getKeyValueKey key t]? = Except.ok db[getKeyValueKey key t]?
      rw [heq _ (isRecord_getKeyValueKey key t)]
    rw [Store.ttl, View.bind_apply, View.bind_apply, hprimary]
    rcases primary key db with _ | (_ | _) <;> rfl
  | get => exact ret ((Strings.views_get key).eq_of_hasType htype htype' heq)
  | hGet field => exact ret ((Hashes.views_hGet key field).eq_of_hasType htype htype' heq)
  | hGetAll => exact ret ((Hashes.views_hGetAll key).eq_of_hasType htype htype' heq)
  | hLen => exact ret ((Hashes.views_hLen key).eq_of_hasType htype htype' heq)
  | sMembers => exact ret ((Sets.views_sMembers key).eq_of_hasType htype htype' heq)
  | sIsMember member => exact ret ((Sets.views_sIsMember key member).eq_of_hasType htype htype' heq)
  | sCard => exact ret ((Sets.views_sCard key).eq_of_hasType htype htype' heq)
  | lRange start stop => exact ret ((Lists.views_lRange key start stop).eq_of_hasType htype htype' heq)
  | lLen => exact ret ((Lists.views_lLen key).eq_of_hasType htype htype' heq)
  | zRange start stop =>
    exact ret ((SortedSets.views_zRange key start stop).eq_of_hasType htype htype' heq)
  | zScore member => exact ret ((SortedSets.views_zScore key member).eq_of_hasType htype htype' heq)
  | zCard => exact ret ((SortedSets.views_zCard key).eq_of_hasType htype htype' heq)

end Answers

/-! ## The equivalence -/

theorem nextStartup_spec (now : Nat) (db : Db) :
    ∃ db₁ db', (nextStartup now db).2 = db' ∧ visible (unix now) db' = db' ∧
      Swept (Bare (visible (unix now) db)) (visible (unix now) db) db₁ ∧
      Swept (fun p => ∃ t, Orphan t db₁ p) db₁ db' := by
  obtain ⟨db₁, db', hrun, hswept, hswept'⟩ := nextStartupTxn_spec (visible (unix now) db)
  refine ⟨db₁, db', ?_, ?_, hswept, hswept'⟩
  · show (Run.update (unix now) nextStartupTxn db).2 = db'
    rw [Run.update, hrun]
  · apply ext_getElem?
    intro p
    have hsub : db'[p]? = none ∨ db'[p]? = (visible (unix now) db)[p]? := by
      rcases Classical.em (∃ t, Orphan t db₁ p) with h | h
      · exact .inl ((hswept' p).1 h)
      · rw [(hswept' p).2 h]
        rcases Classical.em (Bare (visible (unix now) db) p) with h | h
        · exact .inl ((hswept p).1 h)
        · exact .inr ((hswept p).2 h)
    rw [getElem?_visible]
    rcases hsub with h | h
    · rw [h]
      rfl
    · rw [h, ← getElem?_visible, visible_visible]

theorem cleanupSafe_iff_recoverable (c : Codec) {now : Nat} {db : Db} (h : Reachable c now db) :
    CleanupSafe c now db ↔ Recoverable (visible (unix now) db) := by
  obtain ⟨db₁, db', hrun, hvis, hswept, hswept'⟩ := nextStartup_spec now db
  constructor
  · intro hsafe
    have hdeletes := hsafe.deletes
    rw [hrun, hvis] at hdeletes
    exact recoverable_of_belongs h.typed hswept hswept' hdeletes
  · intro hrec
    have hkeep : ∀ {key t}, HasType (visible (unix now) db) key t →
        HasType db' key t ∧ ∀ p, IsRecord t key p → db'[p]? = (visible (unix now) db)[p]? := by
      intro key t htype
      refine ⟨?_, fun p hp => hrec.getElem?_eq hswept hswept' ⟨t, htype, .inr (.inl hp)⟩⟩
      rw [HasType, hrec.getElem?_eq hswept hswept' ⟨t, htype, .inl rfl⟩]
      exact htype
    constructor
    · intro key hlive r
      obtain ⟨e, he⟩ := Option.ne_none_iff_exists'.mp hlive
      obtain ⟨t, rfl⟩ := h.typed key e he
      obtain ⟨htype', heq⟩ := hkeep he
      show r.answer c now key (visible (unix now) (nextStartup now db).2) = _
      rw [hrun, hvis]
      exact r.eq_of_hasType c now he htype' heq
    · intro key t htype α m hm
      obtain ⟨htype', heq⟩ := hkeep htype
      rw [hrun, hvis]
      exact hm.eq_of_hasType htype htype' heq
    · intro p hp hgone key hbelongs
      rw [hrun, hvis, hrec.getElem?_eq hswept hswept' hbelongs] at hgone
      exact hp hgone

/-- After `HSET key name bob`. -/
def hashAt (key : Bytes) : Db := ((KeyOp.hash (.hSet "name" "bob")).run uncompressed 0 key ∅).2

theorem reachable_hashAt (key : Bytes) : Reachable uncompressed 0 (hashAt key) :=
  .step (.single key (.hash (.hSet "name" "bob"))) (.init 0)

theorem cleanupSafe_user : CleanupSafe uncompressed 0 (hashAt (ascii "user")) := by
  refine (cleanupSafe_iff_recoverable uncompressed (reachable_hashAt _)).mpr fun key t htype => ?_
  have hkeys : (visible (unix 0) (hashAt "user")).keys =
      [hashCountKey "user", hashKey "user" "name",
        typeOfKeyGet "user"] := by decide +kernel
  have hmem : typeOfKeyGet key ∈ (visible (unix 0) (hashAt "user")).keys := by
    rw [mem_keys, mem_iff_isSome_getElem?, htype]
    rfl
  have hkey : key = "user" := by
    rw [hkeys] at hmem
    simp only [List.mem_cons, List.not_mem_nil, or_false] at hmem
    rcases hmem with h | h | h
    · exact absurd h (typeOfKeyGet_ne_tag_append key .hash _)
    · exact absurd h (typeOfKeyGet_ne_tag_append key .hash _)
    · exact typeOfKeyGet_injective h
  subst hkey
  have hanchored : Anchored (visible (unix 0) (hashAt "user")) "user" :=
    ⟨.hash, by rw [HasType]; decide +kernel, by decide +kernel⟩
  exact ⟨hanchored, fun _ _ => hanchored⟩

/-- `HSET user:1 name bob`, restart: the hash is empty, as no key is called `user`. -/
theorem nextStartup_empties_user_1 :
    Reachable uncompressed 0 (hashAt (ascii "user:1")) ∧
      Read.hLen.at uncompressed 0 (ascii "user:1") (hashAt (ascii "user:1")) = .ok (.count 1) ∧
      Read.hLen.at uncompressed 0 (ascii "user:1") (nextStartup 0 (hashAt (ascii "user:1"))).2 =
        .ok (.count 0) ∧
      ¬ CleanupSafe uncompressed 0 (hashAt (ascii "user:1")) := by
  have hbefore : Read.hLen.at uncompressed 0 "user:1" (hashAt "user:1") =
      .ok (.count 1) := by decide +kernel
  have hafter : Read.hLen.at uncompressed 0 "user:1"
      (nextStartup 0 (hashAt "user:1")).2 = .ok (.count 0) := by decide +kernel
  refine ⟨reachable_hashAt _, hbefore, hafter, fun hsafe => ?_⟩
  have heq := hsafe.answers "user:1" (by decide +kernel) .hLen
  rw [hbefore, hafter] at heq
  cases heq

end BoltDB.Store
