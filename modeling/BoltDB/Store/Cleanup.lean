import BoltDB.Store.Typed

/-!
# Cleaning up at start

`cleanup.go`. `NextStartup` deletes the `TYPE_` records whose primary record is missing, and then the
data records of keys without a `TYPE_` record. Of the name of a collection's record it takes the part
up to the first `:` for the key.
-/

namespace BoltDB.Store

open Bytes KeyValue List

/-! ## The routine -/

def checkDataExists (key name : Bytes) : View Err Bool :=
  match KeyType.ofName name with
  | some t => do return (← View.get (getKeyValueKey key t)).isSome
  | none => pure true

def cleanupType (e : Bytes × Entry) : Txn Err Unit := do
  if ← checkDataExists (keyOfType e.1) e.2.value then pure () else Txn.delete e.1

/-- `TYPE_` records without data. -/
def cleanupOrphanedTypes : Txn Err Unit := do
  let es ← Txn.scan "TYPE_"
  es.forM cleanupType

def cleanupRecord (key : Bytes) (m : Txn Err Unit) : Txn Err Unit := do
  if (← Txn.get (typeOfKeyGet key)).isSome then pure () else m

/-- Records named by the tag and the key. -/
def cleanupPlain (t : KeyType) : Txn Err Unit := do
  let es ← Txn.scan t.tag
  es.forM fun e => cleanupRecord (e.1.drop t.tag.length) (Txn.delete e.1)

/-- The part up to the first `:`. -/
def head (rest : Bytes) : Bytes := rest.takeWhile (· ≠ 58)

def cleanupHead (t : KeyType) (key : Bytes) : Txn Err Unit :=
  cleanupRecord key (Txn.deleteByPrefix (recordPrefix t key))

/-- `strings.SplitN(name, ":", 3)[1]` is taken for the key. -/
def cleanupCollection (t : KeyType) : Txn Err Unit := do
  let es ← Txn.scan t.tag
  es.forM fun e => cleanupHead t (head (e.1.drop t.tag.length))

def cleanupOrphanedData : Txn Err Unit := cleanupPlain .string

def cleanupOrphanedHLLData : Txn Err Unit := cleanupPlain .hyperLogLog

def cleanupOrphanedJSONData : Txn Err Unit := cleanupPlain .json

def cleanupOrphanedListData : Txn Err Unit := cleanupCollection .list

def cleanupOrphanedHashData : Txn Err Unit := cleanupCollection .hash

def cleanupOrphanedSetData : Txn Err Unit := cleanupCollection .set

def cleanupOrphanedZSetData : Txn Err Unit := cleanupCollection .sortedSet

def cleanupOrphanedStreamData : Txn Err Unit := cleanupCollection .stream

def cleanupOrphanedGeoData : Txn Err Unit := cleanupCollection .geo

def cleanupOrphanedGeoZSetData : Txn Err Unit := cleanupCollection .sortedSet

/-- Records of rules, and names without a second `:`, are passed over. -/
def cleanupOrphanedTSData : Txn Err Unit := do
  let es ← Txn.scan KeyType.timeSeries.tag
  es.forM fun e =>
    let rest := e.1.drop KeyType.timeSeries.tag.length
    if (ascii "TS:rule:").isPrefixOf e.1 || 58 ∉ rest then pure ()
    else cleanupHead .timeSeries (head rest)

def nextStartupTxn : Txn Err Unit := do
  cleanupOrphanedTypes
  cleanupOrphanedData
  cleanupOrphanedListData
  cleanupOrphanedHashData
  cleanupOrphanedSetData
  cleanupOrphanedZSetData
  cleanupOrphanedStreamData
  cleanupOrphanedHLLData
  cleanupOrphanedGeoData
  cleanupOrphanedJSONData
  cleanupOrphanedTSData
  cleanupOrphanedGeoZSetData

def nextStartup (now : Nat) : Run Err Unit := update now nextStartupTxn

/-! ## What it deletes -/

/-- `db'` is `db` without the records in `D`. -/
def Swept (D : Bytes → Prop) (db db' : Db) : Prop :=
  ∀ p, (D p → db'[p]? = none) ∧ (¬ D p → db'[p]? = db[p]?)

def Absent (db : Db) (key : Bytes) : Prop := db[typeOfKeyGet key]? = none

section Sweeping

variable {D D' : Bytes → Prop} {db db' db'' : Db}

theorem Swept.trans (h : Swept D db db') (h' : Swept D' db' db'') :
    Swept (fun p => D p ∨ D' p) db db'' := by
  intro p
  by_cases hD' : D' p
  · exact ⟨fun _ => (h' p).1 hD', fun hn => absurd (.inr hD') hn⟩
  · rw [(h' p).2 hD']
    refine ⟨fun hD => (h p).1 (hD.resolve_right hD'), fun hn => (h p).2 fun hD => hn (.inl hD)⟩

/-- Names without a record may be added to those that are deleted. -/
theorem Swept.congr (h : Swept D db db') (hD : ∀ p e, db[p]? = some e → (D p ↔ D' p)) :
    Swept D' db db' := by
  intro p
  cases hget : db[p]? with
  | none =>
    have hnone : db'[p]? = none := by
      by_cases hDp : D p
      · exact (h p).1 hDp
      · rw [(h p).2 hDp, hget]
    exact ⟨fun _ => hnone, fun _ => hnone⟩
  | some e =>
    rw [← hget, ← hD p e hget]
    exact h p

theorem swept_empty (db : Db) : Swept (fun _ => False) db db := fun _ => ⟨False.elim, fun _ => rfl⟩

theorem swept_erase (p : Bytes) (db : Db) : Swept (fun q => q = p) db (db.erase p) := by
  intro q
  rw [getElem?_erase_ite]
  exact ⟨fun h => if_pos h, fun h => if_neg h⟩

theorem swept_erasePrefix (pre : Bytes) (db : Db) :
    Swept (fun p => pre <+: p) db (db.filter fun k _ => !pre.isPrefixOf k) := by
  intro p
  rw [getElem?_erasePrefix]
  exact ⟨fun h => if_pos h, fun h => if_neg h⟩

theorem Swept.absent_iff (h : Swept D db db') (hD : ∀ key, ¬ D (typeOfKeyGet key)) (key : Bytes) :
    Absent db' key ↔ Absent db key := by
  rw [Absent, Absent, (h _).2 (hD key)]

/-- The transaction succeeds and deletes the records in `D`. -/
def Sweeps (D : Bytes → Prop) (db : Db) (m : Txn Err Unit) : Prop :=
  ∃ db', m db = .ok ((), db') ∧ Swept D db db'

theorem sweeps_cleanupRecord (key : Bytes) {m : Txn Err Unit} (h : Sweeps D db m) :
    Sweeps (fun p => Absent db key ∧ D p) db (cleanupRecord key m) := by
  have hrun : cleanupRecord key m db =
      (if db[typeOfKeyGet key]?.isSome then pure () else m : Txn Err Unit) db := rfl
  cases hget : db[typeOfKeyGet key]? with
  | none =>
    obtain ⟨db', hm, hswept⟩ := h
    refine ⟨db', ?_, fun p => ⟨fun hD => (hswept p).1 hD.2, fun hn => (hswept p).2 fun hD => ?_⟩⟩
    · rw [hrun, hget]
      exact hm
    · exact hn ⟨hget, hD⟩
  | some e =>
    refine ⟨db, ?_, fun p => ⟨fun hD => ?_, fun _ => rfl⟩⟩
    · rw [hrun, hget]
      rfl
    · rw [Absent, hget] at hD
      exact absurd hD.1 (Option.some_ne_none e)

/-- A loop whose steps delete under a condition that they leave as it is. -/
theorem sweeps_forM {α : Type} {l : List α} (C : Db → α → Prop) (S : α → Bytes → Prop)
    {body : α → Txn Err Unit}
    (hC : ∀ a db db', Swept (fun p => C db a ∧ S a p) db db' → ∀ b, C db' b ↔ C db b)
    (hbody : ∀ a ∈ l, ∀ db, Sweeps (fun p => C db a ∧ S a p) db (body a)) (db : Db) :
    Sweeps (fun p => ∃ a ∈ l, C db a ∧ S a p) db (l.forM body) := by
  induction l generalizing db with
  | nil => exact ⟨db, rfl, (swept_empty db).congr fun p e _ => by simp⟩
  | cons a l ih =>
    obtain ⟨db₁, hrun₁, hswept₁⟩ := hbody a mem_cons_self db
    obtain ⟨db₂, hrun₂, hswept₂⟩ := ih (fun b hb => hbody b (mem_cons_of_mem a hb)) db₁
    refine ⟨db₂, ?_, (hswept₁.trans hswept₂).congr fun p e _ => ?_⟩
    · show (body a >>= fun _ => l.forM body) db = _
      rw [Txn.bind_apply, hrun₁]
      exact hrun₂
    · simp only [mem_cons, exists_eq_or_imp, hC a db db₁ hswept₁]

/-- A loop over keys that are absent, whose steps delete no `TYPE_` record. -/
theorem sweeps_forM_absent {α : Type} {l : List α} (key : α → Bytes) (S : α → Bytes → Prop)
    {body : α → Txn Err Unit} (hS : ∀ a k, ¬ S a (typeOfKeyGet k))
    (hbody : ∀ a ∈ l, ∀ db, Sweeps (fun p => Absent db (key a) ∧ S a p) db (body a)) (db : Db) :
    Sweeps (fun p => ∃ a ∈ l, Absent db (key a) ∧ S a p) db (l.forM body) :=
  sweeps_forM (fun db a => Absent db (key a)) S
    (fun a _ _ h b => h.absent_iff (fun k hD => hS a k hD.2) (key b)) hbody db

end Sweeping

/-! ## Orphans -/

/-- What is taken for a data record of a key that is absent. -/
def Orphan (t : KeyType) (db : Db) (p : Bytes) : Prop :=
  if t.isPlain then ∃ key, p = t.tag ++ key ∧ Absent db key
  else ∃ key x, p = recordPrefix t key ++ x ∧ 58 ∉ key ∧ Absent db key ∧
    (t = .timeSeries → key ≠ "rule")

section Orphans

variable {t : KeyType} {db : Db}

theorem Orphan.tag_append {p : Bytes} (h : Orphan t db p) : ∃ x, p = t.tag ++ x := by
  unfold Orphan at h
  split at h
  · obtain ⟨key, rfl, -⟩ := h
    exact ⟨key, rfl⟩
  · obtain ⟨key, x, rfl, -⟩ := h
    exact ⟨key ++ ":" ++ x, by simp [recordPrefix]⟩

theorem not_orphan_typeOfKeyGet (key : Bytes) : ¬ Orphan t db (typeOfKeyGet key) := by
  intro h
  obtain ⟨x, hx⟩ := h.tag_append
  exact typeOfKeyGet_ne_tag_append key t x hx

theorem notMem_head (rest : Bytes) : 58 ∉ head rest := by
  intro h
  have := mem_takeWhile_imp h
  simp at this

theorem head_append {key x : Bytes} (h : 58 ∉ key) : head (key ++ ":" ++ x) = key := by
  have hall : ∀ b ∈ key, (b ≠ 58 : Bool) = true := by
    intro b hb
    rw [decide_eq_true_eq]
    rintro rfl
    exact h hb
  rw [head, append_assoc, takeWhile_append_of_pos hall]
  simp [ascii]

theorem head_eq_append {rest : Bytes} (h : 58 ∈ rest) : ∃ x, rest = head rest ++ ":" ++ x := by
  induction rest with
  | nil => cases h
  | cons b rest ih =>
    by_cases hb : b = 58
    · exact ⟨rest, by simp [head, hb, ascii]⟩
    · obtain ⟨x, hx⟩ := ih ((mem_cons.mp h).resolve_left (Ne.symm hb))
      refine ⟨x, ?_⟩
      rw [head, takeWhile_cons_of_pos (by simpa using hb), ← head, cons_append,
        cons_append, ← hx]

theorem drop_tag_recordPrefix (t : KeyType) (key x : Bytes) :
    (recordPrefix t key ++ x).drop t.tag.length = key ++ ":" ++ x := by
  rw [recordPrefix, append_assoc, append_assoc, drop_left, append_assoc]

theorem tag_isPrefix_recordPrefix (t : KeyType) (key x : Bytes) :
    t.tag <+: recordPrefix t key ++ x := by
  rw [recordPrefix, append_assoc, append_assoc]
  exact prefix_append _ _

theorem sweeps_cleanupPlain (ht : t.isPlain = true) (db : Db) :
    Sweeps (Orphan t db) db (cleanupPlain t) := by
  have hbody : ∀ e ∈ scan t.tag db, ∀ db₀,
      Sweeps (fun p => Absent db₀ (e.1.drop t.tag.length) ∧ p = e.1 ∧ t.tag <+: e.1) db₀
        (cleanupRecord (e.1.drop t.tag.length) (Txn.delete e.1)) := by
    intro e he db₀
    obtain ⟨db₁, hrun, hswept⟩ := sweeps_cleanupRecord (e.1.drop t.tag.length)
      (m := Txn.delete e.1) ⟨db₀.erase e.1, rfl, swept_erase e.1 db₀⟩
    refine ⟨db₁, hrun, hswept.congr fun p x _ => ?_⟩
    rw [and_iff_left (mem_scan.mp he).2]
  obtain ⟨db', hrun, hswept⟩ := sweeps_forM_absent (l := scan t.tag db) (fun e => e.1.drop t.tag.length)
    (fun e p => p = e.1 ∧ t.tag <+: e.1) (fun e k ⟨hk, x, hx⟩ =>
      typeOfKeyGet_ne_tag_append k t x (hk.trans hx.symm)) hbody db
  refine ⟨db', hrun, hswept.congr fun p e hget => ?_⟩
  rw [Orphan, if_pos ht]
  constructor
  · rintro ⟨e', he', habs, rfl, x, hx⟩
    rw [← hx, drop_left] at habs
    exact ⟨x, hx.symm, habs⟩
  · rintro ⟨key, rfl, habs⟩
    refine ⟨(t.tag ++ key, e), mem_scan.mpr ⟨hget, prefix_append _ _⟩, ?_, rfl,
      prefix_append _ _⟩
    rwa [drop_left]

/-- A loop over the records of a type that deletes by the first part of their names, for the names
that are not passed over. -/
theorem sweeps_heads (ht : t.isPlain = false) {body : Bytes × Entry → Txn Err Unit}
    (taken : Bytes → Prop)
    (hbody : ∀ e db₀, Sweeps (fun p => Absent db₀ (head (e.1.drop t.tag.length)) ∧
      taken e.1 ∧ recordPrefix t (head (e.1.drop t.tag.length)) <+: p) db₀ (body e))
    (htaken : ∀ p, t.tag <+: p → taken p → t = .timeSeries → head (p.drop t.tag.length) ≠ "rule")
    (hkey : ∀ key x, 58 ∉ key → (t = .timeSeries → key ≠ ascii "rule") →
      taken (recordPrefix t key ++ x)) (db : Db) :
    Sweeps (Orphan t db) db ((scan t.tag db).forM body) := by
  obtain ⟨db', hrun, hswept⟩ := sweeps_forM_absent (l := scan t.tag db)
    (fun e => head (e.1.drop t.tag.length))
    (fun e p => taken e.1 ∧ recordPrefix t (head (e.1.drop t.tag.length)) <+: p)
    (fun e k h => not_recordPrefix_typeOfKeyGet _ _ _ h.2) (fun e _ db₀ => hbody e db₀) db
  refine ⟨db', hrun, hswept.congr fun p e hget => ?_⟩
  rw [Orphan, ht]
  constructor
  · rintro ⟨e', he', habs, htake, x, rfl⟩
    exact ⟨_, x, rfl, notMem_head _, habs, htaken _ (mem_scan.mp he').2 htake⟩
  · rintro ⟨key, x, rfl, hcolon, habs, hrule⟩
    refine ⟨(recordPrefix t key ++ x, e), mem_scan.mpr ⟨hget, tag_isPrefix_recordPrefix t key x⟩, ?_⟩
    rw [drop_tag_recordPrefix, head_append hcolon]
    exact ⟨habs, hkey key x hcolon hrule, prefix_append _ _⟩

theorem sweeps_cleanupHead (key : Bytes) (db : Db) :
    Sweeps (fun p => Absent db key ∧ recordPrefix t key <+: p) db (cleanupHead t key) :=
  sweeps_cleanupRecord key ⟨_, rfl, swept_erasePrefix _ db⟩

theorem sweeps_cleanupCollection (ht : t.isPlain = false) (hts : t ≠ .timeSeries) (db : Db) :
    Sweeps (Orphan t db) db (cleanupCollection t) := by
  refine sweeps_heads ht (fun _ => True) (fun e db₀ => ?_) (fun _ _ _ h => absurd h hts)
    (fun _ _ _ _ => trivial) db
  obtain ⟨db₁, hrun, hswept⟩ := sweeps_cleanupHead (t := t) (head (e.1.drop t.tag.length)) db₀
  exact ⟨db₁, hrun, hswept.congr fun p x _ => by rw [true_and]⟩

theorem sweeps_cleanupOrphanedTSData (db : Db) :
    Sweeps (Orphan .timeSeries db) db cleanupOrphanedTSData := by
  refine sweeps_heads rfl (fun p => ¬ ((ascii "TS:rule:").isPrefixOf p ||
    58 ∉ p.drop KeyType.timeSeries.tag.length) = true) (fun e db₀ => ?_) ?_ ?_ db
  · dsimp only
    split
    · next h =>
      exact ⟨db₀, rfl, (swept_empty db₀).congr fun p x _ => ⟨False.elim, fun hD => hD.2.1 h⟩⟩
    · next h =>
      obtain ⟨db₁, hrun, hswept⟩ := sweeps_cleanupHead (t := .timeSeries)
        (head (e.1.drop KeyType.timeSeries.tag.length)) db₀
      exact ⟨db₁, hrun, hswept.congr fun p x _ => by rw [eq_true h, true_and]⟩
  · rintro p ⟨x, rfl⟩ htake - hhead
    rw [drop_left] at htake hhead
    apply htake
    by_cases hcolon : 58 ∈ x
    · obtain ⟨y, hy⟩ := head_eq_append hcolon
      rw [hhead] at hy
      have hp : "TS:rule:" <+: KeyType.timeSeries.tag ++ x := ⟨y, by rw [hy]; rfl⟩
      rw [ isPrefixOf_iff_prefix.mpr hp, Bool.true_or]
    · rw [decide_eq_true hcolon, Bool.or_true]
  · intro key x hcolon hrule htake
    rw [drop_tag_recordPrefix, Bool.or_eq_true, isPrefixOf_iff_prefix] at htake
    rcases htake with ⟨y, hy⟩ | hnot
    · have hrest : "rule" ++ ":" ++ y = key ++ ":" ++ x := by
        have := congrArg (drop KeyType.timeSeries.tag.length) hy
        exact this
      apply hrule rfl
      rw [← head_append hcolon (x := x), ← hrest, head_append (by decide)]
    · simp [ascii] at hnot

end Orphans

/-! ## All of it -/

section Startup

/-- The transaction deletes the orphans of some types. -/
def Cleans (ts : List KeyType) (m : Txn Err Unit) : Prop :=
  ∀ db, Sweeps (fun p => ∃ t ∈ ts, Orphan t db p) db m

theorem cleans_of_sweeps {t : KeyType} {m : Txn Err Unit} (h : ∀ db, Sweeps (Orphan t db) db m) :
    Cleans [t] m := by
  intro db
  obtain ⟨db', hrun, hswept⟩ := h db
  exact ⟨db', hrun, hswept.congr fun p e _ => by simp⟩

theorem Orphan.congr {t : KeyType} {db db' : Db} {p : Bytes}
    (h : ∀ key, Absent db' key ↔ Absent db key) : Orphan t db' p ↔ Orphan t db p := by
  simp only [Orphan, h]

theorem Cleans.bind {ts ts' : List KeyType} {m m' : Txn Err Unit} (h : Cleans ts m)
    (h' : Cleans ts' m') : Cleans (ts ++ ts') (do m; m') := by
  intro db
  obtain ⟨db₁, hrun₁, hswept₁⟩ := h db
  obtain ⟨db₂, hrun₂, hswept₂⟩ := h' db₁
  refine ⟨db₂, ?_, (hswept₁.trans hswept₂).congr fun p e _ => ?_⟩
  · rw [Txn.bind_apply, hrun₁]
    exact hrun₂
  · have habs := hswept₁.absent_iff fun key ⟨t, _, ht⟩ => not_orphan_typeOfKeyGet key ht
    simp only [Orphan.congr habs, mem_append, or_and_right, exists_or]

/-- The `TYPE_` record of a key whose primary record is missing. -/
def Bare (db : Db) (p : Bytes) : Prop :=
  ∃ key t e, p = typeOfKeyGet key ∧ db[p]? = some e ∧ KeyType.ofName e.value = some t ∧
    db[getKeyValueKey key t]? = none

/-- `checkDataExists` says no. -/
def Missing (db : Db) (e : Bytes × Entry) : Prop :=
  ∃ t, KeyType.ofName e.2.value = some t ∧ db[getKeyValueKey (keyOfType e.1) t]? = none

theorem keyOfType_typeOfKeyGet (key : Bytes) : keyOfType (typeOfKeyGet key) = key := drop_left

theorem checkDataExists_apply (db : Db) (e : Bytes × Entry) :
    ∃ b, checkDataExists (keyOfType e.1) e.2.value db = .ok b ∧ (b = false ↔ Missing db e) := by
  unfold checkDataExists Missing
  cases KeyType.ofName e.2.value with
  | none => exact ⟨true, rfl, by simp⟩
  | some t =>
    refine ⟨db[getKeyValueKey (keyOfType e.1) t]?.isSome, rfl, ?_⟩
    simp only [Option.isSome_eq_false_iff, Option.isNone_iff_eq_none, Option.some.injEq,
      exists_eq_left']

theorem sweeps_cleanupType (e : Bytes × Entry) (db : Db) :
    Sweeps (fun p => Missing db e ∧ p = e.1) db (cleanupType e) := by
  obtain ⟨b, hb, hmissing⟩ := checkDataExists_apply db e
  have hrun : cleanupType e db = (if b then pure () else Txn.delete e.1 : Txn Err Unit) db :=
    Txn.lift_bind_ok hb
  cases b with
  | true =>
    refine ⟨db, hrun, (swept_empty db).congr fun p x _ => ⟨False.elim, fun hD => ?_⟩⟩
    cases hmissing.mpr hD.1
  | false =>
    refine ⟨db.erase e.1, hrun, (swept_erase e.1 db).congr fun p x _ => ?_⟩
    rw [and_iff_right (hmissing.mp rfl)]

theorem sweeps_cleanupOrphanedTypes (db : Db) : Sweeps (Bare db) db cleanupOrphanedTypes := by
  have hbody : ∀ e ∈ scan "TYPE_" db, ∀ db₀,
      Sweeps (fun p => Missing db₀ e ∧ ∃ key, e.1 = typeOfKeyGet key ∧ p = e.1) db₀
        (cleanupType e) := by
    intro e he db₀
    obtain ⟨db₁, hrun, hswept⟩ := sweeps_cleanupType e db₀
    obtain ⟨x, hx⟩ := (mem_scan.mp he).2
    refine ⟨db₁, hrun, hswept.congr fun p x' _ => and_congr_right fun _ => ?_⟩
    exact ⟨fun hp => ⟨x, hx.symm, hp⟩, fun ⟨_, _, hp⟩ => hp⟩
  have hstable : ∀ (e : Bytes × Entry) (db₀ db₁ : Db),
      Swept (fun p => Missing db₀ e ∧ ∃ key, e.1 = typeOfKeyGet key ∧ p = e.1) db₀ db₁ →
      ∀ e', Missing db₁ e' ↔ Missing db₀ e' := by
    intro e db₀ db₁ hswept e'
    refine exists_congr fun t => and_congr_right fun _ => ?_
    rw [(hswept _).2]
    rintro ⟨-, key, hkey, hp⟩
    exact not_isRecord_typeOfKeyGet t _ key (hkey ▸ hp ▸ isRecord_getKeyValueKey _ t)
  obtain ⟨db', hrun, hswept⟩ := sweeps_forM Missing
    (fun e p => ∃ key, e.1 = typeOfKeyGet key ∧ p = e.1) hstable hbody db
  refine ⟨db', hrun, hswept.congr fun p e hget => ?_⟩
  constructor
  · rintro ⟨e', he', ⟨t, hname, hnone⟩, key, hkey, rfl⟩
    rw [hkey] at hnone
    exact ⟨key, t, e'.2, hkey, (mem_scan.mp he').1, hname, hnone⟩
  · rintro ⟨key, t, e', rfl, hget', hname, hnone⟩
    refine ⟨(typeOfKeyGet key, e'), mem_scan.mpr ⟨hget', prefix_append _ _⟩,
      ⟨t, hname, ?_⟩, key, rfl, rfl⟩
    rwa [keyOfType_typeOfKeyGet]

/-- The data records of all types whose key has no `TYPE_` record. -/
theorem cleans_data : Cleans KeyType.all (do
    cleanupOrphanedData
    cleanupOrphanedListData
    cleanupOrphanedHashData
    cleanupOrphanedSetData
    cleanupOrphanedZSetData
    cleanupOrphanedStreamData
    cleanupOrphanedHLLData
    cleanupOrphanedGeoData
    cleanupOrphanedJSONData
    cleanupOrphanedTSData
    cleanupOrphanedGeoZSetData) := by
  have plain : ∀ t : KeyType, t.isPlain = true → Cleans [t] (cleanupPlain t) :=
    fun t ht => cleans_of_sweeps (sweeps_cleanupPlain ht)
  have collection : ∀ t : KeyType, t.isPlain = false → t ≠ .timeSeries →
      Cleans [t] (cleanupCollection t) :=
    fun t ht hts => cleans_of_sweeps (sweeps_cleanupCollection ht hts)
  have hall := (plain .string rfl).bind <| (collection .list rfl (by decide)).bind <|
    (collection .hash rfl (by decide)).bind <| (collection .set rfl (by decide)).bind <|
    (collection .sortedSet rfl (by decide)).bind <| (collection .stream rfl (by decide)).bind <|
    (plain .hyperLogLog rfl).bind <| (collection .geo rfl (by decide)).bind <|
    (plain .json rfl).bind <| (cleans_of_sweeps sweeps_cleanupOrphanedTSData).bind <|
    collection .sortedSet rfl (by decide)
  intro db
  obtain ⟨db', hrun, hswept⟩ := hall db
  refine ⟨db', hrun, hswept.congr fun p e _ => exists_congr fun t => ?_⟩
  cases t <;> simp [KeyType.all]

/-- Everything `NextStartup` deletes: `TYPE_` records first, then orphans in the store that is
left. -/
theorem nextStartupTxn_spec (db : Db) :
    ∃ db₁ db', nextStartupTxn db = .ok ((), db') ∧ Swept (Bare db) db db₁ ∧
      Swept (fun p => ∃ t, Orphan t db₁ p) db₁ db' := by
  obtain ⟨db₁, hrun₁, hswept₁⟩ := sweeps_cleanupOrphanedTypes db
  obtain ⟨db', hrun', hswept'⟩ := cleans_data db₁
  refine ⟨db₁, db', ?_, hswept₁, hswept'.congr fun p e _ => exists_congr fun t => ?_⟩
  · rw [nextStartupTxn, Txn.bind_apply, hrun₁]
    exact hrun'
  · exact and_iff_right (by cases t <;> decide)

end Startup

end BoltDB.Store
