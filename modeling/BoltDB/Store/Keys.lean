import BoltDB.Lib.KeyValue

/-!
# Types and physical keys

A logical key has a `TYPE_` record that names its type and data records whose names join a tag of
the type, the key and a rest with `:` (`define.go`, `base.go`, `list_types.go`, `hash.go`, `set.go`,
`zset_types.go`). A name belongs to two keys only if one of them is the other followed by `:` and
more.
-/

namespace BoltDB.Store

open Bytes KeyValue List

/-! ## Types -/

inductive KeyType
  | string | list | hash | set | sortedSet | json | timeSeries | stream | hyperLogLog | geo
  deriving DecidableEq

namespace KeyType

def all : List KeyType :=
  [string, list, hash, set, sortedSet, json, timeSeries, stream, hyperLogLog, geo]

/-- The value of a `TYPE_` record. -/
def name : KeyType → Bytes
  | string => "STRING"
  | list => "LIST"
  | hash => "HASH"
  | set => "SET"
  | sortedSet => "zset"
  | json => "JSON"
  | timeSeries => "TIMESERIES"
  | stream => "STREAM"
  | hyperLogLog => "hyperloglog"
  | geo => "GEOHASH"

def ofName (name : Bytes) : Option KeyType := all.find? (·.name = name)

/-- What the data records start with. -/
def tag : KeyType → Bytes
  | string => "STRING:"
  | list => "LIST:"
  | hash => "HASH:"
  | set => "SET:"
  | sortedSet => "zset:"
  | json => "JSON:"
  | timeSeries => "TS:"
  | stream => "stream:"
  | hyperLogLog => "hll:"
  | geo => "geo:"

/-- Types with one data record, named by the tag and the key. -/
def isPlain : KeyType → Bool
  | string | json | hyperLogLog => true
  | _ => false

@[simp] theorem ofName_name (t : KeyType) : ofName t.name = some t := by cases t <;> decide

theorem eq_name_of_ofName {b : Bytes} {t : KeyType} (h : ofName b = some t) : b = t.name := by
  have := find?_some h
  exact (of_decide_eq_true this).symm

theorem name_injective {t t' : KeyType} (h : t.name = t'.name) : t = t' := by
  have := ofName_name t
  rw [h, ofName_name] at this
  exact (Option.some.inj this).symm

end KeyType

/-! ## Names of records -/

/-- `TypeOfKeyGet`. -/
def typeOfKeyGet (key : Bytes) : Bytes := "TYPE_" ++ key

def stringKey (key : Bytes) : Bytes := KeyType.string.tag ++ key

/-- The part of a record's name up to the `:` after the key. -/
def recordPrefix (t : KeyType) (key : Bytes) : Bytes := t.tag ++ key ++ ":"

/-- `listKey` with the parts already joined. -/
def listKey (key part : Bytes) : Bytes := recordPrefix .list key ++ part

def hashKey (key field : Bytes) : Bytes := recordPrefix .hash key ++ field

def hashCountKey (key : Bytes) : Bytes := hashKey key "__count__"

/-- `setKey` with the parts already joined. -/
def setKey (key part : Bytes) : Bytes := recordPrefix .set key ++ part

def setCountKey (key : Bytes) : Bytes := setKey key "count"

def setMemberKey (key member : Bytes) : Bytes := setKey key ("member:" ++ member)

def sortedSetKey (key part : Bytes) : Bytes := recordPrefix .sortedSet key ++ part

def sortedSetKeyMeta (key : Bytes) : Bytes := sortedSetKey key "meta"

def sortedSetKeyMember (key member : Bytes) : Bytes := sortedSetKey key ("data:" ++ member)

def jsonKey (key : Bytes) : Bytes := KeyType.json.tag ++ key

def tsMetaKey (key : Bytes) : Bytes := recordPrefix .timeSeries key ++ "meta"

def streamKey (key : Bytes) : Bytes := recordPrefix .stream key ++ "meta"

def streamDataPrefix (key : Bytes) : Bytes := recordPrefix .stream key ++ "data:"

def streamGroupsPrefix (key : Bytes) : Bytes := recordPrefix .stream key ++ "groups:"

def hllKey (key : Bytes) : Bytes := KeyType.hyperLogLog.tag ++ key

def geoKey (key : Bytes) : Bytes := recordPrefix .geo key ++ "meta"

/-- The record that carries the expiry of a key. -/
def getKeyValueKey (key : Bytes) : KeyType → Bytes
  | .string => stringKey key
  | .list => listKey key "length"
  | .hash => hashCountKey key
  | .set => setCountKey key
  | .sortedSet => sortedSetKeyMeta key
  | .json => jsonKey key
  | .timeSeries => tsMetaKey key
  | .stream => streamKey key
  | .hyperLogLog => hllKey key
  | .geo => geoKey key

/-- `p` names a data record of `key` for the type. -/
def IsRecord (t : KeyType) (key p : Bytes) : Prop :=
  if t.isPlain then p = t.tag ++ key else recordPrefix t key <+: p

instance (t : KeyType) (key p : Bytes) : Decidable (IsRecord t key p) := by
  unfold IsRecord
  infer_instance

/-- The key's `TYPE_` record and data records of any type. -/
def Owns (key p : Bytes) : Prop := p = typeOfKeyGet key ∨ ∃ t, IsRecord t key p

/-! ## A name has one owner, up to `:` -/

/-- `key'` is `key` followed by `:` and more. -/
def Extends (key key' : Bytes) : Prop := key ++ ascii ":" <+: key'

/-- Two keys whose records can have the same name. -/
def Overlap (key key' : Bytes) : Prop := Extends key key' ∨ Extends key' key

instance (key key' : Bytes) : Decidable (Extends key key') := by
  unfold Extends
  infer_instance

instance (key key' : Bytes) : Decidable (Overlap key key') := by
  unfold Overlap
  infer_instance

-- The first two bytes tell the tags, and `TYPE_`, apart.
theorem take_tag_append (t : KeyType) (x : Bytes) : (t.tag ++ x).take 2 = t.tag.take 2 := by
  cases t <;> rfl

theorem take_tag_injective {t t' : KeyType} (h : t.tag.take 2 = t'.tag.take 2) : t = t' := by
  revert h
  cases t <;> cases t' <;> decide

theorem tag_append_inj {t t' : KeyType} {x y : Bytes} (h : t.tag ++ x = t'.tag ++ y) :
    t = t' ∧ x = y := by
  have ht : t = t' := by
    apply take_tag_injective
    rw [← take_tag_append t x, h, take_tag_append]
  subst ht
  exact ⟨rfl, append_cancel_left h⟩

theorem typeOfKeyGet_ne_tag_append (key : Bytes) (t : KeyType) (x : Bytes) :
    typeOfKeyGet key ≠ t.tag ++ x := by
  intro h
  have htake : (typeOfKeyGet key).take 2 = t.tag.take 2 := by rw [h, take_tag_append]
  revert htake
  cases t <;> simp [typeOfKeyGet, KeyType.tag, ascii]

theorem typeOfKeyGet_injective {key key' : Bytes} (h : typeOfKeyGet key = typeOfKeyGet key') :
    key = key' := append_cancel_left h

theorem IsRecord.tag_append {t : KeyType} {key p : Bytes} (h : IsRecord t key p) :
    ∃ x, p = t.tag ++ x := by
  unfold IsRecord at h
  split at h
  · exact ⟨key, h⟩
  · obtain ⟨x, rfl⟩ := h
    exact ⟨key ++ ":" ++ x, by simp [recordPrefix]⟩

theorem not_isRecord_typeOfKeyGet (t : KeyType) (key key' : Bytes) :
    ¬ IsRecord t key (typeOfKeyGet key') := by
  intro h
  obtain ⟨x, hx⟩ := h.tag_append
  exact typeOfKeyGet_ne_tag_append key' t x hx

theorem IsRecord.type_eq {t t' : KeyType} {key key' p : Bytes} (h : IsRecord t key p)
    (h' : IsRecord t' key' p) : t = t' := by
  obtain ⟨x, rfl⟩ := h.tag_append
  obtain ⟨y, hy⟩ := h'.tag_append
  exact (tag_append_inj hy).1

theorem colon_append_cases {a b x y : Bytes} (h : a ++ ":" ++ x = b ++ ":" ++ y) :
    a = b ∨ Extends a b ∨ Extends b a := by
  have hcolon : ascii ":" = [58] := rfl
  rw [append_assoc, append_assoc, hcolon] at h
  rcases append_eq_append_iff.mp h with ⟨c, rfl, hc⟩ | ⟨c, rfl, hc⟩
  · cases c with
    | nil => exact .inl (append_nil a).symm
    | cons d c =>
      cases hc
      exact .inr (.inl ⟨c, by simp [hcolon]⟩)
  · cases c with
    | nil => exact .inl (append_nil b)
    | cons d c =>
      cases hc
      exact .inr (.inr ⟨c, by simp [hcolon]⟩)

theorem IsRecord.key_cases {t : KeyType} {key key' p : Bytes} (h : IsRecord t key p)
    (h' : IsRecord t key' p) : key = key' ∨ Overlap key key' := by
  unfold IsRecord at h h'
  split at h
  · next hplain =>
    rw [if_pos hplain] at h'
    subst h
    exact .inl (append_cancel_left h')
  · next hplain =>
    rw [if_neg hplain] at h'
    obtain ⟨x, rfl⟩ := h
    obtain ⟨y, hy⟩ := h'
    unfold recordPrefix at hy
    rw [append_assoc, append_assoc, append_assoc, append_assoc] at hy
    have := append_cancel_left hy
    rw [← append_assoc, ← append_assoc] at this
    exact (colon_append_cases this.symm).imp id id

theorem Owns.key_cases {key key' p : Bytes} (h : Owns key p) (h' : Owns key' p) :
    key = key' ∨ Overlap key key' := by
  rcases h with rfl | ⟨t, h⟩ <;> rcases h' with h' | ⟨t', h'⟩
  · exact .inl (typeOfKeyGet_injective h')
  · exact absurd h' (not_isRecord_typeOfKeyGet t' key' key)
  · exact absurd (h' ▸ h) (not_isRecord_typeOfKeyGet t key key')
  · obtain rfl := h.type_eq h'
    exact h.key_cases h'

/-- A key without `:` is no extension of another key. -/
theorem not_extends_of_notMem {key key' : Bytes} (h : 58 ∉ key') : ¬ Extends key key' := by
  rintro ⟨x, rfl⟩
  simp [ascii] at h

theorem not_overlap_of_notMem {key key' : Bytes} (h : 58 ∉ key) (h' : 58 ∉ key') :
    ¬ Overlap key key' := by
  rintro (hex | hex)
  · exact not_extends_of_notMem h' hex
  · exact not_extends_of_notMem h hex

/-! ## The records by type -/

theorem isRecord_of_isPrefix {t : KeyType} {key p : Bytes} (ht : t.isPlain = false)
    (h : recordPrefix t key <+: p) : IsRecord t key p := by
  rw [IsRecord, ht]
  exact h

@[simp] theorem isRecord_stringKey (key : Bytes) : IsRecord .string key (stringKey key) := rfl

@[simp] theorem isRecord_listKey (key part : Bytes) : IsRecord .list key (listKey key part) :=
  prefix_append _ _

@[simp] theorem isRecord_hashKey (key field : Bytes) : IsRecord .hash key (hashKey key field) :=
  prefix_append _ _

@[simp] theorem isRecord_hashCountKey (key : Bytes) : IsRecord .hash key (hashCountKey key) :=
  isRecord_hashKey key _

@[simp] theorem isRecord_setKey (key part : Bytes) : IsRecord .set key (setKey key part) :=
  prefix_append _ _

@[simp] theorem isRecord_setCountKey (key : Bytes) : IsRecord .set key (setCountKey key) :=
  isRecord_setKey key _

@[simp] theorem isRecord_setMemberKey (key member : Bytes) :
    IsRecord .set key (setMemberKey key member) := isRecord_setKey key _

@[simp] theorem isRecord_sortedSetKey (key part : Bytes) :
    IsRecord .sortedSet key (sortedSetKey key part) := prefix_append _ _

@[simp] theorem isRecord_sortedSetKeyMeta (key : Bytes) :
    IsRecord .sortedSet key (sortedSetKeyMeta key) := isRecord_sortedSetKey key _

@[simp] theorem isRecord_sortedSetKeyMember (key member : Bytes) :
    IsRecord .sortedSet key (sortedSetKeyMember key member) := isRecord_sortedSetKey key _

theorem isRecord_getKeyValueKey (key : Bytes) (t : KeyType) :
    IsRecord t key (getKeyValueKey key t) := by
  cases t <;> first | rfl | exact prefix_append _ _

end BoltDB.Store
