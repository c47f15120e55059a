import BoltDB.Store.SortedSets

/-!
# The records of a sorted set

A sorted set is kept three times: a data record for each member, an index record for each member
whose name carries the score and the version of the data record, and a meta record with the number
of members. This module says when the three agree (`Consistent`), that the methods keep it so, and
what breaks it.

Scores are compared by their bytes: an encoded score is decoded and encoded again to the same bytes,
also for negative zero and NaN, which decode to other numbers.
-/

namespace BoltDB.Store.SortedSets

open Bytes KeyValue Std.ExtTreeMap Option Int64 Finset List

/-! ## Encodings -/

/-- The bits that `encodeScore` writes. -/
def scoreBits (x : F64) : UInt64 :=
  if F64.zero.le x then x.bits ^^^ 0x8000000000000000 else ~~~x.bits

/-- The bits that `decodeScore` makes of them. -/
def unscoreBits (bits : UInt64) : UInt64 :=
  if bits &&& 0x8000000000000000 = 0 then ~~~bits else bits ^^^ 0x8000000000000000

theorem toNat_scoreBits (b : UInt64) :
    b.toNat ≤ 2047 * 2 ^ 52 ∧ (scoreBits ⟨b⟩).toNat = b.toNat + 2 ^ 63 ∨
    b.toNat = 2 ^ 63 ∧ (scoreBits ⟨b⟩).toNat = 0 ∨
    2047 * 2 ^ 52 < b.toNat ∧ b.toNat ≠ 2 ^ 63 ∧ (scoreBits ⟨b⟩).toNat = 2 ^ 64 - 1 - b.toNat := by
  have hb := b.toNat_lt
  have hxor := F64.toNat_xor_sign b
  have hnot := F64.toNat_not b
  have hm : F64.magnitude ⟨b⟩ = b.toNat % 2 ^ 63 := rfl
  have hinf : F64.infMagnitude = 2047 * 2 ^ 52 := rfl
  have hbits : F64.bits ⟨b⟩ = b := rfl
  by_cases h : F64.zero.le ⟨b⟩ = true
  · have hs : scoreBits ⟨b⟩ = b ^^^ 0x8000000000000000 := if_pos h
    rw [F64.zero_le_iff, hbits] at h
    rw [hs]
    split at hxor <;> omega
  · have hs : scoreBits ⟨b⟩ = ~~~b := if_neg h
    rw [F64.zero_le_iff, hbits] at h
    rw [hs]
    omega

theorem toNat_unscoreBits (b : UInt64) :
    b.toNat < 2 ^ 63 ∧ (unscoreBits b).toNat = 2 ^ 64 - 1 - b.toNat ∨
    2 ^ 63 ≤ b.toNat ∧ (unscoreBits b).toNat = b.toNat - 2 ^ 63 := by
  have hxor := F64.toNat_xor_sign b
  by_cases h : b.toNat < 2 ^ 63
  · have hs : unscoreBits b = ~~~b := if_pos ((F64.and_sign_eq_zero_iff b).mpr h)
    exact .inl ⟨h, by rw [hs, F64.toNat_not]⟩
  · have hs : unscoreBits b = b ^^^ 0x8000000000000000 :=
      if_neg (mt (F64.and_sign_eq_zero_iff b).mp h)
    exact .inr ⟨Nat.le_of_not_lt h, by rw [hs, hxor, if_neg h]⟩

/-- Decoding need not give the score back, but it gives one with the same encoding: negative zero
and the NaNs are the scores that change. -/
theorem scoreBits_unscoreBits (x : F64) : scoreBits ⟨unscoreBits (scoreBits x)⟩ = scoreBits x := by
  obtain ⟨b⟩ := x
  have hscore := toNat_scoreBits b
  have hback := toNat_unscoreBits (scoreBits ⟨b⟩)
  have hagain := toNat_scoreBits (unscoreBits (scoreBits ⟨b⟩))
  rw [← UInt64.toNat_inj]
  omega

@[simp] theorem length_encodeScore (s : F64) : (encodeScore s).length = 8 := length_bigEndian _ _

@[simp] theorem length_encodeVersion (v : UInt32) : (encodeVersion v).length = 4 :=
  length_bigEndian _ _

theorem ofBigEndian_encodeVersion (v : UInt32) :
    UInt32.ofNat (ofBigEndian (encodeVersion v)) = v := by
  rw [encodeVersion, ofBigEndian_bigEndian, Nat.mod_eq_of_lt (show v.toNat < 256 ^ 4 from v.toNat_lt),
    UInt32.ofNat_toNat]

theorem decodeScore_encodeScore (s : F64) :
    decodeScore (encodeScore s) = ⟨unscoreBits (scoreBits s)⟩ := by
  show F64.mk (unscoreBits (UInt64.ofNat (ofBigEndian (uint64ToBytes (scoreBits s))))) = _
  rw [ofBigEndian_uint64ToBytes]

theorem encodeScore_decodeScore (s : F64) :
    encodeScore (decodeScore (encodeScore s)) = encodeScore s := by
  rw [decodeScore_encodeScore]
  show uint64ToBytes (scoreBits ⟨unscoreBits (scoreBits s)⟩) = uint64ToBytes (scoreBits s)
  rw [scoreBits_unscoreBits]

theorem compare_eq_compare_iff {p q : Nat} {s t : Int} :
    compare p q = compare s t ↔ (p < q ↔ s < t) ∧ (q < p ↔ t < s) := by
  show compareOfLessAndEq _ _ = compareOfLessAndEq _ _ ↔ _
  unfold compareOfLessAndEq
  split_ifs <;> simp <;> omega

/-- **The order of scores**: but for negative zero, which comes before all and is read back as a NaN,
encoded scores are ordered as numbers and read back. -/
theorem score_order_iff {a b : F64} (ha : a.isNaN = false) (hb : b.isNaN = false) :
    (compare (encodeScore a) (encodeScore b) = compare a.signedScaled b.signedScaled ↔
      (a = .negZero → b = .negZero ∨ 0 < b.signedScaled) ∧
      (b = .negZero → a = .negZero ∨ 0 < a.signedScaled)) ∧
    ((decodeScore (encodeScore a)).eq a = true ↔ a ≠ .negZero) := by
  obtain ⟨a⟩ := a
  obtain ⟨b⟩ := b
  have hnz : ∀ c : UInt64, F64.mk c = .negZero ↔ c.toNat = 2 ^ 63 := fun c => by
    rw [F64.negZero, F64.mk.injEq, ← UInt64.toNat_inj]
    rfl
  have hna : a.toNat % 2 ^ 63 ≤ 2047 * 2 ^ 52 := not_lt.mp (of_decide_eq_false ha)
  have hnb : b.toNat % 2 ^ 63 ≤ 2047 * 2 ^ 52 := not_lt.mp (of_decide_eq_false hb)
  have hsa := toNat_scoreBits a
  have hsb := toNat_scoreBits b
  have hta := a.toNat_lt
  have htb := b.toNat_lt
  constructor
  · have hbytes : compare (encodeScore ⟨a⟩) (encodeScore ⟨b⟩) =
        compare (scoreBits ⟨a⟩).toNat (scoreBits ⟨b⟩).toNat :=
      compare_bigEndian (UInt64.toNat_lt _) (UInt64.toNat_lt _)
    have hlt : a.toNat % 2 ^ 63 < b.toNat % 2 ^ 63 → F64.scaled ⟨a⟩ < F64.scaled ⟨b⟩ := F64.scaled_lt
    have hgt : b.toNat % 2 ^ 63 < a.toNat % 2 ^ 63 → F64.scaled ⟨b⟩ < F64.scaled ⟨a⟩ := F64.scaled_lt
    have heq : a.toNat % 2 ^ 63 = b.toNat % 2 ^ 63 → F64.scaled ⟨a⟩ = F64.scaled ⟨b⟩ := fun h => by
      unfold F64.scaled F64.expBits F64.fraction F64.magnitude
      rw [h]
    have h0a : F64.scaled ⟨a⟩ = 0 ↔ a.toNat % 2 ^ 63 = 0 := F64.scaled_eq_zero_iff _
    have h0b : F64.scaled ⟨b⟩ = 0 ↔ b.toNat % 2 ^ 63 = 0 := F64.scaled_eq_zero_iff _
    rw [hbytes, compare_eq_compare_iff, hnz, hnz]
    simp only [F64.signedScaled, F64.neg, decide_eq_true_eq]
    rcases hsa with hsa | hsa | hsa <;> rcases hsb with hsb | hsb | hsb <;> split <;> split <;> omega
  · rw [decodeScore_encodeScore]
    have hback := toNat_unscoreBits (scoreBits ⟨a⟩)
    by_cases h : F64.mk a = .negZero
    · rw [h]
      decide +kernel
    · have hbits : unscoreBits (scoreBits ⟨a⟩) = a := by
        rw [hnz] at h
        rw [← UInt64.toNat_inj]
        omega
      rw [hbits, F64.eq, ha]
      simp [h]

theorem score_order_one : compare (encodeScore ⟨0xBFF0000000000000⟩) (encodeScore .one) = .lt :=
  ((score_order_iff (by decide) (by decide)).1.mpr (by decide +kernel)).trans (by decide +kernel)

theorem negZero_before_minus_one :
    compare (encodeScore .negZero) (encodeScore ⟨0xBFF0000000000000⟩) = .lt ∧
    F64.lt ⟨0xBFF0000000000000⟩ .negZero = true ∧
    (decodeScore (encodeScore .negZero)).isNaN = true := by decide +kernel

theorem decodeDataValue_encodeDataValue (s : F64) (v : UInt32) :
    decodeDataValue (encodeDataValue s v) = (decodeScore (encodeScore s), v) := by
  have htake : (encodeDataValue s v).take 8 = encodeScore s :=
    take_left' (length_encodeScore s)
  have hdrop : (encodeDataValue s v).drop 8 = encodeVersion v :=
    drop_left' (length_encodeScore s)
  have hlen : (encodeDataValue s v).length = 12 := by simp [encodeDataValue]
  rw [decodeDataValue, if_pos hlen.ge, htake, hdrop,
    take_of_length_le (length_encodeVersion v).le, ofBigEndian_encodeVersion]

theorem encodeDataValue_inj {s s' : F64} {v v' : UInt32} :
    encodeDataValue s v = encodeDataValue s' v' ↔ encodeScore s = encodeScore s' ∧ v = v' := by
  constructor
  · intro h
    obtain ⟨hs, hv⟩ := append_inj h (by simp)
    refine ⟨hs, ?_⟩
    rw [← ofBigEndian_encodeVersion v, hv, ofBigEndian_encodeVersion]
  · rintro ⟨hs, rfl⟩
    rw [encodeDataValue, hs, encodeDataValue]

theorem decodeMeta_encodeMeta (m : Meta) : decodeMeta (encodeMeta m) = some m := by
  have hcard : (uint64ToBytes m.card.toUInt64).length = 8 := length_bigEndian _ _
  have htake : (encodeMeta m).take 8 = uint64ToBytes m.card.toUInt64 := take_left' hcard
  have hdrop : (encodeMeta m).drop 8 = encodeVersion m.version := drop_left' hcard
  rw [decodeMeta, htake, hdrop, ofBigEndian_uint64ToBytes, ofBigEndian_encodeVersion]
  rfl

/-! ## Names -/

variable {b : Bool} {key : Bytes} {db db' : Db} {ms : List (Bytes × F64)} {ops : List ZOp}
  {mt : Meta} {m mark : Bytes}

theorem sortedSetKeyIndex_inj {m' : Bytes} {s s' : F64} {v v' : UInt32} :
    sortedSetKeyIndex key s m v = sortedSetKeyIndex key s' m' v' ↔
      m = m' ∧ encodeDataValue s v = encodeDataValue s' v' := by
  constructor
  · intro h
    have h := append_cancel_left h
    simp only [append_assoc] at h
    obtain ⟨hs, h⟩ := append_inj h (by simp)
    have h := append_cancel_left h
    simp only [← append_assoc] at h
    obtain ⟨hm, hv⟩ := append_inj' h (by simp)
    exact ⟨append_cancel_right hm, by rw [encodeDataValue, encodeDataValue, hs, hv]⟩
  · rintro ⟨rfl, h⟩
    obtain ⟨hs, rfl⟩ := encodeDataValue_inj.mp h
    rw [sortedSetKeyIndex, hs, sortedSetKeyIndex]

theorem sortedSetKeyMember_inj {m' : Bytes} :
    sortedSetKeyMember key m = sortedSetKeyMember key m' ↔ m = m' := by
  rw [sortedSetKeyMember_eq, sortedSetKeyMember_eq, append_cancel_left_eq]

theorem member_hasDataPrefix (key m : Bytes) : dataPrefix key <+: sortedSetKeyMember key m := by
  rw [sortedSetKeyMember_eq]
  exact prefix_append _ _

theorem index_hasIndexPrefix (key m : Bytes) (s : F64) (v : UInt32) :
    indexPrefix key <+: sortedSetKeyIndex key s m v := prefix_append _ _

/-- The byte after the record prefix tells the three families apart. -/
theorem sortedSetKey_append_inj {a b x y : Bytes}
    (h : sortedSetKey key a ++ x = sortedSetKey key b ++ y) : (a ++ x).head? = (b ++ y).head? := by
  simp only [sortedSetKey, append_assoc] at h
  rw [append_cancel_left h]

section Families

variable {key p : Bytes}

theorem not_indexPrefix_of_dataPrefix (h : dataPrefix key <+: p) : ¬ indexPrefix key <+: p := by
  rintro ⟨y, hy⟩
  obtain ⟨x, rfl⟩ := h
  exact absurd (sortedSetKey_append_inj hy) (by simp [ascii])

theorem not_dataPrefix_meta : ¬ dataPrefix key <+: sortedSetKeyMeta key := by
  rintro ⟨y, hy⟩
  rw [← append_nil (sortedSetKeyMeta key)] at hy
  exact absurd (sortedSetKey_append_inj hy) (by simp [ascii])

theorem not_indexPrefix_meta : ¬ indexPrefix key <+: sortedSetKeyMeta key := by
  rintro ⟨y, hy⟩
  rw [← append_nil (sortedSetKeyMeta key)] at hy
  exact absurd (sortedSetKey_append_inj hy) (by simp [ascii])

theorem not_isZSetRecord_type (key' : Bytes) : ¬ IsZSetRecord key (typeOfKeyGet key') :=
  fun h => not_isRecord_typeOfKeyGet _ key key' h.isRecord

end Families

/-! ## Data and index -/

/-- What the data record of a member holds. -/
def dataOf (key m : Bytes) (db : Db) : Option Bytes := db[sortedSetKeyMember key m]?.map (·.value)

/-- A member has the index record for the score and the version in its data record, and no other
one. -/
structure Matched (key : Bytes) (db : Db) : Prop where
  data : ∀ m b, dataOf key m db = some b → ∃ s v, b = encodeDataValue s v
  index : ∀ m s v, sortedSetKeyIndex key s m v ∈ db ↔ dataOf key m db = some (encodeDataValue s v)
  names : ∀ p, indexPrefix key <+: p → p ∈ db → ∃ m s v, p = sortedSetKeyIndex key s m v

theorem oldData_apply (key m : Bytes) (db : Db) :
    oldData key m db = .ok ((dataOf key m db).map decodeDataValue) := by
  rw [dataOf, Option.map_map]
  rfl

theorem dataOf_congr (h : ∀ p, dataPrefix key <+: p → db'[p]? = db[p]?) :
    dataOf key m db' = dataOf key m db := by
  rw [dataOf, dataOf, h _ (member_hasDataPrefix key m)]

theorem Matched.congr (h : Matched key db) (hdata : ∀ p, dataPrefix key <+: p → db'[p]? = db[p]?)
    (hindex : ∀ p, indexPrefix key <+: p → db'[p]? = db[p]?) : Matched key db' := by
  have hmem : ∀ p, indexPrefix key <+: p → (p ∈ db' ↔ p ∈ db) := fun p hp => by
    rw [mem_iff_isSome_getElem?, mem_iff_isSome_getElem?, hindex p hp]
  refine ⟨fun m b hb => h.data m b (dataOf_congr hdata ▸ hb), fun m s v => ?_, fun p hp hin => ?_⟩
  · rw [hmem _ (index_hasIndexPrefix key m s v), dataOf_congr hdata]
    exact h.index m s v
  · exact h.names p hp ((hmem p hp).mp hin)

/-- The store without the index record that goes with what a data record held. -/
def dropIndex (key m : Bytes) (old : Option (F64 × UInt32)) (db : Db) : Db :=
  match old with
  | some (s, v) => db.erase (sortedSetKeyIndex key s m v)
  | none => db

theorem mem_dropIndex {p : Bytes} {old : Option (F64 × UInt32)} : p ∈ dropIndex key m old db ↔
      (∀ s v, old = some (s, v) → p ≠ sortedSetKeyIndex key s m v) ∧ p ∈ db := by
  cases old with
  | none => simp [dropIndex]
  | some o =>
    obtain ⟨s, v⟩ := o
    rw [dropIndex, mem_erase_iff]
    refine and_congr ⟨?_, fun h => h s v rfl⟩ Iff.rfl
    rintro h s' v' ⟨⟩
    exact h

theorem getElem?_dropIndex {p : Bytes} {old : Option (F64 × UInt32)} (hp : ¬ indexPrefix key <+: p) :
    (dropIndex key m old db)[p]? = db[p]? := by
  cases old with
  | none => rfl
  | some o =>
    rw [dropIndex, getElem?_erase_ite, if_neg]
    rintro rfl
    exact hp (index_hasIndexPrefix key m o.1 o.2)

/-- What a data record is decoded to before it is replaced. -/
def oldOf (key m : Bytes) (db : Db) : Option (F64 × UInt32) := (dataOf key m db).map decodeDataValue

/-- The store after a member was written. -/
def putMember (key m : Bytes) (s : F64) (v : UInt32) (mark : Bytes) (db : Db) : Db :=
  ((dropIndex key m (oldOf key m db) db).insert
    (sortedSetKeyMember key m) ⟨encodeDataValue s v, 0⟩).insert
      (sortedSetKeyIndex key s m v) ⟨mark, 0⟩

/-- The store after a member was removed. -/
def dropMember (key m : Bytes) (db : Db) : Db :=
  dropIndex key m (oldOf key m db) (db.erase (sortedSetKeyMember key m))

theorem getElem?_putMember {p : Bytes} {s : F64} {v : UInt32} (hp : ¬ indexPrefix key <+: p) :
    (putMember key m s v mark db)[p]? =
      if p = sortedSetKeyMember key m then some ⟨encodeDataValue s v, 0⟩ else db[p]? := by
  have hne : p ≠ sortedSetKeyIndex key s m v := by
    rintro rfl
    exact hp (index_hasIndexPrefix key m s v)
  rw [putMember, getElem?_insert_ite, if_neg hne, getElem?_insert_ite, getElem?_dropIndex hp]

theorem getElem?_dropMember {p : Bytes} (hp : ¬ indexPrefix key <+: p) :
    (dropMember key m db)[p]? = if p = sortedSetKeyMember key m then none else db[p]? := by
  rw [dropMember, getElem?_dropIndex hp, getElem?_erase_ite]

theorem dataOf_putMember (key m m' : Bytes) (s : F64) (v : UInt32) (mark : Bytes) (db : Db) :
    dataOf key m' (putMember key m s v mark db) =
      if m' = m then some (encodeDataValue s v) else dataOf key m' db := by
  rw [dataOf, getElem?_putMember (not_indexPrefix_of_dataPrefix (member_hasDataPrefix key m')),
    dataOf]
  simp only [sortedSetKeyMember_inj]
  split <;> rfl

theorem dataOf_dropMember (key m m' : Bytes) (db : Db) :
    dataOf key m' (dropMember key m db) = if m' = m then none else dataOf key m' db := by
  rw [dataOf, getElem?_dropMember (not_indexPrefix_of_dataPrefix (member_hasDataPrefix key m')),
    dataOf]
  simp only [sortedSetKeyMember_inj]
  split <;> rfl

/-- The index record found from the old data record is the member's. -/
theorem index_ne_old_iff {m' : Bytes} {s : F64} {v : UInt32}
    (hdata : dataOf key m' db = some (encodeDataValue s v)) :
    (∀ s' v', oldOf key m db = some (s', v') →
      sortedSetKeyIndex key s m' v ≠ sortedSetKeyIndex key s' m v') ↔ m' ≠ m := by
  refine ⟨?_, fun hne s' v' _ heq => hne (sortedSetKeyIndex_inj.mp heq).1⟩
  rintro hold rfl
  refine hold (decodeScore (encodeScore s)) v ?_ (sortedSetKeyIndex_inj.mpr ⟨rfl, ?_⟩)
  · rw [oldOf, hdata, map_some, decodeDataValue_encodeDataValue]
  · exact encodeDataValue_inj.mpr ⟨(encodeScore_decodeScore s).symm, rfl⟩

section Matched

variable {key : Bytes} {db : Db} (h : Matched key db)

include h

theorem Matched.putMember (m : Bytes) (s : F64) (v : UInt32) (mark : Bytes) :
    Matched key (putMember key m s v mark db) := by
  have hmem : ∀ p, indexPrefix key <+: p → (p ∈ SortedSets.putMember key m s v mark db ↔
      p = sortedSetKeyIndex key s m v ∨
        (∀ s' v', oldOf key m db = some (s', v') → p ≠ sortedSetKeyIndex key s' m v') ∧
          p ∈ db) := fun p hp => by
    have hne : p ≠ sortedSetKeyMember key m := by
      rintro rfl
      exact not_indexPrefix_of_dataPrefix (member_hasDataPrefix key m) hp
    rw [SortedSets.putMember, mem_insert_iff, mem_insert_iff, mem_dropIndex, or_iff_right hne]
  refine ⟨fun m' b hb => ?_, fun m' s' v' => ?_, fun p hp hin => ?_⟩
  · rw [dataOf_putMember] at hb
    split at hb
    · exact ⟨s, v, (Option.some.inj hb).symm⟩
    · exact h.data m' b hb
  · rw [hmem _ (index_hasIndexPrefix key m' s' v'), sortedSetKeyIndex_inj, dataOf_putMember,
      h.index, and_congr_left index_ne_old_iff]
    by_cases hm : m' = m <;> simp [hm, eq_comm]
  · rcases (hmem p hp).mp hin with rfl | ⟨-, hin⟩
    · exact ⟨m, s, v, rfl⟩
    · exact h.names p hp hin

theorem Matched.dropMember (m : Bytes) : Matched key (dropMember key m db) := by
  have hmem : ∀ p, indexPrefix key <+: p → (p ∈ SortedSets.dropMember key m db ↔
      (∀ s' v', oldOf key m db = some (s', v') → p ≠ sortedSetKeyIndex key s' m v') ∧
        p ∈ db) := fun p hp => by
    have hne : p ≠ sortedSetKeyMember key m := by
      rintro rfl
      exact not_indexPrefix_of_dataPrefix (member_hasDataPrefix key m) hp
    rw [SortedSets.dropMember, mem_dropIndex, mem_erase_iff, and_iff_right hne]
  refine ⟨fun m' b hb => ?_, fun m' s' v' => ?_, fun p hp hin => ?_⟩
  · rw [dataOf_dropMember] at hb
    split at hb
    · cases hb
    · exact h.data m' b hb
  · rw [hmem _ (index_hasIndexPrefix key m' s' v'), dataOf_dropMember, h.index,
      and_congr_left index_ne_old_iff]
    by_cases hm : m' = m <;> simp [hm]
  · exact h.names p hp ((hmem p hp).mp hin).2

end Matched

/-! ## Members -/

/-- The members with a data record. -/
def members (key : Bytes) (db : Db) : Finset Bytes :=
  ((scan (dataPrefix key) db).map (·.1.drop (dataPrefix key).length)).toFinset

theorem mem_members : m ∈ members key db ↔ (dataOf key m db).isSome = true := by
  rw [members, List.mem_toFinset, List.mem_map, dataOf, isSome_map, sortedSetKeyMember_eq]
  constructor
  · rintro ⟨e, he, rfl⟩
    obtain ⟨hget, x, hx⟩ := mem_scan.mp he
    rw [← hx, drop_left, hx, hget]
    rfl
  · intro hsome
    obtain ⟨e, he⟩ := isSome_iff_exists.mp hsome
    exact ⟨(dataPrefix key ++ m, e), mem_scan.mpr ⟨he, prefix_append _ _⟩, drop_left⟩

theorem mem_members_iff_oldOf : m ∈ members key db ↔ (oldOf key m db).isSome = true := by
  rw [mem_members, oldOf, isSome_map]

theorem members_congr (h : ∀ p, dataPrefix key <+: p → db'[p]? = db[p]?) :
    members key db' = members key db := by
  ext m
  rw [mem_members, mem_members, dataOf_congr h]

theorem members_putMember (key m : Bytes) (s : F64) (v : UInt32) (mark : Bytes) (db : Db) :
    members key (putMember key m s v mark db) = insert m (members key db) := by
  ext m'
  rw [Finset.mem_insert, mem_members, mem_members, dataOf_putMember]
  by_cases hm : m' = m <;> simp [hm]

theorem members_dropMember (key m : Bytes) (db : Db) :
    members key (dropMember key m db) = (members key db).erase m := by
  ext m'
  rw [Finset.mem_erase, mem_members, mem_members, dataOf_dropMember]
  by_cases hm : m' = m <;> simp [hm]

/-! ## The three together -/

/-- The meta record counts the members, and a set with a meta record has its type. -/
structure Consistent (key : Bytes) (db : Db) : Prop extends Matched key db where
  counted : getMeta key db = .ok none ∧ members key db = ∅ ∨
    ∃ m, getMeta key db = .ok (some m) ∧ m.card = Int64.ofNat (members key db).card
  typed : ∀ e, db[typeOfKeyGet key]? = some e → e.value = KeyType.sortedSet.name
  hasType : sortedSetKeyMeta key ∈ db → typeOfKeyGet key ∈ db

theorem getMeta_apply (key : Bytes) (db : Db) :
    getMeta key db = match db[sortedSetKeyMeta key]? with
      | none => .ok none
      | some e => match decodeMeta e.value with
        | none => .error .invalidMeta
        | some m => .ok (some m) := by
  have hget : (View.get (sortedSetKeyMeta key) : View Err _) db = .ok db[sortedSetKeyMeta key]? := rfl
  rw [getMeta, View.bind_apply, hget]
  cases db[sortedSetKeyMeta key]? with
  | none => rfl
  | some e =>
    dsimp only
    cases decodeMeta e.value <;> rfl

theorem getMeta_congr (h : db'[sortedSetKeyMeta key]? = db[sortedSetKeyMeta key]?) :
    getMeta key db' = getMeta key db := by rw [getMeta_apply, getMeta_apply, h]

theorem getMeta_of_some {m : Meta} (h : db[sortedSetKeyMeta key]? = some ⟨encodeMeta m, 0⟩) :
    getMeta key db = .ok (some m) := by
  rw [getMeta_apply, h]
  simp only [decodeMeta_encodeMeta]

theorem getMeta_of_none (h : db[sortedSetKeyMeta key]? = none) :
    getMeta key db = .ok none := by rw [getMeta_apply, h]

/-- The records of a sorted set are all that counts. -/
theorem Consistent.congr (h : Consistent key db) (heq : ∀ p, Owns key p → db'[p]? = db[p]?) :
    Consistent key db' := by
  have hrecord : ∀ p, IsZSetRecord key p → db'[p]? = db[p]? := fun p hp => heq p hp.isRecord.owns
  have hdata : ∀ p, dataPrefix key <+: p → db'[p]? = db[p]? := fun p hp => hrecord p (.inr (.inl hp))
  have htype : db'[typeOfKeyGet key]? = db[typeOfKeyGet key]? := heq _ (owns_typeOfKeyGet key)
  have hmeta : db'[sortedSetKeyMeta key]? = db[sortedSetKeyMeta key]? := hrecord _ isZSetRecord_meta
  refine ⟨h.toMatched.congr hdata fun p hp => hrecord p (.inr (.inr hp)), ?_, ?_, ?_⟩
  · rw [getMeta_congr hmeta, members_congr hdata]
    exact h.counted
  · rw [htype]
    exact h.typed
  · rw [mem_iff_isSome_getElem?, mem_iff_isSome_getElem?, hmeta, htype,
      ← mem_iff_isSome_getElem?, ← mem_iff_isSome_getElem?]
    exact h.hasType

/-! ## Adding -/

theorem writeZOp_apply {version : UInt32} {op : ZOp} (h : op.old = oldOf key op.member db) :
    writeZOp key version mark op db = .ok ((), putMember key op.member op.score version mark db) := by
  obtain ⟨m, s, old⟩ := op
  rw [putMember, ← h]
  cases old <;> rfl

/-- What the methods that write members leave alone. -/
def SameElsewhere (key : Bytes) (db db' : Db) : Prop :=
  ∀ p, ¬ dataPrefix key <+: p → ¬ indexPrefix key <+: p → db'[p]? = db[p]?

theorem sameElsewhere_putMember (key m : Bytes) (s : F64) (v : UInt32) (mark : Bytes) (db : Db) :
    SameElsewhere key db (putMember key m s v mark db) := by
  intro p hd hi
  rw [getElem?_putMember hi, if_neg]
  rintro rfl
  exact hd (member_hasDataPrefix key m)

theorem card_members_putMember (key m : Bytes) (s : F64) (v : UInt32) (mark : Bytes) (db : Db) :
    (members key (putMember key m s v mark db)).card =
      (members key db).card + if (oldOf key m db).isNone then 1 else 0 := by
  have hold : (oldOf key m db).isNone = true ↔ m ∉ members key db := by
    rw [mem_members_iff_oldOf, Bool.not_eq_true, isSome_eq_false_iff]
  rw [members_putMember]
  by_cases hm : m ∈ members key db
  · rw [insert_eq_of_mem hm, if_neg (by rwa [hold, Classical.not_not]), Nat.add_zero]
  · rw [card_insert_of_notMem hm, if_pos (hold.mpr hm)]

theorem oldOf_putMember (key m m' : Bytes) (s : F64) (v : UInt32) (mark : Bytes) (db : Db) :
    oldOf key m' (putMember key m s v mark db) =
      if m' = m then some (decodeScore (encodeScore s), v) else oldOf key m' db := by
  rw [oldOf, dataOf_putMember]
  split
  · rw [map_some, decodeDataValue_encodeDataValue]
  · rfl

/-- Different members written one after the other. -/
theorem forM_writeZOp {version : UInt32} (hdistinct : (ops.map ZOp.member).Nodup)
    (hold : ∀ op ∈ ops, op.old = oldOf key op.member db)
    (h : ops.forM (writeZOp key version mark) db = .ok ((), db')) :
    (Matched key db → Matched key db') ∧ SameElsewhere key db db' ∧
      (members key db').card = (members key db).card + ops.countP (·.old.isNone) ∧
      (∀ op ∈ ops, oldOf key op.member db' = some (decodeScore (encodeScore op.score), version)) ∧
      ∀ m, m ∉ ops.map ZOp.member → oldOf key m db' = oldOf key m db := by
  induction ops generalizing db with
  | nil =>
    cases h
    exact ⟨id, fun _ _ _ => rfl, rfl, by simp, fun _ _ => rfl⟩
  | cons op ops ih =>
    have hop : op.old = oldOf key op.member db := hold op mem_cons_self
    obtain ⟨_, db₁, h₁, h⟩ := Txn.bind_eq_ok.mp h
    rw [writeZOp_apply hop] at h₁
    cases h₁
    obtain ⟨hnotin, hdistinct⟩ := nodup_cons.mp hdistinct
    have hne : ∀ op' ∈ ops, op'.member ≠ op.member := fun op' hop' heq =>
      hnotin (heq ▸ mem_map_of_mem hop')
    -- the data records of the members still to come are as they were
    obtain ⟨hm, hsame, hcard, hin, hout⟩ := ih hdistinct (fun op' hop' => by
      rw [hold op' (mem_cons_of_mem op hop'), oldOf_putMember, if_neg (hne op' hop')]) h
    refine ⟨fun hmatched => hm (hmatched.putMember _ _ _ _), fun p hd hi => ?_, ?_,
      fun op' hop' => ?_, fun m hm => ?_⟩
    · rw [hsame p hd hi, sameElsewhere_putMember _ _ _ _ _ _ p hd hi]
    · rw [hcard, card_members_putMember, countP_cons, ← hop]
      omega
    · rcases mem_cons.mp hop' with rfl | hop'
      · rw [hout _ hnotin, oldOf_putMember, if_pos rfl]
      · exact hin op' hop'
    · obtain ⟨hne, hm⟩ := not_or.mp (mt List.mem_cons.mpr hm)
      rw [hout m hm, oldOf_putMember, if_neg hne]

theorem Consistent.of_meta {m : Meta} (h : Matched key db)
    (hmeta : db[sortedSetKeyMeta key]? = some ⟨encodeMeta m, 0⟩)
    (hcard : m.card = Int64.ofNat (members key db).card)
    (htype : db[typeOfKeyGet key]?.map (·.value) = some KeyType.sortedSet.name) :
    Consistent key db := by
  obtain ⟨e, he, hvalue⟩ := map_eq_some_iff.mp htype
  refine ⟨h, .inr ⟨m, getMeta_of_some hmeta, hcard⟩, fun e' he' => ?_, fun _ => ?_⟩
  · rw [he] at he'
    cases he'
    exact hvalue
  · rw [mem_iff_isSome_getElem?, he]
    rfl

theorem Consistent.card_eq (h : Consistent key db) {m : Option Meta} (hm : getMeta key db = .ok m) :
    (m.getD ⟨0, 0⟩).card = Int64.ofNat (members key db).card := by
  rcases h.counted with ⟨hnone, hempty⟩ | ⟨m', hsome, hcard⟩
  · rw [hnone] at hm
    cases hm
    rw [hempty]
    rfl
  · rw [hsome] at hm
    cases hm
    exact hcard

-- The type record and the meta record are none of the data and index records.
theorem SameElsewhere.meta_eq (h : SameElsewhere key db db') :
    db'[sortedSetKeyMeta key]? = db[sortedSetKeyMeta key]? :=
  h _ not_dataPrefix_meta not_indexPrefix_meta

theorem SameElsewhere.type_eq (h : SameElsewhere key db db') :
    db'[typeOfKeyGet key]? = db[typeOfKeyGet key]? :=
  h _ (fun hp => not_isZSetRecord_type key (.inr (.inl hp)))
    fun hp => not_isZSetRecord_type key (.inr (.inr hp))

theorem meta_ne_type (key : Bytes) : sortedSetKeyMeta key ≠ typeOfKeyGet key := fun h =>
  not_isZSetRecord_type key (.inl h.symm)

/-- Writing the meta record or the type leaves data and index as they are. -/
theorem sameRecords_insert {p q : Bytes} {e : Entry}
    (hp : p = sortedSetKeyMeta key ∨ p = typeOfKeyGet key)
    (hq : dataPrefix key <+: q ∨ indexPrefix key <+: q) : (db.insert p e)[q]? = db[q]? := by
  rw [getElem?_insert_ite, if_neg]
  rintro rfl
  rcases hp with rfl | rfl
  · exact hq.elim not_dataPrefix_meta not_indexPrefix_meta
  · exact not_isZSetRecord_type key (.inr hq)

/-- What is planned for a member of the call. -/
def zOp (key : Bytes) (db : Db) (plan : F64 → Option (F64 × UInt32) → Option F64)
    (m : Bytes × F64) : Option ZOp :=
  (plan m.2 (oldOf key m.1 db)).map (⟨m.1, ·, oldOf key m.1 db⟩)

section Plan

variable {plan : F64 → Option (F64 × UInt32) → Option F64}

theorem foldlM_plan {acc : List ZOp} : (ms.foldlM (fun acc (member, score) => do
      let old ← oldData key member
      return match plan score old with
        | some new => acc ++ [⟨member, new, old⟩]
        | none => acc) acc : View Err (List ZOp)) db = .ok (acc ++ ms.filterMap (zOp key db plan)) := by
  induction ms generalizing acc with
  | nil => rw [filterMap_nil, append_nil]; rfl
  | cons m ms ih =>
    have hold : oldData key m.1 db = .ok (oldOf key m.1 db) := oldData_apply key m.1 db
    rw [foldlM_cons, View.bind_of_ok (View.bind_of_ok hold), ih, filterMap_cons, zOp]
    cases plan m.2 (oldOf key m.1 db) with
    | none => rfl
    | some x => exact congrArg Except.ok (append_assoc _ _ _)

theorem old_of_mem {op : ZOp} (h : op ∈ ms.filterMap (zOp key db plan)) :
    op.old = oldOf key op.member db := by
  obtain ⟨m, -, h⟩ := mem_filterMap.mp h
  obtain ⟨x, -, rfl⟩ := map_eq_some_iff.mp h
  rfl

theorem planned_sublist :
    ((ms.filterMap (zOp key db plan)).map ZOp.member).Sublist (ms.map Prod.fst) := by
  induction ms with
  | nil => exact List.Sublist.refl _
  | cons m ms ih =>
    rw [filterMap_cons]
    split
    · exact ih.cons m.1
    · rename_i op hop
      obtain ⟨x, -, rfl⟩ := map_eq_some_iff.mp hop
      exact ih.cons_cons m.1

end Plan

section Insert

variable {key p : Bytes} {db : Db} {e : Entry}
  (hp : p = sortedSetKeyMeta key ∨ p = typeOfKeyGet key)

include hp

theorem Matched.insert (h : Matched key db) : Matched key (db.insert p e) :=
  h.congr (fun _ hq => sameRecords_insert hp (.inl hq)) fun _ hq => sameRecords_insert hp (.inr hq)

theorem members_insert : members key (db.insert p e) = members key db :=
  members_congr fun _ hq => sameRecords_insert hp (.inl hq)

theorem oldOf_insert (m : Bytes) : oldOf key m (db.insert p e) = oldOf key m db :=
  congrArg (Option.map decodeDataValue) (dataOf_congr fun _ hq => sameRecords_insert hp (.inl hq))

end Insert

theorem getMeta_insert_type (key : Bytes) (db : Db) (e : Entry) :
    getMeta key (db.insert (typeOfKeyGet key) e) = getMeta key db :=
  getMeta_congr (by rw [getElem?_insert_ite, if_neg (meta_ne_type key)])

theorem Consistent.zAddPlanned {plan : F64 → Option (F64 × UInt32) → Option F64}
    (hc : Consistent key db) (hdistinct : (ms.map Prod.fst).Nodup)
    (h : zAddPlanned key mark plan ms db = .ok (ops, db')) : Consistent key db' := by
  obtain ⟨_, _, h⟩ := Txn.lift_bind_eq_ok.mp h
  rw [Txn.set_bind] at h
  obtain ⟨m, hm, h⟩ := Txn.lift_bind_eq_ok.mp h
  obtain ⟨planned, hplan, h⟩ := Txn.lift_bind_eq_ok.mp h
  rw [Txn.set_bind] at h
  obtain ⟨_, db₁, hwrite, h⟩ := Txn.bind_eq_ok.mp h
  obtain ⟨-, rfl⟩ := Txn.pure_eq_ok.mp h
  obtain rfl := Except.ok.inj (hplan.symm.trans foldlM_plan)
  obtain ⟨hmatched, hsame, hcard, -⟩ := forM_writeZOp (planned_sublist.nodup hdistinct)
    (fun op hop => by rw [oldOf_insert (.inl rfl)]; exact old_of_mem hop) hwrite
  rw [getMeta_insert_type] at hm
  refine .of_meta (hmatched ((hc.toMatched.insert (.inr rfl)).insert (.inl rfl)))
    (hsame.meta_eq.trans getElem?_insert_self) ?_ ?_
  · rw [hcard, members_insert (.inl rfl), members_insert (.inr rfl), ofNat_add,
      ← hc.card_eq hm, nil_append]
  · rw [hsame.type_eq, getElem?_insert_ite, if_neg (meta_ne_type key).symm, getElem?_insert_ite,
      if_pos rfl]
    rfl

theorem Consistent.zAddMembers (hc : Consistent key db) (hdistinct : (ms.map Prod.fst).Nodup)
    (h : zAddMembers key ms db = .ok (b, db')) : Consistent key db' := by
  unfold SortedSets.zAddMembers at h
  split at h
  · cases h
    exact hc
  · obtain ⟨ops, db₁, h₁, h⟩ := Txn.bind_eq_ok.mp h
    cases h
    exact hc.zAddPlanned hdistinct h₁

theorem Consistent.zAddMembersOpts {o : ZAddOptions} {n : Nat} (hc : Consistent key db)
    (hdistinct : (ms.map Prod.fst).Nodup) (h : zAddMembersOpts key o ms db = .ok (n, db')) :
    Consistent key db' := by
  unfold SortedSets.zAddMembersOpts at h
  split at h
  · cases h
    exact hc
  · obtain ⟨ops, db₁, h₁, h⟩ := Txn.bind_eq_ok.mp h
    cases h
    exact hc.zAddPlanned hdistinct h₁

theorem Consistent.zIncrByTxn {increment x : F64} (hc : Consistent key db)
    (h : zIncrByTxn key m increment db = .ok (x, db')) : Consistent key db' := by
  rw [SortedSets.zIncrByTxn, Txn.set_bind] at h
  obtain ⟨old, hold, h⟩ := Txn.lift_bind_eq_ok.mp h
  obtain ⟨mt, hmeta, h⟩ := Txn.lift_bind_eq_ok.mp h
  obtain ⟨_, db₁, hwrite, h⟩ := Txn.bind_eq_ok.mp h
  rw [Txn.set_bind] at h
  obtain ⟨-, rfl⟩ := Txn.pure_eq_ok.mp h
  rw [oldData_apply] at hold
  have hold := (Except.ok.inj hold).symm
  rw [writeZOp_apply hold] at hwrite
  obtain ⟨-, rfl⟩ := Txn.pure_eq_ok.mp hwrite
  rw [getMeta_insert_type] at hmeta
  refine .of_meta (((hc.toMatched.insert (.inr rfl)).putMember _ _ _ _).insert (.inl rfl))
    getElem?_insert_self ?_ ?_
  · rw [members_insert (.inl rfl), card_members_putMember, members_insert (.inr rfl),
      ofNat_add, ← hc.card_eq hmeta, oldOf, ← hold]
    cases old <;> simp
  · rw [getElem?_insert_ite, if_neg (meta_ne_type key).symm,
      (sameElsewhere_putMember _ _ _ _ _ _).type_eq, getElem?_insert_ite, if_pos rfl]
    rfl

/-! ## Removing -/

theorem sameElsewhere_dropMember (key m : Bytes) (db : Db) :
    SameElsewhere key db (dropMember key m db) := by
  intro p hd hi
  rw [getElem?_dropMember hi, if_neg]
  rintro rfl
  exact hd (member_hasDataPrefix key m)

section Erase

variable {key p : Bytes} {db : Db} (hp : p = sortedSetKeyMeta key ∨ p = typeOfKeyGet key)

include hp

theorem sameRecords_erase {q : Bytes} (hq : dataPrefix key <+: q ∨ indexPrefix key <+: q) :
    (db.erase p)[q]? = db[q]? := by
  rw [getElem?_erase_ite, if_neg]
  rintro rfl
  rcases hp with rfl | rfl
  · exact hq.elim not_dataPrefix_meta not_indexPrefix_meta
  · exact not_isZSetRecord_type key (.inr hq)

theorem Matched.erase (h : Matched key db) : Matched key (db.erase p) :=
  h.congr (fun _ hq => sameRecords_erase hp (.inl hq)) fun _ hq => sameRecords_erase hp (.inr hq)

theorem members_erase : members key (db.erase p) = members key db :=
  members_congr fun _ hq => sameRecords_erase hp (.inl hq)

end Erase

/-- A set without members, a meta record and a type. -/
theorem Consistent.of_empty (h : Matched key db) (hmembers : members key db = ∅)
    (hmeta : db[sortedSetKeyMeta key]? = none) (htype : db[typeOfKeyGet key]? = none) :
    Consistent key db := by
  refine ⟨h, .inl ⟨getMeta_of_none hmeta, hmembers⟩, fun e he => ?_, fun hin => ?_⟩
  · rw [htype] at he
    cases he
  · rw [mem_iff_isSome_getElem?, hmeta] at hin
    cases hin

theorem ofNat_succ_sub_one (n : Nat) : Int64.ofNat (n + 1) - 1 = Int64.ofNat n := by
  rw [ofNat_add]
  exact Int64.add_sub_cancel _ _

-- The cardinality is signed: a count from `2^63` on would pass for that of an empty set.
theorem ofNat_nonpos_iff {n : Nat} (hn : n < 2 ^ 63) : Int64.ofNat n ≤ 0 ↔ n = 0 := by
  rw [le_iff_toInt_le, toInt_ofNat_of_lt hn]
  simp

theorem lowerCard_apply (key : Bytes) (m : Meta) (db : Db) :
    lowerCard key m db = .ok ((), if m.card - 1 ≤ 0 then
        (db.erase (sortedSetKeyMeta key)).erase (typeOfKeyGet key)
      else db.insert (sortedSetKeyMeta key) ⟨encodeMeta ⟨m.card - 1, m.version⟩, 0⟩) := by
  unfold lowerCard
  by_cases hle : m.card - 1 ≤ 0
  · rw [if_pos hle, if_pos hle]
    rfl
  · rw [if_neg hle, if_neg hle]
    rfl

theorem toInt_sub_one_of_pos {c : Int64} (h : 0 < c.toInt) : (c - 1).toInt + 1 = c.toInt := by
  have hlt := c.toInt_lt
  rw [toInt_sub, show (1 : Int64).toInt = 1 from rfl, Int.bmod_eq_of_le] <;> omega

theorem members_lowerCard (h : lowerCard key mt db = .ok ((), db')) :
    members key db' = members key db := by
  rw [lowerCard_apply] at h
  obtain ⟨-, rfl⟩ := Txn.pure_eq_ok.mp h
  split
  · rw [members_erase (.inr rfl), members_erase (.inl rfl)]
  · rw [members_insert (.inl rfl)]

theorem Consistent.type_of_meta (hc : Consistent key db) (hmeta : getMeta key db = .ok (some mt)) :
    db[typeOfKeyGet key]?.map (·.value) = some KeyType.sortedSet.name := by
  have hin : sortedSetKeyMeta key ∈ db := by
    rw [mem_iff_isSome_getElem?]
    cases hget : db[sortedSetKeyMeta key]? with
    | none =>
      rw [getMeta_of_none hget] at hmeta
      cases hmeta
    | some e => rfl
  have htype := hc.hasType hin
  rw [mem_iff_isSome_getElem?] at htype
  obtain ⟨e, he⟩ := isSome_iff_exists.mp htype
  rw [he, map_some, hc.typed e he]

theorem Consistent.lowerCard (hc : Consistent key db) (hsmall : (members key db).card < 2 ^ 63)
    (hm : m ∈ members key db) (hmeta : getMeta key db = .ok (some mt))
    (h : lowerCard key mt (dropMember key m db) = .ok ((), db')) : Consistent key db' := by
  have hsame := sameElsewhere_dropMember key m db
  obtain ⟨n, hn⟩ : ∃ n, (members key db).card = n + 1 :=
    Nat.exists_eq_succ_of_ne_zero (card_ne_zero_of_mem hm)
  have hleft : (members key (dropMember key m db)).card = n := by
    rw [members_dropMember, card_erase_of_mem hm, hn, Nat.add_sub_cancel]
  have hcard : mt.card - 1 = Int64.ofNat n := by
    rw [← ofNat_succ_sub_one, ← hn, ← hc.card_eq hmeta]
    rfl
  rw [lowerCard_apply, hcard] at h
  obtain ⟨-, rfl⟩ := Txn.pure_eq_ok.mp h
  split
  · next hle =>
    have hzero : n = 0 := (ofNat_nonpos_iff (by omega)).mp hle
    refine .of_empty (((hc.toMatched.dropMember m).erase (.inl rfl)).erase (.inr rfl)) ?_ ?_ ?_
    · rw [members_erase (.inr rfl), members_erase (.inl rfl), ← card_eq_zero, hleft, hzero]
    · rw [getElem?_erase_ite, if_neg (meta_ne_type key), getElem?_erase_ite, if_pos rfl]
    · rw [getElem?_erase_ite, if_pos rfl]
  · refine .of_meta ((hc.toMatched.dropMember m).insert (.inl rfl))
      getElem?_insert_self ?_ ?_
    · rw [members_insert (.inl rfl), hleft]
    · rw [getElem?_insert_ite, if_neg (meta_ne_type key).symm, hsame.type_eq]
      exact hc.type_of_meta hmeta

/-- A member that is there is dropped, and the count lowered. -/
theorem zRemMember_cases (h : zRemMember key m db = .ok (b, db')) :
    b = false ∧ m ∉ members key db ∧ db' = db ∨
    b = true ∧ m ∈ members key db ∧ ∃ mt, getMeta key db = .ok mt ∧
      lowerCard key (mt.getD ⟨0, 0⟩) (dropMember key m db) = .ok ((), db') := by
  obtain ⟨_, _, h⟩ := Txn.lift_bind_eq_ok.mp h
  obtain ⟨old, hold, h⟩ := Txn.lift_bind_eq_ok.mp h
  rw [oldData_apply] at hold
  have hold : oldOf key m db = old := Except.ok.inj hold
  cases old with
  | none =>
    obtain ⟨rfl, rfl⟩ := Txn.pure_eq_ok.mp h
    refine .inl ⟨rfl, ?_, rfl⟩
    rw [mem_members_iff_oldOf, hold]
    exact Bool.false_ne_true
  | some o =>
    obtain ⟨mt, hmeta, h⟩ := Txn.lift_bind_eq_ok.mp h
    rw [Txn.delete_bind, Txn.delete_bind] at h
    obtain ⟨_, db₁, hlower, h⟩ := Txn.bind_eq_ok.mp h
    obtain ⟨rfl, rfl⟩ := Txn.pure_eq_ok.mp h
    have hdrop : dropMember key m db = (db.erase (sortedSetKeyMember key m)).erase
        (sortedSetKeyIndex key o.1 m o.2) := by
      rw [dropMember, hold]
      rfl
    refine .inr ⟨rfl, ?_, mt, hmeta, hdrop ▸ hlower⟩
    rw [mem_members_iff_oldOf, hold]
    rfl

theorem Consistent.zRemMember (hc : Consistent key db) (hsmall : (members key db).card < 2 ^ 63)
    (h : zRemMember key m db = .ok (b, db')) :
    Consistent key db' ∧ (members key db').card < 2 ^ 63 := by
  rcases zRemMember_cases h with ⟨-, -, rfl⟩ | ⟨-, hm, mt, hmeta, hlower⟩
  · exact ⟨hc, hsmall⟩
  · refine ⟨?_, ?_⟩
    · cases mt with
      | none =>
        -- a set with a member has a meta record
        rcases hc.counted with ⟨_, hempty⟩ | ⟨_, hget, _⟩
        · simp [hempty] at hm
        · rw [hget] at hmeta
          cases hmeta
      | some mt => exact hc.lowerCard hsmall hm hmeta hlower
    · rw [members_lowerCard hlower, members_dropMember]
      exact (card_erase_le).trans_lt hsmall

theorem Consistent.zRemMembers {removed : List (Bytes × F64)} (hc : Consistent key db)
    (hsmall : (members key db).card < 2 ^ 63) (h : zRemMembers key ms db = .ok (removed, db')) :
    Consistent key db' ∧ (members key db').card < 2 ^ 63 := by
  refine Txn.foldlM_keeps (I := fun db => Consistent key db ∧ (members key db).card < 2 ^ 63) ?_
    ⟨hc, hsmall⟩ h
  intro m _ acc db acc' db' hdb hstep
  obtain ⟨b, db₁, hrem, hstep⟩ := Txn.bind_eq_ok.mp hstep
  obtain ⟨-, rfl⟩ := Txn.pure_eq_ok.mp hstep
  exact hdb.1.zRemMember hdb.2 hrem

end BoltDB.Store.SortedSets
