import BoltDB.Store.Transparency

/-!
# Parts of a string

`SETRANGE` and `GETRANGE` against the bytes they stand for: `spliced` and `substring` say, position by
position, what the value is and what is read. `SETRANGE` does not look at the sign of the offset. A negative
one puts the new bytes in front, or is an index out of range (`setRange_law_iff`).

The padding is made with `make([]byte, n)`, which panics when `n` is above the largest allocation of the
runtime (`maxAlloc`). The result goes through the configured encoder, which may refuse it: `snappy.Encode`
panics above `0xffffffff` bytes. Such a result does not satisfy `Keeps`.
-/

namespace BoltDB.Store.Strings

open Bytes KeyValue List

/-- `v` with zeros up to `o`, and `w` over the bytes from `o` on. -/
def spliced (v w : Bytes) (o : Nat) : Bytes :=
  (List.range (max v.length (o + w.length))).map fun p =>
    if o ≤ p ∧ p < o + w.length then w.getD (p - o) 0 else v.getD p 0

/-- The position of an index; the last byte has the index -1. -/
def position (v : Bytes) (i : Int64) : Int := if i.toInt < 0 then v.length + i.toInt else i.toInt

/-- The bytes between two indexes, both included. -/
def substring (v : Bytes) (i j : Int64) : Bytes :=
  (v.zipIdx.filter fun (_, p) => position v i ≤ p ∧ p ≤ position v j).map Prod.fst

/-- The key is a string with this value, or is absent and the value is empty. -/
structure Holds (c : Codec) (key v : Bytes) (db : Db) : Prop where
  type : checkKeyType key .string db = .ok ()
  value : getStringBytes c key db = .ok v

/-- What is stored for a value reads back as that value. -/
def Keeps (c : Codec) (v : Bytes) : Prop := (storedValue c v).bind (decompressData c) = some v

/-- **The law of a splice**: what `SETRANGE` is to do, and what `GETRANGE` reads before and after. -/
structure Splices (c : Codec) (now : Nat) (key v : Bytes) (o : Int64) (w : Bytes) (db : Db) : Prop where
  nonneg : 0 ≤ o.toInt → ∃ db', setRange c now key o w db = (.ok (spliced v w o.toInt.toNat).length, db') ∧
    view now (Strings.get c key) db' = (.ok (spliced v w o.toInt.toNat), db') ∧
    ∀ last : Int64, w ≠ [] → last.toInt = o.toInt + w.length - 1 →
      view now (getRange c key o last) db' = (.ok w, db')
  neg : o.toInt < 0 → ∃ e ≠ .indexOutOfRange, setRange c now key o w db = (.error e, db)
  range : ∀ i j, view now (getRange c key i j) db = (.ok (substring v i j), db)

/-! ## Bytes -/

theorem spliced_eq (v w : Bytes) (o : Nat) :
    spliced v w o = (v ++ List.replicate (o - v.length) 0).take o ++ w ++ v.drop (o + w.length) := by
  have hlen : ((v ++ List.replicate (o - v.length) 0).take o).length = o := by simp; omega
  apply ext_getElem
  · simp [spliced]
    omega
  · intro p hp hp'
    simp only [spliced, getElem_map, getElem_range, getElem_append, hlen, length_append]
    split_ifs <;> grind

theorem splice_of_nonneg {v w : Bytes} {o : Int} (ho : 0 ≤ o) :
    splice v w o = if maxAlloc < o + w.length then none else some (spliced v w o.toNat) := by
  obtain ⟨o, rfl⟩ := Int.eq_ofNat_of_zero_le ho
  rw [splice, spliced_eq]
  split
  · rfl
  · have hpad : (((o : Int) - v.length).toNat) = o - v.length := by omega
    have hsum : ((o : Int) + w.length).toNat = o + w.length := by omega
    have hlen : (v ++ List.replicate (o - v.length) (0 : UInt8)).length = max v.length o := by simp; omega
    simp only [hpad, hsum, Int.toNat_natCast, hlen]
    split
    · rw [if_neg (by omega), drop_append]
      have : o - v.length - (o + w.length - v.length) = 0 := by omega
      simp [this]
    · rw [drop_eq_nil_of_le (by omega), append_nil]

theorem filter_zipIdx (v : Bytes) (lo hi n : Nat) :
    ((v.zipIdx n).filter fun (_, p) => lo ≤ p ∧ p < hi).map Prod.fst = (v.take (hi - n)).drop (lo - n) := by
  induction v generalizing n with
  | nil => simp
  | cons b v ih =>
    have hih := ih (n + 1)
    by_cases hhi : n < hi
    · rw [show hi - n = hi - (n + 1) + 1 by omega]
      by_cases hlo : lo ≤ n
      · rw [show lo - (n + 1) = 0 by omega] at hih
        simpa [hlo, hhi] using hih
      · rw [show lo - n = lo - (n + 1) + 1 by omega]
        simpa [hlo] using hih
    · rw [show hi - n = 0 by omega]
      rw [show hi - (n + 1) = 0 by omega] at hih
      simpa [hhi] using hih

theorem slice_eq_substring (v : Bytes) (i j : Int64) : slice v i j = substring v i j := by
  have hfirst : fromEnd v.length i.toInt 0 = max (position v i) 0 := by
    simp only [fromEnd, position]
    split <;> omega
  have hlast : fromEnd v.length j.toInt (-1) = max (position v j) (-1) := by
    simp only [fromEnd, position]
    split <;> omega
  have hfilter := filter_zipIdx v (position v i).toNat (position v j + 1).toNat 0
  have hcongr : v.zipIdx.filter (fun (_, p) => decide (position v i ≤ p ∧ p ≤ position v j)) =
      v.zipIdx.filter fun (_, p) => decide ((position v i).toNat ≤ p ∧ p < (position v j + 1).toNat) := by
    apply filter_congr
    intro x _
    simp only [decide_eq_decide]
    omega
  rw [substring, hcongr, hfilter, slice, hfirst, hlast]
  split
  · rw [eq_comm, drop_eq_nil_iff, length_take]
    omega
  · have htake : v.take (min (max (position v j) (-1)) (v.length - 1) + 1).toNat = v.take (position v j + 1).toNat :=
      take_eq_take_iff.mpr (by omega)
    rw [htake, Nat.sub_zero, Nat.sub_zero, show (max (position v i) 0).toNat = (position v i).toNat by omega]

theorem slice_spliced {v w : Bytes} {o last : Int64} (ho : 0 ≤ o.toInt) (hw : w ≠ [])
    (hlast : last.toInt = o.toInt + w.length - 1) : slice (spliced v w o.toInt.toNat) o last = w := by
  have hpos := length_pos_iff.mpr hw
  have hlen : (spliced v w o.toInt.toNat).length = max v.length (o.toInt.toNat + w.length) := by simp [spliced]
  rw [slice, fromEnd, fromEnd, if_neg (by omega), if_neg (by omega), hlen, hlast, if_neg (by omega), spliced_eq]
  generalize hn : o.toInt.toNat = n
  have hpad : ((v ++ List.replicate (n - v.length) 0).take n).length = n := by
    simp
    omega
  rw [show (min (o.toInt + w.length - 1) ((max v.length (n + w.length) : Nat) - 1) + 1).toNat = n + w.length by omega,
    append_assoc, take_append, drop_append, drop_eq_nil_of_le]
  · rw [length_take, hpad]
    simp
  · rw [length_take]
    omega

/-! ## The commands -/

section Commands

variable {c : Codec} {now : Nat} {key v w : Bytes} {o : Int64} {db : Db}

theorem Holds.getRange_apply (h : Holds c key v db) (i j : Int64) :
    getRange c key i j db = .ok (substring v i j) := by
  rw [← slice_eq_substring, getRange, View.bind_of_ok h.type]
  exact View.bind_of_ok h.value

theorem setRangeTxn_apply (h : Holds c key v db) : setRangeTxn c key o w db =
    match splice v w o.toInt with
    | none => .error .indexOutOfRange
    | some new => match storedValue c new with
      | none => .error (.other "compression error")
      | some z => .ok (new.length, (db.insert (typeOfKeyGet key) ⟨KeyType.string.name, 0⟩).insert
          (stringKey key) ⟨z, 0⟩) := by
  rw [setRangeTxn, Txn.lift_bind_ok h.value]
  cases splice v w o.toInt with
  | none => rfl
  | some new =>
    dsimp only
    rw [put, setValueWithCompression]
    cases storedValue c new <;> rfl

theorem Stored.holds {z : Bytes} (h : Stored db key z 0) (hz : decompressData c z = some v) : Holds c key v db where
  type := h.checkKeyType
  value := h.getStringBytes_eq hz

theorem setRange_of_some {new z : Bytes} (h : Holds c key v (visible (unix now) db))
    (hnew : splice v w o.toInt = some new) (hz : storedValue c new = some z) :
    ∃ db', setRange c now key o w db = (.ok new.length, db') ∧ Stored (visible (unix now) db') key z 0 := by
  have happly := setRangeTxn_apply (o := o) (w := w) h
  rw [hnew] at happly
  dsimp only at happly
  rw [hz] at happly
  refine ⟨_, Run.update_eq_ok.mpr happly, (stored_insert _ key z 0).visible ?_⟩
  rw [Std.ExtTreeMap.mem_iff_isSome_getElem?, getElem?_visible, (stored_insert _ key z 0).value]
  rfl

/-- A call that succeeds has encoded its result. -/
theorem storedValue_of_setRange {new : Bytes} {n : Nat} {db' : Db} (h : Holds c key v (visible (unix now) db))
    (hnew : splice v w o.toInt = some new) (hrun : setRange c now key o w db = (.ok n, db')) :
    ∃ z, storedValue c new = some z := by
  have happly := setRangeTxn_apply (o := o) (w := w) h
  rw [hnew] at happly
  dsimp only at happly
  cases hz : storedValue c new with
  | some z => exact ⟨z, rfl⟩
  | none =>
    rw [hz] at happly
    cases (Run.update_of_error happly).symm.trans hrun

end Commands

/-- **`SETRANGE` and `GETRANGE`**: the law holds exactly for an offset that is not negative, a result that
can be allocated, and a result that is encoded and reads back. For a negative offset the encoder is not
to fail on the value that is put in front: its error is no check of the offset. -/
theorem setRange_law_iff (c : Codec) (now : Nat) (key v : Bytes) (o : Int64) (w : Bytes) (db : Db)
    (h : Holds c key v (visible (unix now) db))
    (hc : o.toInt < 0 → ∀ x, splice v w o.toInt = some x → (storedValue c x).isSome) :
    Splices c now key v o w db ↔
      0 ≤ o.toInt ∧ o.toInt + w.length ≤ maxAlloc ∧ Keeps c (spliced v w o.toInt.toNat) := by
  -- a result that is not computed is a panic
  have hpanic (hnone : splice v w o.toInt = none) :
      setRange c now key o w db = (.error .indexOutOfRange, db) := by
    have happly := setRangeTxn_apply (o := o) (w := w) h
    rw [hnone] at happly
    exact Run.update_of_error happly
  constructor
  · intro hlaw
    rcases lt_or_ge o.toInt 0 with hneg | hpos
    · obtain ⟨e, he, hrun⟩ := hlaw.neg hneg
      exfalso
      cases hnew : splice v w o.toInt with
      | none =>
        rw [hpanic hnew] at hrun
        simp [eq_comm, he] at hrun
      | some new =>
        obtain ⟨z, hz⟩ := Option.isSome_iff_exists.mp (hc hneg new hnew)
        obtain ⟨db', hok, -⟩ := setRange_of_some h hnew hz
        simp [hok] at hrun
    · obtain ⟨db', hrun, hget, -⟩ := hlaw.nonneg hpos
      have hnew := splice_of_nonneg (v := v) (w := w) hpos
      split at hnew
      · rw [hpanic hnew] at hrun
        simp at hrun
      · next hlen =>
        refine ⟨hpos, by omega, ?_⟩
        obtain ⟨z, hz⟩ := storedValue_of_setRange h hnew hrun
        obtain ⟨db₁, hok, hstored⟩ := setRange_of_some h hnew hz
        cases (Prod.mk.inj (hok.symm.trans hrun)).2
        rw [Keeps, hz]
        exact hstored.get_eq_ok_iff.mp (Prod.mk.inj hget).1
  · rintro ⟨hpos, hlen, hkeep⟩
    have hnew := splice_of_nonneg (v := v) (w := w) hpos
    rw [if_neg (by omega)] at hnew
    obtain ⟨z, hz, hdec⟩ := Option.bind_eq_some_iff.mp hkeep
    obtain ⟨db', hok, hstored⟩ := setRange_of_some h hnew hz
    have hholds := hstored.holds hdec
    refine ⟨fun _ => ⟨db', hok, Prod.ext (hstored.get_eq_ok_iff.mpr hdec) rfl, fun last hw hlast => ?_⟩,
      fun hneg => by omega, fun i j => Prod.ext (h.getRange_apply i j) rfl⟩
    have hw := slice_spliced (v := v) hpos hw hlast
    rw [slice_eq_substring] at hw
    exact Prod.ext ((hholds.getRange_apply o last).trans (by rw [hw])) rfl

/-- A string of five bytes. -/
def hello : Db := (Strings.set uncompressed 0 "k" "hello" ∅).2

theorem setRange_law_iff_hello :
    Holds uncompressed (ascii "k") (ascii "hello") (visible (unix 0) hello) ∧
      (Splices uncompressed 0 (ascii "k") (ascii "hello") 7 (ascii "x") hello ↔
        0 ≤ (7 : Int64).toInt ∧ (7 : Int64).toInt + (ascii "x").length ≤ maxAlloc ∧
          Keeps uncompressed (spliced (ascii "hello") (ascii "x") 7)) :=
  have h : Holds uncompressed "k" "hello" (visible (unix 0) hello) :=
    ⟨by decide +kernel, by decide +kernel⟩
  ⟨h, setRange_law_iff uncompressed 0 "k" "hello" 7 "x" hello h fun _ _ _ => rfl⟩

/-- An offset of -1 is no error, and offsets of -9 and 2^50 are panics. -/
theorem setRange_negative :
    (setRange uncompressed 0 (ascii "k") (-1) (ascii "J") hello).1 = .ok 6 ∧
      (setRange uncompressed 0 (ascii "k") (-9) (ascii "J") hello).1 = .error .indexOutOfRange ∧
      (setRange uncompressed 0 (ascii "k") 1125899906842624 (ascii "x") hello).1 =
        .error .indexOutOfRange := by
  decide +kernel

end BoltDB.Store.Strings
