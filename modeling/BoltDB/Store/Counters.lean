import BoltDB.Store.Hashes

/-!
# Counters

`INCRBY`, `DECRBY` and `HINCRBY`. `Exact` is the law of a counter: the sum is stored and answered if it
fits into 64 bits, and otherwise, as for a text that is no number, there is an error and the store stays as
it is. `INCRBY` keeps it. `DECRBY` negates its argument first, which does nothing to the smallest number;
`HINCRBY` adds without a look at the range, parses a compressed value as it is stored, and puts the count of
the fields over a new field that has its name (`counter_exact_iff`).
-/

namespace BoltDB.Store.Counters

open Bytes KeyValue Int64

inductive Command
  | incrBy (key : Bytes) (increment : Int64)
  | decrBy (key : Bytes) (decrement : Int64)
  | hIncrBy (key field : Bytes) (increment : Int64)

namespace Command

def run (c : Codec) (now : Nat) : Command → Run Err Int64
  | incrBy key increment => Strings.incrBy c now key increment
  | decrBy key decrement => Strings.decrBy c now key decrement
  | hIncrBy key field increment => Hashes.hIncrBy c now key field increment

def key : Command → Bytes
  | incrBy key _ | decrBy key _ | hIncrBy key _ _ => key

def type : Command → KeyType
  | incrBy .. | decrBy .. => .string
  | hIncrBy .. => .hash

/-- The record of the number. -/
def record : Command → Bytes
  | incrBy key _ | decrBy key _ => stringKey key
  | hIncrBy key field _ => hashKey key field

/-- What is to be added. -/
def delta : Command → Int
  | incrBy _ n | hIncrBy _ _ n => n.toInt
  | decrBy _ n => -n.toInt

end Command

/-- What `GET` and `HGET` read in a record. -/
def text (c : Codec) (p : Bytes) (db : Db) : Option Bytes := db[p]?.bind fun e => decompressData c e.value

/-- The number that a text stands for; there is a 0 where nothing is stored. -/
def number : Option Bytes → Option Int
  | none => some 0
  | some v => (parseInt64 v).map Int64.toInt

def Fits (n : Int) : Prop := -2 ^ 63 ≤ n ∧ n < 2 ^ 63

instance (n : Int) : Decidable (Fits n) := inferInstanceAs (Decidable (_ ∧ _))

/-- The sum, if there is a number and the sum fits. -/
def sum (v : Option Bytes) (delta : Int) : Option Int :=
  (number v).bind fun n => if Fits (n + delta) then some (n + delta) else none

/-- **The law of a counter.** -/
def Exact (c : Codec) (now : Nat) (cmd : Command) (db : Db) : Prop :=
  match sum (text c cmd.record (visible (unix now) db)) cmd.delta with
  | some s => ∃ n db', cmd.run c now db = (.ok n, db') ∧ n.toInt = s ∧
      (visible (unix now) db')[cmd.record]?.map Entry.value = some (formatInt s)
  | none => ∃ e, cmd.run c now db = (.error e, db)

/-- The key has the type of the command, or none, and the record is not corrupt. -/
structure Readable (c : Codec) (cmd : Command) (db : Db) : Prop where
  type : ∀ e, db[typeOfKeyGet cmd.key]? = some e → e.value = cmd.type.name ∨ e.value = []
  record : ∀ e, db[cmd.record]? = some e → (decompressData c e.value).isSome

/-- When a command keeps the law. -/
def Condition (c : Codec) (db : Db) : Command → Prop
  | .incrBy .. => True
  | .decrBy key n => n ≠ Int64.minValue ∨ number (text c (stringKey key) db) = none
  | .hIncrBy key field n =>
    match db[hashKey key field]? with
    | none => field ≠ Hashes.countField
    | some e =>
      match parseInt64 e.value with
      | some m => Fits (m.toInt + n.toInt)
      | none => sum (text c (hashKey key field) db) n.toInt = none

/-! ## Numerals -/

/-- A numeral starts with no magic of a compressor, so it is read as it is stored. -/
theorem decompressData_of_parseInt64 (c : Codec) {v : Bytes} {n : Int64} (h : parseInt64 v = some n) :
    decompressData c v = some v := by
  have hmagic (t : CompressionType) (ht : t ≠ .none) : (compressionMagic t).isPrefixOf v = false := by
    rw [Bool.eq_false_iff]
    intro hpre
    obtain ⟨rest, rfl⟩ := List.isPrefixOf_iff_prefix.mp hpre
    cases t with
    | none => exact ht rfl
    | lz4 | zstd | snappy => cases h
  simp [decompressData, hmagic]

theorem fits_toInt (n : Int64) : Fits n.toInt := ⟨n.le_toInt, n.toInt_lt⟩

theorem toInt_ofInt_of_fits {n : Int} (h : Fits n) : (Int64.ofInt n).toInt = n :=
  toInt_ofInt_of_le h.1 h.2

/-- A sum wraps around exactly when it does not fit. -/
theorem toInt_add_eq_iff (m n : Int64) : (m + n).toInt = m.toInt + n.toInt ↔ Fits (m.toInt + n.toInt) := by
  constructor
  · intro h
    rw [← h]
    exact fits_toInt (m + n)
  · intro h
    rw [toInt_add, Int.bmod_eq_of_le] <;> simp [Fits] at h ⊢ <;> omega

/-- The checks of `INCRBY` find every sum that does not fit. -/
theorem overflows_iff (old increment : Int64) :
    Strings.overflows old increment = true ↔ ¬ Fits (old.toInt + increment.toInt) := by
  obtain ⟨hold, hold'⟩ := fits_toInt old
  obtain ⟨hinc, hinc'⟩ := fits_toInt increment
  have hmax : 0 < increment.toInt → (Int64.maxValue - increment).toInt = 2 ^ 63 - 1 - increment.toInt := by
    intro hpos
    rw [toInt_sub, toInt_maxValue, Int.bmod_eq_of_le] <;> omega
  have hmin : increment.toInt < 0 → (Int64.minValue - increment).toInt = -2 ^ 63 - increment.toInt := by
    intro hneg
    rw [toInt_sub, toInt_minValue, Int.bmod_eq_of_le] <;> omega
  simp only [Strings.overflows, Bool.or_eq_true, Bool.and_eq_true, decide_eq_true_eq, lt_iff_toInt_lt,
    toInt_zero, Fits]
  constructor
  · rintro (⟨hpos, hlt⟩ | ⟨hneg, hlt⟩)
    · rw [hmax hpos] at hlt
      omega
    · rw [hmin hneg] at hlt
      omega
  · intro hout
    rcases Int.lt_trichotomy increment.toInt 0 with hneg | hzero | hpos
    · rw [hmin hneg]
      omega
    · omega
    · rw [hmax hpos]
      omega

/-- Numerals are too short to be compressed. -/
theorem storedValue_formatInt (c : Codec) (n : Int64) :
    storedValue c (formatInt n.toInt) = some (formatInt n.toInt) := by
  obtain ⟨hlow, hhigh⟩ := fits_toInt n
  have hdecimal : (decimal n.toInt.natAbs).length ≤ 19 := length_decimal_le (by decide) (by omega)
  have hlen : (formatInt n.toInt).length < 64 := by
    rw [formatInt]
    split <;> simp [ascii] <;> omega
  simp [storedValue, shouldCompress, hlen]

/-! ## The commands -/

section Commands

variable {c : Codec} {now : Nat} {key field : Bytes} {n : Int64} {db : Db}

theorem text_of_parseInt64 {p : Bytes} {e : Entry} {m : Int64} (he : db[p]? = some e)
    (h : parseInt64 e.value = some m) : text c p db = some e.value := by
  rw [text, he]
  exact decompressData_of_parseInt64 c h

theorem fits_of_number {v : Option Bytes} {m : Int} (h : number v = some m) : Fits m := by
  cases v with
  | none =>
    cases h
    decide
  | some v =>
    obtain ⟨k, -, rfl⟩ := Option.map_eq_some_iff.mp h
    exact fits_toInt k

theorem getIntValue_apply (h : ∀ e, db[stringKey key]? = some e → (decompressData c e.value).isSome) :
    Strings.getIntValue c key db = match number (text c (stringKey key) db) with
      | some m => .ok (Int64.ofInt m)
      | none => .error .notInteger := by
  cases he : db[stringKey key]? with
  | none =>
    rw [Strings.getIntValue, View.bind_apply, Strings.value, View.bind_apply, View.get, text, he]
    rfl
  | some e =>
    obtain ⟨v, hv⟩ := Option.isSome_iff_exists.mp (h e he)
    rw [Strings.getIntValue, View.bind_apply, Strings.value_of_some he hv, text, he, Option.bind_some, hv]
    dsimp only [number]
    cases hm : parseInt64 v with
    | none => rfl
    | some m =>
      simp only [Option.map_some, ofInt_toInt]
      rfl

/-- What `INCRBY` does, by the number and the sum. -/
theorem incrByTxn_apply (h : Readable c (.incrBy key n) db) :
    Strings.incrByTxn c key n db = match number (text c (stringKey key) db) with
      | none => .error .notInteger
      | some m => if Fits (m + n.toInt) then
          .ok (Int64.ofInt (m + n.toInt), (db.insert (typeOfKeyGet key) ⟨KeyType.string.name, 0⟩).insert
            (stringKey key) ⟨formatInt (m + n.toInt), 0⟩)
        else .error .overflow := by
  have htype : checkKeyTypeInline key .string db = .ok () := by
    rw [checkKeyTypeInline_apply, if_pos]
    exact h.type
  have hget : Strings.getIntValue c key db = _ := getIntValue_apply h.record
  rw [Strings.incrByTxn, Txn.lift_bind_ok htype]
  cases hm : number (text c (stringKey key) db) with
  | none =>
    rw [hm] at hget
    exact Txn.lift_bind_error hget
  | some m =>
    rw [hm] at hget
    rw [Txn.lift_bind_ok hget]
    have hfits := fits_of_number hm
    dsimp only
    by_cases hsum : Fits (m + n.toInt)
    · have hover : Strings.overflows (Int64.ofInt m) n = false := by
        rw [Bool.eq_false_iff, Ne, overflows_iff, toInt_ofInt_of_fits hfits]
        exact not_not_intro hsum
      have hadd : Int64.ofInt m + n = Int64.ofInt (m + n.toInt) := by
        rw [ofInt_add, ofInt_toInt]
      rw [if_neg (by simp [hover]), if_pos hsum, hadd, Strings.setIntValue, toInt_ofInt_of_fits hsum]
      rfl
    · have hover : Strings.overflows (Int64.ofInt m) n = true := by
        rwa [overflows_iff, toInt_ofInt_of_fits hfits]
      rw [if_pos hover, if_neg hsum]
      rfl

/-- What `HINCRBY` does. The count of a new field is written last. -/
theorem hIncrByTxn_apply (h : Readable c (.hIncrBy key field n) db) :
    ∃ db₁ : Db, Hashes.hIncrByTxn c key field n db = match db[hashKey key field]? with
      | none => .ok (n, (db₁.insert (hashKey key field) ⟨formatInt n.toInt, 0⟩).insert (hashCountKey key)
          ⟨uint64ToBytes ((((db₁.insert (hashKey key field) ⟨formatInt n.toInt, 0⟩)[hashCountKey key]?.map
            (bytesToUint64 ·.value)).getD 0) + 1), 0⟩)
      | some e =>
        match parseInt64 e.value with
        | none => .error .notInteger
        | some m => .ok (m + n, db₁.insert (hashKey key field) ⟨formatInt (m + n).toInt, 0⟩) := by
  -- the type is written for a new key only
  have htype : ∃ db₁ : Db, db₁[hashKey key field]? = db[hashKey key field]? ∧
      Hashes.checkOrSetType key db = .ok ((), db₁) := by
    rw [Hashes.checkOrSetType, Txn.get_bind]
    cases he : db[typeOfKeyGet key]? with
    | none =>
      refine ⟨_, ?_, rfl⟩
      rw [getElem?_insert_ite, if_neg]
      intro heq
      exact not_isRecord_typeOfKeyGet .hash key key (heq ▸ isRecord_hashKey key field)
    | some e =>
      refine ⟨db, rfl, congrFun (if_neg ?_) db⟩
      rintro ⟨hempty, hother⟩
      exact (h.type e he).elim hother hempty
  obtain ⟨db₁, hsame, hcheck⟩ := htype
  refine ⟨db₁, ?_⟩
  rw [Hashes.hIncrByTxn, Hashes.modifyField, Txn.bind_apply, hcheck]
  dsimp only
  rw [Txn.get_bind, hsame]
  cases he : db[hashKey key field]? with
  | none =>
    dsimp only [Option.map_none]
    rw [setValueWithCompression, storedValue_formatInt]
    rfl
  | some e =>
    dsimp only [Option.map_some]
    cases hm : parseInt64 e.value with
    | none => rfl
    | some m =>
      dsimp only
      rw [setValueWithCompression, storedValue_formatInt]
      rfl

theorem visible_insert_zero {p v : Bytes} (db : Db) :
    (visible (unix now) (db.insert p ⟨v, 0⟩))[p]?.map Entry.value = some v := by
  rw [getElem?_visible, getElem?_insert_ite, if_pos rfl]
  rfl

/-- The number that a command stores; `none` for an error. -/
def computed (c : Codec) (db : Db) : Command → Option Int64
  | .incrBy key n => (sum (text c (stringKey key) db) n.toInt).map Int64.ofInt
  | .decrBy key n => (sum (text c (stringKey key) db) (-n).toInt).map Int64.ofInt
  | .hIncrBy key field n =>
    match db[hashKey key field]? with
    | none => some n
    | some e => (parseInt64 e.value).map (· + n)

/-- A new field that the count of the fields is written over. -/
def Overwritten (db : Db) : Command → Prop
  | .hIncrBy key field _ => db[hashKey key field]? = none ∧ field = Hashes.countField
  | _ => False

/-- What a command does: the number is answered and stored, or the store stays as it is. -/
def Outcome (now : Nat) (p : Bytes) (lost : Prop) (db : Db) (r : Except Err Int64 × Db) : Option Int64 → Prop
  | none => (∃ e, r = (.error e, db)) ∧ ¬ lost
  | some k => ∃ db', r = (.ok k, db') ∧
      ((visible (unix now) db')[p]?.map Entry.value = some (formatInt k.toInt) ↔ ¬ lost)

theorem outcome_incrBy (h : Readable c (.incrBy key n) (visible (unix now) db)) :
    Outcome now (stringKey key) False db (Strings.incrBy c now key n db)
      ((sum (text c (stringKey key) (visible (unix now) db)) n.toInt).map Int64.ofInt) := by
  have happly := incrByTxn_apply h
  rw [sum]
  cases hm : number (text c (stringKey key) (visible (unix now) db)) with
  | none =>
    rw [hm] at happly
    exact ⟨⟨_, Run.update_of_error happly⟩, id⟩
  | some m =>
    rw [hm] at happly
    dsimp only [Option.bind_some] at happly ⊢
    by_cases hfits : Fits (m + n.toInt)
    · rw [if_pos hfits] at happly ⊢
      refine ⟨_, Run.update_eq_ok.mpr happly, iff_of_true ?_ id⟩
      rw [toInt_ofInt_of_fits hfits]
      exact visible_insert_zero _
    · rw [if_neg hfits] at happly ⊢
      exact ⟨⟨_, Run.update_of_error happly⟩, id⟩

theorem outcome_hIncrBy (h : Readable c (.hIncrBy key field n) (visible (unix now) db)) :
    Outcome now (hashKey key field) (Overwritten (visible (unix now) db) (.hIncrBy key field n)) db
      (Hashes.hIncrBy c now key field n db) (computed c (visible (unix now) db) (.hIncrBy key field n)) := by
  obtain ⟨db₁, happly⟩ := hIncrByTxn_apply h
  rw [computed]
  cases he : (visible (unix now) db)[hashKey key field]? with
  | none =>
    rw [he] at happly
    refine ⟨_, Run.update_eq_ok.mpr happly, ?_⟩
    by_cases hcount : field = Hashes.countField
    · subst hcount
      refine iff_of_false ?_ (not_not_intro ⟨he, rfl⟩)
      intro hvalue
      have hname : hashCountKey key = hashKey key Hashes.countField := rfl
      -- a number is not its own successor
      have hsucc := congrArg (Option.map bytesToUint64) ((visible_insert_zero _).symm.trans hvalue)
      simp [hname] at hsucc
    · refine iff_of_true ?_ fun hover => hcount hover.2
      have hne : hashKey key field ≠ hashCountKey key := fun heq => hcount (List.append_cancel_left heq)
      rw [getElem?_visible, getElem?_insert_ite, if_neg hne, ← getElem?_visible]
      exact visible_insert_zero _
  | some e =>
    have hover : ¬ Overwritten (visible (unix now) db) (.hIncrBy key field n) := by simp [Overwritten, he]
    rw [he] at happly
    dsimp only at happly ⊢
    cases hm : parseInt64 e.value with
    | none =>
      rw [hm] at happly
      exact ⟨⟨_, Run.update_of_error happly⟩, hover⟩
    | some m =>
      rw [hm] at happly
      exact ⟨_, Run.update_eq_ok.mpr happly, iff_of_true (visible_insert_zero _) hover⟩

/-- The law, by numbers only. -/
theorem exact_iff (cmd : Command) (h : Readable c cmd (visible (unix now) db)) :
    Exact c now cmd db ↔ ¬ Overwritten (visible (unix now) db) cmd ∧
      (computed c (visible (unix now) db) cmd).map Int64.toInt =
        sum (text c cmd.record (visible (unix now) db)) cmd.delta := by
  have hcases : Outcome now cmd.record (Overwritten (visible (unix now) db) cmd) db (cmd.run c now db)
      (computed c (visible (unix now) db) cmd) := by
    cases cmd with
    | incrBy key n => exact outcome_incrBy h
    | decrBy key n => exact outcome_incrBy ⟨h.type, h.record⟩
    | hIncrBy key field n => exact outcome_hIncrBy h
  rw [Exact]
  revert hcases
  generalize sum _ _ = wanted
  generalize computed _ _ _ = found
  cases found with
  | none =>
    rintro ⟨⟨e, hrun⟩, hover⟩
    cases wanted <;> simp [hrun, hover]
  | some k =>
    rintro ⟨db', hrun, hvalue⟩
    cases wanted with
    | none => simp [hrun]
    | some s =>
      simp only [hrun, Prod.mk.injEq, Except.ok.injEq, Option.map_some, Option.some.injEq]
      constructor
      · rintro ⟨_, _, ⟨rfl, rfl⟩, rfl, hstored⟩
        exact ⟨hvalue.mp hstored, rfl⟩
      · rintro ⟨hover, rfl⟩
        exact ⟨k, db', ⟨rfl, rfl⟩, rfl, hvalue.mpr hover⟩

end Commands

theorem toInt_neg_of_ne {n : Int64} (h : n ≠ Int64.minValue) : (-n).toInt = -n.toInt := by
  obtain ⟨hlow, hhigh⟩ := fits_toInt n
  have hne : n.toInt ≠ -2 ^ 63 := fun heq => h (toInt_inj.mp heq)
  rw [toInt_neg, Int.bmod_eq_of_le] <;> omega

theorem map_sum (v : Option Bytes) (d : Int) : ((sum v d).map Int64.ofInt).map Int64.toInt = sum v d := by
  cases hs : sum v d with
  | none => rfl
  | some s =>
    obtain ⟨m, -, hs⟩ := Option.bind_eq_some_iff.mp hs
    split at hs
    · next hfits =>
      cases hs
      exact congrArg some (toInt_ofInt_of_fits hfits)
    · cases hs

/-- **Counters**: for every stored text and every argument, a command keeps the law exactly when the
condition holds. -/
theorem counter_exact_iff (c : Codec) (now : Nat) (cmd : Command) (db : Db)
    (h : Readable c cmd (visible (unix now) db)) :
    Exact c now cmd db ↔ Condition c (visible (unix now) db) cmd := by
  rw [exact_iff cmd h]
  cases cmd with
  | incrBy key n => exact iff_of_true ⟨id, map_sum _ _⟩ trivial
  | decrBy key n =>
    simp only [Overwritten, not_false_eq_true, true_and, computed, map_sum, Command.record, Command.delta, Condition]
    by_cases hmin : n = Int64.minValue
    · have hneg : (-Int64.minValue).toInt = -2 ^ 63 := rfl
      have hpos : -Int64.minValue.toInt = 2 ^ 63 := rfl
      subst hmin
      rw [hneg, hpos, sum, sum]
      cases hm : number (text c (stringKey key) (visible (unix now) db)) with
      | none => simp
      | some m =>
        -- the code errs on the wrong side of 0
        obtain ⟨hlow, hhigh⟩ := fits_of_number hm
        have hup : Fits (m + 2 ^ 63) ↔ ¬ Fits (m + -2 ^ 63) := by
          simp only [Fits]
          omega
        simp only [Option.bind_some, ne_eq, not_true_eq_false, reduceCtorEq, or_self, iff_false]
        by_cases hdown : Fits (m + -2 ^ 63)
        · rw [if_pos hdown, if_neg (fun h => hup.mp h hdown)]
          exact Option.some_ne_none _
        · rw [if_neg hdown, if_pos (hup.mpr hdown)]
          exact (Option.some_ne_none _).symm
    · simp [hmin, toInt_neg_of_ne hmin]
  | hIncrBy key field n =>
    simp only [Overwritten, computed, Command.record, Command.delta, Condition]
    cases he : (visible (unix now) db)[hashKey key field]? with
    | none => simp [text, he, sum, number, fits_toInt]
    | some e =>
      cases hm : parseInt64 e.value with
      | none => simp [hm, eq_comm]
      | some m => simp [text_of_parseInt64 he hm, sum, number, hm, ← toInt_add_eq_iff]

/-- A hash whose field holds the largest number. -/
def full : Db := (Hashes.hSet uncompressed 0 "h" "f" "9223372036854775807" ∅).2

theorem readable_full (n : Int64) :
    Readable uncompressed (.hIncrBy "h" "f" n) (visible (unix 0) full) where
  type := by
    have htype : (visible (unix 0) full)[typeOfKeyGet "h"]? = some ⟨KeyType.hash.name, 0⟩ := by
      decide +kernel
    intro e he
    cases htype.symm.trans he
    exact .inl rfl
  record := by
    have hrecord : (visible (unix 0) full)[hashKey "h" "f"]? = some ⟨"9223372036854775807", 0⟩ := by
      decide +kernel
    intro e he
    cases hrecord.symm.trans he
    rfl

theorem counter_exact_iff_full :
    Readable uncompressed (.hIncrBy (ascii "h") (ascii "f") (-1)) (visible (unix 0) full) ∧
      (Exact uncompressed 0 (.hIncrBy (ascii "h") (ascii "f") (-1)) full ↔
        Condition uncompressed (visible (unix 0) full) (.hIncrBy (ascii "h") (ascii "f") (-1))) :=
  ⟨readable_full (-1), counter_exact_iff uncompressed 0 _ full (readable_full (-1))⟩

/-- `HINCRBY` of the largest number by 1 answers the smallest one, and `DECRBY` of an absent key by the
smallest number answers that number. -/
theorem hIncrBy_wraps :
    (Hashes.hIncrBy uncompressed 0 (ascii "h") (ascii "f") 1 full).1 = .ok Int64.minValue ∧
      (Strings.decrBy uncompressed 0 (ascii "k") Int64.minValue ∅).1 = .ok Int64.minValue := by
  decide +kernel

end BoltDB.Store.Counters
