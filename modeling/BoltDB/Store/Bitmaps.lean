import BoltDB.Store.Ranges

/-!
# Bitmaps

`GETBIT`, `BITCOUNT`, `BITPOS` and `BITOP`. All four are tied to one notion of a bit (`bit`): the loops of
`BITCOUNT` and `BITPOS` visit the positions of the normalised range in ascending order, in both units. What
`BITOP` computes is right, but it is stored as it is, and read as compressed if it looks so (`bitmap_laws`).

* `bit`, `InRange`, `BitOp.combine` — what the laws are about.
* `Combination` — the string that `BITOP` should leave, given by its bits.
* `Misread` — the strings that do not come back as they were stored.
-/

namespace BoltDB.Store.Strings

open Bytes KeyValue List

/-- Bit `p` of a string, the most significant one of a byte first; there are zeros behind the end. -/
def bit (data : Bytes) (p : Nat) : Bool := data.getD (p / 8) 0 &&& bitMask ((p % 8 : Nat) : Int) != 0

/-- Other units than `BIT` are bytes. -/
def isBit (unit : Bytes) : Bool := toUpper unit = "BIT"

def units (data unit : Bytes) : Nat := if isBit unit then data.length * 8 else data.length

/-- The positions that the loops come to: single bits, or the eight bits of each byte. -/
def visited (unit : Bytes) (first last : Int) : List Nat :=
  let is := List.range' first.toNat (last + 1 - first).toNat
  if isBit unit then is else is.flatMap fun i => (List.range 8).map (i * 8 + ·)

section Readers

variable (c : Codec) (key : Bytes)

def getBit (offset : Int64) : View Err Nat := do
  let data ← getStringBytes c key
  let byteIndex := offset.toInt.tdiv 8
  if data.length ≤ byteIndex then return 0
  else if byteIndex < 0 then throw .indexOutOfRange
  else return if data.getD byteIndex.toNat 0 &&& bitMask (offset.toInt.tmod 8) != 0 then 1 else 0

def bitCountWithUnit (start stop : Int64) (unit : Bytes) : View Err Nat := do
  let data ← getStringBytes c key
  if data.isEmpty then return 0
  else
    let total := units data unit
    -- the end of a range of bits has no floor
    let last := if isBit unit then (if stop.toInt < 0 then total + stop.toInt else stop.toInt)
      else fromEnd total stop.toInt (-1)
    return (visited unit (fromEnd total start.toInt 0) (min last (total - 1))).countP (bit data)

def bitPosWithUnit (b : Int64) (start stop : Int64) (unit : Bytes) : View Err Int := do
  let data ← getStringBytes c key
  if data.isEmpty then return if b = 1 then -1 else 0
  else
    let total := units data unit
    let last := min (fromEnd total stop.toInt (-1)) (total - 1)
    let found := (visited unit (fromEnd total start.toInt 0) last).find? fun p => (if bit data p then 1 else 0) = b
    return match found with
      | some p => (p : Int)
      | none => -1

end Readers

/-- The position is in the range, which is given in bits or in bytes. -/
def InRange (data unit : Bytes) (start stop : Int64) (p : Nat) : Prop :=
  let index (i : Int64) : Int := if i.toInt < 0 then units data unit + i.toInt else i.toInt
  let k : Nat := if isBit unit then p else p / 8
  index start ≤ k ∧ k ≤ index stop

instance (data unit : Bytes) (start stop : Int64) (p : Nat) : Decidable (InRange data unit start stop p) :=
  inferInstanceAs (Decidable (_ ∧ _))

/-! ## The loops -/

theorem filter_range {n : Nat} {first l : Int} (hfirst : 0 ≤ first) (hl : l < n) :
    (List.range n).filter (fun p : Nat => first ≤ p ∧ p ≤ l) =
      List.range' first.toNat (l + 1 - first).toNat := by
  by_cases hle : first ≤ l
  · have hn : n = first.toNat + ((l + 1 - first).toNat + (n - (l + 1).toNat)) := by omega
    rw [hn, range_eq_range', ← range'_append_1, ← range'_append_1, filter_append,
      filter_append, filter_eq_nil_iff.mpr, filter_eq_self.mpr, filter_eq_nil_iff.mpr] <;>
      simp <;> omega
  · rw [show (l + 1 - first).toNat = 0 by omega]
    simp
    omega

theorem flatMap_range' (a n : Nat) :
    (List.range' a n).flatMap (fun i => (List.range 8).map (i * 8 + ·)) = List.range' (a * 8) (n * 8) := by
  induction n generalizing a with
  | zero => simp
  | succ n ih =>
    rw [range'_succ, flatMap_cons, ih, Nat.add_comm n, Nat.add_mul 1, ← range'_append_1, Nat.add_mul]
    simp [range'_eq_map_range]

/-- The loops visit the positions of the range in ascending order. -/
theorem visited_eq (data unit : Bytes) (start stop : Int64) {last : Int}
    (hlast : max last (-1) = fromEnd (units data unit) stop.toInt (-1)) :
    visited unit (fromEnd (units data unit) start.toInt 0) (min last (units data unit - 1)) =
      (List.range (data.length * 8)).filter fun p => InRange data unit start stop p := by
  have hfirst : 0 ≤ fromEnd (units data unit) start.toInt 0 := by
    rw [fromEnd]
    split <;> omega
  have hrange : visited unit (fromEnd (units data unit) start.toInt 0) (min last (units data unit - 1)) =
      (List.range (data.length * 8)).filter fun p : Nat => fromEnd (units data unit) start.toInt 0 ≤
        (if isBit unit then p else p / 8 : Nat) ∧ (if isBit unit then p else p / 8 : Nat) ≤
          min last (units data unit - 1) := by
    generalize fromEnd (units data unit) start.toInt 0 = first at hfirst
    cases hunit : isBit unit with
    | true =>
      simp only [visited, units, hunit, if_true]
      exact (filter_range hfirst (by omega)).symm
    | false =>
      have h8 := filter_range (n := data.length * 8) (Int.mul_nonneg hfirst (by decide : (0 : Int) ≤ 8))
        (l := min last (data.length - 1) * 8 + 7) (by omega)
      simp only [visited, units, hunit, Bool.false_eq_true, if_false]
      rw [flatMap_range', show first.toNat * 8 = (first * 8).toNat by omega,
        show (min last (data.length - 1) + 1 - first).toNat * 8 =
          (min last (data.length - 1) * 8 + 7 + 1 - first * 8).toNat by omega, ← h8]
      apply filter_congr
      intro p _
      simp only [decide_eq_decide]
      omega
  rw [hrange]
  apply filter_congr
  intro p hp
  have hp := mem_range.mp hp
  have hk : (if isBit unit then p else p / 8) < units data unit := by
    rw [units]
    split <;> omega
  apply decide_eq_decide.mpr
  simp only [InRange, fromEnd] at hlast ⊢
  generalize (if isBit unit then p else p / 8) = k at hk ⊢
  split_ifs at hlast ⊢ <;> omega

/-! ## Bits of bytes -/

theorem bit_eq (data : Bytes) (p : Nat) : bit data p = (data.getD (p / 8) 0).toNat.testBit (7 - p % 8) := by
  have hbyte : ∀ k < 8, ∀ n < 256,
      (UInt8.ofNat n &&& bitMask (k : Nat) != 0) = (UInt8.ofNat n).toNat.testBit (7 - k) := by decide +kernel
  have h := hbyte (p % 8) (Nat.mod_lt _ (by decide)) _ (data.getD (p / 8) 0).toNat_lt
  rwa [UInt8.ofNat_toNat] at h

/-- Two strings with the same bits have the same bytes. -/
theorem getD_eq_of_bit {v w : Bytes} {i : Nat} (h : ∀ p, p / 8 = i → bit v p = bit w p) :
    v.getD i 0 = w.getD i 0 := by
  apply UInt8.toNat_inj.mp
  apply Nat.eq_of_testBit_eq
  intro k
  by_cases hk : k < 8
  · have hbit := h (i * 8 + (7 - k)) (by omega)
    rw [bit_eq, bit_eq] at hbit
    rwa [show (i * 8 + (7 - k)) / 8 = i by omega, show 7 - (i * 8 + (7 - k)) % 8 = k by omega] at hbit
  · have hlt (b : UInt8) : b.toNat < 2 ^ k :=
      b.toNat_lt.trans_le (Nat.pow_le_pow_right (by decide) (by omega : 8 ≤ k))
    rw [Nat.testBit_lt_two_pow (hlt _), Nat.testBit_lt_two_pow (hlt _)]

/-! ## `BITOP` -/

inductive BitOp
  | and | or | xor | not

namespace BitOp

def name : BitOp → Bytes
  | and => "AND"
  | or => "OR"
  | xor => "XOR"
  | not => "NOT"

def byte (bs : List UInt8) : BitOp → UInt8
  | and => bs.foldl (· &&& ·) 0xFF
  | or => bs.foldl (· ||| ·) 0
  | xor => bs.foldl (· ^^^ ·) 0
  | not => ~~~ bs.headD 0

/-- The Boolean combination. -/
def combine (bits : List Bool) : BitOp → Bool
  | and => bits.foldl Bool.and true
  | or => bits.foldl Bool.or false
  | xor => bits.foldl Bool.xor false
  | not => !bits.headD false

/-- `NOT` has one source. -/
def Accepts (op : BitOp) (n : Nat) : Prop := 0 < n ∧ (op matches .not → n = 1)

/-- The length of the longest source. -/
def longest (sources : List Bytes) : Nat := (sources.map List.length).foldl max 0

/-- The destination: as long as the longest source. -/
def result (op : BitOp) (sources : List Bytes) : Bytes :=
  (List.range (longest sources)).map fun i => op.byte (sources.map (·.getD i 0))

/-- The string whose bits are the combinations of the sources' bits, up to the longest source. -/
structure Combination (op : BitOp) (sources : List Bytes) (r : Bytes) : Prop where
  length : r.length = longest sources
  bits : ∀ p < r.length * 8, bit r p = op.combine (sources.map (bit · p))

theorem bitOpByte_eq {op : BitOp} {bs : List UInt8} (h : op.Accepts bs.length) :
    bitOpByte op.name bs = .ok (op.byte bs) := by
  cases op with
  | and | or | xor => rfl
  | not =>
    obtain ⟨b, rfl⟩ := length_eq_one_iff.mp (h.2 rfl)
    rfl

theorem testBit_byte {op : BitOp} {bs : List UInt8} (h : op.Accepts bs.length) {k : Nat} (hk : k < 8) :
    (op.byte bs).toNat.testBit k = op.combine (bs.map (·.toNat.testBit k)) := by
  have hfold (f : UInt8 → UInt8 → UInt8) (g : Bool → Bool → Bool)
      (hfg : ∀ x y, (f x y).toNat.testBit k = g (x.toNat.testBit k) (y.toNat.testBit k)) (x : UInt8) :
      (bs.foldl f x).toNat.testBit k = (bs.map (·.toNat.testBit k)).foldl g (x.toNat.testBit k) := by
    rw [foldl_map]
    exact (foldl_hom (fun b : UInt8 => b.toNat.testBit k) fun x y => (hfg x y).symm).symm
  cases op with
  | and =>
    have hones : ∀ k < 8, (0xFF : UInt8).toNat.testBit k = true := by decide
    rw [byte, combine, hfold _ Bool.and fun x y => by rw [UInt8.toNat_and, Nat.testBit_and], hones k hk]
  | or =>
    rw [byte, combine, hfold _ Bool.or fun x y => by rw [UInt8.toNat_or, Nat.testBit_or]]
    simp
  | xor =>
    rw [byte, combine, hfold _ Bool.xor fun x y => by rw [UInt8.toNat_xor, Nat.testBit_xor]]
    simp
  | not =>
    obtain ⟨b, rfl⟩ := length_eq_one_iff.mp (h.2 rfl)
    have hnot : ∀ k < 8, ∀ n < 256, (~~~ UInt8.ofNat n).toNat.testBit k = !(UInt8.ofNat n).toNat.testBit k := by
      decide +kernel
    have h := hnot k hk _ b.toNat_lt
    rwa [UInt8.ofNat_toNat] at h

theorem bit_result {op : BitOp} {sources : List Bytes} (h : op.Accepts sources.length) {p : Nat}
    (hp : p / 8 < (op.result sources).length) :
    bit (op.result sources) p = op.combine (sources.map (bit · p)) := by
  have hget : (op.result sources).getD (p / 8) 0 = op.byte (sources.map (·.getD (p / 8) 0)) := by
    rw [getD_eq_getElem _ _ hp]
    simp [result]
  rw [bit_eq, hget, testBit_byte (by simpa using h) (by omega), map_map]
  congr 1
  apply map_congr_left
  intro v _
  rw [bit_eq]
  rfl

theorem length_result (op : BitOp) (sources : List Bytes) :
    (op.result sources).length = longest sources := by simp [result]

/-- `BITOP` computes the one combination there is. -/
theorem Combination.eq_result {op : BitOp} {sources : List Bytes} {r : Bytes}
    (h : op.Combination sources r) (hop : op.Accepts sources.length) : r = op.result sources := by
  have hlen : r.length = (op.result sources).length := h.length.trans (length_result op sources).symm
  refine ext_getElem hlen fun i hi hi' => ?_
  have hbyte : r.getD i 0 = (op.result sources).getD i 0 := by
    refine getD_eq_of_bit fun p hp => ?_
    rw [h.bits p (by omega), bit_result hop (by omega)]
  rwa [getD_eq_getElem _ _ hi, getD_eq_getElem _ _ hi'] at hbyte

end BitOp

section Commands

variable {c : Codec} {now : Nat} {key data : Bytes} {db : Db}

theorem getBit_apply (h : getStringBytes c key db = .ok data) {p : Int64} (hp : 0 ≤ p.toInt) :
    getBit c key p db = .ok (if bit data p.toInt.toNat then 1 else 0) := by
  obtain ⟨n, hn⟩ := Int.eq_ofNat_of_zero_le hp
  have hdiv : (n : Int).tdiv 8 = (n / 8 : Nat) := rfl
  have hmod : (n : Int).tmod 8 = (n % 8 : Nat) := rfl
  rw [getBit, View.bind_apply, h, hn]
  simp only [hdiv, hmod, Int.toNat_natCast]
  split
  · next hlen =>
    have hout : data.getD (n / 8) 0 = 0 := by
      rw [getD_eq_getElem?_getD, getElem?_eq_none (by omega)]
      rfl
    have hzero : bit data n = false := by
      rw [bit, hout, UInt8.zero_and]
      rfl
    simp only [hzero]
    rfl
  · rw [if_neg (by omega)]
    rfl

theorem bitOpTxn_apply {op : BitOp} {dest : Bytes} {keys : List Bytes} {sources : List Bytes}
    (hsources : List.Forall₂ (fun key v => getStringBytes c key db = .ok v) keys sources)
    (hop : op.Accepts keys.length) : bitOpTxn c op.name dest keys db =
      .ok ((op.result sources).length, (db.insert (typeOfKeyGet dest) ⟨KeyType.string.name, 0⟩).insert
        (stringKey dest) ⟨op.result sources, 0⟩) := by
  have hread (acc : List Bytes) : (keys.foldlM (fun acc key => do
      return acc ++ [← getStringBytes c key]) acc : View Err (List Bytes)) db = .ok (acc ++ sources) := by
    clear hop
    induction hsources generalizing acc with
    | nil => exact congrArg Except.ok (append_nil acc).symm
    | cons hkey _ ih =>
      rw [foldlM_cons, View.bind_apply, View.bind_apply, hkey]
      exact (ih _).trans (by rw [append_assoc]; rfl)
  have hbytes (i : Nat) : bitOpByte op.name (sources.map (·.getD i 0)) = pure (op.byte (sources.map (·.getD i 0))) :=
    BitOp.bitOpByte_eq (by simpa [hsources.length_eq] using hop)
  have hkeys : keys.isEmpty = false := by
    rw [isEmpty_eq_false_iff, ← length_pos_iff]
    exact hop.1
  rw [bitOpTxn, if_neg (by simp [hkeys]), Txn.lift_bind_ok (hread [])]
  simp only [nil_append, hbytes, mapM_pure]
  rfl

end Commands

/-- The law of `BITOP`: each bit of the destination, up to the longest source, is the combination. -/
def Combines (c : Codec) (now : Nat) (op : BitOp) (dest : Bytes) (keys sources : List Bytes) (db : Db) : Prop :=
  ∃ db' d, bitOp c now op.name dest keys db = (.ok (BitOp.longest sources), db') ∧
    view now (getStringBytes c dest) db' = (.ok d, db') ∧
    ∀ p < BitOp.longest sources * 8, bit d p = op.combine (sources.map (bit · p))

/-- The string starts with the magic bytes of an algorithm, and what its decoder makes of the rest is an
error or has other bytes at the string's positions. -/
def Misread (c : Codec) (r : Bytes) : Prop :=
  ∃ t body, t ≠ .none ∧ r = compressionMagic t ++ body ∧
    ∀ d, c.decode t body = some d → ∃ i < r.length, d.getD i 0 ≠ r.getD i 0

theorem decompressData_magic (c : Codec) {t : CompressionType} (ht : t ≠ .none) (body : Bytes) :
    decompressData c (compressionMagic t ++ body) = c.decode t body := by
  cases t with
  | none => exact absurd rfl ht
  | lz4 | zstd | snappy => rfl

/-- A string that reads back with other bytes is one that looks compressed. -/
theorem misread_iff {c : Codec} {r : Bytes} :
    Misread c r ↔ ∀ d, decompressData c r = some d → ∃ i < r.length, d.getD i 0 ≠ r.getD i 0 := by
  constructor
  · rintro ⟨t, body, ht, rfl, hbad⟩ d hd
    rw [decompressData_magic c ht] at hd
    exact hbad d hd
  · intro hbad
    cases hfind : [CompressionType.lz4, .zstd, .snappy].find?
        fun t => (compressionMagic t).isPrefixOf r with
    | none =>
      have hplain : decompressData c r = some r := by rw [decompressData, hfind]
      obtain ⟨i, -, hne⟩ := hbad r hplain
      exact absurd rfl hne
    | some t =>
      have ht : t ≠ .none := by
        rintro rfl
        exact absurd (mem_of_find?_eq_some hfind) (by decide)
      obtain ⟨body, hbody⟩ := List.isPrefixOf_iff_prefix.mp (show (compressionMagic t).isPrefixOf r = true from
        find?_some (p := fun t => (compressionMagic t).isPrefixOf r) hfind)
      refine ⟨t, body, ht, hbody.symm, fun d hd => hbad d ?_⟩
      rw [← hbody, decompressData_magic c ht, hd]

/-- **Bitmaps.** The readers keep their laws for every non-empty string; `BITOP` keeps its law exactly if
the combination is not a string that is misread. -/
theorem bitmap_laws (c : Codec) (now : Nat) (db : Db) (key data : Bytes)
    (hdata : getStringBytes c key (visible (unix now) db) = .ok data) (hne : data ≠ []) (start stop b : Int64)
    (unit : Bytes) (op : BitOp) (dest : Bytes) (keys sources : List Bytes)
    (hsources : List.Forall₂ (fun key v => getStringBytes c key (visible (unix now) db) = .ok v) keys sources)
    (hop : op.Accepts keys.length) :
    (∀ p : Int64, 0 ≤ p.toInt →
      view now (getBit c key p) db = (.ok (if bit data p.toInt.toNat then 1 else 0), db)) ∧
    view now (bitCountWithUnit c key start stop unit) db =
      (.ok ((List.range (data.length * 8)).countP fun p => InRange data unit start stop p ∧ bit data p), db) ∧
    view now (bitPosWithUnit c key b start stop unit) db =
      (.ok (match (List.range (data.length * 8)).find? fun p =>
          InRange data unit start stop p ∧ (if bit data p then 1 else 0) = b with
        | some p => (p : Int)
        | none => -1), db) ∧
    ∀ r, op.Combination sources r → (Combines c now op dest keys sources db ↔ ¬ Misread c r) := by
  have hempty : data.isEmpty = false := isEmpty_eq_false_iff.mpr hne
  refine ⟨fun p hp => Prod.ext (getBit_apply hdata hp) rfl, Prod.ext ?_ rfl, Prod.ext ?_ rfl, ?_⟩
  · show bitCountWithUnit c key start stop unit (visible (unix now) db) = _
    rw [bitCountWithUnit, View.bind_apply, hdata]
    simp only [hempty, Bool.false_eq_true, if_false]
    rw [visited_eq, countP_filter]
    · simp [Bool.and_comm]
      rfl
    · simp only [fromEnd]
      split <;> split <;> omega
  · show bitPosWithUnit c key b start stop unit (visible (unix now) db) = _
    rw [bitPosWithUnit, View.bind_apply, hdata]
    simp only [hempty, Bool.false_eq_true, if_false]
    rw [visited_eq, find?_filter]
    · simp
      rfl
    · simp only [fromEnd]
      split <;> omega
  · intro r hr
    have haccepts : op.Accepts sources.length := hsources.length_eq ▸ hop
    obtain rfl := hr.eq_result haccepts
    have hrun : bitOp c now op.name dest keys db = _ := Run.update_eq_ok.mpr (bitOpTxn_apply hsources hop)
    rw [BitOp.length_result] at hrun
    have hstored := stored_insert (visible (unix now) db) dest (op.result sources) 0
    have hstored : Stored (visible (unix now) _) dest _ 0 := hstored.visible (by
      rw [Std.ExtTreeMap.mem_iff_isSome_getElem?, getElem?_visible, hstored.value]
      rfl)
    rw [misread_iff, BitOp.length_result]
    push Not
    constructor
    · rintro ⟨db', d, hrun', hget, hbits⟩
      cases hrun.symm.trans hrun'
      have hd : decompressData c (op.result sources) = some d := by
        cases hd : decompressData c (op.result sources) with
        | none =>
          rw [view, Run.view, getStringBytes, View.bind_apply, hstored.value_error hd] at hget
          cases hget
        | some d' =>
          cases (hstored.getStringBytes_eq hd).symm.trans (Prod.mk.inj hget).1
          rfl
      refine ⟨d, hd, fun i hi => getD_eq_of_bit fun p hp => ?_⟩
      rw [hbits p (by omega), hr.bits p (by rw [hr.length]; omega)]
    · rintro ⟨d, hd, hsame⟩
      refine ⟨_, d, hrun, Prod.ext (hstored.getStringBytes_eq hd) rfl, fun p hp => ?_⟩
      rw [← hr.bits p (by rw [hr.length]; exact hp), bit, bit, hsame _ (by omega)]

/-- Two strings whose exclusive or looks compressed. -/
def masked : Db := (Strings.mSet 0 [("a", "snap"), ("b", "    ")] ∅).2

theorem bitmap_laws_masked :
    (∀ p : Int64, 0 ≤ p.toInt → view 0 (getBit uncompressed (ascii "a") p) masked =
      (.ok (if bit (ascii "snap") p.toInt.toNat then 1 else 0), masked)) ∧
    (Combines uncompressed 0 .and (ascii "a") [ascii "a", ascii "b"] [ascii "snap", ascii "    "] masked ↔
      ¬ Misread uncompressed (ascii "    ")) := by
  have ha : getStringBytes uncompressed "a" (visible (unix 0) masked) = .ok "snap" := by
    decide +kernel
  have hb : getStringBytes uncompressed "b" (visible (unix 0) masked) = .ok "    " := by
    decide +kernel
  have hlaws := bitmap_laws uncompressed 0 masked "a" "snap" ha (by decide) 0 (-1) 1 "BIT"
    .and "a" ["a", "b"] _ (.cons ha (.cons hb .nil)) ⟨by decide, nofun⟩
  exact ⟨hlaws.1, hlaws.2.2.2 _ ⟨by decide +kernel, by decide +kernel⟩⟩

/-- `BITOP XOR` makes "SNAP", which is read as compressed: bit 1 is set, and `GETBIT` is an error. -/
theorem bitOp_misread :
    (bitOp uncompressed 0 (ascii "XOR") (ascii "d") [ascii "a", ascii "b"] masked).1 = .ok 4 ∧
      BitOp.xor.combine [bit (ascii "snap") 1, bit (ascii "    ") 1] = true ∧
      (view 0 (getBit uncompressed (ascii "d") 1)
        (bitOp uncompressed 0 (ascii "XOR") (ascii "d") [ascii "a", ascii "b"] masked).2).1.isOk = false := by
  decide +kernel

end BoltDB.Store.Strings
