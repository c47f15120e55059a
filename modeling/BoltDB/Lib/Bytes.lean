import Mathlib

/-!
# Byte strings

Byte strings as lists of octets, ASCII literals, and decimal numerals.

* `ascii` — the bytes of an ASCII literal.
* `decimal` — the decimal numeral of a natural number, most significant digit first, no leading
  zeros.
* `digitsValue_decimal` — reading a numeral back gives the number.
-/

/-- A byte string. -/
abbrev Bytes := List UInt8

namespace Bytes

open List Int64

instance : LawfulBEq Bytes := inferInstance

/-- The bytes of an ASCII literal. -/
def ascii (s : String) : Bytes := s.toList.map fun c => UInt8.ofNat c.toNat

instance : Coe String Bytes := ⟨ascii⟩

/-! ## Decimal numerals -/

/-- `'0' ≤ b ≤ '9'`. -/
def isDigit (b : UInt8) : Bool := 48 ≤ b && b ≤ 57

/-- The digit for `d < 10`. -/
def digit (d : Nat) : UInt8 := UInt8.ofNat (48 + d)

/-- Numeral of `n` with at most `fuel` digits. -/
def decimalAux : Nat → Nat → Bytes
  | 0, _ => []
  | fuel + 1, n =>
    if n < 10 then [digit n] else decimalAux fuel (n / 10) ++ [digit (n % 10)]

/-- The decimal numeral of `n`. -/
def decimal (n : Nat) : Bytes := decimalAux (n + 1) n

/-- The value of a digit string read after `acc`. -/
def digitsValue (acc : Nat) (ds : Bytes) : Nat := ds.foldl (fun a d => a * 10 + (d.toNat - 48)) acc

theorem digit_toNat {d : Nat} (h : d < 10) : (digit d).toNat = 48 + d := by
  rw [digit, UInt8.toNat_ofNat']
  omega

theorem isDigit_digit {d : Nat} (h : d < 10) : isDigit (digit d) = true := by
  have hd := digit_toNat h
  simp only [isDigit, UInt8.le_iff_toNat_le, hd, Bool.and_eq_true, decide_eq_true_eq]
  exact ⟨Nat.le_add_right _ _, by change 48 + d ≤ 57; omega⟩

theorem isDigit_of_mem_decimalAux {fuel n : Nat} {b : UInt8} (h : b ∈ decimalAux fuel n) :
    isDigit b = true := by
  induction fuel generalizing n with
  | zero => simp [decimalAux] at h
  | succ fuel ih =>
    unfold decimalAux at h
    split at h
    · next hlt =>
      obtain rfl := mem_singleton.mp h
      exact isDigit_digit hlt
    · rcases mem_append.mp h with h | h
      · exact ih h
      · obtain rfl := mem_singleton.mp h
        exact isDigit_digit (Nat.mod_lt _ (by decide))

theorem isDigit_of_mem_decimal {n : Nat} {b : UInt8} (h : b ∈ decimal n) : isDigit b = true :=
  isDigit_of_mem_decimalAux h

theorem digitsValue_decimalAux {fuel n : Nat} (h : n < fuel) :
    digitsValue 0 (decimalAux fuel n) = n := by
  induction fuel generalizing n with
  | zero => omega
  | succ fuel ih =>
    unfold decimalAux
    split
    · next hlt =>
      simp only [digitsValue, foldl_cons, foldl_nil, digit_toNat hlt]
      omega
    · next hge =>
      have hdiv : digitsValue 0 (decimalAux fuel (n / 10)) = n / 10 := ih (by omega)
      simp only [digitsValue] at hdiv
      simp only [digitsValue, foldl_append, hdiv, foldl_cons, foldl_nil,
        digit_toNat (Nat.mod_lt n (by decide : 0 < 10))]
      omega

/-- Reading the numeral of `n` back gives `n`. -/
theorem digitsValue_decimal (n : Nat) : digitsValue 0 (decimal n) = n :=
  digitsValue_decimalAux (Nat.lt_succ_self n)

theorem decimal_ne_nil (n : Nat) : decimal n ≠ [] := by
  rw [decimal, decimalAux]
  split <;> simp

/-- The numeral of a positive number does not start with a zero. -/
theorem decimalAux_head {fuel n : Nat} (hpos : 0 < n) (h : n < fuel) :
    ∃ d ds, decimalAux fuel n = d :: ds ∧ 48 < d := by
  induction fuel generalizing n with
  | zero => omega
  | succ fuel ih =>
    unfold decimalAux
    split
    · next hlt =>
      refine ⟨digit n, [], rfl, ?_⟩
      rw [UInt8.lt_iff_toNat_lt, digit_toNat hlt]
      show 48 < 48 + n
      omega
    · next hge =>
      obtain ⟨d, ds, hdiv, hd⟩ := ih (n := n / 10) (by omega) (by omega)
      exact ⟨d, ds ++ [digit (n % 10)], by rw [hdiv]; rfl, hd⟩

theorem length_decimalAux_le {fuel n k : Nat} (hk : 0 < k) (h : n < 10 ^ k) :
    (decimalAux fuel n).length ≤ k := by
  induction fuel generalizing n k with
  | zero => simp [decimalAux]
  | succ fuel ih =>
    unfold decimalAux
    split
    · exact hk
    · next hge =>
      obtain ⟨k, rfl⟩ : ∃ j, k = j + 1 := ⟨k - 1, by omega⟩
      have hdiv : n / 10 < 10 ^ k := by
        rw [Nat.div_lt_iff_lt_mul (by omega)]
        exact h
      have hpos : 0 < k := by
        by_contra hzero
        obtain rfl : k = 0 := by omega
        omega
      have := ih hpos hdiv
      simp
      omega

/-- A number below `10 ^ k` has at most `k` digits. -/
theorem length_decimal_le {n k : Nat} (hk : 0 < k) (h : n < 10 ^ k) : (decimal n).length ≤ k :=
  length_decimalAux_le hk h

/-- `strings.ToUpper`, as far as a comparison with a word of ASCII letters can tell: besides the
ASCII letters only the long s and the dotless i have such an upper case. -/
def toUpper : Bytes → Bytes
  | 0xC5 :: 0xBF :: s => 83 :: toUpper s
  | 0xC4 :: 0xB1 :: s => 73 :: toUpper s
  | b :: s => (if 97 ≤ b && b ≤ 122 then b - 32 else b) :: toUpper s
  | [] => []

/-! ## Signed 64-bit numerals -/

/-- `strconv.FormatInt(i, 10)`. -/
def formatInt (i : Int) : Bytes := (if i < 0 then ascii "-" else []) ++ decimal i.natAbs

/-- The digits after an optional sign, and whether the sign is a minus. -/
def splitSign : Bytes → Bool × Bytes
  | b :: s => if b = 43 then (false, s) else if b = 45 then (true, s) else (false, b :: s)
  | [] => (false, [])

/-- `strconv.ParseInt(s, 10, 64)`. -/
def parseInt64 (s : Bytes) : Option Int64 :=
  let (neg, ds) := splitSign s
  if ds.isEmpty || !ds.all isDigit then none
  else
    let n := digitsValue 0 ds
    if neg then if n ≤ 2 ^ 63 then some (Int64.ofInt (-n)) else none
    else if n < 2 ^ 63 then some (Int64.ofNat n) else none

/-- What `strconv.ParseInt(s, 10, 64)` returns next to its error: the closest number for a numeral that
is out of range, 0 for a text that is none. -/
def parseInt64OrNearest (s : Bytes) : Int64 :=
  let (neg, ds) := splitSign s
  if ds.isEmpty || !ds.all isDigit then 0
  else (parseInt64 s).getD (if neg then Int64.minValue else Int64.maxValue)

theorem splitSign_decimal (n : Nat) : splitSign (decimal n) = (false, decimal n) := by
  cases hd : decimal n with
  | nil => rfl
  | cons d ds =>
    have hdigit : isDigit d = true := isDigit_of_mem_decimal (by rw [hd]; exact mem_cons_self)
    have hplus : d ≠ 43 := by rintro rfl; cases hdigit
    have hminus : d ≠ 45 := by rintro rfl; cases hdigit
    rw [splitSign, if_neg hplus, if_neg hminus]

/-- Reading a numeral back. -/
theorem parseInt64_formatInt (n : Int64) : parseInt64 (formatInt n.toInt) = some n := by
  have hlow : -2 ^ 63 ≤ n.toInt := n.le_toInt
  have hhigh := n.toInt_lt
  have hdigits : ((decimal n.toInt.natAbs).isEmpty || !(decimal n.toInt.natAbs).all isDigit) = false := by
    have hall : (decimal n.toInt.natAbs).all isDigit = true :=
      all_eq_true.mpr fun b hb => isDigit_of_mem_decimal hb
    simp [hall, decimal_ne_nil]
  by_cases hneg : n.toInt < 0
  · have hsplit : splitSign (formatInt n.toInt) = (true, decimal n.toInt.natAbs) := by
      rw [formatInt, if_pos hneg]
      rfl
    have hvalue : -(n.toInt.natAbs : Int) = n.toInt := by omega
    rw [parseInt64, hsplit]
    simp only [hdigits, Bool.false_eq_true, if_false, if_true, digitsValue_decimal]
    rw [if_pos (by omega), hvalue, ofInt_toInt]
  · have hsplit : splitSign (formatInt n.toInt) = (false, decimal n.toInt.natAbs) := by
      rw [formatInt, if_neg hneg, nil_append, splitSign_decimal]
    have hvalue : (n.toInt.natAbs : Int) = n.toInt := by omega
    rw [parseInt64, hsplit]
    simp only [hdigits, Bool.false_eq_true, if_false, digitsValue_decimal]
    rw [if_pos (by omega), ← ofInt_eq_ofNat, hvalue, ofInt_toInt]

theorem parseInt64_decimal {n : Nat} (h : n < 2 ^ 63) :
    parseInt64 (decimal n) = some (Int64.ofNat n) := by
  have hparse := parseInt64_formatInt (Int64.ofNat n)
  rw [toInt_ofNat_of_lt h] at hparse
  exact hparse

theorem parseInt64OrNearest_decimal {n : Nat} (h : n < 2 ^ 63) :
    parseInt64OrNearest (decimal n) = Int64.ofNat n := by
  have hall : (decimal n).all isDigit = true :=
    all_eq_true.mpr fun b hb => isDigit_of_mem_decimal hb
  rw [parseInt64OrNearest, splitSign_decimal, parseInt64_decimal h]
  simp [hall, decimal_ne_nil]

/-! ## Big-endian numbers -/

/-- The last `len` bytes of the binary numeral of `n`. -/
def bigEndian : Nat → Nat → Bytes
  | 0, _ => []
  | len + 1, n => bigEndian len (n / 256) ++ [UInt8.ofNat n]

def ofBigEndian (b : Bytes) : Nat := b.foldl (fun n d => n * 256 + d.toNat) 0

@[simp] theorem length_bigEndian (len n : Nat) : (bigEndian len n).length = len := by
  induction len generalizing n with
  | zero => rfl
  | succ len ih => simp [bigEndian, ih]

theorem ofBigEndian_append_singleton (b : Bytes) (d : UInt8) :
    ofBigEndian (b ++ [d]) = ofBigEndian b * 256 + d.toNat := by
  rw [ofBigEndian, foldl_append]
  rfl

theorem ofBigEndian_bigEndian (len n : Nat) : ofBigEndian (bigEndian len n) = n % 256 ^ len := by
  induction len generalizing n with
  | zero => simp [bigEndian, ofBigEndian, Nat.mod_one]
  | succ len ih =>
    have hsplit : n % 256 ^ (len + 1) = n % 256 + 256 * (n / 256 % 256 ^ len) := by
      rw [Nat.pow_succ, Nat.mul_comm, Nat.mod_mul]
    rw [bigEndian, ofBigEndian_append_singleton, ih, UInt8.toNat_ofNat']
    omega

/-- `helper.Uint64ToBytes`. -/
def uint64ToBytes (n : UInt64) : Bytes := bigEndian 8 n.toNat

/-- `helper.BytesToUint64`: anything but eight bytes is 0. -/
def bytesToUint64 (b : Bytes) : UInt64 :=
  if b.length = 8 then UInt64.ofNat (ofBigEndian b) else 0

theorem ofBigEndian_uint64ToBytes (n : UInt64) :
    UInt64.ofNat (ofBigEndian (uint64ToBytes n)) = n := by
  rw [uint64ToBytes, ofBigEndian_bigEndian, Nat.mod_eq_of_lt (show n.toNat < 256 ^ 8 from n.toNat_lt),
    UInt64.ofNat_toNat]

@[simp] theorem bytesToUint64_uint64ToBytes (n : UInt64) : bytesToUint64 (uint64ToBytes n) = n := by
  have hlen : (uint64ToBytes n).length = 8 := length_bigEndian _ _
  rw [bytesToUint64, if_pos hlen, ofBigEndian_uint64ToBytes]

/-! ## Byte order -/

theorem compare_cons_cons (x y : UInt8) (a b : Bytes) :
    compare (x :: a) (y :: b) = (compare x y).then (compare a b) := List.compareLex_cons_cons

theorem compare_cons_of_lt {x y : UInt8} (h : x < y) (a b : Bytes) :
    compare (x :: a) (y :: b) = .lt := by
  rw [compare_cons_cons, Std.compare_eq_lt.mpr h]
  rfl

theorem compare_append_left (p a b : Bytes) : compare (p ++ a) (p ++ b) = compare a b := by
  induction p with
  | nil => rfl
  | cons x p ih =>
    have hself : compare x x = .eq := Std.ReflCmp.compare_self
    rw [cons_append, cons_append, compare_cons_cons, hself]
    exact ih

theorem compare_concat {a b : Bytes} (h : a.length = b.length) (x y : UInt8) :
    compare (a ++ [x]) (b ++ [y]) = (compare a b).then (compare x y) := by
  induction a generalizing b with
  | nil =>
    obtain rfl := length_eq_zero_iff.mp h.symm
    exact (compare_cons_cons x y [] []).trans Ordering.then_eq
  | cons z a ih =>
    obtain ⟨w, b, rfl⟩ := exists_cons_of_length_eq_add_one h.symm
    rw [cons_append, cons_append, compare_cons_cons, compare_cons_cons, ih (Nat.succ.inj h),
      Ordering.then_assoc]

/-- Numerals of one length are ordered as their numbers. -/
theorem compare_bigEndian {len m n : Nat} (hm : m < 256 ^ len) (hn : n < 256 ^ len) :
    compare (bigEndian len m) (bigEndian len n) = compare m n := by
  induction len generalizing m n with
  | zero =>
    obtain ⟨rfl, rfl⟩ : m = 0 ∧ n = 0 := by omega
    rfl
  | succ len ih =>
    rw [bigEndian, bigEndian, compare_concat (by simp), ih (by omega) (by omega)]
    show (compareOfLessAndEq _ _).then (compareOfLessAndEq _ _) = compareOfLessAndEq _ _
    simp only [compareOfLessAndEq, UInt8.lt_iff_toNat_lt, ← UInt8.toNat_inj, UInt8.toNat_ofNat']
    split_ifs <;> first | rfl | omega

end Bytes
