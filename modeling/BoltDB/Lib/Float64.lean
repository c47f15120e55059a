import BoltDB.Lib.Bytes

/-!
# Binary64 numbers

IEEE 754 double precision numbers as bit patterns. A finite number is a whole multiple of `2^-1074`;
`scaled` is that multiple, so that sums, products and decimal numerals are computed exactly and then
rounded once, to nearest with ties to even.

* `round` — the bits of the number nearest to a fraction.
* `add`, `mul`, `lt`, `le` — arithmetic and order. Every NaN result is the pattern `nan`.
* `parseFloat`, `formatFloat` — decimal numerals, with the syntax and the shortest form of Go's
  `strconv`.
-/

/-- A double precision number, by its bits. -/
structure F64 where
  bits : UInt64
  deriving DecidableEq

namespace F64

open Bytes Nat

/-! ## Parts of a number -/

def neg (x : F64) : Bool := 2 ^ 63 ≤ x.bits.toNat

/-- The bits without the sign. -/
def magnitude (x : F64) : Nat := x.bits.toNat % 2 ^ 63

def expBits (x : F64) : Nat := x.magnitude / 2 ^ 52

def fraction (x : F64) : Nat := x.magnitude % 2 ^ 52

/-- The magnitude of an infinity; larger ones are NaNs. -/
def infMagnitude : Nat := 2047 * 2 ^ 52

def isNaN (x : F64) : Bool := infMagnitude < x.magnitude

def isInf (x : F64) : Bool := x.magnitude = infMagnitude

/-- The number without its sign, in units of `2^-1074`. -/
def scaled (x : F64) : Nat :=
  if x.expBits = 0 then x.fraction else (2 ^ 52 + x.fraction) * 2 ^ (x.expBits - 1)

def signedScaled (x : F64) : Int := if x.neg then -x.scaled else x.scaled

def ofParts (neg : Bool) (magnitude : Nat) : F64 :=
  ⟨UInt64.ofNat ((if neg then 2 ^ 63 else 0) + magnitude)⟩

def zero : F64 := ⟨0⟩

def negZero : F64 := ⟨0x8000000000000000⟩

def one : F64 := ⟨0x3FF0000000000000⟩

def inf (neg : Bool) : F64 := ofParts neg infMagnitude

def nan : F64 := ⟨0x7FF8000000000001⟩

/-! ## Rounding -/

/-- `num / den` to the nearest integer, ties to even. -/
def divNearest (num den : Nat) : Nat :=
  let q := num / den
  let r := num % den
  if den < 2 * r || 2 * r = den && q % 2 = 1 then q + 1 else q

/-- The magnitude nearest to `num / den` units. A mantissa that rounds up to `2^53` carries into the
exponent by itself. -/
def round (num den : Nat) : Nat :=
  let shift := log2 (num / den) - 52
  min (shift * 2 ^ 52 + divNearest num (den * 2 ^ shift)) infMagnitude

/-! ## Arithmetic -/

def add (x y : F64) : F64 :=
  if x.isNaN || y.isNaN then nan
  else if x.isInf then if y.isInf && x.neg != y.neg then nan else x
  else if y.isInf then y
  else
    let s := x.signedScaled + y.signedScaled
    if s = 0 then ofParts (x.neg && y.neg) 0 else ofParts (s < 0) (round s.natAbs 1)

def mul (x y : F64) : F64 :=
  let neg := x.neg != y.neg
  if x.isNaN || y.isNaN then nan
  else if x.isInf || y.isInf then
    if x.magnitude = 0 || y.magnitude = 0 then nan else inf neg
  else ofParts neg (round (x.scaled * y.scaled) (2 ^ 1074))

def lt (x y : F64) : Bool := !x.isNaN && !y.isNaN && x.signedScaled < y.signedScaled

def le (x y : F64) : Bool := !x.isNaN && !y.isNaN && x.signedScaled ≤ y.signedScaled

/-- `==` of numbers: the zeros are equal, a NaN is not equal to itself. -/
def eq (x y : F64) : Bool := !x.isNaN && !y.isNaN && x.signedScaled = y.signedScaled

/-! ## The sign bit -/

theorem two_pow_xor {i r : Nat} (hr : r < 2 ^ i) : 2 ^ i ^^^ r = 2 ^ i + r := by
  apply eq_of_testBit_eq
  intro j
  rcases lt_trichotomy j i with h | h | h
  · simp [testBit_two_pow_add_gt h, h.ne']
  · subst h
    simp [Nat.testBit_two_pow_add_eq, Nat.testBit_lt_two_pow hr]
  · have hle : 2 ^ (i + 1) ≤ 2 ^ j := Nat.pow_le_pow_right (by decide) h
    have hsum : 2 ^ i + r < 2 ^ j := by omega
    simp [Nat.testBit_lt_two_pow hsum, Nat.testBit_lt_two_pow (by omega : r < 2 ^ j), h.ne]

/-- Flipping the sign bit. -/
theorem toNat_xor_sign (b : UInt64) : (b ^^^ 0x8000000000000000).toNat =
      if b.toNat < 2 ^ 63 then b.toNat + 2 ^ 63 else b.toNat - 2 ^ 63 := by
  have hb := b.toNat_lt
  show b.toNat ^^^ 2 ^ 63 = _
  split
  · next h => rw [Nat.xor_comm, two_pow_xor h, Nat.add_comm]
  · next h =>
    obtain ⟨r, hr⟩ := Nat.exists_eq_add_of_le (Nat.le_of_not_lt h)
    have hlt : r < 2 ^ 63 := by omega
    rw [hr, ← two_pow_xor hlt, Nat.xor_comm, ← Nat.xor_assoc, Nat.xor_self, Nat.zero_xor,
      two_pow_xor hlt]
    omega

theorem toNat_not (b : UInt64) : (~~~b).toNat = 2 ^ 64 - 1 - b.toNat := by
  rw [UInt64.toNat_not]
  rfl

/-- Masking the sign bit. -/
theorem and_sign_eq_zero_iff (b : UInt64) : b &&& 0x8000000000000000 = 0 ↔ b.toNat < 2 ^ 63 := by
  have hb := b.toNat_lt
  rw [← UInt64.toNat_inj]
  show b.toNat &&& 2 ^ 63 = 0 ↔ _
  rw [and_two_pow, testBit_eq_decide_div_mod_eq]
  simp
  omega

theorem scaled_eq_zero_iff (x : F64) : x.scaled = 0 ↔ x.magnitude = 0 := by
  have hpos : 0 < (2 ^ 52 + x.fraction) * 2 ^ (x.expBits - 1) :=
    Nat.mul_pos (by omega) (Nat.two_pow_pos _)
  have hparts : x.magnitude = 2 ^ 52 * x.expBits + x.fraction :=
    (Nat.div_add_mod x.magnitude (2 ^ 52)).symm
  unfold scaled
  split
  · omega
  · omega

/-- Magnitudes are ordered as the numbers they stand for. -/
theorem scaled_lt {x y : F64} (h : x.magnitude < y.magnitude) : x.scaled < y.scaled := by
  have hx : x.magnitude = 2 ^ 52 * x.expBits + x.fraction := (div_add_mod _ _).symm
  have hy : y.magnitude = 2 ^ 52 * y.expBits + y.fraction := (Nat.div_add_mod _ _).symm
  have hf : x.fraction < 2 ^ 52 := Nat.mod_lt _ (by decide)
  have hexp : x.expBits ≤ y.expBits := Nat.div_le_div_right h.le
  unfold scaled
  obtain he | he := hexp.eq_or_lt
  · rw [he]
    split
    · omega
    · exact Nat.mul_lt_mul_of_pos_right (by omega) (Nat.two_pow_pos _)
  · rw [if_neg (show y.expBits ≠ 0 by omega)]
    have hle : 2 ^ 52 * 2 ^ x.expBits ≤ (2 ^ 52 + y.fraction) * 2 ^ (y.expBits - 1) :=
      Nat.mul_le_mul (by omega) (Nat.pow_le_pow_right (by decide) (by omega))
    refine Nat.lt_of_lt_of_le ?_ hle
    split
    · next h0 => simpa [h0] using hf
    · next h0 =>
      rw [← mul_pow_sub_one h0 2, ← Nat.mul_assoc]
      exact Nat.mul_lt_mul_of_pos_right (by omega) (Nat.two_pow_pos _)

/-- `0 <= x` of the source: no NaN, and no sign but for zero. -/
theorem zero_le_iff (x : F64) : zero.le x = true ↔
      x.magnitude ≤ infMagnitude ∧ (x.bits.toNat < 2 ^ 63 ∨ x.magnitude = 0) := by
  have hnan : zero.isNaN = false := by decide
  have hscaled : zero.signedScaled = 0 := by decide
  rw [← scaled_eq_zero_iff, le, hnan, hscaled, isNaN, signedScaled, neg]
  simp only [Bool.not_false, Bool.true_and, Bool.and_eq_true, Bool.not_eq_true',
    decide_eq_false_iff_not, decide_eq_true_eq, not_lt]
  refine and_congr_right fun _ => ?_
  split <;> omega

/-! ## Reading numerals -/

/-- `mant * 10 ^ exp` as a magnitude. -/
def ofDecimal (mant : Nat) (exp : Int) : Nat :=
  if exp < 0 then round (mant * 2 ^ 1074) (10 ^ exp.natAbs) else
    round (mant * 10 ^ exp.toNat * 2 ^ 1074) 1

/-- `mant * 2 ^ exp` as a magnitude. -/
def ofBinary (mant : Nat) (exp : Int) : Nat :=
  if exp < 0 then round (mant * 2 ^ 1074) (2 ^ exp.natAbs) else
    round (mant * 2 ^ exp.toNat * 2 ^ 1074) 1

def lower (b : UInt8) : UInt8 := if 65 ≤ b && b ≤ 90 then b + 32 else b

def hexDigit (b : UInt8) : Option Nat :=
  if isDigit b then some (b.toNat - 48)
  else if 97 ≤ lower b && lower b ≤ 102 then some ((lower b).toNat - 87) else none

/-- Digits of a mantissa: value, number of digits, and digits after the point once it was seen. -/
structure Mantissa where
  value : Nat := 0
  digits : Nat := 0
  point : Option Nat := none

/-- Mantissa digits in a base, with one point and underscores. -/
def readMantissa (base : Nat) : Mantissa → Bytes → Mantissa × Bytes
  | m, [] => (m, [])
  | m, b :: s =>
    if b = 95 then readMantissa base m s
    else if b = 46 then
      if m.point.isSome then (m, b :: s) else readMantissa base { m with point := some 0 } s
    else
      match if base = 16 then hexDigit b else if isDigit b then some (b.toNat - 48) else none with
      | some d =>
        readMantissa base ⟨m.value * base + d, m.digits + 1, m.point.map (· + 1)⟩ s
      | none => (m, b :: s)

/-- Exponent digits; from 10000 on the value stays. -/
def readExponent : Nat → Bytes → Nat × Bytes
  | e, [] => (e, [])
  | e, b :: s =>
    if b = 95 then readExponent e s
    else if isDigit b then readExponent (if e < 10000 then e * 10 + (b.toNat - 48) else e) s
    else (e, b :: s)

def readSign : Bytes → Bool × Bytes
  | b :: s => if b = 43 then (false, s) else if b = 45 then (true, s) else (false, b :: s)
  | [] => (false, [])

/-- The part from `e` or `p` on: the exponent and what follows it. -/
def readExponentPart (marker : UInt8) : Bytes → Option (Int × Bytes)
  | [] => some (0, [])
  | b :: s =>
    if lower b = marker then
      let (neg, s) := readSign s
      match s with
      | d :: _ =>
        if isDigit d then
          let (e, rest) := readExponent 0 s
          some (if neg then -e else e, rest)
        else none
      | [] => none
    else some (0, b :: s)

/-- `underscoreOK`: an underscore stands between digits or after a base marker. -/
def underscoreOK (s : Bytes) : Bool :=
  let s := (readSign s).2
  let hex := match s with
    | a :: b :: _ => a = 48 && lower b = 120
    | _ => false
  let based := match s with
    | a :: b :: _ => a = 48 && (lower b = 98 || lower b = 111 || lower b = 120)
    | _ => false
  let isNum b := isDigit b || hex && 97 ≤ lower b && lower b ≤ 102
  -- `saw` is 0 for a digit, 1 for an underscore, 2 for anything else.
  let step (st : Option Nat) (b : UInt8) : Option Nat :=
    match st with
    | none => none
    | some saw =>
      if isNum b then some 0
      else if b = 95 then if saw = 0 then some 1 else none
      else if saw = 1 then none else some 2
  match (if based then s.drop 2 else s).foldl step (some (if based then 0 else 2)) with
  | some saw => saw ≠ 1
  | none => false

/-- The names of numbers that are not finite, in any case of letters. -/
def special (s : Bytes) : Option F64 :=
  let (neg, rest) := readSign s
  let name := rest.map lower
  if name = "inf" || name = "infinity" then some (inf neg)
  else if s.map lower = "nan" then some nan else none

inductive ParseError
  | malformed
  | range
  deriving DecidableEq

/-- `strconv.ParseFloat(s, 64)`; a range error comes with an infinity. -/
def parseFloat (s : Bytes) : Except (ParseError × F64) F64 :=
  match special s with
  | some x => .ok x
  | none =>
    let (neg, body) := readSign s
    let hex := match body with
      | a :: b :: _ :: _ => a = 48 && lower b = 120
      | _ => false
    let (m, rest) := readMantissa (if hex then 16 else 10) {} (if hex then body.drop 2 else body)
    match readExponentPart (if hex then 112 else 101) rest with
    | some (e, []) =>
      if m.digits = 0 || s.contains 95 && !underscoreOK s || hex && rest.isEmpty then
        .error (.malformed, zero)
      else
        let after : Int := m.point.getD 0
        let mag := if hex then ofBinary m.value (e - 4 * after) else ofDecimal m.value (e - after)
        if mag = infMagnitude then .error (.range, inf neg) else .ok (ofParts neg mag)
    | _ => .error (.malformed, zero)

/-! ## Writing numerals -/

/-- `d * 10 ^ exp`. -/
structure Decimal where
  digits : Nat
  exp : Int

/-- The power of ten of the first digit of `scaled` units. -/
def leadingExp (n : Nat) : Int :=
  -- 2^1074 has 324 digits
  ((decimal (n * 10 ^ 330 / 2 ^ 1074)).length : Int) - 331

/-- The number cut to `count` digits, and whether the rest is below, at or above one half. -/
def truncate (n count : Nat) : Decimal × Ordering :=
  let exp := leadingExp n - (count - 1)
  let num := if exp < 0 then n * 10 ^ exp.natAbs else n
  let den := if exp < 0 then 2 ^ 1074 else 2 ^ 1074 * 10 ^ exp.toNat
  (⟨num / den, exp⟩, compare (2 * (num % den)) den)

/-- The closest numeral with `count` digits that is read back as the magnitude. -/
def numeral? (mag n count : Nat) : Option Decimal :=
  let (d, half) := truncate n count
  let up : Decimal := ⟨d.digits + 1, d.exp⟩
  let reads (d : Decimal) : Bool := ofDecimal d.digits d.exp = mag
  if reads d && reads up then
    some (if half = .gt || half = .eq && d.digits % 2 = 1 then up else d)
  else if reads d then some d
  else if reads up then some up else none

/-- The exact value. -/
def exactDecimal (n : Nat) : Decimal := ⟨n * 5 ^ 1074, -1074⟩

/-- The shortest numeral that is read back as the magnitude. -/
def shortest (mag n : Nat) : Decimal :=
  ((List.range 17).findSome? fun i => numeral? mag n (i + 1)).getD (exactDecimal n)

def zeros (n : Nat) : Bytes := List.replicate n 48

/-- A numeral without an exponent. -/
def plain (d : Decimal) : Bytes :=
  if d.digits = 0 then "0"
  else if 0 ≤ d.exp then decimal d.digits ++ zeros d.exp.toNat
  else
    let after := d.exp.natAbs
    let ds := zeros (after + 1 - (decimal d.digits).length) ++ decimal d.digits
    ds.take (ds.length - after) ++ "." ++ ds.drop (ds.length - after)

/-- `strconv.FormatFloat(x, 'f', -1, 64)`. -/
def formatFloat (x : F64) : Bytes :=
  if x.isNaN then "NaN"
  else if x.isInf then if x.neg then "-Inf" else "+Inf"
  else (if x.neg then ascii "-" else []) ++ plain (shortest x.magnitude x.scaled)

/-- The number with `count` digits that is closest, an even one between two. -/
def nearest (n count : Nat) : Decimal :=
  let (d, half) := truncate n count
  if half = .gt || half = .eq && d.digits % 2 = 1 then ⟨d.digits + 1, d.exp⟩ else d

/-- Without the zeros at the end, of which there are no more than `fuel`. -/
def stripZeros : Nat → Decimal → Decimal
  | 0, d => d
  | fuel + 1, d =>
    if d.digits ≠ 0 ∧ d.digits % 10 = 0 then stripZeros fuel ⟨d.digits / 10, d.exp + 1⟩ else d

/-- A numeral with an exponent of two digits or more. -/
def scientific (d : Decimal) : Bytes :=
  let ds := decimal d.digits
  let e := d.exp + (ds.length - 1 : Int)
  let es := decimal e.natAbs
  ds.take 1 ++ (if 1 < ds.length then ascii "." ++ ds.drop 1 else []) ++
    (if e < 0 then ascii "e-" else ascii "e+") ++ zeros (2 - es.length) ++ es

/-- `fmt.Sprintf("%.10g", x)`. -/
def formatG10 (x : F64) : Bytes :=
  if x.isNaN then ascii "NaN"
  else if x.isInf then if x.neg then ascii "-Inf" else ascii "+Inf"
  else (if x.neg then ascii "-" else []) ++
    if x.scaled = 0 then ascii "0"
    else
      let d := stripZeros 11 (nearest x.scaled 10)
      let e := d.exp + ((decimal d.digits).length - 1 : Int)
      if e < -4 ∨ 10 ≤ e then scientific d else plain d

end F64
