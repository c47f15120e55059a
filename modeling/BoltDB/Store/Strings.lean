import BoltDB.Store.Base
import BoltDB.Store.Values

/-!
# Strings

`string.go` and `compression.go`. The compressors are parameters. Bit fields are read and written
with the least significant bit first, bit strings (`SETBIT`) with the most significant one first. An
index out of range is a panic, which undoes the transaction.
-/

namespace BoltDB.Store

open Bytes KeyValue

/-! ## Compression -/

inductive CompressionType
  | none | lz4 | zstd | snappy
  deriving DecidableEq

/-- The configured algorithm, and what the compression packages and `encoding/json` compute. -/
structure Codec where
  compressionType : CompressionType
  encode : CompressionType → Bytes → Option Bytes
  decode : CompressionType → Bytes → Option Bytes
  json : JsonCodec

/-- Decoders that know only what `1 :: x` stands for. With nothing behind the magic bytes LZ4 and ZSTD
give an empty value, and Snappy fails (`corrupt input`). -/
def decodeMarked (t : CompressionType) : Bytes → Option Bytes
  | 1 :: x => some x
  | [] => if t = .snappy then none else some []
  | _ => none

/-- The configuration without compression, for stores that hold no JSON. The decoders still see every
value that happens to start with magic bytes. -/
def uncompressed : Codec :=
  ⟨.none, fun _ x => some (1 :: x), decodeMarked,
    ⟨fun _ => none, fun _ => none, fun _ => [], fun _ => none, fun _ => [], fun _ => none⟩⟩

def compressionMagic : CompressionType → Bytes
  | .none => []
  | .lz4 => ascii "LZ4" ++ [1]
  | .zstd => "ZSTD"
  | .snappy => "SNAP"

def compressData (c : Codec) (data : Bytes) : Option Bytes :=
  if c.compressionType = .none ∨ data = [] then some data
  else (c.encode c.compressionType data).map (compressionMagic c.compressionType ++ ·)

def decompressData (c : Codec) (data : Bytes) : Option Bytes :=
  match [CompressionType.lz4, .zstd, .snappy].find?
      fun t => (compressionMagic t).isPrefixOf data with
  | some t => c.decode t (data.drop 4)
  | none => some data

def shouldCompress (c : Codec) (data : Bytes) : Bool :=
  c.compressionType ≠ .none && 64 ≤ data.length

/-- What is stored for a value: the compressed form if it is shorter. -/
def storedValue (c : Codec) (value : Bytes) : Option Bytes :=
  if shouldCompress c value then
    (compressData c value).map fun z => if value.length ≤ z.length then value else z
  else some value

/-- `badger.Entry.WithTTL`. -/
def withTTL (now : Nat) (ttl : Int) : Nat := unix (now + ttl).toNat

def setEntryWithCompression (c : Codec) (now : Nat) (p value : Bytes) (ttl : Int) : Txn Err Unit :=
  match storedValue c value with
  | some z => Txn.setEntry p ⟨z, if 0 < ttl then withTTL now ttl else 0⟩
  | none => throw (.other "compression error")

def setValueWithCompression (c : Codec) (p value : Bytes) : Txn Err Unit :=
  match storedValue c value with
  | some z => Txn.set p z
  | none => throw (.other "compression error")

def getValueWithDecompression (c : Codec) (e : Entry) : View Err Bytes :=
  match decompressData c e.value with
  | some v => pure v
  | none => throw (.other "decompress error")

namespace Strings

variable (c : Codec)

/-! ## Plain values -/

/-- The value of the data record, whatever the type of the key. -/
def value (key : Bytes) : View Err (Option Bytes) := do
  match ← View.get (stringKey key) with
  | none => return none
  | some e => return some (← getValueWithDecompression c e)

/-- `getStringBytes`. -/
def getStringBytes (key : Bytes) : View Err Bytes := do
  return (← value c key).getD []

/-- The `TYPE_` record and the value. -/
def put (key v : Bytes) : Txn Err Unit := do
  Txn.set (typeOfKeyGet key) KeyType.string.name
  setValueWithCompression c (stringKey key) v

/-- As `put`, without compression. -/
def putRaw (key v : Bytes) : Txn Err Unit := do
  Txn.set (typeOfKeyGet key) KeyType.string.name
  Txn.set (stringKey key) v

def setTxn (key v : Bytes) : Txn Err Unit := do
  checkKeyTypeInline key .string
  put c key v

def setWithTTLTxn (now : Nat) (key v : Bytes) (ttl : Int) : Txn Err Unit := do
  checkKeyTypeInline key .string
  Txn.set (typeOfKeyGet key) KeyType.string.name
  setEntryWithCompression c now (stringKey key) v ttl

/-- Nanoseconds in a `time.Duration`, which wraps around. -/
def duration (n : Int) : Int := Int.bmod n (2 ^ 64)

def setNXTxn (key v : Bytes) : Txn Err Bool := do
  if (← Txn.get (stringKey key)).isSome then return false
  else do
    put c key v
    return true

def getSetTxn (key v : Bytes) : Txn Err Bytes := do
  let old ← value c key
  put c key v
  return old.getD []

def get (key : Bytes) : View Err Bytes := do
  checkKeyTypeInline key .string
  match ← value c key with
  | some v => return v
  | none => throw .keyNotFound

def mGet (keys : List Bytes) : View Err (List Bytes) := keys.mapM fun key => do
    match ← rawType key with
    | none => return []
    | some name =>
      if name ≠ [] ∧ name ≠ KeyType.string.name then throw .wrongType
      else return (← value c key).getD []

def mSetTxn (pairs : List (Bytes × Bytes)) : Txn Err Unit := pairs.forM fun (key, v) => putRaw key v

def mSetNXTxn (pairs : List (Bytes × Bytes)) : Txn Err Bool := do
  let present ← pairs.foldlM (fun found (key, _) => do
    return found || (← Txn.get (stringKey key)).isSome) false
  if present then return false
  else do
    mSetTxn pairs
    return true

/-! ## Numbers -/

def getIntValue (key : Bytes) : View Err Int64 := do
  match ← value c key with
  | none => return 0
  | some v =>
    match parseInt64 v with
    | some n => return n
    | none => throw .notInteger

def setIntValue (key : Bytes) (n : Int64) : Txn Err Unit := putRaw key (formatInt n.toInt)

/-- The checks of `INCRBY` against overflow. -/
def overflows (old increment : Int64) : Bool := 0 < increment && Int64.maxValue - increment < old ||
    increment < 0 && old < Int64.minValue - increment

def incrByTxn (key : Bytes) (increment : Int64) : Txn Err Int64 := do
  checkKeyTypeInline key .string
  let old ← getIntValue c key
  if overflows old increment then throw .overflow
  else do
    setIntValue key (old + increment)
    return old + increment

def getFloatValue (key : Bytes) : View Err F64 := do
  match ← value c key with
  | none => return F64.zero
  | some v =>
    match F64.parseFloat v with
    | .ok x => return x
    | .error _ => throw .notFloat

def incrByFloatTxn (key : Bytes) (increment : F64) : Txn Err F64 := do
  let old ← getFloatValue c key
  let new := old.add increment
  if new.isInf || new.isNaN then throw .nanOrInfinity
  else do
    put c key new.formatFloat
    return new

/-! ## Parts of a value -/

def appendTxn (key v : Bytes) : Txn Err Nat := do
  let old ← getStringBytes c key
  checkKeyTypeInline key .string
  put c key (old ++ v)
  return (old ++ v).length

def strLen (key : Bytes) : View Err Nat := do
  checkKeyType key .string
  return (← getStringBytes c key).length

/-- A start or end index of a range: negative ones count from the end, with a floor. -/
def fromEnd (len : Nat) (i floor : Int) : Int := if i < 0 then max (len + i) floor else i

def getRange (key : Bytes) (start stop : Int64) : View Err Bytes := do
  checkKeyType key .string
  let v ← getStringBytes c key
  let first := fromEnd v.length start.toInt 0
  let last := min (fromEnd v.length stop.toInt (-1)) (v.length - 1)
  return if last < first then [] else (v.take (last + 1).toNat).drop first.toNat

/-- The largest allocation that the Go runtime grants, in bytes: `make` panics above it. -/
def maxAlloc : Nat := 2 ^ 48

/-- The value of `SETRANGE`: zeros up to the offset, then `v` over the old value. `none` is a panic. -/
def splice (old v : Bytes) (offset : Int) : Option Bytes :=
  if maxAlloc < offset + v.length then none else
  let old := old ++ List.replicate (offset - old.length).toNat 0
  let before := old.take offset.toNat
  if offset + v.length < old.length then
    if offset + v.length < 0 then none else some (before ++ v ++ old.drop (offset + v.length).toNat)
  else some (before ++ v)

def setRangeTxn (key : Bytes) (offset : Int64) (v : Bytes) : Txn Err Nat := do
  let old ← getStringBytes c key
  match splice old v offset.toInt with
  | none => throw .indexOutOfRange
  | some new => do
    put c key new
    return new.length

/-! ## Bits -/

/-- The mask of a bit counted from the most significant one; a negative index shifts it out. -/
def bitMask (bitIndex : Int) : UInt8 :=
  if bitIndex < 0 then 0 else 1 <<< UInt8.ofNat (7 - bitIndex.toNat)

def setBitTxn (key : Bytes) (offset value : Int64) : Txn Err Nat := do
  let data ← getStringBytes c key
  let byteIndex := offset.toInt.tdiv 8
  let mask := bitMask (offset.toInt.tmod 8)
  if byteIndex < 0 then throw .indexOutOfRange
  else do
    let i := byteIndex.toNat
    let data := data ++ List.replicate (i + 1 - data.length) 0
    let old := data.getD i 0
    put c key (data.set i (if value = 1 then old ||| mask else old &&& ~~~mask))
    return if old &&& mask = 0 then 0 else 1

/-- One byte of `BITOP`; the operation is looked at for every byte. -/
def bitOpByte (op : Bytes) (bs : List UInt8) : Except Err UInt8 :=
  if op = "AND" then .ok (bs.foldl (· &&& ·) 0xFF)
  else if op = "OR" then .ok (bs.foldl (· ||| ·) 0)
  else if op = "XOR" then .ok (bs.foldl (· ^^^ ·) 0)
  else if op = "NOT" then
    match bs with
    | [b] => .ok (~~~b)
    | _ => .error (.other "BITOP NOT requires exactly one source key")
  else .error (.other "unknown bitop operation")

def bitOpTxn (op dest : Bytes) (keys : List Bytes) : Txn Err Nat := do
  if keys.isEmpty then throw (.other "BITOP requires at least one source key")
  else do
    let sources ← (keys.foldlM (fun acc key => do
      return acc ++ [← getStringBytes c key]) [] : View Err (List Bytes))
    let maxLen := (sources.map List.length).foldl max 0
    match (List.range maxLen).mapM fun i => bitOpByte op (sources.map (·.getD i 0)) with
    | .error e => throw e
    | .ok result => do
      putRaw dest result
      return result.length

/-! ## Bit fields -/

inductive Overflow
  | wrap | sat | fail
  deriving DecidableEq

structure BitFieldOp where
  op : Bytes
  isSigned : Bool
  bits : Nat
  offset : Int64
  value : Int64
  overflow : Overflow
  deriving DecidableEq

def parseBitFieldType : Bytes → Option (Bool × Nat)
  | b :: d :: ds =>
    match if b = 105 then some true else if b = 117 then some false else none,
        parseInt64 (d :: ds) with
    | some isSigned, some n => if 0 < n ∧ n ≤ 64 then some (isSigned, n.toInt.toNat) else none
    | _, _ => none
  | _ => none

def parseOverflow (mode : Bytes) : Option Overflow :=
  if toUpper mode = "WRAP" then some .wrap
  else if toUpper mode = "SAT" then some .sat
  else if toUpper mode = "FAIL" then some .fail
  else none

/-- `OVERFLOW` holds for the operations after it. -/
def parseBitField (overflow : Overflow) : List Bytes → Option (List BitFieldOp)
  | [] => some []
  | name :: rest =>
    if toUpper name = "OVERFLOW" then
      match rest with
      | mode :: rest => (parseOverflow mode).bind fun overflow => parseBitField overflow rest
      | [] => none
    else
      match rest with
      | typ :: offset :: rest =>
        match parseBitFieldType typ, parseInt64 offset with
        | some (isSigned, bits), some offset =>
          if name = "SET" ∨ name = "INCRBY" then
            match rest with
            | value :: rest =>
              (parseInt64 value).bind fun value =>
                (parseBitField overflow rest).map
                  (⟨name, isSigned, bits, offset, value, overflow⟩ :: ·)
            | [] => none
          else (parseBitField overflow rest).map (⟨name, isSigned, bits, offset, 0, overflow⟩ :: ·)
        | _, _ => none
      | _ => none

/-- An `int64` result. -/
def wrap64 (n : Int) : Int := Int.bmod n (2 ^ 64)

def fieldBit (data : Bytes) (pos : Nat) : Bool := (data.getD (pos / 8) 0).toNat.testBit (pos % 8)

/-- The field as an `int64`. -/
def readField (data : Bytes) (pos bits : Nat) (isSigned : Bool) : Int :=
  let u := (List.range bits).foldl
    (fun (n : Nat) j => if fieldBit data (pos + j) then n + 2 ^ j else n) 0
  if isSigned then Int.bmod u (2 ^ bits) else wrap64 u

/-- Bit `pos` set to the parity of `v`, if there is such a byte. -/
def writeFieldBit (data : Bytes) (pos : Nat) (v : Int) : Option Bytes :=
  if pos / 8 < data.length then
    let b := data.getD (pos / 8) 0
    let mask := (1 : UInt8) <<< UInt8.ofNat (pos % 8)
    some (data.set (pos / 8) (if v % 2 = 1 then b ||| mask else b &&& ~~~mask))
  else none

def writeField (data : Bytes) (pos bits : Nat) (v : Int) : Option Bytes :=
  (List.range bits).foldlM (fun data j => writeFieldBit data (pos + j) (v / 2 ^ j)) data

/-- The new value of a signed `INCRBY`; `none` for an overflow that fails. -/
def incrSigned (bits : Nat) (overflow : Overflow) (old inc : Int) : Option Int :=
  let minVal : Int := -2 ^ (bits - 1)
  let maxVal : Int := 2 ^ (bits - 1) - 1
  let new := wrap64 (old + inc)
  if 0 < inc ∧ maxVal - inc < old ∨ inc < 0 ∧ old < minVal - inc then
    match overflow with
    | .fail => none
    | .sat => some (if 0 < inc then maxVal else minVal)
    | .wrap =>
      if bits < 64 then
        let mod := wrap64 (2 ^ bits)
        let new := new.tmod mod
        some (if 2 ^ (bits - 1) ≤ new then wrap64 (new - mod) else new)
      else some new
  else some new

/-- The new value of an unsigned `INCRBY`, as an `int64`. -/
def incrUnsigned (bits : Nat) (overflow : Overflow) (old inc : Int) : Option Int :=
  if bits = 64 then
    let uOld := old % 2 ^ 64
    let uNew := (old + inc) % 2 ^ 64
    if 0 < inc ∧ uNew < uOld ∨ inc < 0 ∧ uOld < uNew then
      match overflow with
      | .fail => none
      | .sat => some (if 0 < inc then -1 else 0)
      | .wrap => some (wrap64 uNew)
    else some (wrap64 uNew)
  else
    let maxVal : Int := 2 ^ bits - 1
    let new := wrap64 (old + inc)
    if 0 < inc ∧ maxVal - inc < old ∨ inc < 0 ∧ old < wrap64 (-inc) then
      match overflow with
      | .fail => none
      | .sat => some (if 0 < inc then maxVal else 0)
      | .wrap =>
        let mod := wrap64 (2 ^ bits)
        let new := new.tmod mod
        some (if new < 0 then wrap64 (new + mod) else new)
    else some new

/-- The data, the results so far, and whether the data has grown at an operation that looks at the
expiry. -/
structure FieldState where
  data : Bytes
  results : List Int
  grown : Bool

def bitFieldStep (originalLen : Nat) (st : FieldState) (op : BitFieldOp) : Except Err FieldState :=
  let offset := if op.offset < 0 then st.data.length * 8 + op.offset.toInt else op.offset.toInt
  if offset < 0 then .error (.other "BITFIELD: offset out of range")
  else if 2 ^ 63 ≤ offset + op.bits + 7 then .error .indexOutOfRange
  else
    let pos := offset.toNat
    let data := if pos / 8 < st.data.length then st.data else
      st.data ++ List.replicate ((pos + op.bits + 7) / 8 - st.data.length) 0
    let old := readField data pos op.bits op.isSigned
    let grown := st.grown || originalLen < data.length
    if op.op = "GET" then .ok ⟨data, st.results ++ [old], grown⟩
    else if op.op = "SET" then
      match writeField data pos op.bits op.value.toInt with
      | some data => .ok ⟨data, st.results ++ [old], grown⟩
      | none => .error .indexOutOfRange
    else if op.op = "INCRBY" then
      match (if op.isSigned then incrSigned else incrUnsigned) op.bits op.overflow old
          op.value.toInt with
      | none => .error (.other "BITFIELD: overflow detected")
      | some new =>
        match writeField data pos op.bits new with
        | some data => .ok ⟨data, st.results ++ [new], st.grown⟩
        | none => .error .indexOutOfRange
    else .ok ⟨data, st.results, grown⟩

/-- The expiry that `BITFIELD` keeps: what is left of it, for a string that has one. -/
def remainingTTL (now : Nat) (key : Bytes) : View Err Int := do
  if (← rawType key) = some KeyType.string.name then
    match ← View.get (stringKey key) with
    | some e => return if unix now < e.expiresAt then
        duration ((e.expiresAt - unix now) * 1000000000) else 0
    | none => return 0
  else return 0

def bitFieldTxn (now : Nat) (key : Bytes) (ops : List BitFieldOp) : Txn Err (List Int) := do
  let data ← getStringBytes c key
  match ops.foldlM (bitFieldStep data.length) ⟨data, [], false⟩ with
  | .error e => throw e
  | .ok st => do
    let left ← remainingTTL now key
    if st.data.isEmpty then return st.results
    else do
      Txn.set (typeOfKeyGet key) KeyType.string.name
      Txn.setEntry (stringKey key)
        ⟨st.data, if st.grown && 0 < left then withTTL now left else 0⟩
      return st.results

/-! ## Methods -/

def set (now : Nat) (key v : Bytes) : Run Err Unit := update now (setTxn c key v)

def setWithTTL (now : Nat) (key v : Bytes) (ttl : Int) : Run Err Unit :=
  update now (setWithTTLTxn c now key v ttl)

def setEX (now : Nat) (key v : Bytes) (seconds : Int64) : Run Err Unit :=
  setWithTTL c now key v (duration (seconds.toInt * 1000000000))

def pSetEX (now : Nat) (key v : Bytes) (milliseconds : Int64) : Run Err Unit :=
  setWithTTL c now key v (duration (milliseconds.toInt * 1000000))

def setNX (now : Nat) (key v : Bytes) : Run Err Bool := update now (setNXTxn c key v)

def getSet (now : Nat) (key v : Bytes) : Run Err Bytes := update now (getSetTxn c key v)

def mSet (now : Nat) (pairs : List (Bytes × Bytes)) : Run Err Unit := update now (mSetTxn pairs)

def mSetNX (now : Nat) (pairs : List (Bytes × Bytes)) : Run Err Bool := update now (mSetNXTxn pairs)

def incrBy (now : Nat) (key : Bytes) (increment : Int64) : Run Err Int64 :=
  update now (incrByTxn c key increment)

def decrBy (now : Nat) (key : Bytes) (decrement : Int64) : Run Err Int64 :=
  incrBy c now key (-decrement)

def incrByFloat (now : Nat) (key : Bytes) (increment : F64) : Run Err F64 :=
  update now (incrByFloatTxn c key increment)

def append (now : Nat) (key v : Bytes) : Run Err Nat := update now (appendTxn c key v)

def setRange (now : Nat) (key : Bytes) (offset : Int64) (v : Bytes) : Run Err Nat :=
  update now (setRangeTxn c key offset v)

def setBit (now : Nat) (key : Bytes) (offset value : Int64) : Run Err Nat :=
  update now (setBitTxn c key offset value)

def bitOp (now : Nat) (op dest : Bytes) (keys : List Bytes) : Run Err Nat :=
  update now (bitOpTxn c op dest keys)

def bitField (now : Nat) (key : Bytes) (operations : List Bytes) : Run Err (List Int) :=
  match parseBitField .wrap operations with
  | none => throw (.other "BITFIELD: invalid operation")
  | some ops => update now (bitFieldTxn c now key ops)

/-! ## Footprints -/

section Footprints

variable {c : Codec} {W : Bytes → Option Entry → Prop} {key : Bytes}

theorem writes_setValueWithCompression {p v : Bytes} (h : ∀ e, W p e) :
    Writes W (setValueWithCompression c p v) := by
  unfold setValueWithCompression
  split
  · exact writes_set (h _)
  · exact writes_throw

theorem writes_setEntryWithCompression {now : Nat} {p v : Bytes} {ttl : Int} (h : ∀ e, W p e) :
    Writes W (setEntryWithCompression c now p v ttl) := by
  unfold setEntryWithCompression
  split
  · exact writes_setEntry (h _)
  · exact writes_throw

theorem touches_stringKey (e : Option Entry) : Touches .string key (stringKey key) e :=
  touches_record (isRecord_stringKey key)

theorem writes_put (v : Bytes) : Writes (Touches .string key) (put c key v) :=
  writes_bind (writes_set touches_typeOfKeyGet)
    fun _ => writes_setValueWithCompression touches_stringKey

theorem writes_putRaw (v : Bytes) : Writes (Touches .string key) (putRaw key v) :=
  writes_bind (writes_set touches_typeOfKeyGet) fun _ => writes_set (touches_stringKey _)

theorem writes_setTxn (v : Bytes) : Writes (Touches .string key) (setTxn c key v) :=
  writes_read fun _ => writes_put v

theorem writes_setWithTTLTxn (now : Nat) (v : Bytes) (ttl : Int) :
    Writes (Touches .string key) (setWithTTLTxn c now key v ttl) := by
  refine writes_read fun _ => ?_
  exact writes_bind (writes_set touches_typeOfKeyGet)
    fun _ => writes_setEntryWithCompression touches_stringKey

theorem writes_setNXTxn (v : Bytes) : Writes (Touches .string key) (setNXTxn c key v) := by
  refine writes_read fun old => writes_ite writes_pure ?_
  exact writes_map (writes_put v) _

theorem writes_getSetTxn (v : Bytes) : Writes (Touches .string key) (getSetTxn c key v) := by
  refine writes_read fun old => ?_
  exact writes_map (writes_put v) _

/-- What a transaction on several string keys may do. -/
def TouchesAny (keys : List Bytes) (p : Bytes) (e : Option Entry) : Prop :=
  ∃ key ∈ keys, Touches .string key p e

theorem writes_mSetTxn (pairs : List (Bytes × Bytes)) :
    Writes (TouchesAny (pairs.map Prod.fst)) (mSetTxn pairs) := by
  apply writes_forM
  intro kv hkv
  exact (writes_putRaw kv.2).mono fun p e h => ⟨kv.1, List.mem_map_of_mem hkv, h⟩

theorem writes_mSetNXTxn (pairs : List (Bytes × Bytes)) :
    Writes (TouchesAny (pairs.map Prod.fst)) (mSetNXTxn pairs) := by
  refine writes_bind (writes_foldlM (fun _ _ => ?_) _ _) fun present => ?_
  · exact writes_map (writes_get _) _
  · refine writes_ite writes_pure ?_
    exact writes_map (writes_mSetTxn pairs) _

theorem writes_incrByTxn (increment : Int64) :
    Writes (Touches .string key) (incrByTxn c key increment) := by
  refine writes_read fun _ => writes_read fun old => ?_
  refine writes_ite writes_throw ?_
  exact writes_map (writes_putRaw _) _

theorem writes_incrByFloatTxn (increment : F64) :
    Writes (Touches .string key) (incrByFloatTxn c key increment) := by
  refine writes_read fun old => writes_ite writes_throw ?_
  exact writes_map (writes_put _) _

theorem writes_appendTxn (v : Bytes) : Writes (Touches .string key) (appendTxn c key v) := by
  refine writes_read fun old => writes_read fun _ => ?_
  exact writes_map (writes_put _) _

theorem writes_setRangeTxn (offset : Int64) (v : Bytes) :
    Writes (Touches .string key) (setRangeTxn c key offset v) := by
  refine writes_read fun old => ?_
  split
  · exact writes_throw
  · exact writes_map (writes_put _) _

theorem writes_setBitTxn (offset value : Int64) :
    Writes (Touches .string key) (setBitTxn c key offset value) := by
  refine writes_read fun data => writes_ite writes_throw ?_
  exact writes_map (writes_put _) _

theorem writes_bitOpTxn (op : Bytes) (keys : List Bytes) :
    Writes (Touches .string key) (bitOpTxn c op key keys) := by
  refine writes_ite writes_throw (writes_read fun sources => ?_)
  dsimp only
  split
  · exact writes_throw
  · exact writes_map (writes_putRaw _) _

theorem writes_bitFieldTxn (now : Nat) (ops : List BitFieldOp) :
    Writes (Touches .string key) (bitFieldTxn c now key ops) := by
  refine writes_read fun data => ?_
  split
  · exact writes_throw
  · refine writes_read fun left => writes_ite writes_pure ?_
    refine writes_bind (writes_set touches_typeOfKeyGet) fun _ => ?_
    exact writes_map (writes_setEntry (touches_stringKey _)) _

theorem reads_getValueWithDecompression {R : Bytes → Prop} (e : Entry) :
    Reads R (getValueWithDecompression c e) := by
  unfold getValueWithDecompression
  split
  · exact reads_pure
  · exact reads_throw _

theorem reads_value (key : Bytes) : Reads (IsRecord .string key) (value c key) := by
  refine reads_bind (reads_get (isRecord_stringKey key)) fun e => ?_
  split
  · exact reads_pure
  · exact reads_bind (reads_getValueWithDecompression _) fun _ => reads_pure

theorem value_of_some {db : Db} {e : Entry} {v : Bytes} (he : db[stringKey key]? = some e)
    (hv : decompressData c e.value = some v) : value c key db = .ok (some v) := by
  rw [value, View.bind_apply, View.get, he]
  show (getValueWithDecompression c e >>= fun v => pure (some v)) db = _
  rw [getValueWithDecompression, hv]
  rfl

theorem views_get (key : Bytes) : Views .string key (get c key) := by
  refine views_checkKeyTypeInline ?_
  refine reads_bind (reads_value key) fun v => ?_
  split
  · exact reads_pure
  · exact reads_throw _

end Footprints

/-! ## The methods that write one key -/

inductive Op
  | set (v : Bytes)
  | setWithTTL (v : Bytes) (ttl : Int)
  | setEX (v : Bytes) (seconds : Int64)
  | pSetEX (v : Bytes) (milliseconds : Int64)
  | setNX (v : Bytes)
  | getSet (v : Bytes)
  | incrBy (increment : Int64)
  | decrBy (decrement : Int64)
  | incrByFloat (increment : F64)
  | append (v : Bytes)
  | setRange (offset : Int64) (v : Bytes)
  | setBit (offset value : Int64)
  | bitField (operations : List Bytes)

def Op.run (now : Nat) (key : Bytes) : Op → Run Err Unit
  | set v => Strings.set c now key v
  | setWithTTL v ttl => Strings.setWithTTL c now key v ttl
  | setEX v seconds => Strings.setEX c now key v seconds
  | pSetEX v milliseconds => Strings.pSetEX c now key v milliseconds
  | setNX v => void (Strings.setNX c now key v)
  | getSet v => void (Strings.getSet c now key v)
  | incrBy increment => void (Strings.incrBy c now key increment)
  | decrBy decrement => void (Strings.decrBy c now key decrement)
  | incrByFloat increment => void (Strings.incrByFloat c now key increment)
  | append v => void (Strings.append c now key v)
  | setRange offset v => void (Strings.setRange c now key offset v)
  | setBit offset value => void (Strings.setBit c now key offset value)
  | bitField operations => void (Strings.bitField c now key operations)

theorem Op.commits (now : Nat) (key : Bytes) (op : Op) :
    Commits (unix now) (Touches .string key) (op.run c now key) := by
  cases op with
  | set v => exact commits_touches (writes_setTxn v)
  | setWithTTL v ttl => exact commits_touches (writes_setWithTTLTxn now v ttl)
  | setEX v seconds => exact commits_touches (writes_setWithTTLTxn now v _)
  | pSetEX v milliseconds => exact commits_touches (writes_setWithTTLTxn now v _)
  | setNX v => exact commits_void (commits_touches (writes_setNXTxn v))
  | getSet v => exact commits_void (commits_touches (writes_getSetTxn v))
  | incrBy increment => exact commits_void (commits_touches (writes_incrByTxn increment))
  | decrBy decrement => exact commits_void (commits_touches (writes_incrByTxn _))
  | incrByFloat increment => exact commits_void (commits_touches (writes_incrByFloatTxn increment))
  | append v => exact commits_void (commits_touches (writes_appendTxn v))
  | setRange offset v => exact commits_void (commits_touches (writes_setRangeTxn offset v))
  | setBit offset value => exact commits_void (commits_touches (writes_setBitTxn offset value))
  | bitField operations =>
    apply commits_void
    unfold Strings.bitField
    split
    · exact commits_throw _
    · exact commits_touches (writes_bitFieldTxn now _)

end Strings

end BoltDB.Store
