import BoltDB.Lib.ByteReader
import BoltDB.Store.Values

/-!
# RDB files

The encoder of `rdb.go`: lengths, strings, the ten kinds of values and the checksum at the end. A file
starts with `REDIS0009` and the selector of database 0; each key comes with its type byte and, if it
has one, its expiry second.

The maps of a hash, of the fields of a stream entry and of a group are written in the order of their
keys; Go takes any order.
-/

namespace BoltDB.Replication.Rdb

open Bytes Store

/-! ## Numbers and strings -/

/-- `binary.LittleEndian`. -/
def littleEndian (len n : Nat) : Bytes := (bigEndian len n).reverse

/-- `writeLength`: 6, 14 or 32 bits. -/
def writeLength (n : Nat) : Bytes :=
  if n < 0x40 then [UInt8.ofNat n]
  else if n < 0x4000 then [UInt8.ofNat (n / 256) ||| 0x40, UInt8.ofNat n]
  else 0x80 :: littleEndian 4 n

/-- `writeString` and `writeBytes`. -/
def writeString (s : Bytes) : Bytes := writeLength s.length ++ s

/-- A sequence with its length in front. -/
def writeAll {α : Type} (write : α → Bytes) (l : List α) : Bytes :=
  writeLength l.length ++ l.flatMap write

def writeInt64 (n : Int64) : Bytes := littleEndian 8 n.toUInt64.toNat

def writeFloat64 (x : F64) : Bytes := littleEndian 8 x.bits.toNat

/-! ## Values -/

/-- What is written for a key. -/
inductive Value
  | string (v : Bytes)
  | list (vs : List Bytes)
  | set (ms : List Bytes)
  | hash (fields : List (Bytes × Bytes))
  | zset (ms : List (Bytes × F64))
  | stream (entries : List (Bytes × Fields)) (groups : List StreamGroup)
  | geo (ms : List (Bytes × F64 × F64))
  | json (v : Bytes)
  | timeSeries (points : List (Int64 × F64))
  | hll (data : Bytes)

namespace Value

def typeByte : Value → UInt8
  | string _ => 0
  | list _ => 1
  | set _ => 2
  | hash _ => 3
  | zset _ => 4
  | stream _ _ => 15
  | geo _ => 6
  | json _ => 7
  | timeSeries _ => 8
  | hll _ => 9

def writeStreamEntry (e : Bytes × Fields) : Bytes :=
  writeString e.1 ++ writeAll (fun f => writeString f.1 ++ writeString f.2) e.2.toList

def writeStreamGroup (g : StreamGroup) : Bytes :=
  writeString g.name ++ writeString g.lastDeliveredID ++
    writeAll (fun c => writeString c.2.name ++ writeInt64 c.2.lastSeen) g.consumers.toList ++
    writeAll (fun p => writeString p.2.id ++ writeString p.2.consumer ++ writeInt64 p.2.deliveryCount ++
      writeInt64 p.2.lastDelivery) g.pending.toList

/-- The number of the entries of a stream, and the first and the last of their names. -/
def writeStreamHead (entries : List (Bytes × Fields)) : Bytes :=
  writeLength entries.length ++ writeString ((entries.head?.map Prod.fst).getD "0-0") ++
    writeString ((entries.getLast?.map Prod.fst).getD "0-0")

def write : Value → Bytes
  | string v | json v | hll v => writeString v
  | list vs | set vs => writeAll writeString vs
  | hash fields => writeAll (fun f => writeString f.1 ++ writeString f.2) fields
  | zset ms => writeAll (fun m => writeString m.1 ++ writeString m.2.formatG10) ms
  | stream entries groups =>
    writeStreamHead entries ++ writeAll writeStreamEntry entries ++ writeAll writeStreamGroup groups
  | geo ms => writeAll (fun m => writeString m.1 ++ writeFloat64 m.2.1 ++ writeFloat64 m.2.2) ms
  | timeSeries points => writeAll (fun p => writeInt64 p.1 ++ writeFloat64 p.2) points

end Value

/-! ## Files -/

/-- A key with its expiry second, 0 for none. -/
structure Item where
  key : Bytes
  expireTimeUnix : Int64
  value : Value

/-- `WriteStringKeyValue` and its siblings; the second is written as 32 bits. -/
def Item.write (i : Item) : Bytes :=
  (if 0 < i.expireTimeUnix then 0xFD :: littleEndian 4 i.expireTimeUnix.toUInt64.toNat else []) ++
    [i.value.typeByte] ++ writeString i.key ++ i.value.write

/-- One bit of `crc64.Update` with the ECMA polynomial. -/
def crc64Shift (c : UInt64) : UInt64 :=
  if c &&& 1 = 1 then (c >>> 1) ^^^ 0xC96C5795D7870F42 else c >>> 1

def crc64Byte (c : UInt64) (b : UInt8) : UInt64 := Nat.repeat crc64Shift 8 (c ^^^ b.toUInt64)

/-- `crc64.New(crc64.MakeTable(crc64.ECMA))`, as eight bytes. -/
def crc64 (data : Bytes) : Bytes := uint64ToBytes (~~~ data.foldl crc64Byte (~~~ 0))

def header : Bytes := "REDIS" ++ "0009"

/-- `WriteDatabaseSelector`. -/
def selector (n : Nat) : Bytes := 0xFE :: writeLength n

/-- The file without its checksum. -/
def body (items : List Item) : Bytes := header ++ selector 0 ++ items.flatMap Item.write ++ [0xFF]

/-- All that the encoder writes. -/
def file (items : List Item) : Bytes := body items ++ crc64 (body items)

open ByteReader

/-! ## Reading back

The decoder of `rdb_loader.go` takes what it reads from the front of a buffer. -/

/-- `dec.buf.Len() < n` is an error. -/
def need (n : Nat) : Read Bytes Unit := fun s =>
  if s.length < n then .error (.fail "unexpected end of buffer") else .ok ((), s)

/-- `dec.buf.Next(n)`, which is shorter at the end of the buffer. -/
def next (n : Nat) : Read Bytes Bytes := fun s => .ok (s.take n, s.drop n)

/-- `b[0]`. -/
def first : Bytes → Read Bytes UInt8
  | [] => .panic
  | b :: _ => pure b

def readLength : Read Bytes Nat := do
  need 1
  let b ← first (← next 1)
  if b &&& 0xC0 = 0 then return (b &&& 0x3F).toNat
  else if b &&& 0x80 = 0 then
    need 1
    let b₂ ← first (← next 1)
    return (b.toNat &&& 0x3F) <<< 8 ||| b₂.toNat
  else
    need 4
    return ofBigEndian (← next 4).reverse

/-- `readString` and `readBytes`. -/
def readString : Read Bytes Bytes := do
  let length ← readLength
  need length
  next length

theorem readLength_cons (b : UInt8) (s : Bytes) : readLength (b :: s) =
    (if b &&& 0xC0 = 0 then return (b &&& 0x3F).toNat
    else if b &&& 0x80 = 0 then do
      need 1
      let b₂ ← first (← next 1)
      return (b.toNat &&& 0x3F) <<< 8 ||| b₂.toNat
    else do
      need 4
      return ofBigEndian (← next 4).reverse : Read Bytes Nat) s := rfl

/-- A length is taken from the front of the buffer, or the buffer is too short. -/
theorem readLength_front (s : Bytes) : readLength s = .error (.fail "unexpected end of buffer") ∨
    ∃ n front rest, s = front ++ rest ∧ readLength s = .ok (n, rest) := by
  cases s with
  | nil => exact .inl rfl
  | cons b s =>
    rw [readLength_cons]
    split_ifs with h₁ h₂
    · exact .inr ⟨_, [b], s, rfl, rfl⟩
    · cases s with
      | nil => exact .inl rfl
      | cons b₂ s => exact .inr ⟨_, [b, b₂], s, rfl, rfl⟩
    · by_cases h : s.length < 4
      · exact .inl (by simp [Read.bind_apply, need, h])
      · refine .inr ⟨ofBigEndian (s.take 4).reverse, b :: s.take 4, s.drop 4, by simp, ?_⟩
        simp [Read.bind_apply, need, next, h]
        rfl

theorem six_bits : ∀ n < 64, UInt8.ofNat n &&& 0xC0 = 0 ∧ (UInt8.ofNat n &&& 0x3F).toNat = n := by
  decide +kernel

theorem fourteen_bits : ∀ q < 64, (UInt8.ofNat q ||| 0x40) &&& 0xC0 ≠ 0 ∧
    (UInt8.ofNat q ||| 0x40) &&& 0x80 = 0 ∧ (UInt8.ofNat q ||| 0x40).toNat &&& 0x3F = q := by
  decide +kernel

theorem readLength_writeLength {n : Nat} (h : n < 2 ^ 32) (rest : Bytes) :
    readLength (writeLength n ++ rest) = .ok (n, rest) := by
  unfold writeLength
  split_ifs with h₁ h₂
  · obtain ⟨htag, hn⟩ := six_bits n h₁
    rw [List.singleton_append, readLength_cons, if_pos htag, hn]
    rfl
  · obtain ⟨htag, htag', hq⟩ := fourteen_bits (n / 256) (by omega)
    have hlow : (UInt8.ofNat n).toNat = n % 256 := by simp
    have hn : (n / 256) <<< 8 ||| n % 256 = n := by
      rw [← Nat.shiftLeft_add_eq_or_of_lt (show n % 256 < 2 ^ 8 by omega)]
      omega
    rw [List.cons_append, readLength_cons, if_neg htag, if_pos htag', hq]
    show Except.ok ((n / 256) <<< 8 ||| (UInt8.ofNat n).toNat, rest) = _
    rw [hlow, hn]
  · have hlen : (littleEndian 4 n).length = 4 := by simp [littleEndian, length_bigEndian]
    show Except.ok (ofBigEndian ((littleEndian 4 n ++ rest).take 4).reverse,
      (littleEndian 4 n ++ rest).drop 4) = _
    rw [List.take_left' hlen, List.drop_left' hlen, littleEndian, List.reverse_reverse,
      ofBigEndian_bigEndian, Nat.mod_eq_of_lt (show n < 256 ^ 4 from h)]

theorem length_codec (rest : Bytes) :
    (∀ n < 2 ^ 32, readLength (writeLength n ++ rest) = .ok (n, rest)) ∧
      ∀ s, (∃ e, readString s = .error (.fail e)) ∨
        ∃ front b behind, s = front ++ b ++ behind ∧ readString s = .ok (b, behind) := by
  refine ⟨fun n h => readLength_writeLength h rest, fun s => ?_⟩
  rcases readLength_front s with h | ⟨n, front, tail, rfl, h⟩
  · exact .inl ⟨_, by rw [readString, Read.bind_apply, h]⟩
  · rw [readString, Read.bind_of_ok h]
    by_cases hlen : tail.length < n
    · exact .inl ⟨_, by rw [Read.bind_apply, need, if_pos hlen]⟩
    · refine .inr ⟨front, tail.take n, tail.drop n, by simp, ?_⟩
      rw [Read.bind_apply, need, if_neg hlen]
      rfl

end BoltDB.Replication.Rdb
