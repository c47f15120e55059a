import BoltDB.Lib.Bytes

/-!
# Readers of a byte stream

A reader takes bytes from the front of a stream that ends. It returns a value with the bytes that are left,
or it fails with an error, or a run-time check of the language stops it.

* `Read` — the monad of readers, with `readBytes`, `readFull`, `makeSlice` and `sliceTo` as primitives.
* `Safe` — no run-time check ever stops the reader; it goes through the bind (`safe_bind`).
* `Shrinks` — a value is never returned without taking a byte.
* `onPieces` — a reader of a stream that comes in pieces.
* `readBytes_append`, `readFull_append` — what a reader takes from a stream that starts with it, whatever
  comes behind.
-/

namespace BoltDB.ByteReader

open Bytes List

variable {ε α β : Type}

/-- Why a reader returns no value. -/
inductive Stop (ε : Type)
  | fail (e : ε)
  /-- A run-time check: an index or a length out of range. -/
  | panic
  deriving DecidableEq

def Read (ε α : Type) : Type := Bytes → Except (Stop ε) (α × Bytes)

namespace Read

instance : Monad (Read ε) where
  pure a := fun s => .ok (a, s)
  bind m f := fun s =>
    match m s with
    | .ok (a, rest) => f a rest
    | .error e => .error e

def fail (e : ε) : Read ε α := fun _ => .error (.fail e)

def panic : Read ε α := fun _ => .error .panic

/-- Another error for an error; a run-time check stays one. -/
def mapErr {ε' : Type} (f : ε → ε') (m : Read ε α) : Read ε' α := fun s =>
  match m s with
  | .ok r => .ok r
  | .error (.fail e) => .error (.fail (f e))
  | .error .panic => .error .panic

theorem bind_apply (m : Read ε α) (f : α → Read ε β) (s : Bytes) :
    (m >>= f) s = match m s with | .ok (a, rest) => f a rest | .error e => .error e := rfl

theorem bind_of_ok {m : Read ε α} {f : α → Read ε β} {s rest : Bytes} {a : α}
    (h : m s = .ok (a, rest)) : (m >>= f) s = f a rest := by
  rw [bind_apply, h]

end Read

open Read

/-! ## Primitives -/

/-- The bytes up to and with the next delimiter. A stream without one fails. -/
def readBytes (delim : UInt8) (eof : ε) : Read ε Bytes := fun s =>
  match s.dropWhile (· ≠ delim) with
  | [] => .error (.fail eof)
  | d :: rest => .ok (s.takeWhile (· ≠ delim) ++ [d], rest)

/-- Exactly `n` bytes. A stream that ends inside them fails in another way than one that has ended. -/
def readFull (eof short : ε) (n : Nat) : Read ε Bytes := fun s =>
  if n ≤ s.length then .ok (s.take n, s.drop n)
  else .error (.fail (if s = [] then eof else short))

/-- The most bytes one allocation may have. -/
def maxAlloc : Nat := 2 ^ 48

/-- The length of a new slice, which must not be negative, and whose bytes must not be too many. -/
def makeSlice (elemSize : Nat) (n : Int64) : Read ε Nat :=
  if n < 0 ∨ maxAlloc < n.toInt.toNat * elemSize then panic else pure n.toInt.toNat

/-- `data[:n]`. -/
def sliceTo (data : Bytes) (n : Int64) : Read ε Bytes :=
  if n < 0 ∨ data.length < n.toInt.toNat then panic else pure (data.take n.toInt.toNat)

theorem readBytes_append {delim : UInt8} (eof : ε) {line : Bytes} (h : delim ∉ line) (rest : Bytes) :
    readBytes delim eof (line ++ delim :: rest) = .ok (line ++ [delim], rest) := by
  have hne : ∀ b ∈ line, decide (b ≠ delim) = true := by
    intro b hb
    rw [decide_eq_true_iff]
    rintro rfl
    exact h hb
  rw [readBytes, dropWhile_append_of_pos hne, takeWhile_append_of_pos hne]
  simp

theorem readFull_append {eof short : ε} {data : Bytes} {n : Nat} (h : data.length = n) (rest : Bytes) :
    readFull eof short n (data ++ rest) = .ok (data, rest) := by
  subst h
  rw [readFull, if_pos (by simp), take_left, drop_left]

/-- The bytes that `readBytes` returns are the front of the stream. -/
theorem readBytes_eq_ok {delim : UInt8} {eof : ε} {s line rest : Bytes}
    (h : readBytes delim eof s = .ok (line, rest)) : s = line ++ rest := by
  unfold readBytes at h
  split at h
  · cases h
  · next d tail hdrop =>
    cases h
    rw [append_assoc, singleton_append, ← hdrop, takeWhile_append_dropWhile]

/-! ## Readers that no run-time check stops -/

/-- No run-time check stops the reader on this stream. -/
def SafeOn (m : Read ε α) (s : Bytes) : Prop := m s ≠ .error .panic

instance [DecidableEq ε] [DecidableEq α] (m : Read ε α) (s : Bytes) : Decidable (SafeOn m s) :=
  inferInstanceAs (Decidable (¬ _))

/-- No run-time check stops the reader on any stream. -/
def Safe (m : Read ε α) : Prop := ∀ s, SafeOn m s

theorem safe_pure {a : α} : Safe (pure a : Read ε α) := by
  exact fun _ => nofun

theorem safe_fail {e : ε} : Safe (fail e : Read ε α) := by
  exact fun _ => nofun

theorem safe_readBytes (delim : UInt8) (eof : ε) : Safe (readBytes delim eof) := by
  intro s h
  unfold readBytes at h
  split at h <;> cases h

theorem safe_readFull (eof short : ε) (n : Nat) : Safe (readFull eof short n) := by
  intro s h
  unfold readFull at h
  split at h <;> cases h

variable {m : Read ε α} {f : α → Read ε β}

/-- A sequence is safe if its first part is, and the second on what the first part leaves. -/
theorem safeOn_bind {s : Bytes} (hm : SafeOn m s)
    (hf : ∀ a rest, m s = .ok (a, rest) → SafeOn (f a) rest) : SafeOn (m >>= f) s := by
  intro h
  rw [bind_apply] at h
  cases hrun : m s with
  | error e =>
    rw [hrun] at h
    cases h
    exact hm hrun
  | ok r =>
    rw [hrun] at h
    exact hf r.1 r.2 hrun h

theorem safe_bind (hm : Safe m) (hf : ∀ a, Safe (f a)) : Safe (m >>= f) :=
  fun s => safeOn_bind (hm s) fun a rest _ => hf a rest

theorem safe_ite {c : Prop} [Decidable c] {m' : Read ε α} (hm : c → Safe m) (hm' : ¬ c → Safe m') :
    Safe (if c then m else m') := by
  split
  · next h => exact hm h
  · next h => exact hm' h

theorem safe_makeSlice {elemSize : Nat} {n : Int64} (hpos : 0 ≤ n)
    (hfits : n.toInt.toNat * elemSize ≤ maxAlloc) : Safe (makeSlice elemSize n : Read ε Nat) := by
  rw [makeSlice, if_neg]
  · exact safe_pure
  · rintro (hneg | hbig)
    · exact absurd hpos (Int64.not_le.mpr hneg)
    · omega

theorem safe_sliceTo {data : Bytes} {n : Int64} (hpos : 0 ≤ n) (hfits : n.toInt.toNat ≤ data.length) :
    Safe (sliceTo data n : Read ε Bytes) := by
  rw [sliceTo, if_neg]
  · exact safe_pure
  · rintro (hneg | hbig)
    · exact absurd hpos (Int64.not_le.mpr hneg)
    · omega

theorem safe_mapErr {ε' : Type} (f : ε → ε') (h : Safe m) : Safe (mapErr f m) := by
  intro s hpanic
  unfold mapErr at hpanic
  split at hpanic
  · cases hpanic
  · cases hpanic
  · next hrun => exact h s hrun

/-! ## Readers that take something -/

/-- What the reader leaves is not longer than the stream. -/
def Keeps (m : Read ε α) : Prop := ∀ s a rest, m s = .ok (a, rest) → rest.length ≤ s.length

/-- The reader takes at least one byte before it returns a value. -/
def Shrinks (m : Read ε α) : Prop := ∀ s a rest, m s = .ok (a, rest) → rest.length < s.length

theorem Shrinks.keeps (h : Shrinks m) : Keeps m := by
  intro s a rest hrun
  exact le_of_lt (h s a rest hrun)

theorem keeps_pure {a : α} : Keeps (pure a : Read ε α) := by
  rintro s b rest ⟨⟩
  exact le_rfl

theorem keeps_fail {e : ε} : Keeps (fail e : Read ε α) := by
  rintro s a rest ⟨⟩

theorem keeps_panic : Keeps (panic : Read ε α) := by
  rintro s a rest ⟨⟩

theorem keeps_ite {c : Prop} [Decidable c] {m' : Read ε α} (hm : Keeps m) (hm' : Keeps m') :
    Keeps (if c then m else m') := by
  split
  · exact hm
  · exact hm'

theorem keeps_makeSlice (elemSize : Nat) (n : Int64) : Keeps (makeSlice elemSize n : Read ε Nat) :=
  keeps_ite keeps_panic keeps_pure

theorem keeps_sliceTo (data : Bytes) (n : Int64) : Keeps (sliceTo data n : Read ε Bytes) :=
  keeps_ite keeps_panic keeps_pure

theorem keeps_readFull (eof short : ε) (n : Nat) : Keeps (readFull eof short n) := by
  intro s a rest hrun
  unfold readFull at hrun
  split at hrun
  · cases hrun
    rw [length_drop]
    omega
  · cases hrun

theorem keeps_bind (hm : Keeps m) (hf : ∀ a, Keeps (f a)) : Keeps (m >>= f) := by
  intro s b rest hrun
  rw [bind_apply] at hrun
  split at hrun
  · next a rest' hfirst => exact (hf a rest' b rest hrun).trans (hm s a rest' hfirst)
  · cases hrun

theorem shrinks_bind (hm : Shrinks m) (hf : ∀ a, Keeps (f a)) : Shrinks (m >>= f) := by
  intro s b rest hrun
  rw [bind_apply] at hrun
  split at hrun
  · next a rest' hfirst => exact (hf a rest' b rest hrun).trans_lt (hm s a rest' hfirst)
  · cases hrun

theorem shrinks_readBytes (delim : UInt8) (eof : ε) : Shrinks (readBytes delim eof) := by
  intro s line rest hrun
  have hs := readBytes_eq_ok hrun
  have hne : line ≠ [] := by
    unfold readBytes at hrun
    split at hrun
    · cases hrun
    · cases hrun
      simp
  have hpos := length_pos_of_ne_nil hne
  rw [hs, length_append]
  omega

/-! ## Streams in pieces -/

/-- The pieces without their first `n` bytes. -/
def dropBytes : Nat → List Bytes → List Bytes
  | _, [] => []
  | n, piece :: pieces =>
    if piece.length ≤ n then dropBytes (n - piece.length) pieces else piece.drop n :: pieces

theorem flatten_dropBytes (n : Nat) (pieces : List Bytes) :
    (dropBytes n pieces).flatten = pieces.flatten.drop n := by
  induction pieces generalizing n with
  | nil => simp [dropBytes]
  | cons piece pieces ih =>
    rw [dropBytes]
    split
    · next h => rw [ih, flatten_cons, drop_append, drop_eq_nil_of_le h, nil_append]
    · next h =>
      rw [flatten_cons, flatten_cons, drop_append,
        Nat.sub_eq_zero_of_le (Nat.le_of_not_le h), drop_zero]

/-- A reader does not see where the pieces end. -/
def onPieces (m : Read ε α) (pieces : List Bytes) : Except (Stop ε) (α × List Bytes) :=
  match m pieces.flatten with
  | .ok (a, rest) => .ok (a, dropBytes (pieces.flatten.length - rest.length) pieces)
  | .error e => .error e

end BoltDB.ByteReader
