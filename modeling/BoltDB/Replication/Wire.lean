import BoltDB.Lib.Bytes

/-!
# Log values and feed frames

A `REPLLOG_` record holds the command to replay as a RESP array
(`internal/store/repl_log.go`); the master parses it back and sends it to its replicas as a
`REPLLOG <ts> <cmd> <arg>...` frame (`internal/replication/feed_source.go`, `feed_wire.go`).

* `encodePropagateCommand` — the writer: `*n`, then per argument `$len` and the argument.
* `parseCommandEvents`, `parseReplLogValue` — the reader. It skips the announced lengths and looks
  for the next CR LF instead.
* `parseReplLogValue_encode` — the two are inverse on arguments without a CR LF; on an argument with
  one the reader cuts the argument there and drops the rest of the command.

The reader walks over the data with an index; the model walks over the remaining suffix.
-/

namespace BoltDB.Replication

open Bytes List

/-- `"\r\n"`. -/
def crlf : Bytes := [13, 10]

/-- No CR LF inside the argument. -/
def CrlfFree (a : Bytes) : Prop := ¬ [13, 10] <:+: a

instance (a : Bytes) : Decidable (CrlfFree a) := inferInstanceAs (Decidable (¬ _))

/-! ## The writer -/

/-- One argument: `$len\r\n<arg>\r\n`. -/
def encodeArg (a : Bytes) : Bytes := 36 :: (decimal a.length ++ crlf ++ a ++ crlf)

/-- `encodePropagateCommand` (also `serializeCommand`): the RESP array of the arguments. -/
def encodePropagateCommand (args : List Bytes) : Bytes :=
  42 :: (decimal args.length ++ crlf ++ args.flatMap encodeArg)

/-- `noopLogValue`: the tombstone of a timestamp without effect. -/
def noopLogValue : Bytes := encodePropagateCommand ["NOOP"]

/-! ## The reader -/

/-- The bytes up to the next CR LF, and the rest from there on. -/
def spanCrlf : Bytes → Bytes × Bytes
  | [] => ([], [])
  | 13 :: 10 :: rest => ([], 13 :: 10 :: rest)
  | b :: rest => (b :: (spanCrlf rest).1, (spanCrlf rest).2)

/-- The inner loop of `parseCommandEvents`: up to `n` arguments, and what is left. An argument that
does not start with `$` ends the loop. -/
def parseArgs : Nat → Bytes → List Bytes × Bytes
  | 0, rest => ([], rest)
  | _ + 1, [] => ([], [])
  | n + 1, b :: rest =>
    if b = 36 then
      let (arg, tail) := spanCrlf ((rest.dropWhile (· ≠ 13)).drop 2)
      let (args, left) := parseArgs n (tail.drop 2)
      (arg :: args, left)
    else ([], b :: rest)

/-- `parseCommandEvents`: the commands of a RESP stream. Every round consumes at least the `*` it
starts with, so `data.length` rounds are enough. -/
def parseCommandEventsAux : Nat → Bytes → List (List Bytes)
  | 0, _ => []
  | _ + 1, [] => []
  | fuel + 1, b :: rest =>
    if b = 42 then
      match rest.dropWhile isDigit with
      | 13 :: 10 :: body =>
        let (args, left) := parseArgs (digitsValue 0 (rest.takeWhile isDigit)) body
        if args = [] then parseCommandEventsAux fuel left
        else args :: parseCommandEventsAux fuel left
      | _ => []
    else []

def parseCommandEvents (data : Bytes) : List (List Bytes) := parseCommandEventsAux data.length data

/-- Commands the log accepts without an argument. -/
def zeroArgCommands : List Bytes := ["FLUSHDB", "FLUSHALL", "NOOP"]

/-- `parseReplLogValue`: `none` is the source's "unparseable repl log value". -/
def parseReplLogValue (logValue : Bytes) : Option (List Bytes) :=
  match parseCommandEvents logValue with
  | [args] =>
    if args.length < 2 then
      if toUpper (args.headD []) ∈ zeroArgCommands then some args else none
    else some args
  | _ => none

/-! ## Frames -/

/-- A feed frame `REPLLOG <ts> <cmd> <arg>...`, as `feedEntryArgs` builds it and `feedEntryParse`
takes it apart. -/
structure Frame where
  ts : Nat
  args : List Bytes
  deriving DecidableEq, Repr

/-- What a broken feed reports. -/
inductive FeedError
  /-- The master found a hole in its log. -/
  | logGap (ts expected : Nat)
  /-- The replica missed a frame. -/
  | frameGap (ts expected : Nat)
  /-- A log value that does not parse. -/
  | parse (ts : Nat)
  deriving DecidableEq, Repr

/-- `checkFeedTSGap`: the replica's contiguity check. A replica at 0 accepts any first frame. -/
def checkFeedTSGap (prevTS ts : Nat) : Except FeedError Unit :=
  if 0 < prevTS ∧ ts ≠ prevTS + 1 then .error (.frameGap ts (prevTS + 1)) else .ok ()

/-! ## The reader inverts the writer on arguments without CR LF -/

theorem CrlfFree.tail {b : UInt8} {a : Bytes} (h : CrlfFree (b :: a)) : CrlfFree a :=
  fun hin => h (hin.trans (suffix_cons b a).isInfix)

theorem spanCrlf_append {a : Bytes} (h : CrlfFree a) (rest : Bytes) :
    spanCrlf (a ++ 13 :: 10 :: rest) = (a, 13 :: 10 :: rest) := by
  induction a with
  | nil => simp [spanCrlf]
  | cons b a ih =>
    have ih := ih h.tail
    rw [cons_append, spanCrlf.eq_def]
    split
    · next heq => cases heq
    · next rest' heq =>
      -- a CR followed by an LF would lie inside the argument
      obtain ⟨rfl, htail⟩ := List.cons.inj heq
      cases a with
      | nil => cases htail
      | cons c a =>
        obtain ⟨rfl, -⟩ := List.cons.inj htail
        exact absurd ⟨[], a, rfl⟩ h
    · next heq =>
      obtain ⟨rfl, rfl⟩ := List.cons.inj heq
      rw [ih]

theorem takeWhile_isDigit_decimal (n : Nat) (rest : Bytes) :
    (decimal n ++ 13 :: rest).takeWhile isDigit = decimal n := by
  rw [takeWhile_append_of_pos fun b hb => isDigit_of_mem_decimal hb]
  simp [isDigit]

theorem dropWhile_isDigit_decimal (n : Nat) (rest : Bytes) :
    (decimal n ++ 13 :: rest).dropWhile isDigit = 13 :: rest := by
  rw [dropWhile_append_of_pos fun b hb => isDigit_of_mem_decimal hb]
  simp [isDigit]

theorem ne_cr_of_mem_decimal {n : Nat} {b : UInt8} (h : b ∈ decimal n) : b ≠ 13 := by
  rintro rfl
  have hdigit : isDigit 13 = true := isDigit_of_mem_decimal h
  exact absurd hdigit (by decide)

theorem dropWhile_ne_cr_decimal (n : Nat) (rest : Bytes) :
    (decimal n ++ 13 :: rest).dropWhile (· ≠ 13) = 13 :: rest := by
  rw [dropWhile_append_of_pos fun b hb => by simpa using ne_cr_of_mem_decimal hb]
  simp

theorem parseArgs_encode {args : List Bytes} (h : ∀ a ∈ args, CrlfFree a) (rest : Bytes) :
    parseArgs args.length (args.flatMap encodeArg ++ rest) = (args, rest) := by
  induction args with
  | nil => simp [parseArgs]
  | cons a args ih =>
    have hskip : ((decimal a.length ++ crlf ++ a ++ crlf ++ (args.flatMap encodeArg ++ rest)).dropWhile
        (· ≠ 13)).drop 2 = a ++ 13 :: 10 :: (args.flatMap encodeArg ++ rest) := by
      have := dropWhile_ne_cr_decimal a.length (10 :: (a ++ 13 :: 10 :: (args.flatMap encodeArg ++ rest)))
      simp only [crlf, append_assoc, cons_append, nil_append] at this ⊢
      rw [this]
      rfl
    have hargs := ih fun x hx => h x (mem_cons_of_mem a hx)
    have hspan := spanCrlf_append (h a mem_cons_self) (args.flatMap encodeArg ++ rest)
    simp only [flatMap_cons, encodeArg, cons_append, length_cons, append_assoc]
    simp only [append_assoc] at hskip
    simp only [parseArgs, if_true, hskip, hspan, drop_succ_cons, drop_zero, hargs]

/-- A RESP array of arguments without CR LF is read back as one command. -/
theorem parseCommandEvents_encode {args : List Bytes} (hne : args ≠ [])
    (h : ∀ a ∈ args, CrlfFree a) :
    parseCommandEvents (encodePropagateCommand args) = [args] := by
  have hrest : parseArgs args.length (args.flatMap encodeArg) = (args, []) := by
    simpa using parseArgs_encode h []
  have hbody : decimal args.length ++ crlf ++ args.flatMap encodeArg
      = decimal args.length ++ 13 :: (10 :: args.flatMap encodeArg) := by
    simp [crlf]
  have hnil : ∀ fuel, parseCommandEventsAux fuel [] = [] := by
    intro fuel; cases fuel <;> rfl
  unfold parseCommandEvents encodePropagateCommand
  rw [length_cons, parseCommandEventsAux, if_pos rfl, hbody, dropWhile_isDigit_decimal,
    takeWhile_isDigit_decimal, digitsValue_decimal]
  simp only [hrest, hne, if_false, hnil]

/-- **Log codec.** The commands the log accepts, with arguments free of CR LF, survive the trip
through a log value. -/
theorem parseReplLogValue_encode {args : List Bytes} (h : ∀ a ∈ args, CrlfFree a)
    (hacc : 2 ≤ args.length ∨ ∃ cmd, args = [cmd] ∧ toUpper cmd ∈ zeroArgCommands) :
    parseReplLogValue (encodePropagateCommand args) = some args := by
  have hne : args ≠ [] := by
    rintro rfl
    rcases hacc with hlen | ⟨cmd, hcmd, -⟩
    · simp at hlen
    · cases hcmd
  rw [parseReplLogValue, parseCommandEvents_encode hne h]
  rcases hacc with hlen | ⟨cmd, rfl, hcmd⟩
  · simp [Nat.not_lt.mpr hlen]
  · simp [hcmd]

end BoltDB.Replication
