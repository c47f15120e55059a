import BoltDB.Lib.ByteReader
import BoltDB.Replication.Wire

/-!
# Requests on the wire

`resp.go`: a request is a RESP array of bulk strings. Three encoders write it (`WriteRESP`, `Array.String`
and `serializeCommand` of `replication.go`), and `ReadRESP` reads it.

* `readRESP` — the reader, with its limits, its errors and the lengths that it allocates by.
* `safe_readRESP` — no run-time check stops it, if the limits themselves can be allocated.
* `readRESP_writeArray` — a request is read back, whatever comes behind it.
* `resp_round_trip` — so is every sequence of requests, and the three encoders agree.
-/

namespace BoltDB.Proto

open Bytes ByteReader Replication List Int64

/-! ## Limits and errors -/

/-- `MaxBulkLen`, which a flag sets if it is positive, and `MaxArrayLen`. -/
structure Limits where
  maxBulkLen : Int64
  maxArrayLen : Int64
  bulk_pos : 0 < maxBulkLen

/-- The limits without a flag. -/
def Limits.default : Limits := ⟨64 * 1024 * 1024, 1024 * 1024, by decide⟩

/-- `MaxLineLen`. -/
def maxLineLen : Nat := 64 * 1024 * 1024

inductive ReadErr
  | eof
  | unexpectedEOF
  /-- "line too long: %d bytes (max %d)". -/
  | lineTooLong (len : Nat)
  /-- "empty line". -/
  | emptyLine
  /-- "invalid array prefix". -/
  | invalidArrayPrefix
  /-- "invalid array length: %s". -/
  | invalidArrayLength (text : Bytes)
  /-- "array length too large: %d". -/
  | arrayTooLarge (n : Int64)
  /-- "empty element in array". -/
  | emptyElement
  /-- The error of `strconv.Atoi`. -/
  | atoi (text : Bytes)
  /-- "invalid bulk string length: %s". -/
  | invalidBulkLength (text : Bytes)
  /-- "bulk string length too large: %d". -/
  | bulkTooLarge (n : Int64)
  /-- "unexpected element type %q in array". -/
  | unexpectedElement (type : UInt8)
  /-- "invalid simple string format". -/
  | invalidSimpleString
  /-- "invalid error format". -/
  | invalidError
  /-- "empty inline command". -/
  | emptyInline
  deriving DecidableEq

/-- The arguments of an `Array`; one may be nil. -/
abbrev Args := List (Option Bytes)

/-! ## Lines and bulk strings -/

/-- A line without its end: one LF, and one CR in front of it. -/
def trimLineEnd (line : Bytes) : Bytes :=
  let line := if line.getLast? = some 10 then line.dropLast else line
  if line.getLast? = some 13 then line.dropLast else line

def readLine : Read ReadErr Bytes := do
  let line ← readBytes 10 .eof
  if maxLineLen < line.length then Read.fail (.lineTooLong line.length)
  else return trimLineEnd line

def atoi (text : Bytes) : Read ReadErr Int64 :=
  match parseInt64 text with
  | some n => pure n
  | none => Read.fail (.atoi text)

/-- The bytes of a bulk string, and a line end that is not looked at. -/
def readBulk (n : Int64) : Read ReadErr Bytes := do
  let len ← makeSlice 1 (n + 2)
  let data ← readFull .eof .unexpectedEOF len
  sliceTo data n

/-! ## Inline commands -/

/-- The white space of `strings.TrimSpace`, in UTF-8. -/
def spaces : List Bytes :=
  [[9], [10], [11], [12], [13], [32], [0xC2, 0x85], [0xC2, 0xA0], [0xE1, 0x9A, 0x80]] ++
    (List.range 11).map (fun i => [0xE2, 0x80, 0x80 + UInt8.ofNat i]) ++
    [[0xE2, 0x80, 0xA8], [0xE2, 0x80, 0xA9], [0xE2, 0x80, 0xAF], [0xE2, 0x81, 0x9F], [0xE3, 0x80, 0x80]]

/-- Removes the marks from the front, for at most `fuel` times. -/
def trimFront (marks : List Bytes) : Nat → Bytes → Bytes
  | 0, s => s
  | fuel + 1, s =>
    match marks.find? (·.isPrefixOf s) with
    | some mark => trimFront marks fuel (s.drop mark.length)
    | none => s

/-- `strings.TrimSpace`. -/
def trimSpace (s : Bytes) : Bytes :=
  let front := trimFront spaces s.length s
  (trimFront (spaces.map List.reverse) front.length front.reverse).reverse

/-- The state of `parseInlineArgs`: the tokens so far, the present one, and whether it is quoted. -/
structure Inline where
  result : List Bytes
  current : Bytes
  inQuote : Bool

namespace Inline

/-- Ends the present token if there is one. -/
def flush (s : Inline) : Inline :=
  if s.current = [] then s else { s with result := s.result ++ [s.current], current := [] }

def step (s : Inline) (ch : UInt8) : Inline :=
  if ch = 34 then
    if s.inQuote then ⟨s.result ++ [s.current], [], false⟩ else { s.flush with inQuote := true }
  else if ch = 32 ∧ s.inQuote = false then s.flush
  else { s with current := s.current ++ [ch] }

end Inline

def parseInlineArgs (s : Bytes) : List Bytes := (s.foldl Inline.step ⟨[], [], false⟩).flush.result

def parseInlineCommand (line : Bytes) : Read ReadErr Args :=
  let cmd := trimSpace line
  let parts := parseInlineArgs cmd
  if cmd = [] ∨ parts = [] then Read.fail .emptyInline else pure (parts.map some)

/-! ## The reader -/

/-- One element of an array. -/
def readElement (lim : Limits) : Read ReadErr (Option Bytes) := do
  match ← readLine with
  | [] => Read.fail .emptyElement
  | type :: text =>
    if type = 36 then do
      let n ← atoi text
      if n < -1 then Read.fail (.invalidBulkLength text)
      else if n = -1 then return none
      else if lim.maxBulkLen < n then Read.fail (.bulkTooLarge n)
      else do
        let data ← readBulk n
        return some data
    else if type = 58 ∨ type = 43 then return some text
    else Read.fail (.unexpectedElement type)

def readElements (lim : Limits) : Nat → Read ReadErr Args
  | 0 => pure []
  | n + 1 => do
    let arg ← readElement lim
    let args ← readElements lim n
    return arg :: args

/-- The array after its `*`. -/
def readArray (lim : Limits) (text : Bytes) : Read ReadErr Args :=
  if text = [] then Read.fail .invalidArrayPrefix
  else
    match parseInt64 text with
    | none => Read.fail (.invalidArrayLength text)
    | some n =>
      if n < 0 then Read.fail (.invalidArrayLength text)
      else if lim.maxArrayLen < n then Read.fail (.arrayTooLarge n)
      else do
        let len ← makeSlice 24 n
        readElements lim len

/-- The bulk string after its `$`, outside of an array. -/
def readSingleBulk (lim : Limits) (text : Bytes) : Read ReadErr Args :=
  match parseInt64 text with
  | none => Read.fail (.invalidBulkLength text)
  | some n =>
    if n < -1 then Read.fail (.invalidBulkLength text)
    else if n = -1 then pure [none]
    else if lim.maxBulkLen < n then Read.fail (.bulkTooLarge n)
    else do
      let data ← readBulk n
      return [some data]

def readRESP (lim : Limits) : Read ReadErr Args := do
  match ← readLine with
  | [] => Read.fail .emptyLine
  | type :: text =>
    if type = 42 then readArray lim text
    else if type = 43 then if text = [] then Read.fail .invalidSimpleString else return [some text]
    else if type = 45 then if text = [] then Read.fail .invalidError else return [some text]
    else if type = 36 then readSingleBulk lim text
    else parseInlineCommand (type :: text)

/-- `n` requests in a row. -/
def readRequests (lim : Limits) : Nat → Read ReadErr (List Args)
  | 0 => pure []
  | n + 1 => do
    let args ← readRESP lim
    let reqs ← readRequests lim n
    return args :: reqs

/-! ## The writers -/

/-- `WriteRESP` for one argument of an `Array`. -/
def writeArg : Option Bytes → Bytes
  | none => "$-1" ++ crlf
  | some arg => "$" ++ decimal arg.length ++ crlf ++ arg ++ crlf

/-- `WriteRESP` for an `Array`. -/
def writeArray (args : Args) : Bytes := "*" ++ decimal args.length ++ crlf ++ args.flatMap writeArg

def joinBulkStrings (args : Args) : Bytes := args.foldl (fun b arg =>
    match arg with
    | none => b ++ "$-1" ++ crlf
    | some arg => b ++ "$" ++ decimal arg.length ++ crlf ++ arg ++ crlf) []

/-- `Array.String`. -/
def arrayString (args : Args) : Bytes := "*" ++ decimal args.length ++ crlf ++ joinBulkStrings args

/-- The length of a nil argument is 0. -/
def serializeCommand (cmd : Args) : Bytes :=
  cmd.foldl (fun buf arg => buf ++ ("$" ++ decimal (arg.getD []).length ++ crlf) ++ arg.getD [] ++ crlf)
    ("*" ++ decimal cmd.length ++ crlf)

theorem joinBulkStrings_eq (args : Args) : joinBulkStrings args = args.flatMap writeArg := by
  have hfold : ∀ b : Bytes, args.foldl (fun b arg =>
      match arg with
      | none => b ++ "$-1" ++ crlf
      | some arg => b ++ "$" ++ decimal arg.length ++ crlf ++ arg ++ crlf) b =
        b ++ args.flatMap writeArg := by
    induction args with
    | nil => simp
    | cons arg args ih =>
      intro b
      rw [foldl_cons, ih]
      cases arg <;> simp [writeArg]
  exact hfold []

theorem arrayString_eq (args : Args) : arrayString args = writeArray args := by
  rw [arrayString, joinBulkStrings_eq, writeArray]

theorem serializeCommand_eq {cmd : Args} (h : none ∉ cmd) : serializeCommand cmd = writeArray cmd := by
  have hfold : ∀ b : Bytes, cmd.foldl (fun buf arg =>
      buf ++ ("$" ++ decimal (arg.getD []).length ++ crlf) ++ arg.getD [] ++ crlf) b =
        b ++ cmd.flatMap writeArg := by
    induction cmd with
    | nil => simp
    | cons arg cmd ih =>
      intro b
      have hcmd : none ∉ cmd := fun hmem => h (mem_cons_of_mem _ hmem)
      rw [foldl_cons, ih hcmd]
      cases arg with
      | none => exact absurd mem_cons_self h
      | some arg => simp [writeArg]
  exact hfold _

/-! ## No run-time check stops the reader -/

/-- What the limits allow can be allocated. -/
structure Limits.Fits (lim : Limits) : Prop where
  bulk : lim.maxBulkLen.toInt + 2 ≤ maxAlloc
  array : lim.maxArrayLen.toInt * 24 ≤ maxAlloc

theorem safe_readLine : Safe readLine := by
  apply safe_bind (safe_readBytes 10 _)
  intro line
  exact safe_ite (fun _ => safe_fail) fun _ => safe_pure

theorem safe_atoi (text : Bytes) : Safe (atoi text) := by
  unfold atoi
  split
  · exact safe_pure
  · exact safe_fail

variable {n : Int64} {lim : Limits}

/-- Two bytes more than a length. -/
theorem toInt_add_two (h : n.toInt + 2 < 2 ^ 63) : (n + 2).toInt = n.toInt + 2 := by
  have hsum : n + 2 = Int64.ofInt (n.toInt + 2) := by
    rw [ofInt_add, ofInt_toInt]
    rfl
  have hlow := n.le_toInt
  rw [hsum]
  apply toInt_ofInt_of_le
  · omega
  · exact h

theorem makeSlice_of_fits (hpos : 0 ≤ n.toInt) (hfits : n.toInt + 2 ≤ maxAlloc) (s : Bytes) :
    (makeSlice 1 (n + 2) : Read ReadErr Nat) s = .ok (n.toInt.toNat + 2, s) := by
  have hsum : (n + 2).toInt = n.toInt + 2 := by
    apply toInt_add_two
    unfold maxAlloc at hfits
    omega
  have hlen : (n + 2).toInt.toNat = n.toInt.toNat + 2 := by
    omega
  rw [makeSlice, if_neg]
  · rw [hlen]
    rfl
  · rw [lt_iff_toInt_lt]
    rintro (hneg | hbig)
    · have : (0 : Int64).toInt = 0 := rfl
      omega
    · omega

theorem safe_readBulk (hpos : 0 ≤ n.toInt) (hfits : n.toInt + 2 ≤ maxAlloc) :
    Safe (readBulk n) := by
  intro s
  apply safeOn_bind
  · rw [SafeOn, makeSlice_of_fits hpos hfits]
    exact nofun
  · intro len rest hlen
    rw [makeSlice_of_fits hpos hfits] at hlen
    cases hlen
    apply safeOn_bind (safe_readFull _ _ _ _)
    intro data rest' hdata
    apply safe_sliceTo
    · rwa [le_iff_toInt_le]
    · unfold readFull at hdata
      split at hdata
      · next hlen =>
        cases hdata
        rw [length_take]
        omega
      · cases hdata

theorem Limits.Fits.readBulk (h : lim.Fits) (hneg : ¬ n < -1) (hnil : n ≠ -1)
    (hmax : ¬ lim.maxBulkLen < n) : Safe (readBulk n) := by
  have hlow : ¬ n.toInt < -1 := by rwa [lt_iff_toInt_lt] at hneg
  have hne : n.toInt ≠ -1 := fun heq => hnil (toInt_inj.mp heq)
  have hle : ¬ lim.maxBulkLen.toInt < n.toInt := by rwa [lt_iff_toInt_lt] at hmax
  have hbulk := h.bulk
  exact safe_readBulk (by omega) (by omega)

theorem safe_readElement (h : lim.Fits) : Safe (readElement lim) := by
  apply safe_bind safe_readLine
  intro line
  cases line with
  | nil => exact safe_fail
  | cons type text =>
    apply safe_ite
    · intro _
      apply safe_bind (safe_atoi text)
      intro n
      refine safe_ite (fun _ => safe_fail) fun hneg => ?_
      refine safe_ite (fun _ => safe_pure) fun hnil => ?_
      refine safe_ite (fun _ => safe_fail) fun hmax => ?_
      exact safe_bind (h.readBulk hneg hnil hmax) fun _ => safe_pure
    · intro _
      exact safe_ite (fun _ => safe_pure) fun _ => safe_fail

theorem safe_readElements (h : lim.Fits) (n : Nat) : Safe (readElements lim n) := by
  induction n with
  | zero => exact safe_pure
  | succ n ih =>
    apply safe_bind (safe_readElement h)
    intro arg
    exact safe_bind ih fun _ => safe_pure

theorem safe_readArray (h : lim.Fits) (text : Bytes) : Safe (readArray lim text) := by
  refine safe_ite (fun _ => safe_fail) fun _ => ?_
  split
  · exact safe_fail
  · next n _ =>
    refine safe_ite (fun _ => safe_fail) fun hneg => ?_
    refine safe_ite (fun _ => safe_fail) fun hmax => ?_
    have hpos : 0 ≤ n := Int64.not_lt.mp hneg
    refine safe_bind (safe_makeSlice hpos ?_) fun _ => safe_readElements h _
    have harray := h.array
    rw [lt_iff_toInt_lt] at hmax
    omega

theorem safe_readSingleBulk (h : lim.Fits) (text : Bytes) : Safe (readSingleBulk lim text) := by
  unfold readSingleBulk
  split
  · exact safe_fail
  · refine safe_ite (fun _ => safe_fail) fun hneg => ?_
    refine safe_ite (fun _ => safe_pure) fun hnil => ?_
    refine safe_ite (fun _ => safe_fail) fun hmax => ?_
    exact safe_bind (h.readBulk hneg hnil hmax) fun _ => safe_pure

theorem safe_parseInlineCommand (line : Bytes) : Safe (parseInlineCommand line) :=
  safe_ite (fun _ => safe_fail) fun _ => safe_pure

/-- **Bounds.** `ReadRESP` ends with a request or an error on every stream. -/
theorem safe_readRESP (h : lim.Fits) : Safe (readRESP lim) := by
  apply safe_bind safe_readLine
  intro line
  cases line with
  | nil => exact safe_fail
  | cons type text =>
    refine safe_ite (fun _ => safe_readArray h text) fun _ => ?_
    refine safe_ite (fun _ => ?_) fun _ => ?_
    · exact safe_ite (fun _ => safe_fail) fun _ => safe_pure
    refine safe_ite (fun _ => ?_) fun _ => ?_
    · exact safe_ite (fun _ => safe_fail) fun _ => safe_pure
    exact safe_ite (fun _ => safe_readSingleBulk h text) fun _ => safe_parseInlineCommand _

/-! ## Every request takes a byte -/

theorem shrinks_readLine : Shrinks readLine :=
  shrinks_bind (shrinks_readBytes 10 _) fun _ => keeps_ite keeps_fail keeps_pure

theorem keeps_atoi (text : Bytes) : Keeps (atoi text) := by
  unfold atoi
  split
  · exact keeps_pure
  · exact keeps_fail

theorem keeps_readBulk (n : Int64) : Keeps (readBulk n) := by
  apply keeps_bind (keeps_makeSlice _ _)
  intro len
  exact keeps_bind (keeps_readFull _ _ _) fun _ => keeps_sliceTo _ _

theorem keeps_readElement (lim : Limits) : Keeps (readElement lim) := by
  apply keeps_bind shrinks_readLine.keeps
  intro line
  cases line with
  | nil => exact keeps_fail
  | cons type text =>
    refine keeps_ite (keeps_bind (keeps_atoi text) fun n => ?_) (keeps_ite keeps_pure keeps_fail)
    refine keeps_ite keeps_fail (keeps_ite keeps_pure (keeps_ite keeps_fail ?_))
    exact keeps_bind (keeps_readBulk n) fun _ => keeps_pure

theorem keeps_readElements (lim : Limits) (n : Nat) : Keeps (readElements lim n) := by
  induction n with
  | zero => exact keeps_pure
  | succ n ih =>
    apply keeps_bind (keeps_readElement lim)
    intro arg
    exact keeps_bind ih fun _ => keeps_pure

theorem keeps_readArray (lim : Limits) (text : Bytes) : Keeps (readArray lim text) := by
  refine keeps_ite keeps_fail ?_
  split
  · exact keeps_fail
  · refine keeps_ite keeps_fail (keeps_ite keeps_fail ?_)
    exact keeps_bind (keeps_makeSlice _ _) fun _ => keeps_readElements lim _

theorem keeps_readSingleBulk (lim : Limits) (text : Bytes) : Keeps (readSingleBulk lim text) := by
  unfold readSingleBulk
  split
  · exact keeps_fail
  · next n _ =>
    refine keeps_ite keeps_fail (keeps_ite keeps_pure (keeps_ite keeps_fail ?_))
    exact keeps_bind (keeps_readBulk n) fun _ => keeps_pure

theorem shrinks_readRESP (lim : Limits) : Shrinks (readRESP lim) := by
  apply shrinks_bind shrinks_readLine
  intro line
  cases line with
  | nil => exact keeps_fail
  | cons type text =>
    refine keeps_ite (keeps_readArray lim text) ?_
    refine keeps_ite (keeps_ite keeps_fail keeps_pure) ?_
    refine keeps_ite (keeps_ite keeps_fail keeps_pure) ?_
    exact keeps_ite (keeps_readSingleBulk lim text) (keeps_ite keeps_fail keeps_pure)

/-! ## Requests are read back -/

theorem ten_notMem_decimal (n : Nat) : 10 ∉ decimal n := by
  intro h
  have hdigit : isDigit 10 = true := isDigit_of_mem_decimal h
  cases hdigit

theorem trimLineEnd_crlf (line : Bytes) : trimLineEnd (line ++ [13] ++ [10]) = line := by
  simp [trimLineEnd]

theorem readLine_append {line : Bytes} (hlf : 10 ∉ line) (hlen : line.length + 2 ≤ maxLineLen)
    (rest : Bytes) : readLine (line ++ crlf ++ rest) = .ok (line, rest) := by
  have hread : (readBytes 10 ReadErr.eof : Read ReadErr Bytes) (line ++ crlf ++ rest) =
      .ok (line ++ [13] ++ [10], rest) := by
    have hnone : (10 : UInt8) ∉ line ++ [13] := by simpa using hlf
    have := readBytes_append ReadErr.eof hnone rest
    simpa [crlf] using this
  rw [readLine, Read.bind_of_ok hread, if_neg, trimLineEnd_crlf]
  · rfl
  · simp
    omega

/-- A line of one byte and a length. -/
theorem readLine_header (type : UInt8) (htype : type ≠ 10) {n : Nat} (h : n < 2 ^ 63) (rest : Bytes) :
    readLine ([type] ++ decimal n ++ crlf ++ rest) = .ok (type :: decimal n, rest) := by
  have hlen : (decimal n).length ≤ 20 := length_decimal_le (by omega) (lt_trans h (by decide))
  apply readLine_append
  · simp only [singleton_append, mem_cons, not_or]
    exact ⟨htype.symm, ten_notMem_decimal n⟩
  · simp only [singleton_append, length_cons, maxLineLen]
    omega

/-- A bulk string is read back. -/
theorem readBulk_append {arg : Bytes} (h : arg.length + 2 ≤ maxAlloc) (rest : Bytes) :
    readBulk (Int64.ofNat arg.length) (arg ++ crlf ++ rest) = .ok (arg, rest) := by
  have hint : (Int64.ofNat arg.length).toInt = arg.length := by
    apply toInt_ofNat_of_lt
    unfold maxAlloc at h
    omega
  have hmake := makeSlice_of_fits (n := Int64.ofNat arg.length) (by omega) (by omega) (arg ++ crlf ++ rest)
  rw [readBulk, Read.bind_of_ok hmake, hint]
  have hfull : (readFull .eof .unexpectedEOF ((arg.length : Int).toNat + 2) : Read ReadErr Bytes)
      (arg ++ crlf ++ rest) = .ok (arg ++ crlf, rest) :=
    readFull_append (by simp [crlf]) rest
  rw [Read.bind_of_ok hfull, sliceTo, if_neg, hint]
  · simp [pure]
  · rw [lt_iff_toInt_lt, hint]
    simp

/-- The argument is within the limit on bulk strings, and its bulk string fits into memory. -/
def Limits.AdmitsArg (lim : Limits) (arg : Bytes) : Prop :=
  arg.length ≤ lim.maxBulkLen.toInt ∧ (writeArg (some arg)).length ≤ maxAlloc

/-- The request is within the limits, and each of its bulk strings fits into memory. -/
structure Limits.Admits (lim : Limits) (args : Args) : Prop where
  count : args.length ≤ lim.maxArrayLen.toInt
  slice : args.length * 24 ≤ maxAlloc
  bulk : ∀ arg, some arg ∈ args → lim.AdmitsArg arg

theorem readElement_writeArg {arg : Option Bytes} (h : ∀ a, arg = some a → lim.AdmitsArg a)
    (rest : Bytes) : readElement lim (writeArg arg ++ rest) = .ok (arg, rest) := by
  cases arg with
  | none =>
    rfl
  | some a =>
    obtain ⟨hmax, hfits⟩ := h a rfl
    have hlen : a.length + 2 ≤ maxAlloc := by
      simp only [writeArg, crlf, length_append, length_cons, length_nil] at hfits
      omega
    have hsmall : a.length < 2 ^ 63 := by
      unfold maxAlloc at hlen
      omega
    have hint : (Int64.ofNat a.length).toInt = a.length := toInt_ofNat_of_lt hsmall
    have hbytes : writeArg (some a) ++ rest = [36] ++ decimal a.length ++ crlf ++ (a ++ crlf ++ rest) := by
      simp [writeArg, ascii]
    have hatoi : ∀ s, atoi (decimal a.length) s = .ok (Int64.ofNat a.length, s) := by
      intro s
      rw [atoi, parseInt64_decimal hsmall]
      rfl
    have hneg : ¬ Int64.ofNat a.length < -1 := by
      rw [lt_iff_toInt_lt, hint]
      exact not_lt.mpr (le_trans (by decide) (Int.natCast_nonneg _))
    have hnil : Int64.ofNat a.length ≠ -1 := by
      intro heq
      rw [heq] at hint
      have : (-1 : Int64).toInt = -1 := rfl
      omega
    have hle : ¬ lim.maxBulkLen < Int64.ofNat a.length := by
      rw [lt_iff_toInt_lt]
      omega
    rw [hbytes, readElement, Read.bind_of_ok (readLine_header 36 (by decide) hsmall _)]
    dsimp only
    rw [if_pos rfl, Read.bind_of_ok (hatoi _), if_neg hneg, if_neg hnil, if_neg hle,
      Read.bind_of_ok (readBulk_append hlen rest)]
    rfl

theorem readElements_writeArgs {args : Args} (h : ∀ arg, some arg ∈ args → lim.AdmitsArg arg)
    (rest : Bytes) :
    readElements lim args.length (args.flatMap writeArg ++ rest) = .ok (args, rest) := by
  induction args with
  | nil => rfl
  | cons arg args ih =>
    have hhead : readElement lim (writeArg arg ++ (args.flatMap writeArg ++ rest)) =
        .ok (arg, args.flatMap writeArg ++ rest) := by
      apply readElement_writeArg
      rintro a rfl
      exact h a mem_cons_self
    have htail := ih fun a ha => h a (mem_cons_of_mem _ ha)
    rw [flatMap_cons, append_assoc, length_cons, readElements, Read.bind_of_ok hhead,
      Read.bind_of_ok htail]
    rfl

/-- A request is read back, whatever comes behind it. -/
theorem readRESP_writeArray {args : Args} (h : lim.Admits args) (rest : Bytes) :
    readRESP lim (writeArray args ++ rest) = .ok (args, rest) := by
  have hcount := h.count
  have hslice := h.slice
  have hsmall : args.length < 2 ^ 63 := by
    unfold maxAlloc at hslice
    omega
  have hint : (Int64.ofNat args.length).toInt = args.length := toInt_ofNat_of_lt hsmall
  have hbytes : writeArray args ++ rest =
      [42] ++ decimal args.length ++ crlf ++ (args.flatMap writeArg ++ rest) := by
    simp [writeArray, ascii]
  have hpos : ¬ Int64.ofNat args.length < 0 := by
    rw [lt_iff_toInt_lt, hint]
    exact not_lt.mpr (Int.natCast_nonneg _)
  have hle : ¬ lim.maxArrayLen < Int64.ofNat args.length := by
    rw [lt_iff_toInt_lt]
    omega
  have hmake : ∀ s, (makeSlice 24 (Int64.ofNat args.length) : Read ReadErr Nat) s = .ok (args.length, s) := by
    intro s
    rw [makeSlice, if_neg, hint]
    · rfl
    · rw [hint]
      rintro (hneg | hbig)
      · exact hpos hneg
      · rw [Int.toNat_natCast] at hbig
        omega
  rw [hbytes, readRESP, Read.bind_of_ok (readLine_header 42 (by decide) hsmall _)]
  dsimp only
  rw [if_pos rfl, readArray, if_neg (decimal_ne_nil _), parseInt64_decimal hsmall]
  dsimp only
  rw [if_neg hpos, if_neg hle, Read.bind_of_ok (hmake _), readElements_writeArgs h.bulk]

/-- **Requests.** On requests without nil the three encoders write the same bytes, and every sequence of
requests is read back to its last byte. -/
theorem resp_round_trip (lim : Limits) (reqs : List Args) (h : ∀ args ∈ reqs, lim.Admits args) :
    (∀ args ∈ reqs, none ∉ args →
      writeArray args = arrayString args ∧ arrayString args = serializeCommand args) ∧
    readRequests lim reqs.length (reqs.flatMap writeArray) = .ok (reqs, []) := by
  constructor
  · intro args _ hnil
    rw [arrayString_eq, serializeCommand_eq hnil]
    exact ⟨rfl, rfl⟩
  · induction reqs with
    | nil => rfl
    | cons args reqs ih =>
      have hhead := readRESP_writeArray (h args mem_cons_self) (reqs.flatMap writeArray)
      have htail := ih fun a ha => h a (mem_cons_of_mem _ ha)
      rw [flatMap_cons, length_cons, readRequests, Read.bind_of_ok hhead, Read.bind_of_ok htail]
      rfl

/-- A command with an empty argument and one with line ends inside, and a request with a nil argument. -/
def pipelined : List Args := [[some "SET", some [], some [13, 10, 36, 13, 10]], [], [none]]

theorem resp_round_trip_pipelined :
    readRequests .default 3 (pipelined.flatMap writeArray) = .ok (pipelined, []) := by
  refine (resp_round_trip .default pipelined ?_).2
  intro args hargs
  simp only [pipelined, mem_cons, not_mem_nil, or_false] at hargs
  rcases hargs with rfl | rfl | rfl
  · refine ⟨by decide, by decide, ?_⟩
    intro arg harg
    simp only [mem_cons, Option.some.injEq, not_mem_nil, or_false] at harg
    rcases harg with rfl | rfl | rfl <;> constructor <;> decide
  · exact ⟨by decide, by decide, by simp⟩
  · exact ⟨by decide, by decide, by simp⟩

end BoltDB.Proto
