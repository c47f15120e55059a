import BoltDB.Proto.Resp

/-!
# The replica's side of the connection

`master.go`: `ReadResponse` reads a reply of the handshake, `ReadBulkString` the RDB file, whose end is
announced by its length or, in the form `$EOF:<delimiter>`, by forty bytes behind it. The connection gives
its bytes in pieces, one for each `Read`.

* `safeOn_readResponse` — a reply ends in a value or an error unless it is a bulk string of negative length.
* `readBulkString` never leaves a slice.
* `eof_transfer_hands_over` — `readUntilEOF` looks at the end of each piece instead of the announced
  delimiter, and leaves the delimiter as the rest of the connection.
-/

namespace BoltDB.Replication

open Bytes ByteReader Proto List Int64

inductive MasterErr
  /-- "read response failed: %w". -/
  | response (e : ReadErr)
  /-- "empty response". -/
  | emptyResponse
  /-- "invalid integer response: %s". -/
  | invalidInteger (text : Bytes)
  /-- "invalid bulk string length: %s". -/
  | invalidBulkLength (text : Bytes)
  /-- "bulk string length too large: %d". -/
  | bulkTooLarge (n : Int64)
  /-- "read bulk string data failed: %w". -/
  | bulkData (e : ReadErr)
  /-- "invalid array length: %s". -/
  | invalidArrayLength (text : Bytes)
  /-- "array length too large: %d". -/
  | arrayTooLarge (n : Int64)
  /-- "read array element %d failed: %w". -/
  | element (i : Nat) (e : ReadErr)
  /-- "read bulk string length failed: %w". -/
  | bulkLength (e : ReadErr)
  /-- "invalid bulk string format". -/
  | invalidBulkFormat
  /-- "parse bulk string length failed: %w". -/
  | parseBulkLength (text : Bytes)
  /-- "RDB data too large: %d bytes (max %d)". -/
  | rdbTooLarge (len : Nat)
  deriving DecidableEq

/-! ## Replies -/

inductive Response
  | simpleString (s : Bytes)
  | error (s : Bytes)
  | integer (n : Int64)
  | bulkString (b : Option Bytes)
  | array (args : Args)
  deriving DecidableEq

/-- A line of a reply. Its length is not limited. -/
def readRawLine (err : ReadErr → MasterErr) : Read MasterErr Bytes := do
  let line ← readBytes 10 (err .eof)
  return trimLineEnd line

/-- The elements from the one with number `i` on. Of each only the first argument is kept. -/
def readReplies (lim : Limits) : Nat → Nat → Read MasterErr Args
  | _, 0 => pure []
  | i, n + 1 => do
    let sub ← Read.mapErr (.element i) (readRESP lim)
    let args ← readReplies lim (i + 1) n
    return sub.head?.toList ++ args

/-- The bulk string after its `$`. Only the length -1 is special. -/
def readReplyBulk (lim : Limits) (text : Bytes) : Read MasterErr Response :=
  match parseInt64 text with
  | none => Read.fail (.invalidBulkLength text)
  | some n =>
    if n = -1 then pure (.bulkString none)
    else if lim.maxBulkLen < n then Read.fail (.bulkTooLarge n)
    else do
      let data ← Read.mapErr .bulkData (readBulk n)
      return .bulkString (some data)

/-- The array after its `*`. -/
def readReplyArray (lim : Limits) (text : Bytes) : Read MasterErr Response :=
  match parseInt64 text with
  | none => Read.fail (.invalidArrayLength text)
  | some n =>
    if n < 0 then Read.fail (.invalidArrayLength text)
    else if lim.maxArrayLen < n then Read.fail (.arrayTooLarge n)
    else do
      let len ← makeSlice 24 n
      let args ← readReplies lim 0 len
      return .array args

def readResponse (lim : Limits) : Read MasterErr Response := do
  match ← readRawLine .response with
  | [] => Read.fail .emptyResponse
  | type :: text =>
    if type = 43 then return .simpleString text
    else if type = 45 then return .error text
    else if type = 58 then
      match parseInt64 text with
      | none => Read.fail (.invalidInteger text)
      | some n => return .integer n
    else if type = 36 then readReplyBulk lim text
    else if type = 42 then readReplyArray lim text
    else return .simpleString (type :: text)

/-- The stream starts with a bulk string whose length is below -1. -/
def StartsNegative (s : Bytes) : Prop :=
  ∃ line rest n, (readBytes 10 () : Read Unit Bytes) s = .ok (line, rest) ∧
    (trimLineEnd line).head? = some 36 ∧ parseInt64 (trimLineEnd line).tail = some n ∧ n < -1

theorem safe_readRawLine (err : ReadErr → MasterErr) : Safe (readRawLine err) :=
  safe_bind (safe_readBytes 10 _) fun _ => safe_pure

theorem readRawLine_eq_ok {err : ReadErr → MasterErr} {s text rest : Bytes}
    (h : readRawLine err s = .ok (text, rest)) :
    ∃ line, (readBytes 10 () : Read Unit Bytes) s = .ok (line, rest) ∧ trimLineEnd line = text := by
  rw [readRawLine, Read.bind_apply] at h
  unfold readBytes at h ⊢
  split at h
  · next line rest' hline =>
    split at hline
    · cases hline
    · cases hline
      cases h
      exact ⟨_, rfl, rfl⟩
  · cases h

variable {buffer : Bytes} {lim : Limits} {before : List Bytes}

theorem safe_readReplies (h : lim.Fits) (i n : Nat) : Safe (readReplies lim i n) := by
  induction n generalizing i with
  | zero => exact safe_pure
  | succ n ih =>
    apply safe_bind (safe_mapErr _ (safe_readRESP h))
    intro sub
    exact safe_bind (ih (i + 1)) fun _ => safe_pure

theorem safe_readReplyArray (h : lim.Fits) (text : Bytes) : Safe (readReplyArray lim text) := by
  unfold readReplyArray
  split
  · exact safe_fail
  · refine safe_ite (fun _ => safe_fail) fun hneg => ?_
    refine safe_ite (fun _ => safe_fail) fun hmax => ?_
    refine safe_bind (safe_makeSlice (Int64.not_lt.mp hneg) ?_) fun _ =>
      safe_bind (safe_readReplies h _ _) fun _ => safe_pure
    have harray := h.array
    rw [lt_iff_toInt_lt] at hmax
    omega

theorem safe_readReplyBulk (h : lim.Fits) {text : Bytes}
    (htext : ∀ n, parseInt64 text = some n → ¬ n < -1) : Safe (readReplyBulk lim text) := by
  unfold readReplyBulk
  split
  · exact safe_fail
  · next n hn =>
    refine safe_ite (fun _ => safe_pure) fun hnil => ?_
    refine safe_ite (fun _ => safe_fail) fun hmax => ?_
    exact safe_bind (safe_mapErr _ (h.readBulk (htext n hn) hnil hmax)) fun _ => safe_pure

/-- A bulk string with a negative length cannot be cut out of what was read. -/
theorem readBulk_negative {n : Int64} (hneg : n < -1) (s : Bytes) : readBulk n s = .error .panic := by
  have hlow : n.toInt < -1 := by rwa [lt_iff_toInt_lt] at hneg
  rw [readBulk, makeSlice]
  by_cases htwo : n + 2 < 0
  · rw [if_pos (.inl htwo)]
    rfl
  · -- the length is -2, and nothing is read
    have hn : n = -2 := by
      apply toInt_inj.mp
      have hsum := toInt_add_two (n := n) (by omega)
      rw [lt_iff_toInt_lt] at htwo
      have hzero : (0 : Int64).toInt = 0 := rfl
      have htwo : (-2 : Int64).toInt = -2 := rfl
      omega
    subst hn
    rfl

theorem readReplyBulk_negative {text : Bytes} {n : Int64} (h : parseInt64 text = some n)
    (hneg : n < -1) (s : Bytes) : readReplyBulk lim text s = .error .panic := by
  have hnil : n ≠ -1 := fun heq => Int64.lt_irrefl (heq ▸ hneg)
  have hmax : ¬ lim.maxBulkLen < n := by
    intro hlt
    exact absurd (Int64.lt_trans lim.bulk_pos (Int64.lt_trans hlt hneg)) (by decide)
  rw [readReplyBulk, h]
  dsimp only
  rw [if_neg hnil, if_neg hmax, Read.bind_apply, Read.mapErr, readBulk_negative hneg]

/-- **Replies.** `ReadResponse` ends with a reply or an error exactly on the streams that do not start with a
bulk string of negative length, other than -1. -/
theorem safeOn_readResponse (h : lim.Fits) (s : Bytes) :
    SafeOn (readResponse lim) s ↔ ¬ StartsNegative s := by
  constructor
  · rintro hsafe ⟨line, rest, n, hline, hhead, hn, hneg⟩
    apply hsafe
    have hraw : readRawLine .response s = .ok (trimLineEnd line, rest) := by
      unfold readBytes at hline
      rw [readRawLine, Read.bind_apply, readBytes]
      split at hline
      · cases hline
      · cases hline
        rfl
    rw [readResponse, Read.bind_of_ok hraw]
    cases htext : trimLineEnd line with
    | nil =>
      rw [htext] at hhead
      cases hhead
    | cons type text =>
      rw [htext] at hhead hn
      cases hhead
      exact readReplyBulk_negative hn hneg rest
  · intro hstarts
    apply safeOn_bind (safe_readRawLine _ s)
    intro text rest hraw
    obtain ⟨line, hline, htrim⟩ := readRawLine_eq_ok hraw
    cases text with
    | nil => exact safe_fail _
    | cons type text =>
      refine safe_ite (fun _ => safe_pure) (fun _ => ?_) rest
      refine safe_ite (fun _ => safe_pure) fun _ => ?_
      refine safe_ite (fun _ => ?_) fun _ => ?_
      · split
        · exact safe_fail
        · exact safe_pure
      refine safe_ite (fun hbulk => ?_) fun _ => ?_
      · apply safe_readReplyBulk h
        intro n hn hneg
        refine hstarts ⟨line, rest, n, hline, ?_, ?_, hneg⟩
        · rw [htrim, hbulk]
          rfl
        · rw [htrim]
          exact hn
      · exact safe_ite (fun _ => safe_readReplyArray h text) fun _ => safe_pure

/-! ## The RDB file -/

/-- `fmt.Sscanf(text, "%d", &length)`: white space in front and anything behind the number are skipped. -/
def sscanInt (text : Bytes) : Option Int64 :=
  let s := trimFront spaces text.length text
  let sign := s.takeWhile fun b => b = 43 ∨ b = 45
  let digits := (s.drop (sign.take 1).length).takeWhile isDigit
  if digits = [] then none else parseInt64 (sign.take 1 ++ digits)

/-- `maxRDBBufferSize`. -/
def maxRDBBufferSize : Nat := 256 * 1024 * 1024

def isHexDigit (c : UInt8) : Bool := 48 ≤ c && c ≤ 57 || 97 ≤ c && c ≤ 102 || 65 ≤ c && c ≤ 70

/-- The data ends with forty hexadecimal digits. -/
def EndsHex (data : Bytes) : Prop :=
  40 ≤ data.length ∧ (data.drop (data.length - 40)).all isHexDigit = true

instance (data : Bytes) : Decidable (EndsHex data) := by
  unfold EndsHex
  infer_instance

/-- The data in front of the last forty bytes, and the connection that is left: a reader of the rest from
there on, without CR and LF at its front, unless that is empty. -/
def splitAtMark (data : Bytes) (pieces : List Bytes) : Bytes × List Bytes :=
  let cmdsData := (data.drop (data.length - 40)).dropWhile fun b => b = 13 ∨ b = 10
  (data.take (data.length - 40), if cmdsData = [] then pieces else [cmdsData])

/-- `readUntilEOF` with what it has read so far. After the last piece comes the end of the connection. -/
def readUntilEOF (buffer : Bytes) : List Bytes → Except (ByteReader.Stop MasterErr) (Bytes × List Bytes)
  | [] => .ok (if EndsHex buffer then splitAtMark buffer [] else (buffer, []))
  | piece :: pieces =>
    let data := buffer ++ piece
    if EndsHex data then .ok (splitAtMark data pieces)
    else if maxRDBBufferSize < data.length then .error (.fail (.rdbTooLarge data.length))
    else readUntilEOF data pieces

/-- A file whose length is announced; a negative length is no file. -/
def readSized (lim : Limits) (text : Bytes) : Read MasterErr (Option Bytes) :=
  match sscanInt text with
  | none => Read.fail (.parseBulkLength text)
  | some n =>
    if n < 0 then pure none
    else if lim.maxBulkLen < n then Read.fail (.bulkTooLarge n)
    else do
      let data ← Read.mapErr .bulkData (readBulk n)
      return some data

/-- The line announces a delimiter. -/
def IsEOFLine (line : Bytes) : Prop := 5 < line.length ∧ (line.drop 1).take 4 = "EOF:"

instance (line : Bytes) : Decidable (IsEOFLine line) := by
  unfold IsEOFLine
  infer_instance

/-- `ReadBulkString`: the file, and the connection that is left. -/
def readBulkString (lim : Limits) (pieces : List Bytes) :
    Except (ByteReader.Stop MasterErr) (Option Bytes × List Bytes) :=
  match onPieces (readRawLine .bulkLength) pieces with
  | .error e => .error e
  | .ok (line, pieces) =>
    if line.head? ≠ some 36 then .error (.fail .invalidBulkFormat)
    else if IsEOFLine line then
      match readUntilEOF [] pieces with
      | .ok (rdb, pieces) => .ok (some rdb, pieces)
      | .error e => .error e
    else onPieces (readSized lim line.tail) pieces

theorem safe_readSized (h : lim.Fits) (text : Bytes) : Safe (readSized lim text) := by
  unfold readSized
  split
  · exact safe_fail
  · next n _ =>
    refine safe_ite (fun _ => safe_pure) fun hneg => ?_
    refine safe_ite (fun _ => safe_fail) fun hmax => ?_
    refine safe_bind (safe_mapErr _ ?_) fun _ => safe_pure
    have hbulk := h.bulk
    rw [lt_iff_toInt_lt] at hneg hmax
    have hzero : (0 : Int64).toInt = 0 := rfl
    exact safe_readBulk (by omega) (by omega)

theorem onPieces_ne_panic {α : Type} {m : Read MasterErr α} (h : Safe m) (pieces : List Bytes) :
    onPieces m pieces ≠ .error .panic := by
  intro hpanic
  unfold onPieces at hpanic
  split at hpanic
  · cases hpanic
  · next hrun =>
    cases hpanic
    exact h _ hrun

theorem readUntilEOF_ne_panic (buffer : Bytes) (pieces : List Bytes) :
    readUntilEOF buffer pieces ≠ .error .panic := by
  induction pieces generalizing buffer with
  | nil => exact nofun
  | cons piece pieces ih =>
    rw [readUntilEOF]
    split
    · exact nofun
    · split
      · exact nofun
      · exact ih _

/-- `ReadBulkString` ends with a file or an error on every stream, in whatever pieces it comes. -/
theorem readBulkString_ne_panic (h : lim.Fits) (pieces : List Bytes) :
    readBulkString lim pieces ≠ .error .panic := by
  intro hpanic
  unfold readBulkString at hpanic
  split at hpanic
  · next hline =>
    cases hpanic
    exact onPieces_ne_panic (safe_readRawLine _) _ hline
  · split at hpanic
    · cases hpanic
    · split at hpanic
      · split at hpanic
        · cases hpanic
        · next hrun =>
          cases hpanic
          exact readUntilEOF_ne_panic _ _ hrun
      · exact onPieces_ne_panic (safe_readSized h _) _ hpanic

/-! ## The delimiter -/

/-- The line that announces a delimiter. -/
def eofHeader (delim : Bytes) : Bytes := "$EOF:" ++ delim ++ crlf

/-- No read from the first one to the one before the last of `before` ends with forty hexadecimal digits or
exceeds the limit. -/
def Unmarked (buffer : Bytes) (before : List Bytes) : Prop :=
  ∀ front back, before = front ++ back → front ≠ [] → back ≠ [] →
    ¬ EndsHex (buffer ++ front.flatten) ∧ (buffer ++ front.flatten).length ≤ maxRDBBufferSize

/-- A read ends where `data` ends, and no read before it looks like the end of a file. -/
def CutAt (pieces : List Bytes) (data : Bytes) : Prop :=
  ∃ before after, pieces = before ++ after ∧ before.flatten = data ∧ Unmarked [] before

theorem unmarked_singleton (buffer piece : Bytes) : Unmarked buffer [piece] := by
  intro front back hsplit hfront hback
  cases front with
  | nil => exact absurd rfl hfront
  | cons p front =>
    obtain ⟨-, hnil⟩ := List.cons.inj hsplit
    have := (append_eq_nil_iff.mp hnil.symm).2
    exact absurd this hback

theorem Unmarked.tail {piece : Bytes} (h : Unmarked buffer (piece :: before)) :
    Unmarked (buffer ++ piece) before := by
  intro front back hsplit _ hback
  have := h (piece :: front) back (by rw [hsplit]; rfl) (cons_ne_nil _ _) hback
  rwa [flatten_cons, ← append_assoc] at this

theorem Unmarked.cons {piece : Bytes} (hhex : ¬ EndsHex (buffer ++ piece))
    (hlen : (buffer ++ piece).length ≤ maxRDBBufferSize) (h : Unmarked (buffer ++ piece) before) :
    Unmarked buffer (piece :: before) := by
  intro front back hsplit hfront hback
  cases front with
  | nil => exact absurd rfl hfront
  | cons p front =>
    obtain ⟨rfl, htail⟩ := List.cons.inj hsplit
    rw [flatten_cons, ← append_assoc]
    cases front with
    | nil =>
      rw [flatten_nil, append_nil]
      exact ⟨hhex, hlen⟩
    | cons q front => exact h (q :: front) back htail (cons_ne_nil _ _) hback

/-- The loop stops at the first read that ends with forty hexadecimal digits. -/
theorem readUntilEOF_of_cut {after : List Bytes} (hne : before ≠ [])
    (hhex : EndsHex (buffer ++ before.flatten)) (hbefore : Unmarked buffer before) :
    readUntilEOF buffer (before ++ after) = .ok (splitAtMark (buffer ++ before.flatten) after) := by
  induction before generalizing buffer with
  | nil => exact absurd rfl hne
  | cons piece before ih =>
    rw [cons_append, readUntilEOF]
    rw [flatten_cons, ← append_assoc] at hhex ⊢
    cases before with
    | nil =>
      rw [flatten_nil, append_nil] at hhex ⊢
      rw [if_pos hhex, nil_append]
    | cons next before =>
      have hread := hbefore [piece] (next :: before) rfl (cons_ne_nil _ _) (cons_ne_nil _ _)
      rw [flatten_singleton] at hread
      rw [if_neg hread.1, if_neg (Nat.not_lt.mpr hread.2)]
      exact ih (cons_ne_nil _ _) hhex hbefore.tail

/-- The loop returns at such a read, or with everything at the end of the connection. -/
theorem readUntilEOF_eq_ok {rdb : Bytes} {pieces rest : List Bytes}
    (h : readUntilEOF buffer pieces = .ok (rdb, rest)) :
    (∃ before after, pieces = before ++ after ∧ EndsHex (buffer ++ before.flatten) ∧
      (rdb, rest) = splitAtMark (buffer ++ before.flatten) after ∧ Unmarked buffer before) ∨
    rdb = buffer ++ pieces.flatten := by
  induction pieces generalizing buffer with
  | nil =>
    rw [readUntilEOF] at h
    split at h
    · next hhex =>
      refine .inl ⟨[], [], rfl, ?_, ?_, ?_⟩
      · rwa [flatten_nil, append_nil]
      · rw [flatten_nil, append_nil]
        exact (Except.ok.inj h).symm
      · intro front back hsplit hfront
        exact absurd (append_eq_nil_iff.mp hsplit.symm).1 hfront
    · cases h
      exact .inr (by simp)
  | cons piece pieces ih =>
    rw [readUntilEOF] at h
    split at h
    · next hhex =>
      refine .inl ⟨[piece], pieces, rfl, ?_, ?_, unmarked_singleton _ _⟩
      · rwa [flatten_singleton]
      · rw [flatten_singleton]
        exact (Except.ok.inj h).symm
    · next hhex =>
      split at h
      · cases h
      · next hlen =>
        rcases ih h with ⟨before, after, rfl, hend, hsplit, hbefore⟩ | hall
        · refine .inl ⟨piece :: before, after, rfl, ?_, ?_, hbefore.cons hhex (Nat.not_lt.mp hlen)⟩
          · rwa [flatten_cons, ← append_assoc]
          · rwa [flatten_cons, ← append_assoc]
        · refine .inr ?_
          rw [hall, flatten_cons, append_assoc]

section Delimiter

variable {delim : Bytes} (hlen : delim.length = 40) (hhex : delim.all isHexDigit = true)
include hlen hhex

theorem endsHex_append (data : Bytes) : EndsHex (data ++ delim) := by
  refine ⟨by simp [hlen], ?_⟩
  rw [length_append, hlen, Nat.add_sub_cancel, drop_left]
  exact hhex

/-- The delimiter itself is what is left of the connection. -/
theorem splitAtMark_append (data : Bytes) (pieces : List Bytes) :
    splitAtMark (data ++ delim) pieces = (data, [delim]) := by
  have hkeep : delim.dropWhile (fun b => b = 13 ∨ b = 10) = delim := by
    cases delim with
    | nil => rfl
    | cons b delim =>
      rw [dropWhile_cons_of_neg]
      intro hb
      rw [all_cons, Bool.and_eq_true] at hhex
      rcases of_decide_eq_true hb with rfl | rfl <;> exact absurd hhex.1 (by decide)
  have hne : delim ≠ [] := by
    rintro rfl
    cases hlen
  unfold splitAtMark
  rw [length_append, hlen, Nat.add_sub_cancel, drop_left, take_left, hkeep]
  dsimp only
  rw [if_neg hne]

omit hlen in
theorem onPieces_eofHeader {pieces : List Bytes} {body : Bytes}
    (h : pieces.flatten = eofHeader delim ++ body) :
    onPieces (readRawLine .bulkLength) pieces =
      .ok (ascii "$EOF:" ++ delim, dropBytes (eofHeader delim).length pieces) := by
  have hlf : (10 : UInt8) ∉ ascii "$EOF:" ++ delim ++ [13] := by
    intro hmem
    rw [mem_append, mem_append] at hmem
    rcases hmem with (hmem | hmem) | hmem
    · exact absurd hmem (by decide)
    · exact absurd (all_eq_true.mp hhex _ hmem) (by decide)
    · exact absurd hmem (by decide)
  have hread := readBytes_append (MasterErr.bulkLength .eof) hlf body
  have hbytes : pieces.flatten = ascii "$EOF:" ++ delim ++ [13] ++ 10 :: body := by
    rw [h]
    simp [eofHeader, crlf]
  have hraw : readRawLine .bulkLength pieces.flatten = .ok ("$EOF:" ++ delim, body) := by
    rw [readRawLine, hbytes, Read.bind_of_ok hread, trimLineEnd_crlf]
    rfl
  rw [onPieces, hraw]
  dsimp only
  rw [h, length_append, Nat.add_sub_cancel]

theorem readBulkString_eof (lim : Limits) {pieces : List Bytes} {body : Bytes}
    (h : pieces.flatten = eofHeader delim ++ body) :
    readBulkString lim pieces =
      match readUntilEOF [] (dropBytes (eofHeader delim).length pieces) with
      | .ok (rdb, pieces) => .ok (some rdb, pieces)
      | .error e => .error e := by
  have heof : IsEOFLine ("$EOF:" ++ delim) := by
    constructor
    · rw [length_append, hlen]
      decide
    · rfl
  rw [readBulkString, onPieces_eofHeader hhex h]
  dsimp only
  rw [if_neg (by simp [ascii]), if_pos heof]

/-- **EOF transfer.** The file is handed over and the commands behind it stay in the connection only if the
commands are the delimiter once more, and a read ends right behind the first delimiter. -/
theorem eof_transfer_hands_over (lim : Limits) (payload cmds : Bytes) (pieces : List Bytes)
    (h : pieces.flatten = eofHeader delim ++ (payload ++ delim ++ cmds)) :
    (∃ rest, readBulkString lim pieces = .ok (some payload, rest) ∧ rest.flatten = cmds) ↔
      cmds = delim ∧ CutAt (dropBytes (eofHeader delim).length pieces) (payload ++ delim) := by
  have hbody : (dropBytes (eofHeader delim).length pieces).flatten = payload ++ delim ++ cmds := by
    rw [flatten_dropBytes, h, drop_left]
  rw [readBulkString_eof hlen hhex lim h]
  generalize dropBytes (eofHeader delim).length pieces = body at hbody ⊢
  constructor
  · rintro ⟨rest, hrun, rfl⟩
    cases hloop : readUntilEOF [] body with
    | error e =>
      rw [hloop] at hrun
      cases hrun
    | ok r =>
      obtain ⟨rdb, left⟩ := r
      rw [hloop] at hrun
      cases hrun
      rcases readUntilEOF_eq_ok hloop with ⟨before, after, rfl, hend, hsplit, hbefore⟩ | hall
      · rw [nil_append] at hend hsplit
        -- the file is all but forty bytes of what was read, so that the delimiter is the rest
        have hdata : before.flatten = payload ++ delim := by
          have hpayload : payload = before.flatten.take (before.flatten.length - 40) :=
            (Prod.ext_iff.mp hsplit).1
          have hlength : before.flatten.length = (payload ++ delim).length := by
            have := congrArg List.length hpayload
            rw [length_take] at this
            have := hend.1
            rw [length_append]
            omega
          rw [flatten_append] at hbody
          exact (append_inj hbody hlength).1
        rw [hdata, splitAtMark_append hlen hhex] at hsplit
        obtain ⟨-, rfl⟩ := Prod.mk.inj hsplit
        exact ⟨flatten_singleton, before, after, rfl, hdata, hbefore⟩
      · rw [nil_append, hbody] at hall
        have := congrArg List.length hall
        rw [length_append, length_append] at this
        omega
  · rintro ⟨rfl, before, after, rfl, hdata, hbefore⟩
    have hne : before ≠ [] := by
      rintro rfl
      have := congrArg List.length hdata
      rw [length_append, hlen] at this
      simp at this
    have hend : EndsHex ([] ++ before.flatten) := by
      rw [hdata]
      exact endsHex_append hlen hhex payload
    rw [readUntilEOF_of_cut hne hend hbefore, nil_append, hdata, splitAtMark_append hlen hhex]
    exact ⟨_, rfl, flatten_singleton⟩

end Delimiter

/-- A delimiter. -/
def mark : Bytes := List.replicate 40 97

theorem eof_transfer_hands_over_twice :
    ∃ rest, readBulkString .default [eofHeader mark ++ (ascii "RDB" ++ mark), mark] =
      .ok (some (ascii "RDB"), rest) ∧ rest.flatten = mark := by
  refine (eof_transfer_hands_over (show mark.length = 40 from rfl) rfl .default "RDB" mark _ ?_).mpr ⟨rfl, ?_⟩
  · simp
  · refine ⟨["RDB" ++ mark], [mark], ?_, flatten_singleton, unmarked_singleton _ _⟩
    decide +kernel

/-- With a read that ends behind the delimiter, the next reads return the delimiter and then the end of the
connection, and the command that arrives later is lost. With everything in one read, the delimiter and the
command are taken for a part of the file. -/
theorem eof_transfer_loses_command :
    readBulkString .default
        [eofHeader mark, ascii "RDB" ++ mark, serializeCommand [some (ascii "PING")]] =
      .ok (some (ascii "RDB"), [mark]) ∧
    readBulkString .default
        [eofHeader mark ++ (ascii "RDB" ++ mark ++ serializeCommand [some (ascii "PING")])] =
      .ok (some (ascii "RDB" ++ mark ++ serializeCommand [some (ascii "PING")]), []) := by
  constructor <;> decide +kernel

end BoltDB.Replication
