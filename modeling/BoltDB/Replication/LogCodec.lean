import BoltDB.Replication.Wire

/-!
# The codec of log values, with its bounds checks

`parseCommandEvents` and `parseReplLogValue` (`feed_source.go`) as they run on a slice: the count of
arguments is an `int` that wraps around, and `data[argStart:i]` is checked against the capacity of the
slice. The reader steps over the end of a length line without looking, so that a value that is cut off
inside such a line takes it past the end.

* `readLogValue` — the reader, with the failed bounds check as an outcome of its own.
* `crlfFree_of_mem_parseArgs` — every argument it returns is free of CR LF.
* `log_codec_round_trip` — which commands survive the trip, and which values are read to the end.
-/

namespace BoltDB.Replication

open Bytes List

/-! ## The reader -/

/-- The count of a RESP array: `nArgs = nArgs*10 + int(data[d]-'0')`. -/
def countOf (ds : Bytes) : Int64 := ds.foldl (fun n d => n * 10 + Int64.ofNat (d.toNat - 48)) 0

/-- The rest after a `$` is cut off: the byte after its line is past the capacity. -/
def Cut (spare : Nat) (rest : Bytes) : Prop := (rest.dropWhile (· ≠ 13)).length + spare < 2

instance (spare : Nat) (rest : Bytes) : Decidable (Cut spare rest) :=
  inferInstanceAs (Decidable (_ < _))

/-- The inner loop, on a slice with `spare` bytes of capacity behind its end. `none` is a slice
expression out of range. -/
def readArgs (spare : Nat) : Nat → Bytes → Option (List Bytes × Bytes)
  | 0, rest => some ([], rest)
  | _ + 1, [] => some ([], [])
  | n + 1, b :: rest =>
    if b = 36 then
      if Cut spare rest then none
      else
        let (arg, tail) := spanCrlf ((rest.dropWhile (· ≠ 13)).drop 2)
        (readArgs spare n (tail.drop 2)).map fun r => (arg :: r.1, r.2)
    else some ([], b :: rest)

def readEventsAux (spare : Nat) : Nat → Bytes → Option (List (List Bytes))
  | 0, _ => some []
  | _ + 1, [] => some []
  | fuel + 1, b :: rest =>
    if b = 42 then
      match rest.dropWhile isDigit with
      | 13 :: 10 :: body =>
        match readArgs spare (countOf (rest.takeWhile isDigit)).toInt.toNat body with
        | none => none
        | some (args, left) =>
          if args = [] then readEventsAux spare fuel left
          else (readEventsAux spare fuel left).map (args :: ·)
      | _ => some []
    else some []

/-- What `parseReplLogValue` ends with. -/
inductive ReadOutcome
  /-- A slice expression is out of range. -/
  | panic
  | unparseable
  | args (args : List Bytes)
  deriving DecidableEq

def readLogValue (spare : Nat) (logValue : Bytes) : ReadOutcome :=
  match readEventsAux spare logValue.length logValue with
  | none => .panic
  | some [args] =>
    if args.length < 2 ∧ Bytes.toUpper (args.headD []) ∉ zeroArgCommands then .unparseable
    else .args args
  | some _ => .unparseable

/-! ## What the reader comes to -/

/-- The rest of the data after each `$` that the inner loop comes to. -/
def announced : Nat → Bytes → List Bytes
  | 0, _ => []
  | _ + 1, [] => []
  | n + 1, b :: rest =>
    if b = 36 then
      rest :: announced n ((spanCrlf ((rest.dropWhile (· ≠ 13)).drop 2)).2.drop 2)
    else []

/-- The rest of the data after each `$` that the reader comes to. -/
def announcedIn : Nat → Bytes → List Bytes
  | 0, _ => []
  | _ + 1, [] => []
  | fuel + 1, b :: rest =>
    if b = 42 then
      match rest.dropWhile isDigit with
      | 13 :: 10 :: body =>
        let n := (countOf (rest.takeWhile isDigit)).toInt.toNat
        announced n body ++ announcedIn fuel (parseArgs n body).2
      | _ => []
    else []

/-- The inner loop fails at the first line that is cut off, and is `parseArgs` if there is none. -/
theorem readArgs_eq (spare n : Nat) (data : Bytes) : readArgs spare n data =
      if ∃ rest ∈ announced n data, Cut spare rest then none else some (parseArgs n data) := by
  induction n generalizing data with
  | zero => simp [readArgs, announced, parseArgs]
  | succ n ih =>
    cases data with
    | nil => simp [readArgs, announced, parseArgs]
    | cons b rest =>
      by_cases hb : b = 36
      · rw [readArgs, announced, parseArgs, if_pos hb, if_pos hb]
        by_cases hcut : Cut spare rest
        · rw [if_pos hcut, if_pos ⟨rest, mem_cons_self, hcut⟩]
        · rw [if_neg hcut]
          dsimp only
          rw [ih]
          simp only [mem_cons, exists_eq_or_imp, hcut, false_or]
          split <;> rfl
      · rw [readArgs, announced, parseArgs, if_neg hb, if_neg hb, if_neg hb]
        simp

/-- So does the outer loop. -/
theorem readEventsAux_eq_none (spare fuel : Nat) (data : Bytes) :
    readEventsAux spare fuel data = none ↔ ∃ rest ∈ announcedIn fuel data, Cut spare rest := by
  induction fuel generalizing data with
  | zero => simp [readEventsAux, announcedIn]
  | succ fuel ih =>
    cases data with
    | nil => simp [readEventsAux, announcedIn]
    | cons b rest =>
      by_cases hb : b = 42
      · rw [readEventsAux, announcedIn, if_pos hb, if_pos hb]
        split
        · next body _ =>
          rw [readArgs_eq]
          generalize (countOf (rest.takeWhile isDigit)).toInt.toNat = n
          by_cases hcut : ∃ rest ∈ announced n body, Cut spare rest
          · obtain ⟨r, hr, hrcut⟩ := hcut
            rw [if_pos ⟨r, hr, hrcut⟩]
            simp only [true_iff]
            exact ⟨r, mem_append_left _ hr, hrcut⟩
          · rw [if_neg hcut]
            have hsplit : (∃ rest ∈ announced n body ++ announcedIn fuel (parseArgs n body).2,
                Cut spare rest) ↔ ∃ rest ∈ announcedIn fuel (parseArgs n body).2, Cut spare rest := by
              constructor
              · rintro ⟨r, hr, hrcut⟩
                rcases mem_append.mp hr with hr | hr
                · exact absurd ⟨r, hr, hrcut⟩ hcut
                · exact ⟨r, hr, hrcut⟩
              · rintro ⟨r, hr, hrcut⟩
                exact ⟨r, mem_append_right _ hr, hrcut⟩
            rw [hsplit, ← ih]
            dsimp only
            split <;> simp
        · simp
      · rw [readEventsAux, announcedIn, if_neg hb, if_neg hb]
        simp

/-! ## The reader returns nothing with a CR LF inside -/

theorem crlfFree_spanCrlf (data : Bytes) : CrlfFree (spanCrlf data).1 := by
  fun_induction spanCrlf data with
  | case1 => decide
  | case2 rest =>
    show CrlfFree []
    decide
  | case3 b rest hnot ih =>
    intro hin
    rcases infix_cons_iff.mp hin with hpre | hin
    · -- a CR LF in front would have ended the span
      cases hspan : (spanCrlf rest).1 with
      | nil => simp [hspan] at hpre
      | cons c cs =>
        rw [hspan, cons_prefix_cons, cons_prefix_cons] at hpre
        obtain ⟨rfl, rfl, -⟩ := hpre
        cases rest with
        | nil => simp [spanCrlf] at hspan
        | cons d rest =>
          have hd : d = 10 := by
            rw [spanCrlf.eq_def] at hspan
            split at hspan
            · next heq => cases heq
            · cases hspan
            · next heq =>
              obtain ⟨rfl, -⟩ := List.cons.inj heq
              exact (List.cons.inj hspan).1
          exact hnot rest rfl (by rw [hd])
    · exact ih hin

/-- **No CR LF.** Every argument the inner loop returns is free of CR LF. -/
theorem crlfFree_of_mem_parseArgs {n : Nat} {data a : Bytes} (h : a ∈ (parseArgs n data).1) :
    CrlfFree a := by
  induction n generalizing data with
  | zero => simp [parseArgs] at h
  | succ n ih =>
    cases data with
    | nil => simp [parseArgs] at h
    | cons b rest =>
      rw [parseArgs] at h
      split at h
      · rcases mem_cons.mp h with rfl | h
        · exact crlfFree_spanCrlf _
        · exact ih h
      · simp at h

variable {args : List Bytes}

theorem crlfFree_of_mem_readEventsAux {spare fuel : Nat} {data a : Bytes}
    {events : List (List Bytes)} (h : readEventsAux spare fuel data = some events)
    (hargs : args ∈ events) (ha : a ∈ args) : CrlfFree a := by
  induction fuel generalizing data events with
  | zero =>
    cases h
    cases hargs
  | succ fuel ih =>
    cases data with
    | nil =>
      cases h
      cases hargs
    | cons b rest =>
      rw [readEventsAux] at h
      split at h
      · split at h
        · next body _ =>
          rw [readArgs_eq] at h
          split at h
          · cases h
          · next args' left hread =>
            split at hread
            · cases hread
            · have hparse := Option.some.inj hread
              split at h
              · exact ih h hargs
              · obtain ⟨events', hevents, rfl⟩ := Option.map_eq_some_iff.mp h
                rcases mem_cons.mp hargs with rfl | hargs
                · have hmem : a ∈ (parseArgs (countOf (rest.takeWhile isDigit)).toInt.toNat body).1 := by
                    rw [hparse]
                    exact ha
                  exact crlfFree_of_mem_parseArgs hmem
                · exact ih hevents hargs
        · cases h
          cases hargs
      · cases h
        cases hargs

/-! ## The reader on what the writer wrote -/

theorem countOf_eq (ds : Bytes) : countOf ds = Int64.ofNat (digitsValue 0 ds) := by
  have hfold : ∀ acc : Nat, ds.foldl (fun n d => n * 10 + Int64.ofNat (d.toNat - 48)) (Int64.ofNat acc) =
      Int64.ofNat (digitsValue acc ds) := by
    induction ds with
    | nil =>
      intro acc
      rfl
    | cons d ds ih =>
      intro acc
      have hstep : Int64.ofNat acc * 10 + Int64.ofNat (d.toNat - 48) =
          Int64.ofNat (acc * 10 + (d.toNat - 48)) := by
        rw [Int64.ofNat_add, Int64.ofNat_mul]
        rfl
      rw [foldl_cons, hstep, ih]
      rfl
  exact hfold 0

/-- The count of a slice, whose length is an `int`. -/
theorem countOf_decimal {n : Nat} (h : n < 2 ^ 63) : (countOf (decimal n)).toInt.toNat = n := by
  rw [countOf_eq, digitsValue_decimal, Int64.toInt_ofNat_of_lt h]
  rfl

/-- No line that the writer wrote is cut off. -/
theorem not_cut_of_mem_announced {spare : Nat} (h : ∀ a ∈ args, CrlfFree a) {rest : Bytes}
    (hrest : rest ∈ announced args.length (args.flatMap encodeArg)) : ¬ Cut spare rest := by
  induction args with
  | nil => cases hrest
  | cons a args ih =>
    have hline : (decimal a.length ++ 13 :: (10 :: (a ++ 13 :: 10 :: args.flatMap encodeArg))).dropWhile
        (· ≠ 13) = 13 :: (10 :: (a ++ 13 :: 10 :: args.flatMap encodeArg)) :=
      dropWhile_ne_cr_decimal _ _
    have hdata : (a :: args).flatMap encodeArg =
        36 :: (decimal a.length ++ 13 :: (10 :: (a ++ 13 :: 10 :: args.flatMap encodeArg))) := by
      simp [encodeArg, crlf]
    have hspan := spanCrlf_append (h a mem_cons_self) (args.flatMap encodeArg)
    rw [hdata, length_cons, announced, if_pos rfl, hline] at hrest
    simp only [drop_succ_cons, drop_zero, hspan] at hrest
    rcases mem_cons.mp hrest with rfl | hrest
    · rw [Cut, hline, length_cons, length_cons]
      omega
    · exact ih (fun x hx => h x (mem_cons_of_mem a hx)) hrest

theorem readEvents_encode {spare : Nat} (hne : args ≠ []) (hlen : args.length < 2 ^ 63)
    (h : ∀ a ∈ args, CrlfFree a) :
    readEventsAux spare (encodePropagateCommand args).length (encodePropagateCommand args) =
      some [args] := by
  have hbody : decimal args.length ++ crlf ++ args.flatMap encodeArg
      = decimal args.length ++ 13 :: (10 :: args.flatMap encodeArg) := by
    simp [crlf]
  have hparse : parseArgs args.length (args.flatMap encodeArg) = (args, []) := by
    have hread := parseArgs_encode h []
    rwa [append_nil] at hread
  have hread : readArgs spare args.length (args.flatMap encodeArg) = some (args, []) := by
    rw [readArgs_eq, if_neg, hparse]
    rintro ⟨rest, hrest, hcut⟩
    exact not_cut_of_mem_announced h hrest hcut
  have hend : ∀ fuel, readEventsAux spare fuel [] = some [] := by
    intro fuel
    cases fuel <;> rfl
  unfold encodePropagateCommand
  rw [length_cons, readEventsAux, if_pos rfl, hbody, dropWhile_isDigit_decimal,
    takeWhile_isDigit_decimal, countOf_decimal hlen]
  simp only [hread, if_neg hne, hend, Option.map_some]

/-! ## The codec -/

/-- The commands that the log takes: those with an argument, and three without. -/
def LogTakes (args : List Bytes) : Prop :=
  2 ≤ args.length ∨ ∃ cmd, args = [cmd] ∧ Bytes.toUpper cmd ∈ zeroArgCommands

theorem LogTakes.ne_nil (h : LogTakes args) : args ≠ [] := by
  rintro rfl
  rcases h with hlen | ⟨cmd, hcmd, -⟩
  · simp at hlen
  · cases hcmd

/-- **Log codec.** A command comes back from its log value exactly when no argument has a CR LF inside.
A value is read without leaving the slice exactly when none of the length lines that the reader comes to
is cut off. -/
theorem log_codec_round_trip (spare : Nat) :
    (∀ args : List Bytes, LogTakes args → args.length < 2 ^ 63 →
      (readLogValue spare (encodePropagateCommand args) = .args args ↔ ∀ a ∈ args, CrlfFree a)) ∧
    ∀ data : Bytes,
      readLogValue spare data ≠ .panic ↔ ∀ rest ∈ announcedIn data.length data, ¬ Cut spare rest := by
  constructor
  · intro args htakes hlen
    constructor
    · intro hread a ha
      rw [readLogValue] at hread
      split at hread
      · cases hread
      · next args' hevents =>
        split at hread
        · cases hread
        · cases hread
          exact crlfFree_of_mem_readEventsAux hevents (mem_singleton.mpr rfl) ha
      · cases hread
    · intro hfree
      rw [readLogValue, readEvents_encode htakes.ne_nil hlen hfree]
      dsimp only
      rw [if_neg]
      rintro ⟨hshort, hcmd⟩
      rcases htakes with hlong | ⟨cmd, rfl, htakes⟩
      · omega
      · exact hcmd htakes
  · intro data
    have hpanic : readLogValue spare data = .panic ↔
        readEventsAux spare data.length data = none := by
      rw [readLogValue]
      cases readEventsAux spare data.length data with
      | none => simp
      | some events =>
        simp only [reduceCtorEq, iff_false]
        split
        · next heq => cases heq
        · split <;> exact nofun
        · exact nofun
    rw [Ne, hpanic, readEventsAux_eq_none]
    simp only [not_exists, not_and]

theorem log_codec_round_trip_set :
    LogTakes (["SET", "k", ""].map ascii) ∧
      readLogValue 0 (encodePropagateCommand (["SET", "k", ""].map ascii)) =
        .args (["SET", "k", ""].map ascii) := by
  have htakes : LogTakes (["SET", "k", ""].map ascii) := .inl (by decide)
  exact ⟨htakes, ((log_codec_round_trip 0).1 _ htakes (by decide)).mpr (by decide)⟩

/-- An argument with a CR LF comes back cut off, and a log value that ends inside a length line takes the
reader past the end of its slice. -/
theorem crlf_lost_and_cut_value_panics :
    readLogValue 0 (encodePropagateCommand [ascii "SET", ascii "k", [97, 13, 10, 98]]) =
      .args [ascii "SET", ascii "k", ascii "a"] ∧
    readLogValue 0 (ascii "*1" ++ crlf ++ ascii "$123") = .panic := by
  constructor <;> decide +kernel

end BoltDB.Replication
