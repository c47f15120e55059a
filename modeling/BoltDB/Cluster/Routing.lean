import BoltDB.Cluster.Topology
import BoltDB.Server.Handlers

/-!
# The routing of commands with several keys

`slot.go`, `redirect.go` and `checkAndHandleMultiKeyRedirect`: a command with several keys is checked key by
key before it runs. The check asks where each key belongs; it never compares the slots of the keys with each
other, so keys of different slots pass as long as this node owns them all.

* `slotOf` — CRC-16 of the hash tag of a key.
* `checkAndHandleMultiKeyRedirect_eq_none` — the check passes if and only if no key is redirected.
* `multi_key_routing` — for which keys the rule of one slot is enforced.
-/

namespace BoltDB.Cluster.Topology

open Bytes Server

/-! ## Slots of keys -/

/-- One bit of CRC-16/XModem. -/
def crcShift (crc : BitVec 16) : BitVec 16 :=
  if crc &&& 0x8000#16 ≠ 0 then (crc <<< 1) ^^^ 0x1021#16 else crc <<< 1

/-- One byte: it is added to the high half, and eight bits are shifted out. -/
def crcByte (crc : BitVec 16) (b : UInt8) : BitVec 16 :=
  let high : BitVec 16 := b.toBitVec.setWidth 16
  Nat.repeat crcShift 8 (crc ^^^ (high <<< 8))

def crc16 (data : Bytes) : BitVec 16 := data.foldl crcByte 0

/-- What stands between the first `\x7b` and the next `\x7d`, or the whole key. -/
def hashTag (key : Bytes) : Bytes :=
  match key.dropWhile (· ≠ 0x7b) with
  | [] => key
  | _ :: rest => if 0x7d ∈ rest then rest.takeWhile (· ≠ 0x7d) else key

/-- `Slot`. -/
def slotOf (key : Bytes) : Nat := (crc16 (hashTag key)).toNat % slotCount

theorem slotOf_lt (key : Bytes) : slotOf key < slotCount := Nat.mod_lt _ (by decide)

example : slotOf "foo" = 12182 ∧ slotOf "\x7bfoo\x7d.bar" = 12182 := by decide +kernel

/-! ## Hash tags -/

/-- The first `\x7b` of a key and the first `\x7d` behind it stand around the tag. -/
def Tagged (key tag : Bytes) : Prop :=
  ∃ before behind, key = before ++ 0x7b :: (tag ++ 0x7d :: behind) ∧ 0x7b ∉ before ∧ 0x7d ∉ tag

/-- What clients of a Redis cluster compute: a tag stands for the key unless it is empty. -/
def HashTagRule (key : Bytes) : Prop :=
  (∀ tag, tag ≠ [] → Tagged key tag → slotOf key = (crc16 tag).toNat % slotCount) ∧
    ((∀ tag, tag ≠ [] → ¬ Tagged key tag) → slotOf key = (crc16 key).toNat % slotCount)

theorem span_ne {c : UInt8} {s t : Bytes} (h : c ∉ s) :
    (s ++ c :: t).dropWhile (· ≠ c) = c :: t ∧ (s ++ c :: t).takeWhile (· ≠ c) = s := by
  have hne : ∀ b ∈ s, decide (b ≠ c) = true := fun b hb => decide_eq_true fun e => h (e ▸ hb)
  rw [List.dropWhile_append_of_pos hne, List.takeWhile_append_of_pos hne]
  simp

theorem hashTag_of_tagged {key tag : Bytes} (h : Tagged key tag) : hashTag key = tag := by
  obtain ⟨before, behind, rfl, hbefore, htag⟩ := h
  rw [hashTag, (span_ne hbefore).1]
  exact (if_pos (by simp)).trans (span_ne htag).2

theorem hashTag_of_untagged {key : Bytes} (h : ∀ tag, ¬ Tagged key tag) : hashTag key = key := by
  by_cases hopen : 0x7b ∈ key
  · obtain ⟨before, rest, rfl, hbefore⟩ := List.eq_append_cons_of_mem hopen
    rw [hashTag, (span_ne hbefore).1]
    refine if_neg fun hclose => ?_
    obtain ⟨tag, behind, rfl, htag⟩ := List.eq_append_cons_of_mem hclose
    exact h tag ⟨before, behind, rfl, hbefore, htag⟩
  · have hnil : key.dropWhile (· ≠ 0x7b) = [] :=
      List.dropWhile_eq_nil_iff.mpr fun b hb => decide_eq_true fun e => hopen (e ▸ hb)
    rw [hashTag, hnil]

/-- `Slot` takes an empty tag for a tag, and its checksum is 0. -/
theorem hash_tag_rule_iff (key : Bytes) :
    (HashTagRule key ↔ (Tagged key [] → (crc16 key).toNat % slotCount = 0)) ∧
      ∀ key' tag, tag ≠ [] → Tagged key tag → Tagged key' tag → slotOf key = slotOf key' := by
  have hslot : ∀ {k tag}, Tagged k tag → slotOf k = (crc16 tag).toNat % slotCount := fun h => by
    rw [slotOf, hashTag_of_tagged h]
  refine ⟨⟨fun h hempty => ?_, fun h => ⟨fun tag _ => hslot, fun hnone => ?_⟩⟩,
    fun key' tag _ hk hk' => (hslot hk).trans (hslot hk').symm⟩
  · have hother : ∀ tag, tag ≠ [] → ¬ Tagged key tag := fun tag hne htag =>
      hne ((hashTag_of_tagged htag).symm.trans (hashTag_of_tagged hempty))
    rw [← h.2 hother, hslot hempty]
    rfl
  · by_cases hempty : Tagged key []
    · rw [h hempty, hslot hempty]
      rfl
    · rw [slotOf, hashTag_of_untagged fun tag htag => ?_]
      by_cases hne : tag = []
      · exact hempty (hne ▸ htag)
      · exact hnone tag hne htag

theorem empty_tag_hashed_as_nothing : ¬ HashTagRule "\x7b\x7dab" := by
  intro h
  have htag : Tagged "\x7b\x7dab" [] := ⟨[], "ab", by decide, by decide, by decide⟩
  have hrule := h.2 fun tag hne ht => hne ((hashTag_of_tagged ht).symm.trans (hashTag_of_tagged htag))
  exact absurd hrule (by decide +kernel)

/-! ## Redirects -/

inductive RedirectType
  | moved
  | ask
  deriving DecidableEq

/-- `RedirectError`. -/
structure RedirectError where
  type : RedirectType
  slot : Nat
  address : Bytes
  deriving DecidableEq

def RedirectType.text : RedirectType → Bytes
  | .moved => "MOVED"
  | .ask => "ASK"

/-- `RedirectError.Error`. -/
def RedirectError.text (e : RedirectError) : Bytes :=
  e.type.text ++ " " ++ decimal e.slot ++ " " ++ e.address

def crossSlot : Bytes := "CROSSSLOT Keys in request don't hash to the same slot"

namespace State

def addrOf (st : State) (id : Bytes) : Bytes := (st.nodes[id]?).elim [] (·.addr)

/-- `CheckSlotRedirect`. -/
def checkSlotRedirect (st : State) (key : Bytes) : Option RedirectError :=
  let slot := slotOf key
  match st.slots slot with
  | none => none
  | some owner =>
    if owner ≠ st.myself then some ⟨.moved, slot, st.addrOf owner⟩
    else
      match st.migrating slot with
      | none => none
      | some target =>
        if target = [] then none
        -- the ID stands in for an address that is not known
        else if st.addrOf target ≠ [] then some ⟨.ask, slot, st.addrOf target⟩
        else some ⟨.ask, slot, target⟩

/-- The loop over the keys: the first redirect is kept, and MOVED ends it. -/
def firstRedirect (st : State) (movedError : Option RedirectError) : List Bytes → Option RedirectError
  | [] => movedError
  | key :: keys =>
    match st.checkSlotRedirect key with
    | none => st.firstRedirect movedError keys
    | some redirect =>
      if redirect.type = .moved then some (movedError.getD redirect)
      else st.firstRedirect (some (movedError.getD redirect)) keys

/-- The error that is returned, or `none` if the command goes on. -/
def checkAndHandleMultiKeyRedirect (st : State) (keys : List Bytes) : Option Bytes :=
  match st.firstRedirect none keys with
  | none => none
  | some e => if e.type = .ask ∧ 1 < keys.length then some crossSlot else some e.text

/-- A handler: the check, and behind it what the command does. -/
def runMultiKey {σ : Type} (st : State) (keys : List Bytes) (body : σ → Resp × σ) (db : σ) : Resp × σ :=
  match st.checkAndHandleMultiKeyRedirect keys with
  | some text => (.error text, db)
  | none => body db

/-! ## The rule -/

/-- All keys hash to one slot, which belongs to this node and is not being migrated away. -/
def Local (st : State) (keys : List Bytes) : Prop :=
  (∀ k ∈ keys, ∀ k' ∈ keys, slotOf k = slotOf k') ∧
    ∀ k ∈ keys, st.slots (slotOf k) = some st.myself ∧ st.migrating (slotOf k) = none

instance (st : State) (keys : List Bytes) : Decidable (st.Local keys) :=
  inferInstanceAs (Decidable (_ ∧ _))

/-- An error that sends the client elsewhere. -/
def IsRouting (text : Bytes) : Prop := text = crossSlot ∨ ∃ e : RedirectError, text = e.text

/-- **Routing.** Keys that this node may not serve together end in a routing error, and nothing is written. -/
def Routed (st : State) (keys : List Bytes) : Prop :=
  ¬ st.Local keys → ∀ (σ : Type) (body : σ → Resp × σ) (db : σ),
    ∃ text, IsRouting text ∧ st.runMultiKey keys body db = (.error text, db)

/-- The key belongs to another node, or its slot is on the way to one that is named. -/
def Redirected (st : State) (key : Bytes) : Prop :=
  st.slots (slotOf key) ≠ some st.myself ∨ ∃ target, st.migrating (slotOf key) = some target ∧ target ≠ []

variable {keys : List Bytes} {st : State}

theorem checkSlotRedirect_eq_none {key : Bytes} (hassigned : ∃ id, st.slots (slotOf key) = some id) :
    st.checkSlotRedirect key = none ↔ ¬ st.Redirected key := by
  obtain ⟨owner, howner⟩ := hassigned
  rw [checkSlotRedirect, Redirected, howner]
  dsimp only
  by_cases hmine : owner = st.myself
  · rw [if_neg (not_not_intro hmine), hmine]
    cases hmigrating : st.migrating (slotOf key) with
    | none => simp
    | some target =>
      dsimp only
      by_cases htarget : target = []
      · simp [htarget]
      · rw [if_neg htarget]
        simp only [htarget, ne_eq, not_true_eq_false, Option.some.injEq, exists_eq_left',
          not_false_eq_true, or_true, iff_false]
        split <;> exact Option.some_ne_none _
  · simp [hmine]

/-- The loop finds a redirect if there is one. -/
theorem firstRedirect_eq_none {movedError : Option RedirectError} :
    st.firstRedirect movedError keys = none ↔
      movedError = none ∧ ∀ k ∈ keys, st.checkSlotRedirect k = none := by
  induction keys generalizing movedError with
  | nil => simp [firstRedirect]
  | cons key keys ih =>
    rw [firstRedirect]
    cases hkey : st.checkSlotRedirect key with
    | none =>
      rw [ih]
      simp [hkey]
    | some redirect =>
      dsimp only
      split
      · simp [hkey]
      · rw [ih]
        simp [hkey]

theorem checkAndHandleMultiKeyRedirect_eq_none :
    st.checkAndHandleMultiKeyRedirect keys = none ↔ ∀ k ∈ keys, st.checkSlotRedirect k = none := by
  have hloop : st.firstRedirect none keys = none ↔ ∀ k ∈ keys, st.checkSlotRedirect k = none := by
    rw [firstRedirect_eq_none]
    simp
  rw [← hloop, checkAndHandleMultiKeyRedirect]
  cases st.firstRedirect none keys with
  | none => simp
  | some e =>
    dsimp only
    split <;> simp

theorem isRouting_of_check {text : Bytes} (h : st.checkAndHandleMultiKeyRedirect keys = some text) :
    IsRouting text := by
  rw [checkAndHandleMultiKeyRedirect] at h
  split at h
  · cases h
  · next e _ =>
    split at h
    · exact .inl (Option.some.inj h).symm
    · exact .inr ⟨e, (Option.some.inj h).symm⟩

end State

/-- **Multi-key routing.** With every slot assigned, the rule is enforced if and only if the keys may be served
here together, or one of them is redirected. -/
theorem multi_key_routing {st : State} (hassigned : ∀ slot < slotCount, ∃ id, st.slots slot = some id)
    (keys : List Bytes) : st.Routed keys ↔ st.Local keys ∨ ∃ k ∈ keys, st.Redirected k := by
  have hnone : st.checkAndHandleMultiKeyRedirect keys = none ↔ ∀ k ∈ keys, ¬ st.Redirected k := by
    rw [State.checkAndHandleMultiKeyRedirect_eq_none]
    exact forall₂_congr fun k _ => State.checkSlotRedirect_eq_none (hassigned _ (slotOf_lt k))
  constructor
  · intro hrouted
    by_contra hneither
    obtain ⟨hnot, hall⟩ := not_or.mp hneither
    -- the check passes, so a command that answers OK answers OK
    have hpass := hnone.mpr fun k hk hred => hall ⟨k, hk, hred⟩
    obtain ⟨text, -, hrun⟩ := hrouted hnot Unit (fun u => (.ok, u)) ()
    rw [State.runMultiKey, hpass] at hrun
    cases (Prod.mk.inj hrun).1
  · intro hok hnot σ body db
    obtain ⟨k, hk, hred⟩ := hok.resolve_left hnot
    cases hcheck : st.checkAndHandleMultiKeyRedirect keys with
    | none => exact absurd hred (hnone.mp hcheck k hk)
    | some text =>
      refine ⟨text, State.isRouting_of_check hcheck, ?_⟩
      rw [State.runMultiKey, hcheck]

theorem newCluster_assigned (myself addr : Bytes) (now : Int) (slot : Nat) (h : slot < slotCount) :
    ∃ id, (State.newCluster myself addr now).slots slot = some id :=
  ⟨myself, if_pos ⟨Nat.zero_le slot, by unfold slotCount at *; omega⟩⟩

theorem multi_key_routing_tagged :
    (State.newCluster [1] [10] 0).Routed [ascii "\x7bu\x7d:a", ascii "\x7bu\x7d:b"] := by
  apply (multi_key_routing (newCluster_assigned [1] [10] 0) _).mpr
  exact .inl (by decide +kernel)

/-- The keys `a` and `b` are in different slots, and a node that owns both executes the command. -/
theorem cross_slot_executed : ¬ (State.newCluster [1] [10] 0).Routed [ascii "a", ascii "b"] := by
  intro hrouted
  obtain ⟨text, -, hrun⟩ := hrouted (by decide +kernel) Unit (fun u => (.ok, u)) ()
  cases (Prod.mk.inj hrun).1

end BoltDB.Cluster.Topology
