import Mathlib.Data.Nat.Bitwise
import Breadboard.Core.Basics

/-!
# bb_lifecycle - service run-state authority

The service table, the reason intern table shared by every service, and the
public calls.  A call answers its status code and what it delivered: each
effective change is committed under the lock and then handed to the inline
observers, once to the asynchronous queue if any observer drains it, and to the
emit sink.

A service keeps one bit per interned reason, thirty-two to a word.  The pure
helpers guard the word index; inside the array their meaning is that of a set
of bit numbers.

Main results:

- Theorems `wordTest_wordSet` and `wordTest_wordClear`: one bit changes.
-/

namespace Breadboard
namespace Lifecycle

/-! ## Inhibit words -/

/-- The mask `1u << (bit % 32)`. -/
def bitMask (bit : UInt8) : UInt32 :=
  1 <<< (bit % 32).toUInt32

/-- `word_set`. -/
def wordSet (words : List UInt32) (bit : UInt8) : List UInt32 :=
  let idx := bit.toNat / 32
  if words.length ≤ idx then words
  else words.set idx (words.getD idx 0 ||| bitMask bit)

/-- `word_clear`. -/
def wordClear (words : List UInt32) (bit : UInt8) : List UInt32 :=
  let idx := bit.toNat / 32
  if words.length ≤ idx then words
  else words.set idx (words.getD idx 0 &&& ~~~ bitMask bit)

/-- `word_test`. -/
def wordTest (words : List UInt32) (bit : UInt8) : Bool :=
  let idx := bit.toNat / 32
  if words.length ≤ idx then false
  else words.getD idx 0 &&& bitMask bit ≠ 0

/-- `words_any_set`. -/
def wordsAnySet (words : List UInt32) : Bool :=
  words.any (· ≠ 0)

/-! ## Bits of one word -/

theorem toNat_bitMask (bit : UInt8) : (bitMask bit).toNat = 2 ^ (bit.toNat % 32) := by
  have hlt : bit.toNat % 32 < 32 := Nat.mod_lt _ (by decide)
  have hmod : (bit % 32).toUInt32.toNat = bit.toNat % 32 := by simp
  rw [bitMask, UInt32.toNat_shiftLeft, hmod, Nat.mod_eq_of_lt hlt, UInt32.toNat_one,
    Nat.one_shiftLeft]
  exact Nat.mod_eq_of_lt (Nat.pow_lt_pow_right (by decide) hlt)

theorem wordTest_eq_testBit (words : List UInt32) (bit : UInt8) :
    wordTest words bit = (words.getD (bit.toNat / 32) 0).toNat.testBit (bit.toNat % 32) := by
  unfold wordTest
  dsimp only
  split
  · rename_i hout
    simp [List.getElem?_eq_none hout]
  · rw [Bool.eq_iff_iff, decide_eq_true_iff, Ne, ← UInt32.toNat_inj, UInt32.toNat_and,
      toNat_bitMask, Nat.and_two_pow]
    cases (words.getD (bit.toNat / 32) 0).toNat.testBit (bit.toNat % 32) <;> simp

/-- Bit numbers of one word are equal exactly when they share their place in it. -/
theorem bit_eq_iff {i j : UInt8} (hword : j.toNat / 32 = i.toNat / 32) :
    i.toNat % 32 = j.toNat % 32 ↔ i = j := by
  rw [← UInt8.toNat_inj]
  omega

@[simp] theorem length_wordSet (words : List UInt32) (bit : UInt8) :
    (wordSet words bit).length = words.length := by
  unfold wordSet
  dsimp only
  split <;> simp

@[simp] theorem length_wordClear (words : List UInt32) (bit : UInt8) :
    (wordClear words bit).length = words.length := by
  unfold wordClear
  dsimp only
  split <;> simp

/-! ## Words as sets of bits -/

theorem wordTest_wordSet {words : List UInt32} {i : UInt8} (hin : i.toNat / 32 < words.length)
    (j : UInt8) : wordTest (wordSet words i) j = (decide (i = j) || wordTest words j) := by
  rw [wordTest_eq_testBit, wordTest_eq_testBit, wordSet]
  rw [if_neg (Nat.not_le.mpr hin)]
  by_cases hword : j.toNat / 32 = i.toNat / 32
  · rw [hword]
    simp only [List.getD_eq_getElem?_getD, List.getElem?_set_self hin, Option.getD_some,
      UInt32.toNat_or, toNat_bitMask, Nat.testBit_or, Nat.testBit_two_pow]
    rw [Bool.or_comm]
    congr 2
    exact propext (bit_eq_iff hword)
  · have hne : i ≠ j := fun h => hword (by rw [h])
    simp [hne, List.getElem?_set_ne (Ne.symm hword)]

theorem wordTest_wordClear (words : List UInt32) (i j : UInt8) :
    wordTest (wordClear words i) j = (!decide (i = j) && wordTest words j) := by
  rw [wordTest_eq_testBit, wordTest_eq_testBit, wordClear]
  by_cases hword : j.toNat / 32 = i.toNat / 32
  · split
    · rename_i hout
      rw [hword]
      simp [List.getElem?_eq_none hout]
    rename_i hin
    have hlt : j.toNat % 32 < 32 := Nat.mod_lt _ (by decide)
    have hpow : 2 ^ (i.toNat % 32) < 2 ^ 32 :=
      Nat.pow_lt_pow_right (by decide) (Nat.mod_lt _ (by decide))
    have hcompl : UInt32.size - 1 - 2 ^ (i.toNat % 32) = 2 ^ 32 - (2 ^ (i.toNat % 32) + 1) := by
      rw [Nat.sub_sub, Nat.add_comm 1]
      rfl
    rw [hword]
    simp only [List.getD_eq_getElem?_getD, List.getElem?_set_self (Nat.lt_of_not_le hin),
      Option.getD_some, UInt32.toNat_and, UInt32.toNat_not, toNat_bitMask, hcompl,
      Nat.testBit_and, Nat.testBit_two_pow_sub_succ hpow, Nat.testBit_two_pow]
    rw [Bool.and_comm, decide_eq_true hlt, Bool.true_and]
    congr 3
    exact propext (bit_eq_iff hword)
  · have hne : i ≠ j := fun h => hword (by rw [h])
    split
    · simp [hne]
    · simp [hne, List.getElem?_set_ne (Ne.symm hword)]

theorem wordTest_replicate_zero (n : Nat) (bit : UInt8) :
    wordTest (List.replicate n 0) bit = false := by
  rw [wordTest_eq_testBit]
  by_cases hlt : bit.toNat / 32 < n
  · simp [hlt]
  · simp [hlt]

/-- Bit numbers are bytes, so the words of at most eight are all reachable by one. -/
theorem wordsAnySet_iff {words : List UInt32} (hlen : words.length ≤ 8) :
    wordsAnySet words = true ↔ ∃ bit, wordTest words bit = true := by
  constructor
  · intro hany
    obtain ⟨w, hw, hne⟩ := List.any_eq_true.mp hany
    obtain ⟨idx, hidx, rfl⟩ := List.getElem_of_mem hw
    have hpos : (words[idx]).toNat ≠ 0 := by
      intro hzero
      exact (of_decide_eq_true hne) (UInt32.toNat_inj.mp hzero)
    obtain ⟨k, hk⟩ := Nat.exists_testBit_of_ne_zero hpos
    have hk32 : k < 32 := by
      by_contra hge
      have hsmall : (words[idx]).toNat < 2 ^ k :=
        Nat.lt_of_lt_of_le (words[idx]).toNat_lt
          (Nat.pow_le_pow_right (by decide) (Nat.le_of_not_lt hge))
      rw [Nat.testBit_lt_two_pow hsmall] at hk
      exact absurd hk (by simp)
    have hbit : (UInt8.ofNat (idx * 32 + k)).toNat = idx * 32 + k :=
      UInt8.toNat_ofNat_of_lt' (by show idx * 32 + k < 256; omega)
    refine ⟨UInt8.ofNat (idx * 32 + k), ?_⟩
    rw [wordTest_eq_testBit, hbit, show (idx * 32 + k) / 32 = idx by omega,
      show (idx * 32 + k) % 32 = k by omega]
    simpa [List.getElem?_eq_getElem hidx] using hk
  · rintro ⟨bit, hbit⟩
    rw [wordTest_eq_testBit] at hbit
    have hlt : bit.toNat / 32 < words.length := by
      by_contra hge
      simp [List.getElem?_eq_none (Nat.le_of_not_lt hge)] at hbit
    refine List.any_eq_true.mpr ⟨words[bit.toNat / 32], List.getElem_mem hlt, ?_⟩
    refine decide_eq_true fun hzero => ?_
    simp [List.getElem?_eq_getElem hlt, hzero] at hbit

/-! ## Configuration and data model -/

/-- The Kconfig values of `bb_lifecycle` that its calls read. -/
structure LifecycleCfg where
  maxServices : Nat
  nameMax : Nat
  maxReasons : Nat
  reasonMax : Nat
  /-- Kconfig: `range 1 255`; a bit number fits `uint8_t`. -/
  maxReasons_pos : 1 ≤ maxReasons
  maxReasons_le : maxReasons ≤ 255

/-- The shipped defaults. -/
def LifecycleCfg.default : LifecycleCfg where
  maxServices := 8
  nameMax := 24
  maxReasons := 32
  reasonMax := 24
  maxReasons_pos := by decide
  maxReasons_le := by decide

/-- `BB_LIFECYCLE_INHIBIT_WORDS`. -/
def LifecycleCfg.inhibitWords (cfg : LifecycleCfg) : Nat :=
  (cfg.maxReasons + 31) / 32

/-- `bb_lifecycle_state_t`. -/
inductive State where
  | stopped
  | paused
  | running
  deriving Repr, DecidableEq

/-- `bb_lifecycle_service_t`. -/
structure Service where
  name : Bytes
  started : Bool
  inhibits : List UInt32
  version : UInt32
  deriving Repr, DecidableEq

/-- `bb_lifecycle_event_t`. -/
structure Event where
  svc : Int
  inhibits : UInt32
  version : UInt32
  oldState : State
  newState : State
  reason : UInt8
  deriving Repr, DecidableEq

/-- `BB_LIFECYCLE_REASON_NONE`. -/
def reasonNone : UInt8 := 0xFF

/-- Where one event went: an inline observer, the asynchronous queue, the emit sink. -/
inductive Delivery where
  | observer (slot : Nat) (evt : Event)
  | asyncNotify (evt : Event)
  | emit (evt : Event)
  deriving Repr, DecidableEq

/--
The component's static tables, each cut to its count.  An observer slot is its
`async` flag.
-/
structure Authority where
  services : List Service
  reasons : List Bytes
  observers : List Bool
  emitBound : Bool
  deriving Repr, DecidableEq

/-- The tables at boot, with the observers registered by then. -/
def Authority.init (observers : List Bool) (emitBound : Bool) : Authority where
  services := []
  reasons := []
  observers := observers
  emitBound := emitBound

/-- What a call answers. -/
structure Reply where
  rc : BbErr
  deliveries : List Delivery
  deriving Repr, DecidableEq

/-- An answer without any delivery. -/
def Reply.silent (rc : BbErr) : Reply where
  rc := rc
  deliveries := []

/-! ## Helpers -/

/-- `copy_truncated`: the bytes that fit before the terminator. -/
def copyTruncated (dstsize : Nat) (src : Bytes) : Bytes :=
  src.take (dstsize - 1)

/-- `compute_state`. -/
def computeState (started : Bool) (words : List UInt32) : State :=
  if !started then .stopped
  else if wordsAnySet words then .paused
  else .running

/-- `reason_lookup_locked`. -/
def reasonLookup (reasons : List Bytes) (truncated : Bytes) : Option UInt8 :=
  (reasons.findIdx? (· == truncated)).map UInt8.ofNat

/-- `reason_intern_locked`: the bit and the table after it, unless the table is full. -/
def reasonIntern (cfg : LifecycleCfg) (reasons : List Bytes) (reason : Bytes) :
    Option (UInt8 × List Bytes) :=
  let truncated := copyTruncated cfg.reasonMax reason
  match reasonLookup reasons truncated with
  | some bit => some (bit, reasons)
  | none =>
    if cfg.maxReasons ≤ reasons.length then none
    else some (UInt8.ofNat reasons.length, reasons ++ [copyTruncated cfg.reasonMax truncated])

namespace Authority

/-- The record behind a handle, when `svc_valid` accepts it. -/
def service? (s : Authority) (svc : Int) : Option Service :=
  if svc < 0 then none else s.services[svc.toNat]?

/-- The loop of `notify_all` from observer slot `i` on. -/
def notifyFrom (evt : Event) : Nat → List Bool → List Delivery
  | _, [] => []
  | i, async :: rest =>
    if async then notifyFrom evt (i + 1) rest
    else .observer i evt :: notifyFrom evt (i + 1) rest

/-- `notify_all`. -/
def notifyAll (s : Authority) (evt : Event) : List Delivery :=
  notifyFrom evt 0 s.observers ++
    (if s.observers.any id then [.asyncNotify evt] else []) ++
    (if s.emitBound then [.emit evt] else [])

/--
`commit_and_snapshot` and the delivery after it: the changed record gets the
next version and the event describes it.
-/
def commitAndSnapshot (s : Authority) (svc : Int) (sv : Service) (oldEff : State)
    (reason : UInt8) : Reply × Authority :=
  let newVersion := sv.version + 1
  let evt : Event :=
    { svc := svc
      inhibits := sv.inhibits.headD 0
      version := newVersion
      oldState := oldEff
      newState := computeState sv.started sv.inhibits
      reason := reason }
  ({ rc := .ok, deliveries := s.notifyAll evt },
    { s with services := s.services.set svc.toNat { sv with version := newVersion } })

/-! ## Public calls -/

/-- `bb_lifecycle_register`: the status and, on success, the handle. -/
def register (cfg : LifecycleCfg) (s : Authority) (name : Bytes) :
    BbErr × Option Int × Authority :=
  let name := copyTruncated cfg.nameMax name
  let count := s.services.length
  if s.services.any (fun sv => sv.name == name) then (.conflict, none, s)
  else if cfg.maxServices ≤ count then (.noSpace, none, s)
  else
    (.ok, some count, { s with services := s.services ++
      [{ name := copyTruncated cfg.nameMax name
         started := false
         inhibits := List.replicate cfg.inhibitWords 0
         version := 0 }] })

/-- `bb_lifecycle_start`. -/
def start (s : Authority) (svc : Int) : Reply × Authority :=
  match s.service? svc with
  | none => (.silent .notFound, s)
  | some sv =>
    let oldEff := computeState sv.started sv.inhibits
    if sv.started then (.silent .ok, s)
    else s.commitAndSnapshot svc { sv with started := true } oldEff reasonNone

/-- `bb_lifecycle_stop`: it also clears every inhibit. -/
def stop (s : Authority) (svc : Int) : Reply × Authority :=
  match s.service? svc with
  | none => (.silent .notFound, s)
  | some sv =>
    let oldEff := computeState sv.started sv.inhibits
    if !sv.started then (.silent .ok, s)
    else
      s.commitAndSnapshot svc
        { sv with started := false, inhibits := List.replicate sv.inhibits.length 0 }
        oldEff reasonNone

/-- `bb_lifecycle_pause_assert`. -/
def pauseAssert (cfg : LifecycleCfg) (s : Authority) (svc : Int) (reason : Bytes) :
    Reply × Authority :=
  match s.service? svc with
  | none => (.silent .notFound, s)
  | some sv =>
    let oldEff := computeState sv.started sv.inhibits
    match reasonIntern cfg s.reasons reason with
    | none => (.silent .noSpace, s)
    | some (bit, reasons) =>
      -- the reason stays interned on the idempotent path too
      let s := { s with reasons := reasons }
      if wordTest sv.inhibits bit then (.silent .ok, s)
      else
        s.commitAndSnapshot svc { sv with inhibits := wordSet sv.inhibits bit } oldEff bit

/-- `bb_lifecycle_pause_clear`: it only looks the reason up. -/
def pauseClear (cfg : LifecycleCfg) (s : Authority) (svc : Int) (reason : Bytes) :
    Reply × Authority :=
  match s.service? svc with
  | none => (.silent .notFound, s)
  | some sv =>
    let oldEff := computeState sv.started sv.inhibits
    match reasonLookup s.reasons (copyTruncated cfg.reasonMax reason) with
    | none => (.silent .ok, s)
    | some bit =>
      if !wordTest sv.inhibits bit then (.silent .ok, s)
      else
        s.commitAndSnapshot svc { sv with inhibits := wordClear sv.inhibits bit } oldEff bit

/-- `bb_lifecycle_state`. -/
def state (s : Authority) (svc : Int) : State :=
  match s.service? svc with
  | none => .stopped
  | some sv => computeState sv.started sv.inhibits

/-- `bb_lifecycle_version`. -/
def version (s : Authority) (svc : Int) : UInt32 :=
  match s.service? svc with
  | none => 0
  | some sv => sv.version

/-- `bb_lifecycle_inhibit_words`: the words copied out. -/
def inhibitWords (cfg : LifecycleCfg) (s : Authority) (svc : Int) (maxWords : Nat) : List UInt32 :=
  match s.service? svc with
  | none => []
  | some sv => sv.inhibits.take (min maxWords cfg.inhibitWords)

/-- `bb_lifecycle_reason_name`. -/
def reasonName (cfg : LifecycleCfg) (s : Authority) (bit : UInt8) : Bytes :=
  if cfg.maxReasons ≤ bit.toNat then [] else s.reasons.getD bit.toNat []

end Authority

/-! ## Calls as actions -/

/-- The mutating calls. -/
inductive Call where
  | register (name : Bytes)
  | start (svc : Int)
  | stop (svc : Int)
  | pauseAssert (svc : Int) (reason : Bytes)
  | pauseClear (svc : Int) (reason : Bytes)
  deriving Repr, DecidableEq

/-- The handle a call acts on. -/
def Call.svc? : Call → Option Int
  | .register _ => none
  | .start svc => some svc
  | .stop svc => some svc
  | .pauseAssert svc _ => some svc
  | .pauseClear svc _ => some svc

/-- The reason a call names. -/
def Call.reason? : Call → Option Bytes
  | .pauseAssert _ reason => some reason
  | .pauseClear _ reason => some reason
  | _ => none

/-- One call. -/
def Authority.call (cfg : LifecycleCfg) (s : Authority) : Call → Reply × Authority
  | .register name => (.silent (s.register cfg name).1, (s.register cfg name).2.2)
  | .start svc => s.start svc
  | .stop svc => s.stop svc
  | .pauseAssert svc reason => s.pauseAssert cfg svc reason
  | .pauseClear svc reason => s.pauseClear cfg svc reason

/-! ## Lemmas of the helpers -/

theorem copyTruncated_of_short {dstsize : Nat} {src : Bytes} (h : src.length < dstsize) :
    copyTruncated dstsize src = src :=
  List.take_of_length_le (by omega)

end Lifecycle
end Breadboard
