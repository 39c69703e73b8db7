import Breadboard.Data.Merge
import Breadboard.SerializeJson.RoundTrip

/-!
# bb_data - apply

A body goes through the parser registered for its format, is scattered over a seeded
snapshot, and the snapshot is handed to the hook of the binding.  A PATCH seeds the snapshot
with `gather`, a POST with zeros.  The outcome carries the memory of each call of the hook.

Main results:

- Theorem `dataApply_of_arrives`: what the hook is called with.
- Theorem `merges_of_exact`: on an exact body the hook gets the overlay of the seed.
-/

namespace Breadboard
namespace Data

open Foundations Serialize SerializeJson
open Foundations.JsonText (Json Event IsText LaxNumber RfcNumber)

/-- `bb_format_t`. -/
inductive Format where
  | none
  | json
  | console
  | logfmt
  deriving Repr, DecidableEq

/-- `bb_data_apply_mode_t`. -/
inductive ApplyMode where
  | post
  | patch
  deriving Repr, DecidableEq

/-- `bb_serialize_desc_t`. -/
structure Desc where
  fields : List Field
  snapSize : Nat

/-- `bb_data_slot_t`: the gather hook and the apply hook get the address of a snapshot. -/
structure Slot where
  desc : Option Desc
  gather : Nat → Mem → BbErr × Mem
  apply : Option (Nat → Mem → BbErr)

/-- `bb_serialize_parse_fn`, from a body and a scratch. -/
abbrev ParseFn := Bytes → Nat → Nat → Except BbErr Cursor

/-- The bindings by their key, and the parsers by their format. -/
structure Registries where
  lookup : Bytes → Option Slot
  getParse : Format → Option ParseFn

/-- `bb_data_apply_req_t`. -/
structure ApplyReq where
  fmt : Format
  key : Bytes
  body : Bytes
  parseScratch : Nat
  parseScratchCap : Nat
  mode : ApplyMode
  dstScratch : Nat
  dstScratchCap : Nat

/-- What a call answers, and the memory that each call of the apply hook found. -/
structure Outcome where
  rc : BbErr
  applied : List Mem

/-- `bb_data_parse`: the binding and the source that read the body. -/
def dataParse (regs : Registries) (req : ApplyReq) : Except BbErr (Slot × Cursor) :=
  if req.parseScratch = 0 then .error .invalidArg
  else
    match regs.lookup req.key with
    | none => .error .notFound
    | some slot =>
      match regs.getParse req.fmt with
      | none => .error .unsupported
      | some parse =>
        if slot.apply.isNone then .error .unsupported
        else
          match parse req.body req.parseScratch req.parseScratchCap with
          | .error e => .error e
          | .ok src => .ok (slot, src)

/-- The snapshot before the body: gathered, or `memset` to zero. -/
def seed (slot : Slot) (desc : Desc) (req : ApplyReq) (m : Mem) : BbErr × Mem :=
  match req.mode with
  | .patch => slot.gather req.dstScratch m
  | .post => (.ok, storeBytes m req.dstScratch (List.replicate desc.snapSize 0))

/-- `bb_data_commit`. -/
def dataCommit (P : Program) (parsed : Slot × Cursor) (req : ApplyReq) (m : Mem) : Outcome :=
  if req.dstScratch = 0 then ⟨.invalidArg, []⟩
  else
    match parsed.1.desc with
    | none => ⟨.unsupported, []⟩
    | some desc =>
      if req.dstScratchCap < desc.snapSize then ⟨.noSpace, []⟩
      else
        let seeded := seed parsed.1 desc req m
        if seeded.1 ≠ .ok then ⟨seeded.1, []⟩
        else
          let r := populate P populateSource desc.fields req.dstScratch (.start seeded.2 parsed.2)
          if r.1 ≠ .ok then ⟨r.1, []⟩
          else
            match parsed.1.apply with
            | none => ⟨.unsupported, []⟩
            | some hook => ⟨hook req.dstScratch r.2.mem, [r.2.mem]⟩

/-- `bb_data_apply`. -/
def dataApply (P : Program) (regs : Registries) (req : ApplyReq) (m : Mem) : Outcome :=
  if req.dstScratch = 0 then ⟨.invalidArg, []⟩
  else
    match dataParse regs req with
    | .error e => ⟨e, []⟩
    | .ok parsed => dataCommit P parsed req m

/-! ## What the hook is called with -/

section Apply

variable (P : Program) (tgt : Target) (sizes : TokSizes) (lib : Libc) (cfg : Kconfig)
  (tokCfg : TokKconfig)

/--
A body with this value gets to the hook: it is within the limits and the scratch, the snapshot
has room, and the seed succeeds.
-/
structure Arrives (slot : Slot) (desc : Desc) (req : ApplyReq) (m : Mem) (j : Json) : Prop where
  recordable : ∃ arenaCap,
    ScratchLeaves tgt sizes tokCfg req.parseScratch req.parseScratchCap arenaCap ∧
      Recordable cfg tokCfg.poolDefaultCap arenaCap req.body j
  dst : req.dstScratch ≠ 0
  room : desc.snapSize ≤ req.dstScratchCap
  seeded : (seed slot desc req m).1 = .ok

/-- A binding with a descriptor that populate accepts and an apply hook, for a JSON body. -/
structure Bound (regs : Registries) (req : ApplyReq) (slot : Slot) (desc : Desc)
    (hook : Nat → Mem → BbErr) : Prop where
  lookup_eq : regs.lookup req.key = some slot
  parse_eq : regs.getParse req.fmt = some (parseBytes tgt sizes lib cfg tokCfg)
  desc_eq : slot.desc = some desc
  apply_eq : slot.apply = some hook
  check_ok : populateCheckFields P maxDepth desc.fields = .ok

variable {P tgt sizes lib cfg tokCfg} {regs : Registries} {req : ApplyReq} {slot : Slot}
  {desc : Desc} {hook : Nat → Mem → BbErr}

theorem dataParse_of_bound (hbound : Bound P tgt sizes lib cfg tokCfg regs req slot desc hook) :
    dataParse regs req =
      match parseBytes tgt sizes lib cfg tokCfg req.body req.parseScratch req.parseScratchCap with
      | .error e => .error e
      | .ok src => .ok (slot, src) := by
  unfold dataParse
  rw [hbound.lookup_eq, hbound.parse_eq]
  dsimp only
  rw [hbound.apply_eq, Option.isNone_some, if_neg Bool.false_ne_true]
  split
  · rename_i hnull
    unfold parseBytes
    rw [if_pos hnull]
  · rfl

/-- A body that arrives is scattered over the seed, and the hook is called once. -/
theorem dataApply_of_arrives (hbound : Bound P tgt sizes lib cfg tokCfg regs req slot desc hook)
    {m : Mem} {j : Json} (h : Arrives tgt sizes cfg tokCfg slot desc req m j) :
    dataApply P regs req m =
      ⟨hook req.dstScratch (graftFields P lib cfg maxDepth desc.fields (membersOf j) req.dstScratch
          (seed slot desc req m).2),
        [graftFields P lib cfg maxDepth desc.fields (membersOf j) req.dstScratch
          (seed slot desc req m).2]⟩ := by
  obtain ⟨arenaCap, hscratch, hrecordable⟩ := h.recordable
  obtain ⟨src, hparse⟩ := (parseBytes_isOk_iff lib cfg tgt sizes tokCfg req.body req.parseScratch
    req.parseScratchCap).mpr ⟨arenaCap, j, hscratch, hrecordable⟩
  have hsrc := parseBytes_pool lib cfg tgt sizes tokCfg hparse hrecordable.text hrecordable.limits
  obtain ⟨hok, hmem, -⟩ := @populate_graft P lib cfg desc.fields hbound.check_ok j
    hrecordable.limits.1 req.dstScratch (seed slot desc req m).2
  unfold dataApply
  rw [if_neg h.dst, dataParse_of_bound hbound, hparse, hsrc]
  dsimp only
  unfold dataCommit
  dsimp only
  rw [if_neg h.dst, hbound.desc_eq]
  dsimp only
  rw [if_neg (Nat.not_lt.mpr h.room), if_neg (not_not.mpr h.seeded), if_neg (not_not.mpr hok),
    hbound.apply_eq, hmem]

/-- When nothing arrives the hook is not called. -/
theorem applied_of_not_arrives (hbound : Bound P tgt sizes lib cfg tokCfg regs req slot desc hook)
    {m : Mem} (h : ∀ j, ¬ Arrives tgt sizes cfg tokCfg slot desc req m j) :
    (dataApply P regs req m).applied = [] := by
  unfold dataApply
  split
  · rfl
  rename_i hdst
  rw [dataParse_of_bound hbound]
  cases hparse : parseBytes tgt sizes lib cfg tokCfg req.body req.parseScratch req.parseScratchCap with
  | error e => rfl
  | ok src =>
    obtain ⟨arenaCap, j, hscratch, hrecordable⟩ := (parseBytes_isOk_iff lib cfg tgt sizes tokCfg
      req.body req.parseScratch req.parseScratchCap).mp ⟨src, hparse⟩
    dsimp only
    unfold dataCommit
    dsimp only
    rw [if_neg hdst, hbound.desc_eq]
    dsimp only
    split
    · rfl
    rename_i hroom
    split
    · rfl
    rename_i hseeded
    exact absurd ⟨⟨arenaCap, hscratch, hrecordable⟩, hdst, Nat.not_lt.mp hroom, not_not.mp hseeded⟩
      (h j)

/-! ## The overlay of the seed -/

variable (P tgt sizes lib cfg tokCfg slot desc req) in
/--
The hook is called at most once, and exactly when a JSON text arrives; it gets the seed
overlaid with the text.
-/
structure Merges (regs : Registries) (m : Mem) : Prop where
  atMostOnce : (dataApply P regs req m).applied.length ≤ 1
  called_iff : (dataApply P regs req m).applied ≠ [] ↔
    ∃ j, IsText RfcNumber req.body (j.events []) ∧ Arrives tgt sizes cfg tokCfg slot desc req m j
  overlaid : ∀ j, IsText RfcNumber req.body (j.events []) →
    ∀ snap ∈ (dataApply P regs req m).applied,
      snap = overlayFields P lib maxDepth desc.fields (membersOf j) req.dstScratch
        (seed slot desc req m).2

variable (tgt sizes cfg tokCfg slot desc req) in
/-- No number of a body that arrives has a superfluous leading zero. -/
def NumbersStrict (m : Mem) : Prop :=
  ∀ j, Arrives tgt sizes cfg tokCfg slot desc req m j →
    ∀ key n, Event.num key n ∈ j.events [] → RfcNumber n

variable (P tgt sizes lib cfg tokCfg slot desc req) in
/-- What a body that arrives says is exact for the seed. -/
def ExactBody (m : Mem) : Prop :=
  ∀ j, Arrives tgt sizes cfg tokCfg slot desc req m j →
    ExactFields P lib maxDepth desc.fields (membersOf j) req.dstScratch (seed slot desc req m).2

/-- A body that arrives has one value. -/
theorem Arrives.eq_of_text {m : Mem} {j j' : Json}
    (h : Arrives tgt sizes cfg tokCfg slot desc req m j)
    (htext : IsText LaxNumber req.body (j'.events [])) : j' = j := by
  obtain ⟨arenaCap, -, hrecordable⟩ := h.recordable
  exact JsonText.events_injective (htext.unique hrecordable.text)

theorem Arrives.legible {m : Mem} {j : Json} (h : Arrives tgt sizes cfg tokCfg slot desc req m j) :
    Legible cfg (j.events []) := by
  obtain ⟨arenaCap, -, hrecordable⟩ := h.recordable
  obtain ⟨w, s, w', -, -, hreads, -⟩ := hrecordable.text
  refine fun key n hn => ⟨hreads.num_mem hn, ?_⟩
  have hfit : (Event.num key n).size ≤ cfg.scratchMaxBytes := hrecordable.limits.2 _ hn
  exact Nat.le_trans (Nat.le_add_left _ _) hfit

/-- A number of a JSON text has no superfluous leading zero, and conversely. -/
theorem isText_rfc_iff {body : Bytes} {evs : List Event} :
    IsText RfcNumber body evs ↔
      IsText LaxNumber body evs ∧ ∀ key n, Event.num key n ∈ evs → RfcNumber n := by
  constructor
  · intro h
    refine ⟨h.lax, fun key n hn => ?_⟩
    obtain ⟨w, s, w', -, -, hreads, -⟩ := h
    exact hreads.num_mem hn
  · rintro ⟨⟨w, s, w', hbody, hw, hreads, hw'⟩, hnum⟩
    exact ⟨w, s, w', hbody, hw, hreads.change fun key n hn _ => hnum key n hn, hw'⟩

/-- The hook gets the overlay of the seed with what the text says. -/
theorem overlaid_of_exact (hbound : Bound P tgt sizes lib cfg tokCfg regs req slot desc hook)
    {m : Mem} (hexact : ExactBody P tgt sizes lib cfg tokCfg req slot desc m) {j : Json}
    (h : Arrives tgt sizes cfg tokCfg slot desc req m j) :
    (dataApply P regs req m).applied =
      [overlayFields P lib maxDepth desc.fields (membersOf j) req.dstScratch
        (seed slot desc req m).2] := by
  have hlegible : Legible cfg (JsonText.membersEvents (membersOf j)) := by
    cases j with
    | obj members => exact fun key n hn => h.legible key n (List.mem_cons_of_mem _ hn)
    | _ =>
      intro key n hn
      cases List.mem_singleton.mp hn
  rw [dataApply_of_arrives hbound h,
    graftFields_eq_overlay maxDepth desc.fields (membersOf j) req.dstScratch _ hlegible (hexact j h)]

/--
On a body without superfluous leading zeros whose values the getters carry over exactly, the
hook gets the overlay of the seed; a superfluous zero is always one call too many.
-/
theorem merges_of_exact (hbound : Bound P tgt sizes lib cfg tokCfg regs req slot desc hook)
    (m : Mem) :
    (NumbersStrict tgt sizes cfg tokCfg req slot desc m →
      ExactBody P tgt sizes lib cfg tokCfg req slot desc m →
        Merges P tgt sizes lib cfg tokCfg req slot desc regs m) ∧
    (Merges P tgt sizes lib cfg tokCfg req slot desc regs m →
      NumbersStrict tgt sizes cfg tokCfg req slot desc m) := by
  constructor
  · intro hstrict hexact
    by_cases harrives : ∃ j, Arrives tgt sizes cfg tokCfg slot desc req m j
    · obtain ⟨j, h⟩ := harrives
      obtain ⟨arenaCap, -, hrecordable⟩ := h.recordable
      have happlied := overlaid_of_exact hbound hexact h
      refine ⟨?_, ⟨fun _ => ⟨j, isText_rfc_iff.mpr ⟨hrecordable.text, hstrict j h⟩, h⟩, ?_⟩, ?_⟩
      · rw [happlied]
        exact Nat.le_refl 1
      · rw [happlied]
        exact fun _ => List.cons_ne_nil _ _
      · intro j' htext snap hsnap
        rw [happlied] at hsnap
        rw [h.eq_of_text htext.lax]
        exact List.mem_singleton.mp hsnap
    · have happlied := applied_of_not_arrives hbound fun j h => harrives ⟨j, h⟩
      refine ⟨?_, ⟨fun h => absurd happlied h, ?_⟩, ?_⟩
      · rw [happlied]
        exact Nat.zero_le 1
      · rintro ⟨j, -, h⟩
        exact absurd ⟨j, h⟩ harrives
      · rw [happlied]
        exact nofun
  · intro hmerges j h key n hn
    have hcalled : (dataApply P regs req m).applied ≠ [] := by
      rw [dataApply_of_arrives hbound h]
      exact List.cons_ne_nil _ _
    obtain ⟨j', htext, -⟩ := hmerges.called_iff.mp hcalled
    rw [← h.eq_of_text htext.lax] at hn
    exact (isText_rfc_iff.mp htext).2 key n hn

end Apply

/-! ## A short string over a longer one -/

/-- One `BB_TYPE_STR` field of eight bytes with the key `s`. -/
def oneString : Desc where
  fields := [{
    key := [115]
    type := .str
    offset := 0
    present := none
    children := 0
    maxLen := 8
    maxItems := 0
    elemType := .i64
    elemSize := 0
    cardinality := .fixed
    refKey := [] }]
  snapSize := 8

/-- A binding that gathers `hello`. -/
def helloSlot : Slot where
  desc := some oneString
  gather := fun dst m => (.ok, storeBytes m dst [104, 101, 108, 108, 111, 0, 0, 0])
  apply := some fun _ _ => .ok

/-- Sizes on a 32-bit target. -/
def wordSizes : TokSizes where
  sizeofRecorder := 64
  sizeofPopulateCtx := 88
  sizeofTok := 32
  sizeofRecorder_pos := by decide
  sizeofPopulateCtx_pos := by decide
  sizeofTok_pos := by decide

/-- The binding is the only one, and the parser that of JSON. -/
def helloRegs : Registries where
  lookup := fun _ => some helloSlot
  getParse := fun _ => some (parseBytes .ilp32 wordSizes zeroFloats .default .default)

/-- A request whose body gives the field the string `hi`. -/
def hiReq (mode : ApplyMode) : ApplyReq where
  fmt := .json
  key := [107]
  body := [123, 34, 115, 34, 58, 34, 104, 105, 34, 125]
  parseScratch := 4096
  parseScratchCap := 4096
  mode := mode
  dstScratch := 64
  dstScratchCap := 8

/-- The value of that body. -/
def hiBody : Json := .obj [([115], .str [104, 105])]

theorem hi_bound (mode : ApplyMode) : Bound wordProgram .ilp32 wordSizes zeroFloats .default .default
    helloRegs (hiReq mode) helloSlot oneString (fun _ _ => .ok) :=
  ⟨rfl, rfl, rfl, rfl, by decide⟩

example : Kconfig.default.reading (hiReq .post).body = some (hiBody.events []) := by decide +kernel

theorem hi_text (mode : ApplyMode) :
    IsText LaxNumber (hiReq mode).body (hiBody.events []) ∧
      WithinLimits Kconfig.default (hiBody.events []) := by
  rw [← reading_eq_some_iff]
  show Kconfig.default.reading [123, 34, 115, 34, 58, 34, 104, 105, 34, 125] = _
  decide +kernel

theorem hi_arrives (mode : ApplyMode) (m : Mem) :
    Arrives .ilp32 wordSizes .default .default helloSlot oneString (hiReq mode) m hiBody := by
  have hkeys : KeysFit (hiBody.events []) := by
    unfold KeysFit
    decide
  have hescaped : escapedBytes Kconfig.default (hiReq mode).body = 0 := by
    show escapedBytes Kconfig.default [123, 34, 115, 34, 58, 34, 104, 105, 34, 125] = 0
    decide +kernel
  have hcarve : (carveScratch .ilp32 wordSizes .default 4096 4096).isSome = true := by
    decide +kernel
  obtain ⟨arenaCap, hcarve⟩ := Option.isSome_iff_exists.mp hcarve
  refine ⟨⟨arenaCap, ⟨nofun, hcarve⟩, (hi_text mode).1, (hi_text mode).2, hkeys, ?_, ?_⟩, nofun,
    Nat.le_refl 8, ?_⟩
  · decide
  · rw [hescaped]
    exact Nat.zero_le _
  · cases mode <;> rfl

theorem merges_of_exact_post :
    Merges wordProgram .ilp32 wordSizes zeroFloats .default .default (hiReq .post) helloSlot
      oneString helloRegs (fun _ => 7) := by
  refine (merges_of_exact (hi_bound .post) (fun _ => 7)).1 (fun j hj => ?_) fun j hj => ?_
  · rw [← hj.eq_of_text (hi_text .post).1]
    intro key n hn
    simp [hiBody, Json.events, JsonText.membersEvents] at hn
  · rw [← hj.eq_of_text (hi_text .post).1]
    exact ⟨⟨by decide, fun _ => rfl⟩, trivial⟩

/-- A PATCH of `hello` with `hi` hands `hillo` to the hook. -/
theorem patch_keeps_tail :
    ¬ Merges wordProgram .ilp32 wordSizes zeroFloats .default .default (hiReq .patch) helloSlot
      oneString helloRegs (fun _ => 7) := by
  intro hclaim
  have htext : IsText RfcNumber (hiReq .patch).body (hiBody.events []) := by
    refine isText_rfc_iff.mpr ⟨(hi_text .patch).1, fun key n hn => ?_⟩
    simp [hiBody, Json.events, JsonText.membersEvents] at hn
  have happlied := dataApply_of_arrives (hi_bound .patch) (hi_arrives .patch fun _ => 7)
  have hsnap := hclaim.overlaid hiBody htext _ (by rw [happlied]; exact List.mem_singleton_self _)
  have hthird := congrFun hsnap 66
  revert hthird
  decide +kernel

end Data
end Breadboard
