import Mathlib.Data.List.Nodup
import Breadboard.Lifecycle.Authority

/-!
# bb_lifecycle - what one call changes

A reason holds a service through its bit in the intern table.  A call either
leaves the tables as they were and delivers nothing, or commits one change of
one service and delivers one event that describes it.

Main results:

- Theorem `Commit.changesExactly`: a committed change is one change with one event.
- Theorems `start_cases`, `stop_cases`, `pauseAssert_cases`,
  `pauseClear_cases` and `register_cases`: everything a call can do.
-/

namespace Breadboard
namespace Lifecycle

/-! ## What the tables say -/

/-- The reason holds the service, by its bit. -/
def inhibitsReason (reasons : List Bytes) (sv : Service) (reason : Bytes) : Bool :=
  match reasonLookup reasons reason with
  | none => false
  | some bit => wordTest sv.inhibits bit

namespace Authority

def started (s : Authority) (svc : Int) : Bool :=
  (s.service? svc).any (·.started)

def inhibited (s : Authority) (svc : Int) (reason : Bytes) : Bool :=
  (s.service? svc).any (inhibitsReason s.reasons · reason)

/-- The call changed the envelope of the service or one of its reasons. -/
def Changed (s s' : Authority) (svc : Int) : Prop :=
  s'.started svc ≠ s.started svc ∨ ∃ reason, s'.inhibited svc reason ≠ s.inhibited svc reason

end Authority

/-- The event describes the change of a service between two states of the tables. -/
structure Describes (cfg : LifecycleCfg) (s s' : Authority) (c : Call) (svc : Int)
    (evt : Event) : Prop where
  svc_eq : evt.svc = svc
  oldState_eq : evt.oldState = s.state svc
  newState_eq : evt.newState = s'.state svc
  version_eq : evt.version = s'.version svc
  inhibits_eq : s'.inhibitWords cfg svc 1 = [evt.inhibits]
  reason_none : c.reason? = none → evt.reason = reasonNone
  reason_some : ∀ reason, c.reason? = some reason → s'.reasonName cfg evt.reason = reason

/-- What one call may change and must deliver. -/
structure ChangesExactly (cfg : LifecycleCfg) (s : Authority) (c : Call)
    (out : Reply × Authority) : Prop where
  other_services : ∀ svc sv, s.service? svc = some sv → c.svc? ≠ some svc →
    out.2.service? svc = some sv
  other_reasons : ∀ svc reason, c.reason? = some reason → ∀ r, r ≠ reason →
    out.2.inhibited svc r = s.inhibited svc r
  effective : ∀ svc, s.Changed out.2 svc →
    c.svc? = some svc ∧ out.1.rc = .ok ∧ out.2.version svc = s.version svc + 1 ∧
      ∃ evt, out.1.deliveries = s.notifyAll evt ∧ Describes cfg s out.2 c svc evt
  quiet : (∀ svc, ¬ s.Changed out.2 svc) →
    out.1.deliveries = [] ∧ (out.2 = s ∨ out.1.rc = .ok ∧ ∃ name, c = .register name)
  failing : out.1.rc ≠ .ok → out.1.deliveries = [] ∧ out.2 = s

/-- The reason named by a call, if any, is shorter than the reason limit. -/
def Call.ShortReason (cfg : LifecycleCfg) (c : Call) : Prop :=
  ∀ reason, c.reason? = some reason → reason.length < cfg.reasonMax

/-! ## The intern table -/

section Interning

variable {cfg : LifecycleCfg} {reasons reasons' : List Bytes} {r q : Bytes} {bit : UInt8}
  {sv : Service}

theorem reasonLookup_eq_none_iff : reasonLookup reasons r = none ↔ r ∉ reasons := by
  simp only [reasonLookup, Option.map_eq_none_iff, List.findIdx?_eq_none_iff, beq_eq_false_iff_ne]
  exact ⟨fun h hmem => h r hmem rfl, fun h x hx heq => h (heq ▸ hx)⟩

theorem reasonLookup_eq_some_iff (hnodup : reasons.Nodup) (hlen : reasons.length ≤ 255) :
    reasonLookup reasons r = some bit ↔ reasons[bit.toNat]? = some r := by
  have hbit (i : Nat) (hi : i < reasons.length) : (UInt8.ofNat i).toNat = i :=
    UInt8.toNat_ofNat_of_lt' (by show i < 256; omega)
  constructor
  · intro h
    obtain ⟨i, hi, rfl⟩ := Option.map_eq_some_iff.mp h
    obtain ⟨hlt, heq, -⟩ := List.findIdx?_eq_some_iff_getElem.mp hi
    rw [hbit i hlt, List.getElem?_eq_getElem hlt, beq_iff_eq.mp heq]
  · intro h
    obtain ⟨hlt, heq⟩ := List.getElem?_eq_some_iff.mp h
    refine Option.map_eq_some_iff.mpr ⟨bit.toNat, ?_, by simp⟩
    refine List.findIdx?_eq_some_iff_getElem.mpr ⟨hlt, beq_iff_eq.mpr heq, fun j hj => ?_⟩
    intro hsame
    have hij := (hnodup.getElem_inj_iff).mp ((beq_iff_eq.mp hsame).trans heq.symm)
    omega

/-- A table that is kept, or grown by a reason it lacked. -/
def Grown (reasons reasons' : List Bytes) : Prop :=
  reasons' = reasons ∨ ∃ r, r ∉ reasons ∧ reasons' = reasons ++ [r]

theorem Grown.length_le (h : Grown reasons reasons') : reasons.length ≤ reasons'.length := by
  rcases h with rfl | ⟨r, -, rfl⟩
  · exact Nat.le_refl _
  · simp

theorem reasonIntern_spec (hnodup : reasons.Nodup) (hlen : reasons.length ≤ cfg.maxReasons)
    (hshort : r.length < cfg.reasonMax) (h : reasonIntern cfg reasons r = some (bit, reasons')) :
    Grown reasons reasons' ∧ reasons'.Nodup ∧ reasons'.length ≤ cfg.maxReasons ∧
      reasons'[bit.toNat]? = some r := by
  have hle := cfg.maxReasons_le
  simp only [reasonIntern, copyTruncated_of_short hshort] at h
  split at h
  · rename_i found hfound
    cases h
    exact ⟨.inl rfl, hnodup, hlen, (reasonLookup_eq_some_iff hnodup (by omega)).mp hfound⟩
  rename_i hmiss
  split at h
  · cases h
  rename_i hroom
  cases h
  have hfresh : r ∉ reasons := reasonLookup_eq_none_iff.mp hmiss
  refine ⟨.inr ⟨r, hfresh, rfl⟩, ?_, ?_, ?_⟩
  · exact List.nodup_append.mpr ⟨hnodup, by simp, fun a ha b hb hab => by simp_all⟩
  · rw [List.length_append, List.length_singleton]
    omega
  · rw [UInt8.toNat_ofNat_of_lt' (by show reasons.length < 256; omega)]
    simp

/-- A fresh reason holds nobody. -/
theorem inhibitsReason_grown (hgrown : Grown reasons reasons') (hnodup : reasons'.Nodup)
    (hlen : reasons'.length ≤ 255)
    (hknown : ∀ b, wordTest sv.inhibits b = true → b.toNat < reasons.length) :
    inhibitsReason reasons' sv q = inhibitsReason reasons sv q := by
  rcases hgrown with rfl | ⟨r, hfresh, rfl⟩
  · rfl
  have hnodup0 : reasons.Nodup := (List.nodup_append.mp hnodup).1
  have hlen0 : reasons.length < 255 := by
    rw [List.length_append, List.length_singleton] at hlen
    omega
  unfold inhibitsReason
  cases hold : reasonLookup reasons q with
  | some b =>
    have hget := (reasonLookup_eq_some_iff hnodup0 (by omega)).mp hold
    have hnew : reasonLookup (reasons ++ [r]) q = some b := by
      rw [reasonLookup_eq_some_iff hnodup hlen,
        List.getElem?_append_left (List.getElem?_eq_some_iff.mp hget).1]
      exact hget
    rw [hnew]
  | none =>
    cases hnew : reasonLookup (reasons ++ [r]) q with
    | none => rfl
    | some b =>
      -- the only new entry is the fresh one, and its bit is still clear
      have hget := (reasonLookup_eq_some_iff hnodup hlen).mp hnew
      have hout : ¬ b.toNat < reasons.length := by
        intro hlt
        rw [List.getElem?_append_left hlt] at hget
        exact reasonLookup_eq_none_iff.mp hold (List.mem_of_getElem? hget)
      cases hset : wordTest sv.inhibits b with
      | false => exact hset
      | true => exact absurd (hknown b hset) hout

end Interning

/-! ## The invariant -/

/-- Reasons are interned once, and only bits of interned reasons are set. -/
structure Inv (cfg : LifecycleCfg) (s : Authority) : Prop where
  nodup : s.reasons.Nodup
  reasons_le : s.reasons.length ≤ cfg.maxReasons
  words : ∀ sv ∈ s.services, sv.inhibits.length = cfg.inhibitWords
  known : ∀ sv ∈ s.services, ∀ bit, wordTest sv.inhibits bit = true →
    bit.toNat < s.reasons.length

section Tables

variable {cfg : LifecycleCfg} {s : Authority} {svc q : Int} {sv sv' : Service} {bit : UInt8}
  {reason r : Bytes}

theorem LifecycleCfg.inhibitWords_le (cfg : LifecycleCfg) : cfg.inhibitWords ≤ 8 := by
  have hle := cfg.maxReasons_le
  unfold inhibitWords
  omega

theorem mem_services (h : s.service? svc = some sv) : sv ∈ s.services := by
  unfold Authority.service? at h
  split at h
  · cases h
  · exact List.mem_of_getElem? h

namespace Inv

theorem reasons_le_255 (hinv : Inv cfg s) : s.reasons.length ≤ 255 :=
  Nat.le_trans hinv.reasons_le cfg.maxReasons_le

theorem lookup_iff (hinv : Inv cfg s) :
    reasonLookup s.reasons reason = some bit ↔ s.reasons[bit.toNat]? = some reason :=
  reasonLookup_eq_some_iff hinv.nodup hinv.reasons_le_255

/-- The words of a service are nonzero exactly when some reason holds it. -/
theorem anySet_iff (hinv : Inv cfg s) (hsv : s.service? svc = some sv) :
    wordsAnySet sv.inhibits = true ↔ ∃ reason, inhibitsReason s.reasons sv reason = true := by
  have hmem := mem_services hsv
  have hlen : sv.inhibits.length ≤ 8 := (hinv.words sv hmem).trans_le cfg.inhibitWords_le
  rw [wordsAnySet_iff hlen]
  constructor
  · rintro ⟨bit, hbit⟩
    have hlt := hinv.known sv hmem bit hbit
    refine ⟨s.reasons[bit.toNat], ?_⟩
    rw [inhibitsReason, hinv.lookup_iff.mpr (List.getElem?_eq_getElem hlt)]
    exact hbit
  · rintro ⟨reason, hreason⟩
    unfold inhibitsReason at hreason
    split at hreason
    · cases hreason
    · exact ⟨_, hreason⟩

/-- The computed state, in terms of reasons. -/
theorem state_eq (hinv : Inv cfg s) (svc : Int) :
    (s.state svc = .stopped ↔ s.started svc = false) ∧
      (s.state svc = .paused ↔
        s.started svc = true ∧ ∃ reason, s.inhibited svc reason = true) := by
  unfold Authority.state Authority.started Authority.inhibited
  cases hsv : s.service? svc with
  | none => simp
  | some sv =>
    have hany := hinv.anySet_iff hsv
    simp only [Option.any_some, ← hany, computeState]
    cases sv.started <;> cases wordsAnySet sv.inhibits <;> simp

end Inv

theorem inv_init (cfg : LifecycleCfg) (observers : List Bool) (emitBound : Bool) :
    Inv cfg (.init observers emitBound) where
  nodup := List.nodup_nil
  reasons_le := Nat.zero_le _
  words := by simp [Authority.init]
  known := by simp [Authority.init]

/-! ## Bits and reasons of one service -/

theorem inhibitsReason_eq_wordTest {reasons : List Bytes} (hnodup : reasons.Nodup)
    (hlen : reasons.length ≤ 255) (hbit : reasons[bit.toNat]? = some reason) :
    inhibitsReason reasons sv reason = wordTest sv.inhibits bit := by
  rw [inhibitsReason, (reasonLookup_eq_some_iff hnodup hlen).mpr hbit]

/-- Two records whose bits agree off one bit agree on every reason but its own. -/
theorem inhibitsReason_congr {reasons : List Bytes} (hnodup : reasons.Nodup)
    (hlen : reasons.length ≤ 255) (hbit : reasons[bit.toNat]? = some reason)
    (hsame : ∀ b, b ≠ bit → wordTest sv'.inhibits b = wordTest sv.inhibits b)
    (hne : r ≠ reason) : inhibitsReason reasons sv' r = inhibitsReason reasons sv r := by
  unfold inhibitsReason
  cases hlook : reasonLookup reasons r with
  | none => rfl
  | some b =>
    refine hsame b ?_
    rintro rfl
    have hget := (reasonLookup_eq_some_iff hnodup hlen).mp hlook
    exact hne (Option.some.inj (hget.symm.trans hbit))

/-! ## One committed change -/

theorem service?_commit {old : State} (hsv : (s.service? svc).isSome) :
    (s.commitAndSnapshot svc sv' old bit).2.service? q =
      if q = svc then some { sv' with version := sv'.version + 1 } else s.service? q := by
  obtain ⟨sv, hsv⟩ := Option.isSome_iff_exists.mp hsv
  unfold Authority.service? at hsv
  split at hsv
  · cases hsv
  rename_i hpos
  have hlt : svc.toNat < s.services.length := (List.getElem?_eq_some_iff.mp hsv).1
  unfold Authority.commitAndSnapshot Authority.service?
  dsimp only
  by_cases hq : q = svc
  · subst hq
    rw [if_neg hpos, if_pos rfl, List.getElem?_set_self hlt]
  · rw [if_neg hq]
    split
    · rfl
    · exact List.getElem?_set_ne (by omega)

end Tables

/--
A committed change: the call replaced the record `sv` of its service by
`sv'`, over a reason table that it may have grown.
-/
structure Commit (cfg : LifecycleCfg) (s : Authority) (c : Call) (svc : Int) (sv sv' : Service)
    (reasons' : List Bytes) (bit : UInt8) (out : Reply × Authority) : Prop where
  service : s.service? svc = some sv
  call_svc : c.svc? = some svc
  version_eq : sv'.version = sv.version
  words_eq : sv'.inhibits.length = sv.inhibits.length
  grown : Grown s.reasons reasons'
  nodup : reasons'.Nodup
  reasons_le : reasons'.length ≤ cfg.maxReasons
  known : ∀ b, wordTest sv'.inhibits b = true → b.toNat < reasons'.length
  others : ∀ reason, c.reason? = some reason → ∀ r, r ≠ reason →
    inhibitsReason reasons' sv' r = inhibitsReason s.reasons sv r
  differs : sv'.started ≠ sv.started ∨
    ∃ r, inhibitsReason reasons' sv' r ≠ inhibitsReason s.reasons sv r
  bit_none : c.reason? = none → bit = reasonNone
  bit_some : ∀ reason, c.reason? = some reason → reasons'[bit.toNat]? = some reason
  out_eq : out =
    ({ s with reasons := reasons' } : Authority).commitAndSnapshot svc sv' (s.state svc) bit

namespace Commit

variable {cfg : LifecycleCfg} {s : Authority} {c : Call} {svc q : Int} {sv sv' : Service}
  {reasons' : List Bytes} {bit : UInt8} {out : Reply × Authority} {r : Bytes}

theorem service?_eq (h : Commit cfg s c svc sv sv' reasons' bit out) :
    out.2.service? q =
      if q = svc then some { sv' with version := sv.version + 1 } else s.service? q := by
  have hsome : (({ s with reasons := reasons' } : Authority).service? svc).isSome = true :=
    Option.isSome_iff_exists.mpr ⟨sv, h.service⟩
  rw [h.out_eq, service?_commit hsome, h.version_eq]
  rfl

theorem reasons_eq (h : Commit cfg s c svc sv sv' reasons' bit out) : out.2.reasons = reasons' := by
  rw [h.out_eq]
  rfl

theorem started_eq (h : Commit cfg s c svc sv sv' reasons' bit out) :
    out.2.started q = if q = svc then sv'.started else s.started q := by
  unfold Authority.started
  rw [h.service?_eq]
  split <;> rfl

theorem inhibited_eq (hinv : Inv cfg s) (h : Commit cfg s c svc sv sv' reasons' bit out) :
    out.2.inhibited q r =
      if q = svc then inhibitsReason reasons' sv' r else s.inhibited q r := by
  unfold Authority.inhibited
  rw [h.service?_eq, h.reasons_eq]
  split
  · rfl
  cases hq : s.service? q with
  | none => rfl
  | some other =>
    exact inhibitsReason_grown h.grown h.nodup
      (Nat.le_trans h.reasons_le cfg.maxReasons_le) (hinv.known other (mem_services hq))

theorem started_same (h : Commit cfg s c svc sv sv' reasons' bit out)
    (hsame : sv'.started = sv.started) : out.2.started q = s.started q := by
  rw [h.started_eq]
  split
  · rename_i hq
    rw [hq, hsame, Authority.started, h.service]
    rfl
  · rfl

/-- A call about one reason leaves every other pair of service and reason alone. -/
theorem inhibited_off (hinv : Inv cfg s) (h : Commit cfg s c svc sv sv' reasons' bit out)
    {reason : Bytes} (hreason : c.reason? = some reason) (hoff : ¬ (svc = q ∧ reason = r)) :
    out.2.inhibited q r = s.inhibited q r := by
  rw [h.inhibited_eq hinv]
  split
  · rename_i hq
    have hr : r ≠ reason := fun hr => hoff ⟨hq.symm, hr.symm⟩
    rw [h.others reason hreason r hr, hq, Authority.inhibited, h.service]
    rfl
  · rfl

/-- The named reason is decided by its own bit. -/
theorem inhibited_self (hinv : Inv cfg s) (h : Commit cfg s c svc sv sv' reasons' bit out)
    {reason : Bytes} (hreason : c.reason? = some reason) :
    out.2.inhibited svc reason = wordTest sv'.inhibits bit := by
  rw [h.inhibited_eq hinv, if_pos rfl]
  exact inhibitsReason_eq_wordTest h.nodup (Nat.le_trans h.reasons_le cfg.maxReasons_le)
    (h.bit_some reason hreason)

theorem inv (hinv : Inv cfg s) (h : Commit cfg s c svc sv sv' reasons' bit out) :
    Inv cfg out.2 := by
  have hmem : ∀ x ∈ out.2.services,
      x ∈ s.services ∨ x = { sv' with version := sv'.version + 1 } := by
    rw [h.out_eq]
    exact fun x hx => List.mem_or_eq_of_mem_set hx
  rcases h with ⟨hsv, -, -, hwords, hgrown, hnodup, hle, hknown, -, -, -, -, rfl⟩
  exact
    { nodup := hnodup
      reasons_le := hle
      words := fun x hx => by
        rcases hmem x hx with hold | rfl
        · exact hinv.words x hold
        · exact hwords.trans (hinv.words sv (mem_services hsv))
      known := fun x hx b hb => by
        rcases hmem x hx with hold | rfl
        · exact Nat.lt_of_lt_of_le (hinv.known x hold b hb) hgrown.length_le
        · exact hknown b hb }

theorem changed (hinv : Inv cfg s) (h : Commit cfg s c svc sv sv' reasons' bit out) :
    s.Changed out.2 svc := by
  have hstarted : s.started svc = sv.started := by simp [Authority.started, h.service]
  have hinhibited (r : Bytes) : s.inhibited svc r = inhibitsReason s.reasons sv r := by
    simp [Authority.inhibited, h.service]
  unfold Authority.Changed
  simp only [h.started_eq, h.inhibited_eq hinv, if_true, hstarted, hinhibited]
  exact h.differs

theorem describes (hinv : Inv cfg s) (h : Commit cfg s c svc sv sv' reasons' bit out) :
    ∃ evt, out.1.deliveries = s.notifyAll evt ∧ Describes cfg s out.2 c svc evt := by
  have hself : out.2.service? svc = some { sv' with version := sv.version + 1 } := by
    rw [h.service?_eq, if_pos rfl]
  have hlen : 1 ≤ sv'.inhibits.length := by
    have hpos := cfg.maxReasons_pos
    rw [h.words_eq, hinv.words sv (mem_services h.service)]
    unfold LifecycleCfg.inhibitWords
    omega
  refine ⟨_, by rw [h.out_eq]; rfl, ?_⟩
  refine
    { svc_eq := rfl
      oldState_eq := rfl
      newState_eq := by simp only [Authority.state, hself]
      version_eq := by simp only [Authority.version, hself, h.version_eq]
      inhibits_eq := ?_
      reason_none := h.bit_none
      reason_some := fun reason hreason => ?_ }
  · have hone : min 1 cfg.inhibitWords = 1 := by
      rw [← hinv.words sv (mem_services h.service), ← h.words_eq]
      omega
    simp only [Authority.inhibitWords, hself, hone]
    obtain ⟨w, ws, hws⟩ := List.exists_cons_of_length_pos hlen
    rw [hws]
    rfl
  · have hget := h.bit_some reason hreason
    have hlt : bit.toNat < cfg.maxReasons :=
      Nat.lt_of_lt_of_le (List.getElem?_eq_some_iff.mp hget).1 h.reasons_le
    rw [Authority.reasonName, if_neg (Nat.not_le.mpr hlt), h.reasons_eq,
      List.getD_eq_getElem?_getD, hget]
    rfl

/-- A committed change is one change with one event. -/
theorem changesExactly (hinv : Inv cfg s) (h : Commit cfg s c svc sv sv' reasons' bit out) :
    ChangesExactly cfg s c out where
  other_services := fun q x hx hne => by
    rw [h.service?_eq, if_neg, hx]
    rintro rfl
    exact hne h.call_svc
  other_reasons := fun q reason hreason r hr =>
    h.inhibited_off hinv hreason fun hand => hr hand.2.symm
  effective := fun q hq => by
    have hqs : q = svc := by
      by_contra hne
      unfold Authority.Changed at hq
      simp only [h.started_eq, h.inhibited_eq hinv, if_neg hne] at hq
      simp at hq
    subst hqs
    refine ⟨h.call_svc, by rw [h.out_eq]; rfl, ?_, h.describes hinv⟩
    simp only [Authority.version, h.service?_eq, if_true, h.service]
  quiet := fun hnone => absurd (h.changed hinv) (hnone svc)
  failing := fun hrc => absurd (by rw [h.out_eq]; rfl) hrc

end Commit

/-- A silent answer that leaves the tables as they were. -/
theorem changesExactly_silent {cfg : LifecycleCfg} {s : Authority} {c : Call} {rc : BbErr}
    {out : Reply × Authority} (hout : out = (.silent rc, s)) : ChangesExactly cfg s c out := by
  subst hout
  exact
    { other_services := fun _ _ hsv _ => hsv
      other_reasons := fun _ _ _ _ _ => rfl
      effective := fun svc hchanged => by
        unfold Authority.Changed at hchanged
        simp at hchanged
      quiet := fun _ => ⟨rfl, .inl rfl⟩
      failing := fun _ => ⟨rfl, rfl⟩ }

/-! ## The calls -/

section Calls

variable {cfg : LifecycleCfg} {s : Authority} {svc : Int} {sv : Service} {reason : Bytes}

theorem start_cases (hinv : Inv cfg s) (svc : Int) :
    (s.service? svc = none ∧ s.start svc = (.silent .notFound, s)) ∨
    (∃ sv, s.service? svc = some sv ∧ sv.started = true ∧ s.start svc = (.silent .ok, s)) ∨
    (∃ sv, Commit cfg s (.start svc) svc sv { sv with started := true } s.reasons reasonNone
      (s.start svc)) := by
  cases hsv : s.service? svc with
  | none => exact .inl ⟨rfl, by simp only [Authority.start, hsv]⟩
  | some sv =>
    cases hstarted : sv.started with
    | true => exact .inr (.inl ⟨sv, rfl, hstarted, by simp [Authority.start, hsv, hstarted]⟩)
    | false =>
      refine .inr (.inr ⟨sv, ?_⟩)
      exact
        { service := hsv
          call_svc := rfl
          version_eq := rfl
          words_eq := rfl
          grown := .inl rfl
          nodup := hinv.nodup
          reasons_le := hinv.reasons_le
          known := hinv.known sv (mem_services hsv)
          others := fun _ h => by cases h
          differs := .inl (by simp [hstarted])
          bit_none := fun _ => rfl
          bit_some := fun _ h => by cases h
          out_eq := by simp [Authority.start, Authority.state, hsv, hstarted] }

theorem stop_cases (hinv : Inv cfg s) (svc : Int) :
    (s.service? svc = none ∧ s.stop svc = (.silent .notFound, s)) ∨
    (∃ sv, s.service? svc = some sv ∧ sv.started = false ∧ s.stop svc = (.silent .ok, s)) ∨
    (∃ sv, sv.started = true ∧ Commit cfg s (.stop svc) svc sv
      { sv with started := false, inhibits := List.replicate sv.inhibits.length 0 }
      s.reasons reasonNone (s.stop svc)) := by
  cases hsv : s.service? svc with
  | none => exact .inl ⟨rfl, by simp only [Authority.stop, hsv]⟩
  | some sv =>
    cases hstarted : sv.started with
    | false => exact .inr (.inl ⟨sv, rfl, hstarted, by simp [Authority.stop, hsv, hstarted]⟩)
    | true =>
      refine .inr (.inr ⟨sv, hstarted, ?_⟩)
      exact
        { service := hsv
          call_svc := rfl
          version_eq := rfl
          words_eq := List.length_replicate
          grown := .inl rfl
          nodup := hinv.nodup
          reasons_le := hinv.reasons_le
          known := fun b hb => by simp [wordTest_replicate_zero] at hb
          others := fun _ h => by cases h
          differs := .inl (by simp [hstarted])
          bit_none := fun _ => rfl
          bit_some := fun _ h => by cases h
          out_eq := by simp [Authority.stop, Authority.state, hsv, hstarted] }

theorem pauseAssert_cases (hinv : Inv cfg s) (svc : Int)
    (hshort : reason.length < cfg.reasonMax) :
    (∃ rc, rc ≠ .ok ∧ s.pauseAssert cfg svc reason = (.silent rc, s)) ∨
    (∃ sv, s.service? svc = some sv ∧ inhibitsReason s.reasons sv reason = true ∧
      s.pauseAssert cfg svc reason = (.silent .ok, s)) ∨
    (∃ sv reasons' bit, bit.toNat / 32 < sv.inhibits.length ∧
      Commit cfg s (.pauseAssert svc reason) svc sv
        { sv with inhibits := wordSet sv.inhibits bit } reasons' bit
        (s.pauseAssert cfg svc reason)) := by
  cases hsv : s.service? svc with
  | none => exact .inl ⟨.notFound, by simp, by simp only [Authority.pauseAssert, hsv]⟩
  | some sv =>
    cases hintern : reasonIntern cfg s.reasons reason with
    | none => exact .inl ⟨.noSpace, by simp, by simp only [Authority.pauseAssert, hsv, hintern]⟩
    | some found =>
      obtain ⟨bit, reasons'⟩ := found
      obtain ⟨hgrown, hnodup, hle, hget⟩ :=
        reasonIntern_spec hinv.nodup hinv.reasons_le hshort hintern
      have hmem := mem_services hsv
      have hlen := Nat.le_trans hle cfg.maxReasons_le
      have hlt := (List.getElem?_eq_some_iff.mp hget).1
      cases htest : wordTest sv.inhibits bit with
      | true =>
        -- a set bit is the bit of an old reason, so the table did not grow
        have hsame : reasons' = s.reasons := by
          rcases hgrown with rfl | ⟨r, hfresh, rfl⟩
          · rfl
          have hold := hinv.known sv hmem bit htest
          rw [List.getElem?_append_left hold] at hget
          have hlook := hinv.lookup_iff.mpr hget
          rw [reasonIntern, copyTruncated_of_short hshort, hlook] at hintern
          simp at hintern
        subst hsame
        refine .inr (.inl ⟨sv, rfl, ?_, ?_⟩)
        · rw [inhibitsReason_eq_wordTest hnodup hlen hget, htest]
        · simp [Authority.pauseAssert, hsv, hintern, htest]
      | false =>
        have hword : bit.toNat / 32 < sv.inhibits.length := by
          rw [hinv.words sv hmem]
          unfold LifecycleCfg.inhibitWords
          omega
        have hset (b : UInt8) := wordTest_wordSet hword b
        refine .inr (.inr ⟨sv, reasons', bit, hword, ?_⟩)
        exact
          { service := hsv
            call_svc := rfl
            version_eq := rfl
            words_eq := length_wordSet ..
            grown := hgrown
            nodup := hnodup
            reasons_le := hle
            known := fun b hb => by
              rw [hset, Bool.or_eq_true, decide_eq_true_iff] at hb
              rcases hb with rfl | hb
              · exact hlt
              · exact Nat.lt_of_lt_of_le (hinv.known sv hmem b hb) hgrown.length_le
            others := fun q hq r hr => by
              cases hq
              refine (inhibitsReason_congr hnodup hlen hget (fun b hb => ?_) hr).trans
                (inhibitsReason_grown hgrown hnodup hlen (hinv.known sv hmem))
              simp [hset, Ne.symm hb]
            differs := .inr ⟨reason, by
              rw [← inhibitsReason_grown hgrown hnodup hlen (hinv.known sv hmem),
                inhibitsReason_eq_wordTest hnodup hlen hget,
                inhibitsReason_eq_wordTest hnodup hlen hget, htest, hset]
              simp⟩
            bit_none := fun h => by cases h
            bit_some := fun q hq => by
              cases hq
              exact hget
            out_eq := by simp [Authority.pauseAssert, Authority.state, hsv, hintern, htest] }

theorem pauseClear_cases (hinv : Inv cfg s) (svc : Int)
    (hshort : reason.length < cfg.reasonMax) :
    (s.service? svc = none ∧ s.pauseClear cfg svc reason = (.silent .notFound, s)) ∨
    (∃ sv, s.service? svc = some sv ∧ inhibitsReason s.reasons sv reason = false ∧
      s.pauseClear cfg svc reason = (.silent .ok, s)) ∨
    (∃ sv bit, Commit cfg s (.pauseClear svc reason) svc sv
      { sv with inhibits := wordClear sv.inhibits bit } s.reasons bit
      (s.pauseClear cfg svc reason)) := by
  have hcopy := copyTruncated_of_short hshort
  cases hsv : s.service? svc with
  | none => exact .inl ⟨rfl, by simp only [Authority.pauseClear, hsv]⟩
  | some sv =>
    have hmem := mem_services hsv
    cases hlook : reasonLookup s.reasons reason with
    | none =>
      exact .inr (.inl ⟨sv, rfl, by rw [inhibitsReason, hlook],
        by simp only [Authority.pauseClear, hsv, hcopy, hlook]⟩)
    | some bit =>
      have hget := hinv.lookup_iff.mp hlook
      cases htest : wordTest sv.inhibits bit with
      | false =>
        exact .inr (.inl ⟨sv, rfl, by rw [inhibitsReason, hlook]; exact htest,
          by simp [Authority.pauseClear, hsv, hcopy, hlook, htest]⟩)
      | true =>
        have hclear (b : UInt8) := wordTest_wordClear sv.inhibits bit b
        refine .inr (.inr ⟨sv, bit, ?_⟩)
        exact
          { service := hsv
            call_svc := rfl
            version_eq := rfl
            words_eq := length_wordClear ..
            grown := .inl rfl
            nodup := hinv.nodup
            reasons_le := hinv.reasons_le
            known := fun b hb => by
              rw [hclear, Bool.and_eq_true] at hb
              exact hinv.known sv hmem b hb.2
            others := fun q hq r hr => by
              cases hq
              refine inhibitsReason_congr hinv.nodup hinv.reasons_le_255 hget (fun b hb => ?_) hr
              simp [hclear, Ne.symm hb]
            differs := .inr ⟨reason, by
              rw [inhibitsReason_eq_wordTest hinv.nodup hinv.reasons_le_255 hget,
                inhibitsReason_eq_wordTest hinv.nodup hinv.reasons_le_255 hget, htest, hclear]
              simp⟩
            bit_none := fun h => by cases h
            bit_some := fun q hq => by
              cases hq
              exact hget
            out_eq := by simp [Authority.pauseClear, Authority.state, hsv, hcopy, hlook, htest] }

theorem register_cases (name : Bytes) :
    (∃ rc, rc ≠ .ok ∧ s.call cfg (.register name) = (.silent rc, s)) ∨
    (∃ sv, sv.started = false ∧ sv.inhibits = List.replicate cfg.inhibitWords 0 ∧
      s.call cfg (.register name) =
        (.silent .ok, { s with services := s.services ++ [sv] })) := by
  unfold Authority.call Authority.register
  dsimp only
  split
  · exact .inl ⟨.conflict, by simp, rfl⟩
  split
  · exact .inl ⟨.noSpace, by simp, rfl⟩
  · exact .inr ⟨_, rfl, rfl, rfl⟩

theorem service?_append {q : Int} {new : Service} :
    ({ s with services := s.services ++ [new] } : Authority).service? q =
      if q = s.services.length then some new else s.service? q := by
  unfold Authority.service?
  by_cases hq : q = s.services.length
  · subst hq
    simp
  · rw [if_neg hq]
    split
    · rfl
    · have hne : q.toNat ≠ s.services.length := by omega
      rcases Nat.lt_or_gt_of_ne hne with hlt | hgt
      · exact List.getElem?_append_left hlt
      · rw [List.getElem?_eq_none (Nat.le_of_lt hgt)]
        exact List.getElem?_eq_none (by simp; omega)

end Calls

end Lifecycle
end Breadboard
