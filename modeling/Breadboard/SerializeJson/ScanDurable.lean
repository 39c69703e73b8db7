import Breadboard.SerializeJson.Rejecting

/-!
# bb_serialize_json_scan - what a bounded scan hands over

A sink may keep what it is handed from the caller's buffer only when the buffer outlives the
call: in a bounded scan no chunk of a string is scoped to a feed.

Main results:

- Theorem `driveStep_durable`: one round of the loop keeps to the bounded mode.
- Theorem `scanBounded_durable`: no call of a bounded scan is scoped to a feed.
-/

namespace Breadboard
namespace SerializeJson

/-- The bytes of a call are not scoped to a feed. -/
def Call.Durable : Call → Prop
  | .valueStrChunk _ _ _ provenance => provenance ≠ .callerFeedScoped
  | _ => True

/-- Durable calls only, and then a bounded state. -/
structure Durable {α : Type} (x : Scan α) (state : α → ScanState) : Prop where
  calls : ∀ c ∈ x.calls, c.Durable
  result : ∀ a, x.result = .ok a → (state a).boundedMode = true

namespace Durable

variable {α β : Type} {state : α → ScanState} {state' : β → ScanState}

theorem pure {a : α} (h : (state a).boundedMode = true) : Durable (Pure.pure a : Scan α) state where
  calls := fun _ hc => nomatch hc
  result := fun b hb => by
    cases hb
    exact h

theorem fail (e : BbErr) : Durable (Scan.fail e : Scan α) state where
  calls := fun _ hc => nomatch hc
  result := fun _ hb => nomatch hb

theorem bind {x : Scan α} {f : α → Scan β} (h : Durable x state)
    (hf : ∀ a, (state a).boundedMode = true → Durable (f a) state') :
    Durable (x >>= f) state' := by
  obtain ⟨calls, result⟩ := x
  cases result with
  | error e => exact ⟨h.calls, fun _ hb => nomatch hb⟩
  | ok a =>
    have hrest := hf a (h.result a rfl)
    refine ⟨fun c hc => ?_, hrest.result⟩
    rcases List.mem_append.mp hc with hc | hc
    · exact h.calls c hc
    · exact hrest.calls c hc

/-- A durable call before the rest. -/
theorem call {c : Call} {y : Scan β} (hc : c.Durable) (h : Durable y state') :
    Durable (Scan.call c >>= fun _ => y) state' := by
  refine ⟨fun c' hc' => ?_, h.result⟩
  rcases List.mem_cons.mp hc' with rfl | hc'
  · exact hc
  · exact h.calls c' hc'

end Durable

section Scanner

variable (cfg : Kconfig) {s : ScanState}

theorem directSpanProvenance_durable (h : s.boundedMode = true) :
    s.directSpanProvenance ≠ .callerFeedScoped := by
  rw [ScanState.directSpanProvenance, if_pos h]
  decide

theorem scratchAppend_durable (h : s.boundedMode = true) (data : Bytes) :
    Durable (scratchAppend cfg s data) id := by
  unfold scratchAppend
  split
  · exact .fail _
  · exact .pure h

theorem emitStrBytes_durable (h : s.boundedMode = true) (data : Bytes) (isFinal isKey : Bool)
    {provenance : Span} (hspan : provenance ≠ .callerFeedScoped) :
    Durable (emitStrBytes cfg s data isFinal isKey provenance) id := by
  unfold emitStrBytes
  split
  · exact scratchAppend_durable cfg h data
  · exact .call hspan (.pure h)

theorem flushRun_durable (h : s.boundedMode = true) (isKey : Bool) (data : Bytes) :
    Durable (flushRun cfg isKey s data) id := by
  unfold flushRun
  split
  · exact .pure h
  · exact emitStrBytes_durable cfg h data false isKey (directSpanProvenance_durable h)

theorem scanEscapeByte_boundedMode {s' : ScanState} {c : UInt8} {decoded : Bytes}
    (h : scanEscapeByte s c = .ok (s', decoded)) : s'.boundedMode = s.boundedMode := by
  unfold scanEscapeByte at h
  split at h
  case h_1 =>
    split at h
    · cases h
      rfl
    · split at h <;> cases h
      rfl
  case h_2 | h_3 | h_4 | h_5 =>
    split at h
    · cases h
    rename_i hv _
    generalize (s.escCodeUnit <<< 4) ||| hv.toUInt16 = unit at h
    dsimp only at h
    split at h
    · cases h
      rfl
    split at h
    · cases h
      rfl
    split at h <;> cases h
    rfl
  case h_6 | h_7 =>
    split at h <;> cases h
    rfl
  case h_8 | h_9 | h_10 | h_11 =>
    split at h
    · cases h
    rename_i hv _
    generalize (s.escCodeUnit <<< 4) ||| hv.toUInt16 = unit at h
    dsimp only at h
    split at h
    · cases h
      rfl
    split at h <;> cases h
    rfl
  case h_12 => cases h

theorem scanString_durable (isKey : Bool) (h : s.boundedMode = true) (data input : Bytes) :
    Durable (scanString cfg isKey s data input) Prod.fst := by
  induction input generalizing s data with
  | nil => exact (flushRun_durable cfg h isKey data).bind fun s' hs' => .pure hs'
  | cons c rest ih =>
    unfold scanString
    split
    · split
      · exact .fail _
      · rename_i s' decoded hescape
        have hs' : s'.boundedMode = true := (scanEscapeByte_boundedMode hescape).trans h
        split
        · exact ih hs' []
        split
        · exact (emitStrBytes_durable cfg hs' decoded true isKey (by decide)).bind
            fun s' hs' => .pure hs'
        · exact (emitStrBytes_durable cfg hs' decoded false isKey (by decide)).bind
            fun s' hs' => ih hs' []
    split
    · exact (emitStrBytes_durable cfg h data true isKey (directSpanProvenance_durable h)).bind
        fun s' hs' => .pure hs'
    split
    · refine (flushRun_durable cfg h isKey data).bind fun s' hs' => ?_
      exact @ih { s' with escPhase := .backslash } hs' []
    split
    · exact .fail _
    · exact ih h (data ++ [c])

theorem scanNumber_durable (h : s.boundedMode = true) (input : Bytes) :
    Durable (scanNumber cfg s input) Prod.fst := by
  induction input generalizing s with
  | nil => exact .pure h
  | cons c rest ih =>
    unfold scanNumber
    split
    · exact .fail _
    · exact .pure h
    · exact (scratchAppend_durable cfg h [c]).bind fun s' hs' => ih hs'

theorem finalizeNumber_durable (h : s.boundedMode = true) : Durable (finalizeNumber s) id :=
  .call trivial (.pure h)

theorem scanLiteral_durable (h : s.boundedMode = true) (input : Bytes) :
    Durable (scanLiteral s input) Prod.fst := by
  induction input generalizing s with
  | nil => exact .pure h
  | cons c rest ih =>
    unfold scanLiteral
    split
    · exact .fail _
    dsimp only
    split
    · exact .pure h
    · exact @ih { s with litMatched := s.litMatched + 1 } h

theorem closeContainer_durable (h : s.boundedMode = true) : Durable (closeContainer s) id := by
  unfold closeContainer
  split
  · exact .fail _
  · rename_i isArr stack _
    refine .call ?_ (.pure h)
    cases isArr <;> exact trivial

theorem dispatchValueStart_durable (h : s.boundedMode = true) (c : UInt8) (keyed : Bool) :
    Durable (dispatchValueStart cfg s c keyed) id := by
  have hstart : (if keyed then s else { s with keyLen := 0, scratch := [] }).boundedMode = true := by
    split <;> exact h
  unfold dispatchValueStart
  dsimp only
  generalize (if keyed then s else { s with keyLen := 0, scratch := [] }) = s' at hstart ⊢
  split
  · exact .pure hstart
  split
  · split
    · exact .fail _
    · exact .call trivial (.pure hstart)
  split
  · split
    · exact .fail _
    · exact .call trivial (.pure hstart)
  split
  · exact (scratchAppend_durable cfg hstart [c]).bind fun s' hs' => .pure hs'
  split
  · exact (scratchAppend_durable cfg hstart [c]).bind fun s' hs' => .pure hs'
  split
  · exact .pure hstart
  split
  · exact .pure hstart
  split
  · exact .pure hstart
  · exact .fail _

/-- One round of the loop keeps to the bounded mode. -/
theorem driveStep_durable (h : s.boundedMode = true) (input : Bytes) :
    Durable (driveStep cfg s input) Prod.fst := by
  have hdispatch (c : UInt8) (rest : Bytes) (keyed : Bool) :
      Durable (dispatchValueStart cfg s c keyed >>= fun s => Pure.pure (s, rest)) Prod.fst :=
    (dispatchValueStart_durable cfg h c keyed).bind fun s' hs' => .pure hs'
  have hclose (rest : Bytes) :
      Durable (closeContainer s >>= fun s => Pure.pure (s, rest)) Prod.fst :=
    (closeContainer_durable h).bind fun s' hs' => .pure hs'
  unfold driveStep
  split
  case h_1 => split; exacts [.pure h, hdispatch _ _ false]
  case h_2 => split; exacts [.pure h, .fail _]
  case h_3 | h_4 =>
    split
    · exact .pure h
    split
    · exact hclose _
    split
    · exact .fail _
    · exact .pure h
  case h_5 =>
    refine (scanString_durable cfg true h [] input).bind fun r hr => ?_
    dsimp only
    split <;> exact .pure hr
  case h_6 =>
    split
    · exact .pure h
    split
    · exact .fail _
    · exact .pure h
  case h_7 => split; exacts [.pure h, hdispatch _ _ true]
  case h_8 =>
    split
    · exact .pure h
    split
    · exact .pure h
    split
    · exact hclose _
    · exact .fail _
  case h_9 | h_10 =>
    split
    · exact .pure h
    split
    · exact hclose _
    · exact hdispatch _ _ false
  case h_11 =>
    split
    · exact .pure h
    split
    · exact .pure h
    split
    · exact hclose _
    · exact .fail _
  case h_12 =>
    refine (scanString_durable cfg false h [] input).bind fun r hr => ?_
    dsimp only
    split <;> exact .pure hr
  case h_13 =>
    refine (scanNumber_durable cfg h input).bind fun r hr => ?_
    dsimp only
    split
    · exact (finalizeNumber_durable hr).bind fun s' hs' => .pure hs'
    · exact .pure hr
  case h_14 =>
    refine (scanLiteral_durable h input).bind fun r hr => ?_
    dsimp only
    split
    · unfold emitLiteral
      split <;> exact .call trivial (.pure hr)
    · exact .pure hr

theorem driveLoop_durable (fuel : Nat) (h : s.boundedMode = true) (input : Bytes) :
    Durable (driveLoop cfg fuel s input) id := by
  induction fuel generalizing s input with
  | zero => cases input <;> first | exact .pure h | exact .fail _
  | succ fuel ih =>
    cases input with
    | nil => exact .pure h
    | cons c input => exact (driveStep_durable cfg h (c :: input)).bind fun r hr => ih hr r.2

theorem endScan_durable (h : s.boundedMode = true) : Durable (endScan s) id := by
  have hnumber : Durable (endNumber s) id := by
    unfold endNumber
    split
    · split
      · exact finalizeNumber_durable h
      · exact .fail _
    · exact .pure h
  refine hnumber.bind fun s' hs' => ?_
  split
  · exact .fail _
  · exact .pure hs'

/-- The recorder of a feed or an end keeps durable calls, and the state its mode. -/
theorem settle_durable {x : Scan ScanState} (hx : Durable x id) (h : s.boundedMode = true)
    {cs : List Call} (hcs : ∀ c ∈ cs, c.Durable) :
    (∀ c ∈ (settle s (x.deliver record cs)).1, c.Durable) ∧
      (settle s (x.deliver record cs)).2.1.boundedMode = true := by
  rw [deliver_of_accepting record_accepting, foldl_record]
  have hcalls : ∀ c ∈ cs ++ x.calls, c.Durable := by
    intro c hc
    rcases List.mem_append.mp hc with hold | hnew
    · exact hcs c hold
    · exact hx.calls c hnew
  cases hresult : x.result with
  | error e => exact ⟨hcalls, h⟩
  | ok s' => exact ⟨hcalls, hx.result s' hresult⟩

theorem scanFeed_durable (h : s.boundedMode = true) {cs : List Call} (hcs : ∀ c ∈ cs, c.Durable)
    (chunk : Bytes) :
    (∀ c ∈ (scanFeed cfg record cs s chunk).1, c.Durable) ∧
      (scanFeed cfg record cs s chunk).2.1.boundedMode = true := by
  by_cases herr : s.err = .ok
  · rw [scanFeed_settle record cs herr chunk]
    exact settle_durable (driveLoop_durable cfg _ h chunk) h hcs
  · rw [scanFeed, if_pos herr]
    exact ⟨hcs, h⟩

theorem scanEnd_durable (h : s.boundedMode = true) {cs : List Call} (hcs : ∀ c ∈ cs, c.Durable) :
    ∀ c ∈ (scanEnd record cs s).1, c.Durable := by
  by_cases herr : s.err = .ok
  · rw [scanEnd_settle record cs herr]
    exact (settle_durable (endScan_durable h) h hcs).1
  · rw [scanEnd, if_pos herr]
    exact hcs

/-- No call of a bounded scan is scoped to a feed. -/
theorem scanBounded_durable (buf : Bytes) : ∀ c ∈ (scanBounded cfg record [] buf).1, c.Durable := by
  obtain ⟨hcalls, hbounded⟩ := @scanFeed_durable cfg (scanBeginInternal true) rfl [] nofun buf
  unfold scanBounded
  split
  · rename_i cs s' hfeed
    rw [hfeed] at hcalls hbounded
    exact scanEnd_durable hbounded hcalls
  · rename_i cs s' rc _ hfeed
    rw [hfeed] at hcalls
    exact hcalls

end Scanner

end SerializeJson
end Breadboard
