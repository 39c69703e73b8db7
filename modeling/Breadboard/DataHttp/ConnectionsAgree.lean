import Breadboard.DataHttp.ConnectionsStep

/-!
# bb_data_http - the connection tables agree with the client pool

What the tables promise of a state: slots refer to clients that their own connections
acquired, no client has two slots, and releases, aborts and sends went where they belong.
A sweep that calls the send function of an SSE client before its connect has recorded the
slot breaks the promise at once: the client is aborted without a request, and the slot
recorded for it afterwards names a block that the next connection may get.

A queued WS send runs later, on the httpd task, and finds the session by its descriptor.
If that went to a new session since the slot was looked up, the frame goes there.

Main results:

- Theorem `connections_agree`: runs without such a call agree in every state.
- Theorem `agree_throughout_iff`: and they are the only ones.
-/

namespace Breadboard
namespace DataHttp
namespace Connections

open Queue Foundations

variable {cfg : Config}

/-- What the connection tables promise. -/
structure Agrees (s : Connections cfg) : Prop where
  sse_owned : ∀ j slot, s.sse j = some slot →
    s.owner slot.client = some { conn := slot.asyncReq, transport := .sse }
  ws_owned : ∀ j slot, s.ws j = some slot →
    s.owner slot.client = some { conn := slot.conn, transport := .ws }
  sse_apart : ∀ j k a b, s.sse j = some a → s.sse k = some b → a.client = b.client → j = k
  ws_apart : ∀ j k a b, s.ws j = some a → s.ws k = some b → a.client = b.client → j = k
  tables_apart : ∀ j k a b, s.sse j = some a → s.ws k = some b → a.client ≠ b.client
  in_reach : ∀ i a, s.owner i = some a → ∃ v, s.refers v = some (i, a)
  life : ∀ n, s.Life n
  aborted_once : ∀ req, s.aborts req ≤ 1
  aborted_released : ∀ req r, .acquired req ∈ s.log → .aborted req r ∈ s.log →
    r = some req ∧ .released req ∈ s.log
  found : ∀ n, .unrouted n ∉ s.log
  sse_sent : ∀ queuedFor sentOn, .sseSent queuedFor sentOn ∈ s.log → sentOn = queuedFor
  ws_sent : ∀ queuedFor sentOn since, .wsSent queuedFor sentOn since ∈ s.log →
    sentOn = queuedFor ∨ since ≤ sentOn

theorem Sound.agrees {s : Connections cfg} (h : s.Sound) : s.Agrees := by
  have hsse {j : Nat} {slot : SseSlot} (hj : s.sse j = some slot) :
      s.refers (.sse j) = some (slot.client, { conn := slot.asyncReq, transport := .sse }) := by
    simp only [refers, hj, Option.map_some]
  have hws {j : Nat} {slot : WsSlot} (hj : s.ws j = some slot) :
      s.refers (.ws j) = some (slot.client, { conn := slot.conn, transport := .ws }) := by
    simp only [refers, hj, Option.map_some]
  refine
    { sse_owned := fun j slot hj => h.borne.owned _ _ _ (hsse hj)
      ws_owned := fun j slot hj => h.borne.owned _ _ _ (hws hj)
      sse_apart := fun j k a b ha hb hab => ?_
      ws_apart := fun j k a b ha hb hab => ?_
      tables_apart := fun j k a b ha hb hab => ?_
      in_reach := h.borne.total
      life := h.life
      aborted_once := h.aborts_le
      aborted_released := fun req r hacquired haborted => ?_
      found := fun n hn => h.delivered _ hn
      sse_sent := fun queuedFor sentOn he => h.delivered _ he
      ws_sent := fun queuedFor sentOn since he => h.delivered _ he }
  · exact Bearer.sse.inj (h.borne.inj _ _ _ _ _ (hsse ha) (hab ▸ hsse hb))
  · exact Bearer.ws.inj (h.borne.inj _ _ _ _ _ (hws ha) (hab ▸ hws hb))
  · have hk : s.refers (.ws k) = some (a.client, { conn := b.conn, transport := .ws }) := by
      rw [hab]
      exact hws hb
    exact absurd (h.borne.inj (.sse j) (.ws k) _ _ _ (hsse ha) hk) (by simp)
  · cases r with
    | none =>
      have hnone := (h.refused req haborted).2
      exact absurd hacquired (List.count_eq_zero.mp hnone)
    | some r =>
      obtain ⟨rfl, hreleased⟩ := h.aborted req r haborted
      exact ⟨rfl, List.count_pos_iff.mp (hreleased ▸ Nat.one_pos)⟩

/--
However the httpd task and the broadcaster interleave, as long as no sweep calls the send
function of an SSE client before its slot is recorded, the tables agree with the pool.  A WS
frame is sent on another connection only if that one was accepted after the slot was looked up.
-/
theorem connections_agree (seams : Seams) (sources : Bytes → Source cfg) (clock : Nat)
    (as : List (Act cfg)) (hrun : Along step Recorded (init seams sources clock) as) :
    (run step (init seams sources clock) as).Agrees :=
  (sound_run seams sources clock hrun).agrees

/-! ## Two runs -/

/-- Everything installed but the module-wide send and abort, all keys at generation zero. -/
def start : Connections Config.default :=
  init { render := true, gen := true, send := false, abort := false }
    (fun _ => { gen := 0, frame := Frame.empty Config.default }) 0

/-- The next `n` steps of the broadcaster, with live peers and sends that succeed. -/
def sweeps (n : Nat) : List (Act Config.default) :=
  List.replicate n (.broadcaster { alive := true, fits := true, rc := .ok, script := [] })

/-- One STATE key. -/
def attachKey : Act Config.default :=
  .attach { key := some [107], topic := some [116], kind := .state, snapSize := 0,
            minIntervalMs := 0 }

/-- A connect, its slot, and a sweep that sends one frame on it. -/
def recordedRun : List (Act Config.default) :=
  [attachKey, .sseConnect none, .httpd] ++ sweeps 11

example : Event.sseSent 0 0 ∈ (run step start recordedRun).log := by decide +kernel

/-- The tables agree after a connect whose slot was recorded before the sweep. -/
theorem connections_agree_recordedRun : (run step start recordedRun).Agrees :=
  connections_agree _ _ _ recordedRun (by decide +kernel)

/-- The sweep comes first; the next connection gets the same client and a slot of its own. -/
def unrecordedRun : List (Act Config.default) :=
  [attachKey, .sseConnect none] ++ sweeps 14 ++ [.httpd, .sseConnect none, .httpd] ++ sweeps 13

/-- A session ends while a frame for it is on its way, and the next one gets its descriptor. -/
def reusedRun : List (Act Config.default) :=
  [attachKey, .wsConnect 5, .httpd] ++ sweeps 9 ++
    [.wsDisconnect 5, .httpd, .wsConnect 5, .httpd] ++ sweeps 1 ++ [.wsWork]

/-- One client in two slots, a frame on the wrong request, and one on the wrong session. -/
theorem tables_disagree :
    ¬ (run step start unrecordedRun).Agrees ∧
      Event.sseSent 1 0 ∈ (run step start unrecordedRun).log ∧
      Event.wsSent 0 1 1 ∈ (run step start reusedRun).log := by
  have hslots : (run step start unrecordedRun).sse 0 = some { asyncReq := 0, client := 0 } ∧
      (run step start unrecordedRun).sse 1 = some { asyncReq := 1, client := 0 } := by
    decide +kernel
  refine ⟨fun hagrees => ?_, by decide +kernel, by decide +kernel⟩
  exact absurd (hagrees.sse_apart 0 1 _ _ hslots.1 hslots.2 rfl) nofun

/-! ## No other runs agree -/

/-- A run agrees in all its states exactly when it makes no such call. -/
theorem agree_throughout_iff (seams : Seams) (sources : Bytes → Source cfg) (clock : Nat)
    (as : List (Act cfg)) :
    (∀ pre, pre <+: as → (run step (init seams sources clock) pre).Agrees) ↔
      Along step Recorded (init seams sources clock) as := by
  refine good_throughout_iff_along (I := Sound) (fun s a h hrecorded => h.step a hrecorded)
    (fun s h => h.agrees) (fun s a h hcall hagrees => ?_) (sound_init seams sources clock) as
  cases a with
  | broadcaster answer =>
    have hunrecorded : s.unrecorded = true := Bool.eq_true_of_not_eq_false hcall
    obtain ⟨i, conn, m, hb, hp⟩ := (unrecorded_iff s).mp hunrecorded
    exact hagrees.found conn (h.unrouted hb hp answer)
  | _ => exact hcall trivial

end Connections
end DataHttp
end Breadboard
