import Breadboard.DataHttp.ConnectionsSound

/-!
# bb_data_http - the steps of the connection tables

Each step of the httpd task and of the broadcaster keeps the invariant, except a send of
an SSE client whose connect has not recorded the slot: that step finds no slot and turns
the client over to the abort function.

Main results:

- Theorem `Sound.step`: every other step keeps the invariant.
- Theorem `sound_run`: so does every run without such a step.
-/

namespace Breadboard
namespace DataHttp
namespace Connections

open Queue Foundations

variable {cfg : Config} {s : Connections cfg}

namespace Sound

/-! ## Slots -/

/-- A connect records the slot of the client it acquired. -/
theorem recordSse (h : s.Sound) {conn i : Nat} (hp : s.httpd = .sseAcquired conn i) :
    s.httpdStep.Sound := by
  have hhand : s.refers .httpd = some (i, { conn := conn, transport := .sse }) := by
    simp only [refers, hp]
    rfl
  unfold httpdStep
  simp only [hp]
  split
  · rename_i j halloc
    obtain ⟨hj, hfree⟩ := allocSlot_eq_some halloc
    refine
      { h with
        borne := ?_
        sse_lt := fun k hk => ?_
        connecting := by simp
        roomy := by simp
        serving := h.serving.mono (fun k slot hk => ?_) (fun _ hi => hi) (fun _ _ ha => ha)
          fun _ _ _ hr => hr
        life := fun n => (h.life n).congr (fun _ => rfl) rfl rfl
        refusing := by simp }
    · refine h.borne.pass (w := .sse j) hhand ?_ (fun _ => rfl) rfl ?_ fun u hu hw => ?_
      · simp only [refers, hfree]
        rfl
      · simp only [refers, Function.update_self]
        rfl
      · cases u with
        | httpd => exact absurd rfl hu
        | sse k =>
          have hk : k ≠ j := fun heq => hw (congrArg Bearer.sse heq)
          simp only [refers, Function.update_of_ne hk]
        | _ => rfl
    · by_cases hkj : k = j
      · exact hkj ▸ hj
      · exact h.sse_lt k (by simpa only [Function.update_of_ne hkj] using hk)
    · have hkj : k ≠ j := by
        rintro rfl
        rw [hfree] at hk
        cases hk
      exact (Function.update_of_ne hkj ..).trans hk
  · rename_i halloc
    obtain ⟨j, hj, hfree⟩ := h.borne.exists_free .sse (fun _ _ heq => Bearer.sse.inj heq)
      h.client_lt hhand (by simp)
    refine absurd ?_ (allocSlot_eq_none halloc hj)
    simpa [refers] using hfree

/-- A WS connect records the slot of the client it acquired. -/
theorem recordWs (h : s.Sound) {conn fd i : Nat} (hp : s.httpd = .wsAcquired conn fd i) :
    s.httpdStep.Sound := by
  have hhand : s.refers .httpd = some (i, { conn := conn, transport := .ws }) := by
    simp only [refers, hp]
    rfl
  unfold httpdStep
  simp only [hp]
  split
  · rename_i j halloc
    obtain ⟨hj, hfree⟩ := allocSlot_eq_some halloc
    refine
      { h with
        borne := ?_
        ws_lt := fun k hk => ?_
        ws_open := fun k slot hk => ?_
        connecting := by simp
        roomy := by simp
        serving := h.serving.mono (fun _ _ hk => hk) (fun _ hi => hi) (fun _ _ ha => ha)
          fun _ _ _ hr => hr
        life := fun n => (h.life n).congr (fun _ => rfl) rfl rfl
        refusing := by simp }
    · refine h.borne.pass (w := .ws j) hhand ?_ (fun _ => rfl) rfl ?_ fun u hu hw => ?_
      · simp only [refers, hfree]
        rfl
      · simp only [refers, Function.update_self]
        rfl
      · cases u with
        | httpd => exact absurd rfl hu
        | ws k =>
          have hk : k ≠ j := fun heq => hw (congrArg Bearer.ws heq)
          simp only [refers, Function.update_of_ne hk]
        | _ => rfl
    · by_cases hkj : k = j
      · exact hkj ▸ hj
      · exact h.ws_lt k (by simpa only [Function.update_of_ne hkj] using hk)
    · by_cases hkj : k = j
      · simp only [hkj, Function.update_self, Option.some.injEq] at hk
        subst hk
        exact h.connecting conn fd i hp
      · exact h.ws_open k slot (by simpa only [Function.update_of_ne hkj] using hk)
  · rename_i halloc
    obtain ⟨j, hj, hfree⟩ := h.borne.exists_free .ws (fun _ _ heq => Bearer.ws.inj heq)
      h.client_lt hhand (by simp)
    refine absurd ?_ (allocSlot_eq_none halloc hj)
    simpa [refers] using hfree

/-- Two WS slots with one descriptor are one slot. -/
theorem ws_fd_inj (h : s.Sound) {j k : Nat} {a b : WsSlot} (ha : s.ws j = some a)
    (hb : s.ws k = some b) (hfd : a.fd = b.fd) : j = k := by
  have hconn : a.conn = b.conn := by
    have hopen := h.ws_open j a ha
    rw [hfd, h.ws_open k b hb] at hopen
    exact (Option.some.inj hopen).symm
  have hja : s.refers (.ws j) = some (a.client, { conn := a.conn, transport := .ws }) := by
    simp only [refers, ha, Option.map_some]
  have hkb : s.refers (.ws k) = some (b.client, { conn := b.conn, transport := .ws }) := by
    simp only [refers, hb, Option.map_some]
  have hclient := h.conn_inj _ _ _ _ (h.borne.owned _ _ _ hja) (h.borne.owned _ _ _ hkb) hconn
  rw [← hclient] at hkb
  exact Bearer.ws.inj (h.borne.inj _ _ _ _ _ hja hkb)

/-- A WS session ends: its slot is free, and its client in the hands of the httpd task. -/
theorem wsDisconnect (h : s.Sound) (hidle : s.httpd = .idle) (fd : Nat) :
    (s.wsDisconnect fd).Sound := by
  have hclosed {fd' m : Nat} (hm : Function.update s.sessions fd none fd' = some m) :
      s.sessions fd' = some m := by
    by_cases hne : fd' = fd
    · rw [hne, Function.update_self] at hm
      cases hm
    · rwa [Function.update_of_ne hne] at hm
  have hrouted {fd' conn since : Nat} (hr : s.Routed fd' conn since) : since ≤ s.accepted ∧
      ∀ m, Function.update s.sessions fd none fd' = some m → m = conn ∨ since ≤ m :=
    ⟨hr.1, fun m hm => hr.2 m (hclosed hm)⟩
  unfold Connections.wsDisconnect
  simp only
  split
  · rename_i hfind
    refine
      { h with
        borne := h.borne.congr (fun _ => rfl) fun u => ?_
        ws_open := fun j slot hj => ?_
        connecting := by simp
        session_lt := fun fd' conn hfd => h.session_lt fd' conn (hclosed hfd)
        routed := fun x hx => hrouted (h.routed x hx)
        roomy := by simp
        serving := h.serving.mono (fun _ _ hk => hk) (fun _ hi => hi) (fun _ _ ha => ha)
          fun _ _ _ hr => hrouted hr
        life := fun n => (h.life n).congr (fun _ => rfl) rfl rfl
        refusing := by simp }
    · cases u with
      | httpd =>
        simp only [refers, hidle]
        rfl
      | _ => rfl
    · have hne : slot.fd ≠ fd := by
        have hj' : s.ws j ≠ none := by
          rw [show s.ws j = some slot from hj]
          simp
        simpa using findSlot_eq_none hfind (h.ws_lt j hj') hj
      exact (Function.update_of_ne hne ..).trans (h.ws_open j slot hj)
  · rename_i j slot hfind
    obtain ⟨hj, hfd⟩ := findSlot_eq_some hfind
    have hfd : slot.fd = fd := by simpa using hfd
    have hother {k : Nat} {slot' : WsSlot} (hk : Function.update s.ws j none k = some slot') :
        k ≠ j ∧ s.ws k = some slot' := by
      by_cases hkj : k = j
      · rw [hkj, Function.update_self] at hk
        cases hk
      · rw [Function.update_of_ne hkj] at hk
        exact ⟨hkj, hk⟩
    refine
      { h with
        borne := ?_
        ws_lt := fun k hk => ?_
        ws_open := fun k slot' hk => ?_
        connecting := by simp
        session_lt := fun fd' conn hfd => h.session_lt fd' conn (hclosed hfd)
        routed := fun x hx => hrouted (h.routed x hx)
        roomy := by simp
        serving := h.serving.mono (fun _ _ hk => hk) (fun _ hi => hi) (fun _ _ ha => ha)
          fun _ _ _ hr => hrouted hr
        life := fun n => (h.life n).congr (fun _ => rfl) rfl rfl
        refusing := by simp }
    · refine h.borne.pass (v := .ws j) (w := .httpd)
        (k := slot.client) (a := { conn := slot.conn, transport := .ws })
        ?_ ?_ (fun _ => rfl) ?_ rfl fun u hu hw => ?_
      · simp only [refers, hj, Option.map_some]
      · simp only [refers, hidle]
        rfl
      · simp only [refers, Function.update_self, Option.map_none]
      · cases u with
        | httpd => exact absurd rfl hw
        | ws k =>
          have hk : k ≠ j := fun heq => hu (congrArg Bearer.ws heq)
          simp only [refers, Function.update_of_ne hk]
        | _ => rfl
    · obtain ⟨slot', hslot'⟩ := Option.ne_none_iff_exists'.mp hk
      refine h.ws_lt k ?_
      rw [(hother hslot').2]
      simp
    · obtain ⟨hkj, hk⟩ := hother hk
      have hne : slot'.fd ≠ fd := fun heq => hkj (h.ws_fd_inj hk hj (heq.trans hfd.symm))
      exact (Function.update_of_ne hne ..).trans (h.ws_open k slot' hk)

/-- The release of a disconnected client is requested. -/
theorem requestRelease (h : s.Sound) {slot : WsSlot} (hp : s.httpd = .wsCleared (some slot)) :
    s.httpdStep.Sound := by
  have hhand : s.refers .httpd = some (slot.client, { conn := slot.conn, transport := .ws }) := by
    simp only [refers, hp]
    rfl
  have hown := h.borne.owned _ _ _ hhand
  obtain ⟨c, hc⟩ : ∃ c, s.core.clients slot.client = some c := by
    cases hc : s.core.clients slot.client with
    | none =>
      simp only [owner, World.flag, hc] at hown
      cases hown
    | some c => exact ⟨c, rfl⟩
  have hflag (k : Nat) : s.httpdStep.core.flag k =
      if k = slot.client then some true else s.core.flag k := by
    simp only [httpdStep, hp, World.flag_setClient, hc, Option.map_some]
  have howner (k : Nat) : s.httpdStep.owner k = s.owner k := by
    have hholder : s.httpdStep.holder = s.holder := by
      simp only [httpdStep, hp]
    rw [owner, owner, hflag, hholder]
    split
    · rename_i hk
      rw [hk, World.flag, hc]
      rfl
    · rfl
  have hpending : s.refers (.pending slot.client) = none := by
    cases hr : s.refers (.pending slot.client) with
    | none => rfl
    | some r =>
      have hr' := hr
      simp only [refers] at hr'
      split at hr'
      · cases hr'
        exact absurd (h.borne.inj _ _ _ _ _ hr hhand) (by simp)
      · cases hr'
  have hrefers (u : Bearer) (hu : u ≠ .httpd) (hw : u ≠ .pending slot.client) :
      s.httpdStep.refers u = s.refers u := by
    cases u with
    | httpd => exact absurd rfl hu
    | pending k =>
      have hk : k ≠ slot.client := fun heq => hw (congrArg Bearer.pending heq)
      simp only [refers, hflag, if_neg hk]
      simp only [httpdStep, hp]
    | _ => simp only [refers, httpdStep, hp]
  have hborne : Borne s.httpdStep.owner s.httpdStep.refers := by
    refine h.borne.pass hhand hpending howner ?_ ?_ hrefers
    · simp only [refers, httpdStep, hp]
      rfl
    · simp only [refers, hflag, if_true]
      simp only [httpdStep, hp]
      rw [owner_eq_some hown]
  have hserving : s.httpdStep.Serving s.broadcaster := by
    refine h.serving.mono (fun j held hj => ?_) (fun i hi => ?_) (fun i a ha => (howner i).trans ha)
      fun fd conn since hr => ?_
    · simpa only [httpdStep, hp] using hj
    · rw [hflag]
      split
      · rfl
      · exact hi
    · simpa only [Routed, httpdStep, hp] using hr
  have hlife (n : Nat) : s.httpdStep.Life n := by
    refine (h.life n).congr howner ?_ ?_ <;> simp only [httpdStep, hp]
  unfold httpdStep at hborne hserving howner hlife ⊢
  simp only [hp] at hborne hserving howner hlife ⊢
  exact
    { h with
      borne := hborne
      client_lt := fun i hi => h.client_lt i (howner i ▸ hi)
      conn_inj := fun i k a b ha hb => h.conn_inj i k a b (howner i ▸ ha) (howner k ▸ hb)
      connecting := by simp
      roomy := by simp
      serving := hserving
      life := hlife
      unaborted := fun i a ha => h.unaborted i a (howner i ▸ ha)
      refusing := by simp }

/-! ## Queued WS sends -/

/-- The httpd task runs the oldest queued send. -/
theorem wsWork (h : s.Sound) : s.wsWork.Sound := by
  unfold Connections.wsWork
  split
  · exact h
  rename_i x rest hwork
  have hrest : ({ s with work := rest } : Connections cfg).Sound :=
    { h with
      borne := h.borne.congr (fun _ => rfl) fun u => by cases u <;> rfl
      routed := fun y hy => h.routed y (by rw [hwork]; exact List.mem_cons_of_mem x hy)
      serving := h.serving.mono (fun _ _ hj => hj) (fun _ hi => hi) (fun _ _ ha => ha)
        fun _ _ _ hr => hr
      life := fun n => (h.life n).congr (fun _ => rfl) rfl rfl }
  split
  · exact hrest
  · rename_i conn hsession
    have hx := h.routed x (by rw [hwork]; exact List.mem_cons_self)
    exact hrest.note_sent (hx.2 conn hsession) fun n => ⟨nofun, nofun, fun r => nofun⟩

theorem queueWork (h : s.Sound) {x : Work} (hx : s.Routed x.fd x.conn x.since) :
    (s.queueWork x).Sound :=
  { h with
    borne := h.borne.congr (fun _ => rfl) fun u => by cases u <;> rfl
    routed := fun y hy => by
      rcases List.mem_append.mp hy with hy | hy
      · exact h.routed y hy
      · rw [List.mem_singleton.mp hy]
        exact hx
    serving := h.serving.mono (fun _ _ hj => hj) (fun _ hi => hi) (fun _ _ ha => ha)
      fun _ _ _ hr => hr
    life := fun n => (h.life n).congr (fun _ => rfl) rfl rfl }

/-! ## The broadcaster task -/

/-- The broadcaster pulls an SSE slot; its client and request are in its hands. -/
theorem pullSse (h : s.Sound) (hfree : broadcasterRef s.broadcaster = none) {j : Nat}
    {slot : SseSlot} (hj : s.sse j = some slot) (back : Resume) :
    ({ s with
      sse := Function.update s.sse j none
      broadcaster := .releasing slot.client (some slot.asyncReq) back } :
        Connections cfg).Sound := by
  refine
    { h with
      borne := ?_
      sse_lt := fun k hk => ?_
      serving := nofun
      life := fun n => (h.life n).congr (fun _ => rfl) rfl rfl
      ending := nofun }
  · refine h.borne.pass (v := .sse j) (w := .broadcaster)
      (k := slot.client) (a := { conn := slot.asyncReq, transport := .sse })
      ?_ hfree (fun _ => rfl) ?_ rfl fun u hu hw => ?_
    · simp only [refers, hj, Option.map_some]
    · simp only [refers, Function.update_self, Option.map_none]
    · cases u with
      | broadcaster => exact absurd rfl hw
      | sse k =>
        have hk : k ≠ j := fun heq => hu (congrArg Bearer.sse heq)
        simp only [refers, Function.update_of_ne hk]
      | _ => rfl
  · by_cases hkj : k = j
    · exact absurd (by rw [hkj]; exact Function.update_self ..) hk
    · exact h.sse_lt k (by simpa only [Function.update_of_ne hkj] using hk)

/-- The flush loop goes on after a send; only an SSE client with a slot is aborted. -/
theorem afterSend (h : s.Sound) (hfree : broadcasterRef s.broadcaster = none) {i : Nat} {rc : BbErr}
    (hslot : rc = .ok ∨ rc = .timeout ∨ ∃ j slot, s.sse j = some slot ∧ slot.client = i) :
    (s.afterSend i rc).Sound := by
  have hnext : ({ s with broadcaster := .sweeping (i + 1) } : Connections cfg).Sound :=
    h.goTo hfree rfl trivial nofun
  unfold Connections.afterSend
  split
  · exact hnext
  rename_i c hc
  split
  · exact hnext
  rename_i e _
  split
  · refine (h.setCore fun k => ?_).goTo hfree rfl trivial nofun
    refine World.flag_setClient_of_eq hc ?_ k
    rfl
  split
  · refine (h.setCore fun k => ?_).goTo hfree rfl trivial nofun
    refine World.flag_setClient_of_eq hc ?_ k
    unfold Client.sendTimedOut
    split <;> rfl
  split
  · refine (h.setCore fun k => ?_).goTo hfree rfl trivial nofun
    refine World.flag_setClient_of_eq hc ?_ k
    rfl
  · refine h.goTo hfree rfl ?_ nofun
    rename_i hok htimeout _ _
    exact (hslot.resolve_left hok).resolve_left htimeout

/-- An SSE client in use has a slot, unless its connect has yet to record it. -/
theorem exists_sse_slot (h : s.Sound) (hfree : broadcasterRef s.broadcaster = none) {i : Nat}
    {a : Holder} (ha : s.owner i = some a) (hsse : a.transport = .sse)
    (hrecorded : ∀ m, s.httpd ≠ .sseAcquired m i) :
    ∃ j slot, s.sse j = some slot ∧ slot.client = i := by
  obtain ⟨v, hv⟩ := h.borne.total i a ha
  cases v with
  | sse j =>
    obtain ⟨slot, hslot, hpair⟩ := Option.map_eq_some_iff.mp hv
    exact ⟨j, slot, hslot, congrArg Prod.fst hpair⟩
  | ws j =>
    obtain ⟨slot, _, hpair⟩ := Option.map_eq_some_iff.mp hv
    cases hpair
    cases hsse
  | httpd =>
    simp only [refers] at hv
    unfold httpdRef at hv
    split at hv
    · rename_i conn _ hp
      cases hv
      exact absurd hp (hrecorded conn)
    · cases hv
      cases hsse
    · cases hv
      cases hsse
    · cases hv
  | broadcaster =>
    simp only [refers, hfree] at hv
    cases hv
  | pending k =>
    simp only [refers] at hv
    split at hv
    · cases hv
      cases hsse
    · cases hv

/-- The slot lookup of a send function. -/
theorem lookUp (h : s.Sound) {i conn : Nat} (hb : s.broadcaster = .calling i conn)
    (hrecorded : ∀ m, s.httpd ≠ .sseAcquired m i) : (s.lookUp i conn).Sound := by
  have hfree : broadcasterRef s.broadcaster = none := by
    rw [hb]
    rfl
  obtain ⟨a, ha, hconn⟩ : ∃ a, s.owner i = some a ∧ a.conn = conn := by
    have hserving := h.serving
    rwa [hb] at hserving
  have hholder := owner_eq_some ha
  unfold Connections.lookUp
  rw [hholder]
  split
  · rename_i htransport
    split
    · rename_i j slot hfind
      obtain ⟨hj, hclient⟩ := findSlot_eq_some hfind
      have hclient : slot.client = i := by simpa using hclient
      have hslot : s.refers (.sse j) = some (i, { conn := slot.asyncReq, transport := .sse }) := by
        simp only [refers, hj, Option.map_some, hclient]
      have hown := h.borne.owned _ _ _ hslot
      rw [ha] at hown
      refine h.goTo hfree rfl ⟨?_, j, ?_⟩ (by simp)
      · rw [← hconn, Option.some.inj hown]
      · rw [hj, ← hclient]
    · rename_i hfind
      obtain ⟨j, slot, hj, hclient⟩ := h.exists_sse_slot hfree ha htransport hrecorded
      have hlt := h.sse_lt j (by rw [hj]; simp)
      simpa [hclient] using findSlot_eq_none hfind hlt hj
  · split
    · rename_i j slot hfind
      obtain ⟨hj, hclient⟩ := findSlot_eq_some hfind
      have hclient : slot.client = i := by simpa using hclient
      have hslot : s.refers (.ws j) = some (i, { conn := slot.conn, transport := .ws }) := by
        simp only [refers, hj, Option.map_some, hclient]
      have hown := h.borne.owned _ _ _ hslot
      rw [ha] at hown
      refine h.goTo hfree rfl ⟨Nat.le_refl _, fun m hm => .inl ?_⟩ (by simp)
      rw [h.ws_open j slot hj] at hm
      rw [← Option.some.inj hm, ← hconn, Option.some.inj hown]
    · exact h.afterSend hfree (.inr (.inl rfl))

/-- The socket call of a send. -/
theorem send (h : s.Sound) {i conn : Nat} {route : Route}
    (hb : s.broadcaster = .sending i conn route) (answer : Answer cfg) : (s.send i conn answer route).Sound := by
  have hfree : broadcasterRef s.broadcaster = none := by
    rw [hb]
    rfl
  have hserving := h.serving
  rw [hb] at hserving
  unfold Connections.send
  split
  · rename_i req
    obtain ⟨hreq, j, hj⟩ := hserving
    split
    · have hnote : (s.note (.sseSent conn req)).Sound :=
        h.note_sent hreq.symm fun n => ⟨nofun, nofun, fun r => nofun⟩
      exact hnote.afterSend hfree (.inr (.inr ⟨j, _, hj, rfl⟩))
    · exact h.afterSend hfree (.inr (.inl rfl))
  · rename_i fd since
    split
    · have hqueued : (s.queueWork { fd := fd, conn := conn, since := since }).Sound :=
        h.queueWork hserving
      exact hqueued.afterSend hfree (.inl rfl)
    · exact h.afterSend hfree (.inr (.inl rfl))

/-- The locked section of an abort function finds the slot of its client. -/
theorem abortClient (h : s.Sound) {i : Nat} (hb : s.broadcaster = .aborting i) :
    (s.abortClient i).Sound := by
  have hfree : broadcasterRef s.broadcaster = none := by
    rw [hb]
    rfl
  obtain ⟨j, slot, hj, hclient⟩ : ∃ j slot, s.sse j = some slot ∧ slot.client = i := by
    have hserving := h.serving
    rwa [hb] at hserving
  have hslot : s.refers (.sse j) = some (i, { conn := slot.asyncReq, transport := .sse }) := by
    simp only [refers, hj, Option.map_some, hclient]
  unfold Connections.abortClient
  rw [owner_eq_some (h.borne.owned _ _ _ hslot)]
  dsimp only
  split
  · rename_i k found hfind
    obtain ⟨hk, hfound⟩ := findSlot_eq_some hfind
    have hfound : found.client = i := by simpa using hfound
    have hpulled := h.pullSse hfree hk (.sweeping (i + 1))
    rwa [hfound] at hpulled
  · rename_i hfind
    have hlt := h.sse_lt j (by rw [hj]; simp)
    simpa [hclient] using findSlot_eq_none hfind hlt hj

/-- A client is skipped, or found to be released, or drained. -/
theorem sweepNext (h : s.Sound) (hfree : broadcasterRef s.broadcaster = none)
    (script : List (Call cfg)) (i : Nat) : (s.sweepNext script i).Sound := by
  unfold Connections.sweepNext
  split
  · split
    · exact h.goTo hfree rfl trivial (by simp)
    rename_i c hc
    split
    · rename_i hpending
      refine h.goTo hfree rfl ?_ (by simp)
      show s.core.flag i = some true
      rw [World.flag, hc, Option.map_some, hpending]
    · exact (h.setCore (World.flag_drainClient
        (w := { s.core with env := { s.core.env with script := script } }) hc)).goTo
          hfree rfl trivial (by simp)
  · exact h.goTo hfree rfl trivial (by simp)

/-- Every step of the broadcaster but a send before its slot is recorded. -/
theorem broadcasterStep (h : s.Sound) (answer : Answer cfg)
    (hrecorded : s.Recorded (.broadcaster answer)) : (s.broadcasterStep answer).Sound := by
  unfold Connections.broadcasterStep
  split
  · rename_i hb
    exact h.goTo (by rw [hb]; rfl) rfl trivial (by simp)
  · rename_i j hb
    have hfree : broadcasterRef s.broadcaster = none := by
      rw [hb]
      rfl
    unfold probeNext
    split
    · split
      · exact h.goTo hfree rfl trivial (by simp)
      · exact h.goTo hfree rfl ‹_› (by simp)
    · exact h.goTo hfree rfl trivial (by simp)
  · rename_i j held hb
    have hserving := h.serving
    rw [hb] at hserving
    split
    · exact h.goTo (by rw [hb]; rfl) rfl trivial (by simp)
    · exact h.goTo (by rw [hb]; rfl) rfl hserving (by simp)
  · rename_i j held hb
    have hserving := h.serving
    rw [hb] at hserving
    exact h.pullSse (by rw [hb]; rfl) hserving _
  · rename_i hb
    exact (h.setCore (World.flag_detect_pushPump
      { s.core with env := { s.core.env with script := answer.script } })).goTo
        (by rw [hb]; rfl) rfl trivial (by simp)
  · rename_i i hb
    exact h.sweepNext (by rw [hb]; rfl) answer.script i
  · rename_i i hb
    have hserving : s.core.flag i = some true := by
      have hserving := h.serving
      rwa [hb] at hserving
    refine h.release (v := .pending i) (a := { conn := (s.holder i).conn, transport := .ws })
      (by simp only [refers, hserving, if_true]) (.inr ⟨rfl, by rw [hb]; rfl⟩) rfl trivial (by simp)
  · rename_i i hb
    have hfree : broadcasterRef s.broadcaster = none := by
      rw [hb]
      rfl
    unfold flushNext
    split
    · exact h.goTo hfree rfl trivial (by simp)
    rename_i c hc
    split
    · exact h.goTo hfree rfl trivial (by simp)
    · exact h.goTo hfree rfl ⟨_, owner_of_clients hc, rfl⟩ (by simp)
  · rename_i i conn hb
    refine h.lookUp hb fun m hp => ?_
    have hcall : s.unrecorded = true := (unrecorded_iff s).mpr ⟨i, conn, m, hb, hp⟩
    exact Bool.false_ne_true (Eq.trans (Eq.symm hrecorded) hcall)
  · rename_i i conn route hb
    exact h.send hb answer
  · rename_i i hb
    exact h.abortClient hb
  · rename_i i req back hb
    have hserving : req ≠ none := by
      have hserving := h.serving
      rwa [hb] at hserving
    obtain ⟨conn, rfl⟩ := Option.ne_none_iff_exists'.mp hserving
    have hhand : s.refers .broadcaster = some (i, { conn := conn, transport := .sse }) := by
      simp only [refers, hb]
      rfl
    have hconn : (s.holder i).conn = conn := by
      rw [owner_eq_some (h.borne.owned _ _ _ hhand)]
    refine h.release hhand (.inl rfl) rfl (congrArg some hconn.symm) ?_
    rintro req r back' heq
    cases heq
    exact hconn
  · rename_i r back hb
    have hserving := h.serving
    rw [hb] at hserving
    cases hserving
  · rename_i req r back hb
    have hserving : some req = some r := by
      have hserving := h.serving
      rwa [hb] at hserving
    exact h.aborted_by_broadcaster hb

/-- Every step of a callback of the httpd task. -/
theorem httpdStep (h : s.Sound) : s.httpdStep.Sound := by
  cases hp : s.httpd with
  | idle =>
    unfold Connections.httpdStep
    rw [hp]
    exact h
  | sseAcquired conn i => exact h.recordSse hp
  | wsAcquired conn fd i => exact h.recordWs hp
  | tableFull i req => exact absurd hp (h.roomy i req)
  | ending req r =>
    unfold Connections.httpdStep
    rw [hp]
    exact h.aborted_by_httpd hp
  | wsCleared slot =>
    cases slot with
    | none =>
      unfold Connections.httpdStep
      rw [hp]
      exact h.goIdle (by rw [hp]; rfl)
    | some slot => exact h.requestRelease hp

/-- An acquired client was free, is in range, and waits for no release. -/
theorem acquire_ok {topicFilter : Option Bytes} {i : Nat} {client : Client cfg}
    (hacquire : s.acquire topicFilter = .ok (i, client)) :
    i < cfg.maxClients ∧ s.core.flag i = none ∧ client.pendingRelease = false := by
  obtain ⟨hlt, hfree, out, -, rfl⟩ := DataHttp.acquire_ok hacquire
  refine ⟨hlt, ?_, rfl⟩
  rw [World.flag, hfree]
  rfl

/-- Every step but a send of an SSE client whose slot is not recorded keeps the invariant. -/
theorem step (h : s.Sound) (a : Act cfg) (hrecorded : s.Recorded a) : (s.step a).Sound := by
  cases a with
  | attach a => exact h.setCore fun k => rfl
  | publish b => exact h.setCore fun k => rfl
  | elapse ms => exact h.setCore fun k => rfl
  | sseConnect topicFilter =>
    rw [Connections.step]
    split
    · rename_i hidle
      unfold sseConnect
      split
      · exact h.turnedAway hidle (opens_self s) (.inr rfl)
      · rename_i i client hacquire
        obtain ⟨hlt, hfree, hclient⟩ := acquire_ok hacquire
        exact h.join hidle hfree hlt hclient (opens_self s) (.inl ⟨rfl, rfl⟩)
    · exact h
  | wsConnect fd =>
    rw [Connections.step]
    split
    · rename_i hguard
      obtain ⟨hidle, hfd⟩ := hguard
      unfold wsConnect
      dsimp only
      split
      · have haway := h.turnedAway hidle (opens_update hfd) (.inl rfl)
        rwa [← hidle] at haway
      · rename_i i client hacquire
        obtain ⟨hlt, hfree, hclient⟩ := acquire_ok hacquire
        exact h.join hidle hfree hlt hclient (opens_update hfd)
          (.inr ⟨fd, rfl, rfl, Function.update_self ..⟩)
    · exact h
  | wsDisconnect fd =>
    rw [Connections.step]
    split
    · rename_i hguard
      exact h.wsDisconnect hguard.1 fd
    · exact h
  | wsWork =>
    rw [Connections.step]
    split
    · exact h.wsWork
    · exact h
  | httpd => exact h.httpdStep
  | broadcaster answer => exact h.broadcasterStep answer hrecorded

end Sound

/-! ## Runs -/

/-- A run that makes no such call keeps the invariant. -/
theorem sound_run (seams : Seams) (sources : Bytes → Source cfg) (clock : Nat)
    {as : List (Act cfg)} (hrun : Along step Recorded (init seams sources clock) as) :
    (run step (init seams sources clock) as).Sound :=
  run_invariant_along (fun _ a h hrecorded => h.step a hrecorded)
    (sound_init seams sources clock) hrun

/-! ## A send before its slot is recorded -/

theorem afterSend_log (s : Connections cfg) (i : Nat) (rc : BbErr) :
    (s.afterSend i rc).log = s.log := by
  unfold afterSend
  repeat' split
  all_goals rfl

/-- Such a call finds no slot, and the client goes to its abort function. -/
theorem Sound.unrouted (h : s.Sound) {i conn m : Nat} (hb : s.broadcaster = .calling i conn)
    (hp : s.httpd = .sseAcquired m i) (answer : Answer cfg) :
    .unrouted conn ∈ (s.broadcasterStep answer).log := by
  have hhand : s.refers .httpd = some (i, { conn := m, transport := .sse }) := by
    simp only [refers, hp]
    rfl
  have hnone : findSlot cfg.maxClients s.sse (fun slot => slot.client = i) = none := by
    cases hfind : findSlot cfg.maxClients s.sse (fun slot => slot.client = i) with
    | none => rfl
    | some found =>
      obtain ⟨hj, hclient⟩ := findSlot_eq_some hfind
      have hclient : found.2.client = i := by simpa using hclient
      have hslot : s.refers (.sse found.1) =
          some (i, { conn := found.2.asyncReq, transport := .sse }) := by
        simp only [refers, hj, Option.map_some, hclient]
      exact absurd (h.borne.inj _ _ _ _ _ hslot hhand) (by simp)
  unfold Connections.broadcasterStep
  simp only [hb]
  unfold Connections.lookUp
  simp only [owner_eq_some (h.borne.owned _ _ _ hhand), hnone, afterSend_log, note]
  exact List.mem_append_right _ List.mem_cons_self

end Connections
end DataHttp
end Breadboard
