import Breadboard.Queue.Bounded

/-!
# bb_data_http - configuration, attach table, subscriptions

The compile-time options with the ranges their Kconfig entries give them, the
options `bb_data_http_init` resolves, the attach table, and the test that
decides which clients a key reaches.
-/

namespace Breadboard
namespace DataHttp

open Queue

/-! ## Options -/

/-- `BB_DATA_HTTP_MAX_ATTACH`. -/
def maxAttach : Nat := 8

/-- `BB_DATA_HTTP_KEY_MAX`, terminator included. -/
def keyMax : Nat := 48

/-- `BB_DATA_HTTP_TOPIC_MAX`, terminator included. -/
def topicMax : Nat := 32

/-- The `CONFIG_BB_DATA_HTTP_*` options the core reads, with their ranges. -/
structure Kconfig where
  maxClients : Nat
  maxBlockingClients : Nat
  maxPollClients : Nat
  maxPushClients : Nat
  outboundCapacity : Nat
  outboundEntryMax : Nat
  outboundMaxBytes : Nat
  eventRingCapacity : Nat
  renderScratchBytes : Nat
  sendFailMax : Nat
  minIntervalMaxMs : Nat
  maxClients_range : 1 ≤ maxClients ∧ maxClients ≤ 16
  maxBlockingClients_le : maxBlockingClients ≤ maxClients
  maxPollClients_le : maxPollClients ≤ 16
  maxPushClients_le : maxPushClients ≤ 16
  outboundCapacity_range : 1 ≤ outboundCapacity ∧ outboundCapacity ≤ 64
  outboundEntryMax_range : 64 ≤ outboundEntryMax ∧ outboundEntryMax ≤ 4096
  outboundMaxBytes_range : 512 ≤ outboundMaxBytes ∧ outboundMaxBytes ≤ 32768
  eventRingCapacity_range : 1 ≤ eventRingCapacity ∧ eventRingCapacity ≤ 64
  renderScratchBytes_range : 32 ≤ renderScratchBytes ∧ renderScratchBytes ≤ 2048
  sendFailMax_range : 1 ≤ sendFailMax ∧ sendFailMax ≤ 32
  minIntervalMaxMs_range : 60000 ≤ minIntervalMaxMs ∧ minIntervalMaxMs ≤ 86400000

/-- The Kconfig defaults. -/
def Kconfig.default : Kconfig where
  maxClients := 3
  maxBlockingClients := 3
  maxPollClients := 3
  maxPushClients := 3
  outboundCapacity := 8
  outboundEntryMax := 512
  outboundMaxBytes := 4096
  eventRingCapacity := 16
  renderScratchBytes := 256
  sendFailMax := 3
  minIntervalMaxMs := 86400000
  maxClients_range := by decide
  maxBlockingClients_le := by decide
  maxPollClients_le := by decide
  maxPushClients_le := by decide
  outboundCapacity_range := by decide
  outboundEntryMax_range := by decide
  outboundMaxBytes_range := by decide
  eventRingCapacity_range := by decide
  renderScratchBytes_range := by decide
  sendFailMax_range := by decide
  minIntervalMaxMs_range := by decide

/-- `bb_data_http_cfg_t`: a zero field means the compile-time option. -/
structure InitCfg where
  maxClients : Nat
  eventRingCapacity : Nat
  maxPollClients : Nat
  maxPushClients : Nat
  deriving Repr, DecidableEq

/-- `s_cfg` after a successful init, on top of the compile-time options. -/
structure Config extends Kconfig where
  clientSlots : Nat
  pollSlots : Nat
  pushSlots : Nat
  ringCapacity : Nat
  clientSlots_le : clientSlots ≤ maxClients
  ringCapacity_range : 1 ≤ ringCapacity ∧ ringCapacity ≤ 64

/-- A zero field of `bb_data_http_cfg_t` falls back to the option. -/
def resolveOption (requested fallback : Nat) : Nat :=
  if requested = 0 then fallback else requested

/-- The option checks of `bb_data_http_init`. -/
def resolveInit (k : Kconfig) (cfg : InitCfg) : Except BbErr Config :=
  let clients := resolveOption cfg.maxClients k.maxClients
  let ring := resolveOption cfg.eventRingCapacity k.eventRingCapacity
  let polls := resolveOption cfg.maxPollClients k.maxPollClients
  let pushes := resolveOption cfg.maxPushClients k.maxPushClients
  if hclients : k.maxClients < clients then .error .invalidArg
  else if hring : k.eventRingCapacity < ring then .error .invalidArg
  else if k.maxPollClients < polls then .error .invalidArg
  else if k.maxPushClients < pushes then .error .invalidArg
  else
    .ok
      { k with
        clientSlots := clients
        pollSlots := polls
        pushSlots := pushes
        ringCapacity := ring
        clientSlots_le := by omega
        ringCapacity_range := by
          have hrange := k.eventRingCapacity_range
          have hpos : 1 ≤ ring := by
            simp only [ring, resolveOption]
            split <;> omega
          omega }

/-- The state of `s_cfg` after `bb_data_http_init(NULL)` on the default options. -/
def Config.default : Config where
  toKconfig := Kconfig.default
  clientSlots := 3
  pollSlots := 3
  pushSlots := 3
  ringCapacity := 16
  clientSlots_le := by decide
  ringCapacity_range := by decide

/-- The default options with an outbound queue of one frame. -/
def oneFrameConfig : Config :=
  { Config.default with
    outboundCapacity := 1
    outboundCapacity_range := by decide }

/-- The limits of the shared EVENT ring: `event_cfg`. -/
def Config.eventLimits (cfg : Config) : Limits :=
  { capacityEntries := cfg.ringCapacity
    maxEntryBytes := cfg.outboundEntryMax
    maxBytes := 0 }

/-- The limits of a client's outbound queue: `qcfg`. -/
def Config.outboundLimits (cfg : Config) : Limits :=
  { capacityEntries := cfg.outboundCapacity
    maxEntryBytes := cfg.outboundEntryMax
    maxBytes := cfg.outboundMaxBytes }

/-- A rendered frame: `render_fn` writes within the buffer it is given. -/
abbrev Frame (cfg : Config) := { data : Bytes // data.length ≤ cfg.outboundEntryMax }

/-- The empty frame. -/
def Frame.empty (cfg : Config) : Frame cfg :=
  ⟨[], Nat.zero_le _⟩

/-! ## Attach table -/

/-- `bb_data_http_replay_kind_t`. -/
inductive ReplayKind where
  | state
  | event
  deriving Repr, DecidableEq

/-- The bit number of a kind in a subscribe mask. -/
def ReplayKind.code : ReplayKind → Nat
  | .state => 0
  | .event => 1

/--
`attach_slot_t`.  The proof-only `boundAt` numbers the attach call that
gave the slot its present kind and topic.
-/
structure AttachSlot where
  key : Bytes
  topic : Bytes
  kind : ReplayKind
  minIntervalMs : UInt32
  boundAt : Nat
  deriving Repr, DecidableEq

/-- `bb_data_http_attach_cfg_t`; `none` is a null pointer. -/
structure AttachCfg where
  key : Option Bytes
  topic : Option Bytes
  kind : ReplayKind
  snapSize : Nat
  minIntervalMs : UInt32
  deriving Repr, DecidableEq

/-- The attach table in registration order: the index is the dirty-mask bit. -/
abbrev AttachTable := List AttachSlot

/-- A non-null, nonempty string that fits a buffer of `size` bytes. -/
def checkName (size : Nat) : Option Bytes → Option Bytes
  | none => none
  | some s => if s = [] ∨ size ≤ s.length then none else some s

/-- The in-place update of an attached key; `now` numbers this attach call. -/
def AttachSlot.rebind (slot : AttachSlot) (topic : Bytes) (kind : ReplayKind)
    (minIntervalMs : UInt32) (now : Nat) : AttachSlot :=
  { slot with
    topic := topic
    kind := kind
    minIntervalMs := minIntervalMs
    boundAt := if slot.topic = topic ∧ slot.kind = kind then slot.boundAt else now }

/-- `bb_data_http_attach`: size guards, name checks, then update or register. -/
def attach (cfg : Config) (now : Nat) (table : AttachTable) (a : AttachCfg) :
    BbErr × AttachTable :=
  if cfg.renderScratchBytes < a.snapSize then (.noSpace, table)
  else if cfg.minIntervalMaxMs < a.minIntervalMs.toNat then (.noSpace, table)
  else
    match checkName keyMax a.key, checkName topicMax a.topic with
    | some key, some topic =>
      if table.any (fun slot => slot.key = key) then
        (.ok, table.map fun slot =>
          if slot.key = key then slot.rebind topic a.kind a.minIntervalMs now else slot)
      else if maxAttach ≤ table.length then (.noSpace, table)
      else
        (.ok, table ++
          [{ key := key, topic := topic, kind := a.kind,
             minIntervalMs := a.minIntervalMs, boundAt := now }])
    | _, _ => (.invalidArg, table)

/-- Attaching never shrinks the table. -/
theorem attach_length_mono (cfg : Config) (now : Nat) (table : AttachTable) (a : AttachCfg) :
    table.length ≤ (attach cfg now table a).2.length := by
  unfold attach
  repeat' split
  all_goals simp

/-- The table never outgrows `BB_DATA_HTTP_MAX_ATTACH`. -/
theorem attach_length_le (cfg : Config) (now : Nat) {table : AttachTable} (a : AttachCfg)
    (h : table.length ≤ maxAttach) : (attach cfg now table a).2.length ≤ maxAttach := by
  unfold attach
  split
  · exact h
  split
  · exact h
  split
  · split
    · simpa using h
    split
    · exact h
    · simp only [List.length_append, List.length_singleton]
      omega
  · exact h

/-- `slot'` is `slot` as far as a client is concerned. -/
structure AttachSlot.SameBinding (slot slot' : AttachSlot) : Prop where
  key_eq : slot'.key = slot.key
  topic_eq : slot'.topic = slot.topic
  kind_eq : slot'.kind = slot.kind
  boundAt_eq : slot'.boundAt = slot.boundAt

/-- After an attach call each slot has its old binding or one stamped with this call. -/
theorem attach_slot {cfg : Config} {now : Nat} {table : AttachTable} {a : AttachCfg} {k : Nat}
    {slot' : AttachSlot} (h : (attach cfg now table a).2[k]? = some slot') :
    (∃ slot, table[k]? = some slot ∧ slot'.key = slot.key ∧
        (slot.SameBinding slot' ∨ slot'.boundAt = now)) ∨
      (table.length ≤ k ∧ slot'.boundAt = now) := by
  have hsame (hk : table[k]? = some slot') : ∃ slot, table[k]? = some slot ∧
      slot'.key = slot.key ∧ (slot.SameBinding slot' ∨ slot'.boundAt = now) :=
    ⟨slot', hk, rfl, Or.inl ⟨rfl, rfl, rfl, rfl⟩⟩
  unfold attach at h
  split at h
  · exact Or.inl (hsame h)
  split at h
  · exact Or.inl (hsame h)
  split at h
  · rename_i key topic _ _
    split at h
    · rw [List.getElem?_map, Option.map_eq_some_iff] at h
      obtain ⟨slot, hslot, rfl⟩ := h
      refine Or.inl ⟨slot, hslot, ?_⟩
      split
      · unfold AttachSlot.rebind
        split
        · rename_i hbound
          exact ⟨rfl, Or.inl ⟨rfl, hbound.1.symm, hbound.2.symm, rfl⟩⟩
        · exact ⟨rfl, Or.inr rfl⟩
      · exact ⟨rfl, Or.inl ⟨rfl, rfl, rfl, rfl⟩⟩
    split at h
    · exact Or.inl (hsame h)
    · rw [List.getElem?_append] at h
      split at h
      · exact Or.inl (hsame h)
      · rename_i hk
        have hmem := List.mem_of_getElem? h
        rw [List.mem_singleton] at hmem
        exact Or.inr ⟨Nat.not_lt.mp hk, by rw [hmem]⟩
  · exact Or.inl (hsame h)

/-! ## Subscriptions -/

/-- The subscription a client holds: its mask and its topic filter. -/
structure Subscription where
  mask : BitVec 32
  topicFilter : Bytes
  deriving Repr, DecidableEq

/-- `BB_DATA_HTTP_SUBSCRIBE_ALL`. -/
def subscribeAll : BitVec 32 := 3

/-- `client_subscribes`: the kind bit and the topic filter must both admit the key. -/
def Subscription.admits (s : Subscription) (slot : AttachSlot) : Bool :=
  if s.mask.getLsbD slot.kind.code = false then false
  else if s.topicFilter = [] then true
  else s.topicFilter = slot.topic

theorem Subscription.admits_congr (s : Subscription) {slot slot' : AttachSlot}
    (hkind : slot'.kind = slot.kind) (htopic : slot'.topic = slot.topic) :
    s.admits slot' = s.admits slot := by
  simp only [admits, hkind, htopic]

end DataHttp
end Breadboard
