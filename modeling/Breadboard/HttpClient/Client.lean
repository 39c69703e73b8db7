import Breadboard.Core.Basics
import Breadboard.Foundations.PartialReads
import Breadboard.Foundations.Pieces

/-!
# bb_http_client - a GET over esp_http_client

The transport decides, for each attempt, whether there is a handle, whether it opens, whether the
headers come and with which status, and what the reads give.  The handle of an attempt goes by
the attempt's number.

Main results:

- Theorem `connect_spec`: an attempt that is given up leaves no open handle.
- Theorem `ops_fetch`: neither does a fetch.
-/

namespace Breadboard
namespace HttpClient

open Foundations

/-- `esp_http_client_config_t`, as far as it is filled in, and the Accept header. -/
structure ClientConfig where
  url : Bytes
  timeoutMs : Nat
  userAgent : Bytes
  bufferSize : Nat
  accept : Bytes
  deriving Repr, DecidableEq

/-- What is received on an open handle; `fetched` says that the headers are complete. -/
structure Response extends Source UInt8 where
  fetched : Bool
  status : Int

/-- How an attempt goes. -/
inductive Attempt where
  /-- `esp_http_client_init` answers NULL. -/
  | noClient
  /-- `esp_http_client_open` fails. -/
  | noOpen
  | opened (r : Response)

/-- The transport, attempt by attempt. -/
abbrev Transport := ClientConfig → Nat → Attempt

/-- `bb_http_client_cfg_t`, without what only sessions use. -/
structure Cfg where
  timeoutMs : UInt32
  maxAttempts : UInt8
  bufferSize : UInt16
  userAgent : Option Bytes
  acceptHeader : Option Bytes
  deriving Repr, DecidableEq

/-- `bb_http_client_result_t`. -/
structure Result where
  statusCode : Int
  bodyLen : Nat
  truncated : Bool
  tlsErrorCode : Int
  deriving Repr, DecidableEq

/-- What is done with a handle. -/
inductive Op where
  | init
  | open_
  | read
  | close
  | cleanup
  deriving Repr, DecidableEq

/-- An operation and the handle it is done with. -/
abbrev Event := Nat × Op

/-- `bb_http_client/0.1`. -/
def defaultUserAgent : Bytes :=
  [98, 98, 95, 104, 116, 116, 112, 95, 99, 108, 105, 101, 110, 116, 47, 48, 46, 49]

/-- `*/*`. -/
def defaultAccept : Bytes := [42, 47, 42]

/-- `CONFIG_BB_HTTP_CLIENT_STREAM_CHUNK_BYTES`. -/
def streamChunkBytes : Nat := 2048

/-- The number of attempts of a call. -/
def attemptsOf (cfg : Option Cfg) : Nat :=
  match cfg with
  | some c => if c.maxAttempts = 0 then 3 else c.maxAttempts.toNat
  | none => 3

/-- The client configuration of a call. -/
def configOf (url : Bytes) (cfg : Option Cfg) : ClientConfig where
  url := url
  timeoutMs := match cfg with
    | some c => if c.timeoutMs = 0 then 10000 else c.timeoutMs.toNat
    | none => 10000
  userAgent := (cfg.bind Cfg.userAgent).getD defaultUserAgent
  bufferSize := match cfg with
    | some c => if c.bufferSize = 0 then 4096 else c.bufferSize.toNat
    | none => 4096
  accept := (cfg.bind Cfg.acceptHeader).getD defaultAccept

/-- A status that counts as a response. -/
def goodStatus (status : Int) : Bool :=
  200 ≤ status && status < 600

/--
The loop over the attempts, from attempt `i` on with `n` left.  What
`esp_http_client_fetch_headers` answers is not looked at.
-/
def connect (t : Nat → Attempt) : Nat → Nat → List Event × Option (Nat × Response)
  | 0, _ => ([], none)
  | n + 1, i =>
      match t i with
      | .noClient => connect t n (i + 1)
      | .noOpen =>
          let later := connect t n (i + 1)
          ([(i, .init), (i, .open_), (i, .close), (i, .cleanup)] ++ later.1, later.2)
      | .opened r =>
          if goodStatus r.status then ([(i, .init), (i, .open_)], some (i, r))
          else
            let later := connect t n (i + 1)
            ([(i, .init), (i, .open_), (i, .close), (i, .cleanup)] ++ later.1, later.2)

/-! ## The buffered GET -/

/--
The loop that drains the body into a buffer of `cap` bytes: the number of reads and the bytes
they brought.  Every round but the last adds a byte, so there are at most `cap` rounds.
-/
def drain (r : Response) (cap : Nat) : Nat → Nat → Bytes → Nat × Bytes
  | 0, k, got => (k, got)
  | fuel + 1, k, got =>
      if got.length + 1 < cap then
        match r.read k got.length (cap - got.length - 1) with
        | some (b :: bs) => drain r cap fuel (k + 1) (got ++ b :: bs)
        -- the end of the body and an error are one and the same here
        | _ => (k + 1, got)
      else (k, got)

/-- The read into `overflow`, after a full buffer: whether there was more. -/
def probe (r : Response) (k pos : Nat) : Bool :=
  match r.read k pos 16 with
  | some (_ :: _) => true
  | _ => false

/-- What a call leaves behind. -/
structure Outcome where
  err : BbErr
  out : Option Result
  body : Bytes
  events : List Event
  deriving Repr, DecidableEq

/-- The result as the calls set it before anything else. -/
def Result.zero : Result where
  statusCode := 0
  bodyLen := 0
  truncated := false
  tlsErrorCode := 0

/-- `bb_http_client_get`; the buffer has `body_cap` bytes, and NULL is no argument. -/
def get (t : Transport) (url : Option Bytes) (body : Option Bytes) (cfg : Option Cfg)
    (hasOut : Bool) : Outcome :=
  match url, body with
  | some url, some body =>
      if body.length = 0 || !hasOut then ⟨.invalidArg, none, body, []⟩
      else
        match connect (t (configOf url cfg)) (attemptsOf cfg) 0 with
        | (events, none) => ⟨.invalidState, some Result.zero, body, events⟩
        | (events, some (i, r)) =>
            let cap := body.length
            let (reads, got) := drain r cap cap 0 []
            let full := cap ≤ got.length + 1
            let reads' := if full then reads + 1 else reads
            { err := .ok
              out := some
                { Result.zero with
                  statusCode := r.status
                  bodyLen := got.length
                  truncated := decide full && probe r reads got.length }
              body := overwrite body 0 (got ++ [0])
              events := events ++ List.replicate reads' (i, .read) ++ [(i, .close), (i, .cleanup)] }
  | _, body => ⟨.invalidArg, none, body.getD [], []⟩

/-! ## The streaming GET -/

/--
The loop that hands the body on: the number of reads, what the callback answered last and the
chunks it was given.  The callback answers by all the chunks so far.
-/
def stream (r : Response) (cb : List Bytes → BbErr) :
    Nat → Nat → List Bytes → Nat × BbErr × List Bytes
  | 0, k, chunks => (k, .ok, chunks)
  | fuel + 1, k, chunks =>
      match r.read k chunks.flatten.length streamChunkBytes with
      | some (b :: bs) =>
          let chunks := chunks ++ [b :: bs]
          if cb chunks = .ok then stream r cb fuel (k + 1) chunks
          else (k + 1, cb chunks, chunks)
      | _ => (k + 1, .ok, chunks)

/-- What a streaming call leaves behind. -/
structure Streamed where
  err : BbErr
  out : Option Result
  chunks : List Bytes
  events : List Event
  deriving Repr, DecidableEq

/-- `bb_http_client_get_stream`; without a callback nothing is begun. -/
def getStream (t : Transport) (url : Option Bytes) (cb : Option (List Bytes → BbErr))
    (cfg : Option Cfg) (hasOut : Bool) : Streamed :=
  match url, cb with
  | some url, some cb =>
      if !hasOut then ⟨.invalidArg, none, [], []⟩
      else
        match connect (t (configOf url cfg)) (attemptsOf cfg) 0 with
        | (events, none) => ⟨.invalidState, some Result.zero, [], events⟩
        | (events, some (i, r)) =>
            -- a round without a byte is the last
            let (reads, cbErr, chunks) := stream r cb (r.body.length + 1) 0 []
            { err := cbErr
              out := some
                { Result.zero with
                  statusCode := r.status
                  bodyLen := chunks.flatten.length
                  truncated := decide (cbErr = .noSpace) }
              chunks := chunks
              events := events ++ List.replicate reads (i, .read) ++ [(i, .close), (i, .cleanup)] }
  | _, _ => ⟨.invalidArg, none, [], []⟩

/-! ## The attempts -/

/-- The first response with a good status, from attempt `i` on with `n` left. -/
structure AcceptsFrom (t : Nat → Attempt) (n i j : Nat) (r : Response) : Prop where
  from_le : i ≤ j
  lt : j < i + n
  opened : t j = .opened r
  good : goodStatus r.status = true
  first : ∀ k, i ≤ k → k < j → ∀ r', t k = .opened r' → goodStatus r'.status = false

variable {t : Nat → Attempt} {n i j : Nat} {r : Response}

theorem AcceptsFrom.here (hopened : t i = .opened r) (hgood : goodStatus r.status = true) :
    AcceptsFrom t (n + 1) i i r where
  from_le := Nat.le_refl i
  lt := by omega
  opened := hopened
  good := hgood
  first := fun k hle hlt => absurd hlt (Nat.not_lt.mpr hle)

/-- An attempt that is given up is passed over. -/
theorem acceptsFrom_succ (hbad : ∀ r', t i = .opened r' → goodStatus r'.status = false) :
    AcceptsFrom t (n + 1) i j r ↔ AcceptsFrom t n (i + 1) j r := by
  constructor
  · intro h
    have hne : i ≠ j := by
      rintro rfl
      have hgood := h.good
      rw [hbad r h.opened] at hgood
      cases hgood
    exact {
      from_le := Nat.lt_of_le_of_ne h.from_le hne
      lt := by have := h.lt; omega
      opened := h.opened
      good := h.good
      first := fun k hle hlt => h.first k (Nat.le_of_succ_le hle) hlt }
  · intro h
    exact {
      from_le := Nat.le_of_succ_le h.from_le
      lt := by have := h.lt; omega
      opened := h.opened
      good := h.good
      first := by
        intro k hle hlt r' hr'
        obtain rfl | hlt' := Nat.eq_or_lt_of_le hle
        · exact hbad r' hr'
        · exact h.first k hlt' hlt r' hr' }

/-- The loop ends with the first response whose status is good. -/
theorem connect_eq_some_iff : (connect t n i).2 = some (j, r) ↔ AcceptsFrom t n i j r := by
  induction n generalizing i with
  | zero =>
      refine ⟨nofun, fun h => ?_⟩
      have hlt := h.lt
      have hle := h.from_le
      omega
  | succ n ih =>
      cases hattempt : t i with
      | noClient =>
          have hbad : ∀ r', t i = .opened r' → goodStatus r'.status = false := by simp [hattempt]
          rw [acceptsFrom_succ hbad, ← ih, connect, hattempt]
      | noOpen =>
          have hbad : ∀ r', t i = .opened r' → goodStatus r'.status = false := by simp [hattempt]
          rw [acceptsFrom_succ hbad, ← ih, connect, hattempt]
      | opened r' =>
          by_cases hgood : goodStatus r'.status = true
          · have hres : (connect t (n + 1) i).2 = some (i, r') := by
              rw [connect, hattempt]
              dsimp only
              rw [if_pos hgood]
            rw [hres]
            constructor
            · intro h
              cases h
              exact .here hattempt hgood
            · intro h
              obtain heq | hlt := Nat.eq_or_lt_of_le h.from_le
              · subst heq
                have hopened := h.opened
                rw [hattempt] at hopened
                cases hopened
                rfl
              · have hfirst := h.first i (Nat.le_refl i) hlt r' hattempt
                rw [hgood] at hfirst
                cases hfirst
          · have hbad : ∀ r'', t i = .opened r'' → goodStatus r''.status = false := by
              intro r'' h
              rw [hattempt] at h
              cases h
              simpa using hgood
            rw [acceptsFrom_succ hbad, ← ih, connect, hattempt]
            dsimp only
            rw [if_neg hgood]

/-! ## The handles -/

/-- What was done with a handle. -/
def ops (events : List Event) (h : Nat) : List Op :=
  (events.filter fun e => e.1 = h).map Prod.snd

/-- The handle was never there, or it was closed and cleaned up once, at the end. -/
def Tidy (os : List Op) : Prop :=
  os = [] ∨ ∃ mid, os = .init :: mid ++ [.close, .cleanup] ∧ ∀ o ∈ mid, o = .open_ ∨ o = .read

theorem ops_append (es es' : List Event) (h : Nat) : ops (es ++ es') h = ops es h ++ ops es' h := by
  simp [ops]

theorem ops_self (h : Nat) (os : List Op) : ops (os.map fun o => (h, o)) h = os := by
  induction os with
  | nil => rfl
  | cons o os ih => simpa [ops] using ih

theorem ops_other {h h' : Nat} (hne : h ≠ h') (os : List Op) :
    ops (os.map fun o => (h, o)) h' = [] := by
  induction os with
  | nil => rfl
  | cons o os ih => simpa [ops, hne] using ih

/-- The operations of an attempt that is given up after its handle was made. -/
def givenUp : List Op :=
  [.init, .open_, .close, .cleanup]

theorem tidy_givenUp : Tidy givenUp :=
  Or.inr ⟨[.open_], rfl, by simp⟩

/-- The handles of a loop over the attempts. -/
structure ConnectSpec (t : Nat → Attempt) (n i : Nat) : Prop where
  earlier : ∀ h < i, ops (connect t n i).1 h = []
  given_up : ∀ h, (∀ r, (connect t n i).2 ≠ some (h, r)) → Tidy (ops (connect t n i).1 h)
  accepted : ∀ h r, (connect t n i).2 = some (h, r) → ops (connect t n i).1 h = [.init, .open_]

/-- An attempt that is given up adds a tidy handle. -/
theorem ConnectSpec.skip (later : ConnectSpec t n (i + 1))
    (hconnect : connect t (n + 1) i =
      (givenUp.map (fun o => (i, o)) ++ (connect t n (i + 1)).1, (connect t n (i + 1)).2)) :
    ConnectSpec t (n + 1) i where
  earlier := by
    intro h hlt
    rw [hconnect, ops_append, ops_other (Nat.ne_of_gt hlt), later.earlier h (Nat.lt_succ_of_lt hlt)]
    rfl
  given_up := by
    intro h hnot
    rw [hconnect] at hnot ⊢
    rw [ops_append]
    by_cases heq : i = h
    · subst heq
      rw [ops_self, later.earlier i (Nat.lt_succ_self i), List.append_nil]
      exact tidy_givenUp
    · rw [ops_other heq, List.nil_append]
      exact later.given_up h hnot
  accepted := by
    intro h r hres
    rw [hconnect] at hres ⊢
    have hle := (connect_eq_some_iff.mp hres).from_le
    rw [ops_append, ops_other (by omega), List.nil_append]
    exact later.accepted h r hres

/-- An attempt that is given up leaves no open handle. -/
theorem connect_spec (t : Nat → Attempt) (n i : Nat) : ConnectSpec t n i := by
  induction n generalizing i with
  | zero => exact ⟨fun _ _ => rfl, fun _ _ => Or.inl rfl, nofun⟩
  | succ n ih =>
      have later := ih (i + 1)
      cases hattempt : t i with
      | noClient =>
          have hconnect : connect t (n + 1) i = connect t n (i + 1) := by
            rw [connect, hattempt]
          refine ⟨?_, ?_, ?_⟩
          · intro h hlt
            rw [hconnect]
            exact later.earlier h (Nat.lt_succ_of_lt hlt)
          · rw [hconnect]
            exact later.given_up
          · rw [hconnect]
            exact later.accepted
      | noOpen =>
          refine later.skip ?_
          rw [connect, hattempt]
          rfl
      | opened r' =>
          by_cases hgood : goodStatus r'.status = true
          · have hconnect : connect t (n + 1) i =
                ([Op.init, Op.open_].map (fun o => (i, o)), some (i, r')) := by
              rw [connect, hattempt]
              dsimp only
              rw [if_pos hgood]
              rfl
            refine ⟨?_, ?_, ?_⟩
            · intro h hlt
              rw [hconnect]
              exact ops_other (Nat.ne_of_gt hlt) _
            · intro h hnot
              rw [hconnect] at hnot ⊢
              have hne : i ≠ h := by
                rintro rfl
                exact hnot r' rfl
              exact Or.inl (ops_other hne _)
            · intro h r hres
              rw [hconnect] at hres ⊢
              cases hres
              exact ops_self i _
          · refine later.skip ?_
            rw [connect, hattempt]
            dsimp only
            rw [if_neg hgood]
            rfl

/-- A fetch closes and cleans up the handle it reads from. -/
theorem ops_fetch (hres : (connect t n i).2 = some (j, r)) (reads h : Nat) :
    Tidy (ops ((connect t n i).1 ++ List.replicate reads (j, .read) ++
      [(j, .close), (j, .cleanup)]) h) := by
  have hreads : List.replicate reads (j, Op.read) ++ [(j, .close), (j, .cleanup)] =
      (List.replicate reads Op.read ++ [Op.close, Op.cleanup]).map fun o => (j, o) := by
    simp
  rw [List.append_assoc, hreads, ops_append]
  by_cases heq : j = h
  · subst heq
    rw [(connect_spec t n i).accepted j r hres, ops_self]
    refine Or.inr ⟨.open_ :: List.replicate reads .read, by simp, fun o ho => ?_⟩
    obtain rfl | ho := List.mem_cons.mp ho
    · exact Or.inl rfl
    · exact Or.inr (List.eq_of_mem_replicate ho)
  · rw [ops_other heq, List.append_nil]
    refine (connect_spec t n i).given_up h fun r' hr' => heq ?_
    rw [hres] at hr'
    cases hr'
    rfl

end HttpClient
end Breadboard
