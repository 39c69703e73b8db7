import Mathlib.Data.List.TakeDrop
import Breadboard.HttpClient.Client

/-!
# bb_http_client - whole bodies

Both loops end at the first read that gives nothing, be it the end of the body or an error.  A
connection that breaks in the middle of a body is then taken for its end, and the call answers
`BB_OK`.

Main results:

- Theorem `drain_spec`, `stream_spec`: how the loops can end.
- Theorem `fetch_whole_iff`: the calls answer for whole bodies just when no read fails
  before the end.
- Theorem `broken_body_is_ok`: a body that breaks off is passed off as whole.
-/

namespace Breadboard
namespace HttpClient

open Foundations

variable {r : Response}

/-! ## The drain -/

/-- How the drain of a body into `room` bytes can end, after so many reads. -/
inductive DrainEnd (r : Response) (room : Nat) : Nat → Bytes → Prop where
  /-- The buffer is full. -/
  | full {k : Nat} (hfine : r.Fine k) (hloop : ∀ j < k, r.offered room j < room)
      (hoffered : room ≤ r.offered room k) (hbody : room ≤ r.body.length) :
      DrainEnd r room k (r.body.take room)
  /-- There was nothing left to read. -/
  | ended {k : Nat} (hfine : r.Fine k) (hoffered : r.body.length ≤ r.offered room k)
      (hbody : r.body.length < room) : DrainEnd r room (k + 1) r.body
  /-- A read has failed. -/
  | failed {k : Nat} (hfine : r.Fine k) (hloop : ∀ j ≤ k, r.offered room j < room)
      (hnone : r.grant k = none) : DrainEnd r room (k + 1) (r.body.take (r.offered room k))

theorem length_prefix {body : Bytes} {a room : Nat} :
    (body.take (min a room)).length = min (min a room) body.length :=
  List.length_take

/-- A round that stops before the buffer is full. -/
theorem drainEnd_stop {room k : Nat} {got : Bytes} (hfine : r.Fine k)
    (hloop : ∀ j < k, r.offered room j < room)
    (hgot : got = r.body.take (min (r.offered room k) room)) (hroom : got.length < room)
    (hstop : r.grant k = none ∨ r.body.length ≤ got.length) : DrainEnd r room (k + 1) got := by
  have hlength : got.length = min (min (r.offered room k) room) r.body.length := by
    rw [hgot, length_prefix]
  by_cases hall : r.body.length ≤ got.length
  · have hbody : got = r.body := by
      rw [hgot, List.take_of_length_le (by omega)]
    rw [hbody]
    exact .ended hfine (by omega) (by omega)
  · have hnone : r.grant k = none := hstop.resolve_right hall
    have hoffered : r.offered room k < room := by omega
    rw [hgot, Nat.min_eq_left (Nat.le_of_lt hoffered)]
    refine .failed hfine (fun j hj => ?_) hnone
    obtain hlt | rfl := Nat.lt_or_eq_of_le hj
    · exact hloop j hlt
    · exact hoffered

/-- A full buffer holds as much of the body as it can. -/
theorem drainEnd_full {room k : Nat} {got : Bytes} (hfine : r.Fine k)
    (hloop : ∀ j < k, r.offered room j < room)
    (hgot : got = r.body.take (min (r.offered room k) room)) (hfull : room ≤ got.length) :
    DrainEnd r room k got := by
  have hlength : got.length = min (min (r.offered room k) room) r.body.length := by
    rw [hgot, length_prefix]
  rw [hgot, Nat.min_eq_right (by omega)]
  exact .full hfine hloop (by omega) (by omega)

/-- The drain ends in one of three ways. -/
theorem drain_spec {cap fuel k : Nat} {got : Bytes} (hfine : r.Fine k)
    (hloop : ∀ j < k, r.offered (cap - 1) j < cap - 1)
    (hgot : got = r.body.take (min (r.offered (cap - 1) k) (cap - 1)))
    (hfuel : cap - 1 ≤ fuel + got.length) :
    DrainEnd r (cap - 1) (drain r cap fuel k got).1 (drain r cap fuel k got).2 := by
  induction fuel generalizing k got with
  | zero =>
      have hfull : cap - 1 ≤ got.length := by omega
      exact drainEnd_full hfine hloop hgot hfull
  | succ fuel ih =>
      rw [drain]
      by_cases hroom : got.length + 1 < cap
      swap
      · have hfull : cap - 1 ≤ got.length := by omega
        rw [if_neg hroom]
        exact drainEnd_full hfine hloop hgot hfull
      have hleft : got.length < cap - 1 := by omega
      rw [if_pos hroom]
      cases hgrant : r.grant k with
      | none =>
          rw [Source.read_of_none hgrant]
          exact drainEnd_stop hfine hloop hgot hleft (Or.inl hgrant)
      | some n =>
          cases hread : r.read k got.length (cap - got.length - 1) with
          | none =>
              rw [Source.read_of_some hgrant] at hread
              cases hread
          | some chunk =>
              cases chunk with
              | nil =>
                  have hend := Source.read_eq_nil (by omega) hread
                  exact drainEnd_stop hfine hloop hgot hleft (Or.inr hend)
              | cons b bs =>
                  dsimp only
                  have hlength : got.length =
                      min (min (r.offered (cap - 1) k) (cap - 1)) r.body.length := by
                    rw [hgot, length_prefix]
                  rw [Source.read_of_some hgrant, Option.some_inj] at hread
                  have hpos : got.length < r.body.length := by
                    have h := congrArg List.length hread
                    rw [List.length_take, List.length_drop, List.length_cons] at h
                    omega
                  have hat : got.length = r.offered (cap - 1) k := by omega
                  have hprefix : got = r.body.take got.length := by
                    rw [hat, hgot, Nat.min_eq_left (by omega)]
                  have hnext : got ++ b :: bs =
                      r.body.take (min (r.offered (cap - 1) (k + 1)) (cap - 1)) := by
                    calc got ++ b :: bs
                        = r.body.take got.length ++
                            (r.body.drop got.length).take
                              (min (n + 1) (cap - got.length - 1)) := by
                          rw [hread, ← hprefix]
                      _ = r.body.take (got.length + min (n + 1) (cap - got.length - 1)) :=
                          Source.take_append_read _ _ _
                      _ = r.body.take (min (r.offered (cap - 1) (k + 1)) (cap - 1)) := by
                          rw [Source.offered_succ hgrant, ← hat]
                          congr 1
                          omega
                  refine ih (hfine.succ hgrant) (fun j hj => ?_) hnext ?_
                  · obtain hlt | rfl := Nat.lt_succ_iff_lt_or_eq.mp hj
                    · exact hloop j hlt
                    · omega
                  · rw [List.length_append, List.length_cons]
                    omega

/-! ## The stream -/

/-- The chunk that read number `j` brings. -/
def chunk (r : Response) (j : Nat) : Bytes :=
  (r.body.drop (r.offered streamChunkBytes j)).take
    (min ((r.grant j).elim 0 (· + 1)) streamChunkBytes)

/-- The chunks of the first reads. -/
def chunksTo (r : Response) (k : Nat) : List Bytes :=
  (List.range k).map (chunk r)

theorem chunksTo_succ (r : Response) (k : Nat) : chunksTo r (k + 1) = chunksTo r k ++ [chunk r k] := by
  rw [chunksTo, List.range_succ, List.map_append]
  rfl

@[simp] theorem length_chunksTo (r : Response) (k : Nat) : (chunksTo r k).length = k := by
  simp [chunksTo]

theorem take_chunksTo (r : Response) {j k : Nat} (h : j ≤ k) :
    (chunksTo r k).take j = chunksTo r j := by
  rw [chunksTo, ← List.map_take, List.take_range, Nat.min_eq_left h]
  rfl

/-- The chunks so far make up a prefix of the body. -/
theorem flatten_chunksTo (r : Response) (k : Nat) :
    (chunksTo r k).flatten = r.body.take (r.offered streamChunkBytes k) := by
  induction k with
  | zero => simp [chunksTo, Source.offered]
  | succ k ih =>
      rw [chunksTo_succ, List.flatten_append, ih, List.flatten_singleton, chunk,
        Source.take_append_read]
      rfl

/-- How the stream can end: what the callback has answered and the chunks it was given. -/
inductive StreamEnd (r : Response) (cb : List Bytes → BbErr) : BbErr → List Bytes → Prop where
  /-- A read has given nothing. -/
  | stopped {k : Nat} (hfine : r.Fine k) (haccepted : ∀ j < k, cb (chunksTo r (j + 1)) = .ok)
      (hstop : r.grant k = none ∨ r.body.length ≤ r.offered streamChunkBytes k) :
      StreamEnd r cb .ok (chunksTo r k)
  /-- The callback has refused a chunk. -/
  | refused {k : Nat} (hfine : r.Fine (k + 1)) (haccepted : ∀ j < k, cb (chunksTo r (j + 1)) = .ok)
      (hmore : r.offered streamChunkBytes k < r.body.length)
      (hrefused : cb (chunksTo r (k + 1)) ≠ .ok) :
      StreamEnd r cb (cb (chunksTo r (k + 1))) (chunksTo r (k + 1))

/-- The stream ends in one of two ways. -/
theorem stream_spec {cb : List Bytes → BbErr} {fuel k : Nat} (hfine : r.Fine k)
    (haccepted : ∀ j < k, cb (chunksTo r (j + 1)) = .ok)
    (hfuel : r.body.length < fuel + (chunksTo r k).flatten.length) :
    StreamEnd r cb (stream r cb fuel k (chunksTo r k)).2.1 (stream r cb fuel k (chunksTo r k)).2.2 := by
  have hlength (k : Nat) : (chunksTo r k).flatten.length =
      min (r.offered streamChunkBytes k) r.body.length := by
    rw [flatten_chunksTo, List.length_take]
  induction fuel generalizing k with
  | zero =>
      rw [hlength] at hfuel
      omega
  | succ fuel ih =>
      rw [stream]
      cases hgrant : r.grant k with
      | none =>
          rw [Source.read_of_none hgrant]
          exact .stopped hfine haccepted (Or.inl hgrant)
      | some n =>
          cases hread : r.read k (chunksTo r k).flatten.length streamChunkBytes with
          | none =>
              rw [Source.read_of_some hgrant] at hread
              cases hread
          | some piece =>
              cases piece with
              | nil =>
                  have hend := Source.read_eq_nil (by decide) hread
                  rw [hlength] at hend
                  exact .stopped hfine haccepted (Or.inr (by omega))
              | cons b bs =>
                  dsimp only
                  rw [Source.read_of_some hgrant, Option.some_inj, hlength] at hread
                  have hpos : min (r.offered streamChunkBytes k) r.body.length < r.body.length := by
                    have h := congrArg List.length hread
                    rw [List.length_take, List.length_drop, List.length_cons] at h
                    omega
                  have hat : min (r.offered streamChunkBytes k) r.body.length =
                      r.offered streamChunkBytes k := by
                    omega
                  have hchunk : b :: bs = chunk r k := by
                    rw [chunk, hgrant, Option.elim_some, ← hread, hat]
                  rw [hchunk, ← chunksTo_succ]
                  by_cases hcb : cb (chunksTo r (k + 1)) = .ok
                  · rw [if_pos hcb]
                    refine ih (hfine.succ hgrant) (fun j hj => ?_) ?_
                    · obtain hlt | rfl := Nat.lt_succ_iff_lt_or_eq.mp hj
                      · exact haccepted j hlt
                      · exact hcb
                    · rw [chunksTo_succ, List.flatten_append, List.length_append, ← hchunk,
                        List.flatten_singleton, List.length_cons]
                      omega
                  · rw [if_neg hcb]
                    exact .refused (hfine.succ hgrant) haccepted (hat ▸ hpos) hcb

/-! ## What the calls promise -/

/-- The response that a call accepts: the first one with a good status. -/
def Answers (t : Transport) (url : Option Bytes) (cfg : Option Cfg) (i : Nat) (r : Response) : Prop :=
  ∃ u, url = some u ∧ AcceptsFrom (t (configOf u cfg)) (attemptsOf cfg) 0 i r

/--
A buffered GET that succeeds has the whole body of one response, or what fits of it and says so;
no handle is left open.
-/
structure GetWhole (t : Transport) (url body : Option Bytes) (cfg : Option Cfg) (hasOut : Bool) :
    Prop where
  whole : (get t url body cfg hasOut).err = .ok → ∃ b i r res, body = some b ∧
    Answers t url cfg i r ∧ r.fetched = true ∧ (get t url body cfg hasOut).out = some res ∧
    (get t url body cfg hasOut).body.take res.bodyLen = r.body.take (b.length - 1) ∧
    res.truncated = decide (b.length - 1 < r.body.length)
  tidy : ∀ h, Tidy (ops (get t url body cfg hasOut).events h)

/--
A streaming GET that succeeds has handed on the whole body of one response; what it hands on is
always the beginning of one body, an answer of the callback that is not `BB_OK` ends the
stream and is returned, and no handle is left open.
-/
structure StreamWhole (t : Transport) (url : Option Bytes) (cb : Option (List Bytes → BbErr))
    (cfg : Option Cfg) (hasOut : Bool) : Prop where
  whole : (getStream t url cb cfg hasOut).err = .ok → ∃ i r, Answers t url cfg i r ∧
    r.fetched = true ∧ (getStream t url cb cfg hasOut).chunks.flatten = r.body
  once : (getStream t url cb cfg hasOut).chunks = [] ∨ ∃ i r, Answers t url cfg i r ∧
    (getStream t url cb cfg hasOut).chunks.flatten <+: r.body
  callback : ∀ f, cb = some f → ∀ j < (getStream t url cb cfg hasOut).chunks.length,
    f ((getStream t url cb cfg hasOut).chunks.take (j + 1)) ≠ .ok →
      j + 1 = (getStream t url cb cfg hasOut).chunks.length ∧
        (getStream t url cb cfg hasOut).err =
          f ((getStream t url cb cfg hasOut).chunks.take (j + 1))
  tidy : ∀ h, Tidy (ops (getStream t url cb cfg hasOut).events h)

/--
The headers of the accepted response are complete, and a read of the drain that fails, or the read
behind a full buffer, finds the whole body read.
-/
def GetUnbroken (t : Transport) (url body : Option Bytes) (cfg : Option Cfg) (hasOut : Bool) : Prop :=
  ∀ b i r, body = some b → 0 < b.length → hasOut = true → Answers t url cfg i r →
    r.fetched = true ∧ ∀ k, r.grant k = none → r.Fine k →
      (∀ j < k, r.offered (b.length - 1) j < b.length - 1) →
      r.body.length ≤ min (r.offered (b.length - 1) k) (b.length - 1)

/--
The headers of the accepted response are complete if its stream is not refused, and a read that
fails, with every chunk before it accepted, finds the whole body read.
-/
def StreamUnbroken (t : Transport) (url : Option Bytes) (cb : Option (List Bytes → BbErr))
    (cfg : Option Cfg) (hasOut : Bool) : Prop :=
  ∀ f i r, cb = some f → hasOut = true → Answers t url cfg i r →
    ∀ k, r.Fine k → (∀ j < k, f (chunksTo r (j + 1)) = .ok) →
      (r.grant k = none ∨ r.body.length ≤ r.offered streamChunkBytes k) →
      r.fetched = true ∧ r.body.length ≤ r.offered streamChunkBytes k

/-! ## When the buffered GET keeps its promise -/

theorem fine_unique {k k' : Nat} (hk : r.Fine k) (hk' : r.Fine k') (hnone : r.grant k = none)
    (hnone' : r.grant k' = none) : k = k' := by
  obtain hlt | heq | hgt := Nat.lt_trichotomy k k'
  · exact absurd hnone (hk' k hlt)
  · exact heq
  · exact absurd hnone' (hk k' hgt)

theorem le_of_fine {k k' : Nat} (hk : r.Fine k) (hnone : r.grant k' = none) : k ≤ k' := by
  by_contra hlt
  exact hk k' (Nat.not_le.mp hlt) hnone

/-- The read behind a full buffer brings something unless it fails or is at the end. -/
theorem probe_eq (r : Response) (k pos : Nat) :
    probe r k pos = decide (r.grant k ≠ none ∧ pos < r.body.length) := by
  rw [probe]
  cases hgrant : r.grant k with
  | none =>
      rw [Source.read_of_none hgrant]
      simp
  | some n =>
      rw [Source.read_of_some hgrant]
      by_cases hpos : pos < r.body.length
      · have hne : (r.body.drop pos).take (min (n + 1) 16) ≠ [] := by
          apply List.length_pos_iff.mp
          rw [List.length_take, List.length_drop]
          omega
        obtain ⟨b, bs, hcons⟩ := List.exists_cons_of_ne_nil hne
        rw [hcons]
        simp [hpos]
      · rw [List.drop_of_length_le (Nat.not_lt.mp hpos), List.take_nil]
        simp [hpos]

/-- What is in the buffer, and whether it is said to be cut short. -/
def Whole (r : Response) (room reads : Nat) (got : Bytes) : Prop :=
  got = r.body.take room ∧
    (decide (room ≤ got.length) && probe r reads got.length) = decide (room < r.body.length)

/-- A read of the drain that fails finds the whole body read. -/
def Unbroken (r : Response) (room : Nat) : Prop :=
  ∀ k, r.grant k = none → r.Fine k → (∀ j < k, r.offered room j < room) →
    r.body.length ≤ min (r.offered room k) room

theorem whole_iff_of_full {room k : Nat} (hfine : r.Fine k)
    (hloop : ∀ j < k, r.offered room j < room) (hoffered : room ≤ r.offered room k)
    (hbody : room ≤ r.body.length) : Whole r room k (r.body.take room) ↔ Unbroken r room := by
  have hlength : (r.body.take room).length = room := by
    rw [List.length_take, Nat.min_eq_left hbody]
  rw [Whole, hlength, probe_eq, decide_eq_true (Nat.le_refl room), Bool.true_and]
  constructor
  · rintro ⟨-, hprobe⟩ k' hnone hfine' hloop'
    have hle : k ≤ k' := le_of_fine hfine hnone
    have hkk : k = k' := by
      by_contra hne
      exact absurd hoffered (Nat.not_le.mpr (hloop' k (Nat.lt_of_le_of_ne hle hne)))
    subst hkk
    have hno : ¬ room < r.body.length := by
      simpa [hnone] using hprobe
    omega
  · intro h
    refine ⟨rfl, ?_⟩
    cases hgrant : r.grant k with
    | none =>
        have hle := h k hgrant hfine hloop
        have hno : ¬ room < r.body.length := by omega
        simp [hno]
    | some n => simp

theorem whole_iff_of_ended {room k reads : Nat} (hfine : r.Fine k)
    (hoffered : r.body.length ≤ r.offered room k) (hbody : r.body.length < room) :
    Whole r room reads r.body ↔ Unbroken r room := by
  have hno : ¬ room ≤ r.body.length := Nat.not_le.mpr hbody
  have hno' : ¬ room < r.body.length := fun h => hno (Nat.le_of_lt h)
  constructor
  · intro _ k' hnone _ _
    have hmono : r.offered room k ≤ r.offered room k' :=
      Source.offered_mono (le_of_fine hfine hnone)
    omega
  · intro _
    refine ⟨(List.take_of_length_le (Nat.le_of_lt hbody)).symm, ?_⟩
    rw [decide_eq_false hno, decide_eq_false hno', Bool.false_and]

theorem whole_iff_of_failed {room k reads : Nat} (hfine : r.Fine k)
    (hloop : ∀ j ≤ k, r.offered room j < room) (hnone : r.grant k = none) :
    Whole r room reads (r.body.take (r.offered room k)) ↔ Unbroken r room := by
  have hlt := hloop k (Nat.le_refl k)
  have hcond : Unbroken r room ↔ r.body.length ≤ r.offered room k := by
    constructor
    · intro h
      exact Nat.le_trans (h k hnone hfine fun j hj => hloop j (Nat.le_of_lt hj))
        (Nat.min_le_left _ _)
    · intro hle k' hnone' hfine' _
      rw [fine_unique hfine' hfine hnone' hnone]
      omega
  rw [hcond, Whole]
  constructor
  · rintro ⟨hgot, -⟩
    have hlengths := congrArg List.length hgot
    rw [List.length_take, List.length_take] at hlengths
    omega
  · intro hle
    have hno : ¬ room ≤ r.body.length := by omega
    have hno' : ¬ room < r.body.length := by omega
    rw [List.take_of_length_le hle, List.take_of_length_le (by omega), decide_eq_false hno,
      decide_eq_false hno', Bool.false_and]
    exact ⟨rfl, rfl⟩

/-- However the drain ends, it has kept the promise just when the body is unbroken. -/
theorem whole_iff_unbroken {room reads : Nat} {got : Bytes} (h : DrainEnd r room reads got) :
    Whole r room reads got ↔ Unbroken r room := by
  cases h with
  | full hfine hloop hoffered hbody => exact whole_iff_of_full hfine hloop hoffered hbody
  | ended hfine hoffered hbody => exact whole_iff_of_ended hfine hoffered hbody
  | failed hfine hloop hnone => exact whole_iff_of_failed hfine hloop hnone

theorem length_le_of_drainEnd {room reads : Nat} {got : Bytes} (h : DrainEnd r room reads got) :
    got.length ≤ room := by
  cases h with
  | full _ _ _ _ => exact List.length_take_le _ _
  | ended _ _ hbody => exact Nat.le_of_lt hbody
  | failed _ hloop _ =>
      exact Nat.le_trans (List.length_take_le _ _) (Nat.le_of_lt (hloop _ (Nat.le_refl _)))

/-- The drain of a call. -/
theorem drain_call (r : Response) (cap : Nat) :
    DrainEnd r (cap - 1) (drain r cap cap 0 []).1 (drain r cap cap 0 []).2 :=
  drain_spec (fun _ h => absurd h (Nat.not_lt_zero _)) (fun _ h => absurd h (Nat.not_lt_zero _))
    (by simp [Source.offered]) (by simp)

/-- A text and its terminator written to the front of a buffer. -/
theorem take_overwrite_front {b got : Bytes} (hroom : got.length + 1 ≤ b.length) :
    (overwrite b 0 (got ++ [0])).take got.length = got := by
  have hlen : (got ++ [0]).length = got.length + 1 := by simp
  have htake : (overwrite b 0 (got ++ [0])).take (0 + (got ++ [(0 : UInt8)]).length) =
      b.take 0 ++ (got ++ [0]) :=
    take_overwrite (by omega)
  have hmore : (overwrite b 0 (got ++ [0])).take got.length =
      ((overwrite b 0 (got ++ [0])).take (0 + (got ++ [(0 : UInt8)]).length)).take got.length := by
    rw [List.take_take, Nat.min_eq_left (by omega)]
  rw [hmore, htake, List.take_zero, List.nil_append, List.take_left]

section Calls

variable {t : Transport} {cfg : Option Cfg} {i : Nat}

theorem answers_unique {url : Option Bytes} {i' : Nat} {r' : Response}
    (h : Answers t url cfg i r) (h' : Answers t url cfg i' r') : r = r' := by
  obtain ⟨u, hu, hacc⟩ := h
  obtain ⟨u', hu', hacc'⟩ := h'
  rw [hu] at hu'
  cases hu'
  have heq := (connect_eq_some_iff.mpr hacc).symm.trans (connect_eq_some_iff.mpr hacc')
  cases heq
  rfl

theorem get_invalid {url body : Option Bytes} {hasOut : Bool}
    (hbad : ¬ ∃ u b, url = some u ∧ body = some b ∧ 0 < b.length ∧ hasOut = true) :
    (get t url body cfg hasOut).err = .invalidArg ∧ (get t url body cfg hasOut).events = [] := by
  cases url with
  | none => exact ⟨rfl, rfl⟩
  | some u =>
      cases body with
      | none => exact ⟨rfl, rfl⟩
      | some b =>
          have hargs : (decide (b.length = 0) || !hasOut) = true := by
            by_contra hno
            rw [Bool.or_eq_true, not_or] at hno
            refine hbad ⟨u, b, rfl, rfl, ?_, ?_⟩
            · have hne : b.length ≠ 0 := by simpa using hno.1
              omega
            · simpa using hno.2
          have hget : get t (some u) (some b) cfg hasOut = ⟨.invalidArg, none, b, []⟩ := by
            rw [get]
            simp only [Bool.or_eq_true, decide_eq_true_eq] at hargs ⊢
            rw [if_pos hargs]
          rw [hget]
          exact ⟨rfl, rfl⟩

variable {u b : Bytes}

theorem get_unanswered (hlen : 0 < b.length)
    (hnone : (connect (t (configOf u cfg)) (attemptsOf cfg) 0).2 = none) :
    get t (some u) (some b) cfg true =
      ⟨.invalidState, some Result.zero, b, (connect (t (configOf u cfg)) (attemptsOf cfg) 0).1⟩ := by
  have hconnect : connect (t (configOf u cfg)) (attemptsOf cfg) 0 =
      ((connect (t (configOf u cfg)) (attemptsOf cfg) 0).1, none) := Prod.ext rfl hnone
  have hne : b.length ≠ 0 := Nat.ne_of_gt hlen
  rw [get, hconnect]
  simp [hne]

/-- The call that has got a response. -/
theorem get_answered (hlen : 0 < b.length)
    (hacc : AcceptsFrom (t (configOf u cfg)) (attemptsOf cfg) 0 i r) :
    ∃ reads res, get t (some u) (some b) cfg true =
        ⟨.ok, some res, overwrite b 0 ((drain r b.length b.length 0 []).2 ++ [0]),
          (connect (t (configOf u cfg)) (attemptsOf cfg) 0).1 ++ List.replicate reads (i, .read) ++
            [(i, .close), (i, .cleanup)]⟩ ∧
      res.bodyLen = (drain r b.length b.length 0 []).2.length ∧
      res.truncated = (decide (b.length - 1 ≤ (drain r b.length b.length 0 []).2.length) &&
        probe r (drain r b.length b.length 0 []).1 (drain r b.length b.length 0 []).2.length) := by
  have hconnect : connect (t (configOf u cfg)) (attemptsOf cfg) 0 =
      ((connect (t (configOf u cfg)) (attemptsOf cfg) 0).1, some (i, r)) :=
    Prod.ext rfl (connect_eq_some_iff.mpr hacc)
  have hne : b.length ≠ 0 := Nat.ne_of_gt hlen
  have hroom : b.length ≤ (drain r b.length b.length 0 []).2.length + 1 ↔
      b.length - 1 ≤ (drain r b.length b.length 0 []).2.length := by
    omega
  rw [get]
  simp only [hne, decide_false, Bool.not_true, Bool.or_self, Bool.false_eq_true, if_false]
  rw [hconnect]
  refine ⟨_, _, rfl, rfl, ?_⟩
  simp only [hroom]

/-- The buffered GET keeps its promise just when the body is unbroken. -/
theorem getWhole_iff (t : Transport) (url body : Option Bytes) (cfg : Option Cfg) (hasOut : Bool) :
    GetWhole t url body cfg hasOut ↔ GetUnbroken t url body cfg hasOut := by
  by_cases hargs : ∃ u b, url = some u ∧ body = some b ∧ 0 < b.length ∧ hasOut = true
  swap
  · have hinvalid : (get t url body cfg hasOut).err = .invalidArg ∧
        (get t url body cfg hasOut).events = [] :=
      get_invalid hargs
    obtain ⟨herr, hevents⟩ := hinvalid
    constructor
    · rintro _ b i r hbody hlen hout ⟨u, hu, _⟩
      exact absurd ⟨u, b, hu, hbody, hlen, hout⟩ hargs
    · intro _
      refine ⟨fun hok => ?_, fun h => ?_⟩
      · rw [herr] at hok
        cases hok
      · rw [hevents]
        exact Or.inl rfl
  obtain ⟨u, b, rfl, rfl, hlen, rfl⟩ := hargs
  cases hres : (connect (t (configOf u cfg)) (attemptsOf cfg) 0).2 with
  | none =>
      have hget := get_unanswered hlen hres
      constructor
      · rintro _ b' i r _ _ _ ⟨u', hu', hacc⟩
        cases hu'
        rw [connect_eq_some_iff.mpr hacc] at hres
        cases hres
      · intro _
        refine ⟨fun hok => ?_, fun h => ?_⟩
        · rw [hget] at hok
          cases hok
        · rw [hget]
          exact (connect_spec _ _ _).given_up h fun r' hr' => by simp [hres] at hr'
  | some found =>
      obtain ⟨i, r⟩ := found
      have hacc := connect_eq_some_iff.mp hres
      have hans : Answers t (some u) cfg i r := ⟨u, rfl, hacc⟩
      obtain ⟨reads, res, hget, hbodyLen, htruncated⟩ := get_answered hlen hacc
      have hend := drain_call r b.length
      have hroom : (drain r b.length b.length 0 []).2.length + 1 ≤ b.length := by
        have := length_le_of_drainEnd hend
        omega
      have htake := take_overwrite_front hroom
      have hiff := whole_iff_unbroken hend
      constructor
      · intro hw b' i' r' hb' _ _ hans'
        cases hb'
        rw [answers_unique hans' hans]
        obtain ⟨b'', i'', r'', res'', hb'', hans'', hfetched, hout, htext, hcut⟩ :=
          hw.whole (by rw [hget])
        cases hb''
        rw [answers_unique hans'' hans] at hfetched htext hcut
        rw [hget] at hout htext
        cases hout
        refine ⟨hfetched, hiff.mp ⟨?_, htruncated.symm.trans hcut⟩⟩
        rw [hbodyLen, htake] at htext
        exact htext
      · intro h
        obtain ⟨hfetched, hunbroken⟩ := h b i r rfl hlen rfl hans
        obtain ⟨htext, hcut⟩ := hiff.mpr hunbroken
        refine ⟨fun _ => ⟨b, i, r, res, rfl, hans, hfetched, ?_, ?_, htruncated.trans hcut⟩,
          fun h => ?_⟩
        · rw [hget]
        · rw [hget, hbodyLen, htake]
          exact htext
        · rw [hget]
          exact ops_fetch hres reads h

/-! ## When the streaming GET keeps its promise -/

theorem getStream_invalid {url : Option Bytes} {cb : Option (List Bytes → BbErr)} {hasOut : Bool}
    (hbad : ¬ ∃ u f, url = some u ∧ cb = some f ∧ hasOut = true) :
    getStream t url cb cfg hasOut = ⟨.invalidArg, none, [], []⟩ := by
  cases url with
  | none => rfl
  | some u =>
      cases cb with
      | none => rfl
      | some f =>
          cases hasOut with
          | false => rfl
          | true => exact absurd ⟨u, f, rfl, rfl, rfl⟩ hbad

variable {f : List Bytes → BbErr}

theorem getStream_unanswered
    (hnone : (connect (t (configOf u cfg)) (attemptsOf cfg) 0).2 = none) :
    getStream t (some u) (some f) cfg true =
      ⟨.invalidState, some Result.zero, [],
        (connect (t (configOf u cfg)) (attemptsOf cfg) 0).1⟩ := by
  have hconnect : connect (t (configOf u cfg)) (attemptsOf cfg) 0 =
      ((connect (t (configOf u cfg)) (attemptsOf cfg) 0).1, none) := Prod.ext rfl hnone
  rw [getStream, hconnect]
  rfl

theorem getStream_answered (hacc : AcceptsFrom (t (configOf u cfg)) (attemptsOf cfg) 0 i r) :
    ∃ reads res, getStream t (some u) (some f) cfg true =
      ⟨(stream r f (r.body.length + 1) 0 []).2.1, res, (stream r f (r.body.length + 1) 0 []).2.2,
        (connect (t (configOf u cfg)) (attemptsOf cfg) 0).1 ++ List.replicate reads (i, .read) ++
          [(i, .close), (i, .cleanup)]⟩ := by
  have hconnect : connect (t (configOf u cfg)) (attemptsOf cfg) 0 =
      ((connect (t (configOf u cfg)) (attemptsOf cfg) 0).1, some (i, r)) :=
    Prod.ext rfl (connect_eq_some_iff.mpr hacc)
  rw [getStream, hconnect]
  exact ⟨_, _, rfl⟩

theorem stream_call (r : Response) (f : List Bytes → BbErr) :
    StreamEnd r f (stream r f (r.body.length + 1) 0 []).2.1
      (stream r f (r.body.length + 1) 0 []).2.2 :=
  stream_spec (k := 0) (fun _ h => absurd h (Nat.not_lt_zero _))
    (fun _ h => absurd h (Nat.not_lt_zero _)) (Nat.lt_succ_self _)

/-- What is handed on is the beginning of the body. -/
theorem prefix_of_streamEnd {err : BbErr} {chunks : List Bytes} (h : StreamEnd r f err chunks) :
    chunks.flatten <+: r.body := by
  cases h with
  | stopped _ _ _ =>
      rw [flatten_chunksTo]
      exact List.take_prefix _ _
  | refused _ _ _ _ =>
      rw [flatten_chunksTo]
      exact List.take_prefix _ _

/-- A refusal is the last answer, and it is what the call returns. -/
theorem refusal_of_streamEnd {err : BbErr} {chunks : List Bytes} (h : StreamEnd r f err chunks)
    {j : Nat} (hj : j < chunks.length) (hrefused : f (chunks.take (j + 1)) ≠ .ok) :
    j + 1 = chunks.length ∧ err = f (chunks.take (j + 1)) := by
  cases h with
  | stopped _ haccepted _ =>
      rw [length_chunksTo] at hj
      rw [take_chunksTo r hj] at hrefused
      exact absurd (haccepted j hj) hrefused
  | refused _ haccepted _ _ =>
      rename_i k _ _ _
      rw [length_chunksTo] at hj ⊢
      rw [take_chunksTo r hj] at hrefused ⊢
      obtain hlt | rfl := Nat.lt_succ_iff_lt_or_eq.mp hj
      · exact absurd (haccepted j hlt) hrefused
      · exact ⟨rfl, rfl⟩

/-- The first stop is where the stream stops. -/
theorem stop_le {k k' : Nat} (hfine' : r.Fine k')
    (hstop : r.grant k = none ∨ r.body.length ≤ r.offered streamChunkBytes k)
    (hmissing : ¬ r.body.length ≤ r.offered streamChunkBytes k') : k' ≤ k := by
  obtain hnone | hend := hstop
  · exact le_of_fine hfine' hnone
  · by_contra hlt
    have hmono : r.offered streamChunkBytes k ≤ r.offered streamChunkBytes k' :=
      Source.offered_mono (Nat.le_of_lt (Nat.not_le.mp hlt))
    exact hmissing (Nat.le_trans hend hmono)

/-- The body is handed on whole just when its reads do not fail before the end. -/
theorem flatten_eq_iff_of_streamEnd {err : BbErr} {chunks : List Bytes}
    (h : StreamEnd r f err chunks) :
    (err = .ok → r.fetched = true ∧ chunks.flatten = r.body) ↔
      ∀ k, r.Fine k → (∀ j < k, f (chunksTo r (j + 1)) = .ok) →
        (r.grant k = none ∨ r.body.length ≤ r.offered streamChunkBytes k) →
        r.fetched = true ∧ r.body.length ≤ r.offered streamChunkBytes k := by
  cases h with
  | stopped hfine haccepted hstop =>
      rename_i k
      rw [flatten_chunksTo, List.take_eq_self_iff]
      constructor
      · intro hwhole k' hfine' _ hstop'
        obtain ⟨hfetched, hle⟩ := hwhole rfl
        refine ⟨hfetched, ?_⟩
        by_contra hmissing
        have hback := stop_le hfine' hstop hmissing
        obtain hnone | hend := hstop'
        · have hforth : k ≤ k' := le_of_fine hfine hnone
          exact hmissing (Nat.le_antisymm hback hforth ▸ hle)
        · exact hmissing hend
      · intro h _
        exact h k hfine haccepted hstop
  | refused hfine haccepted hmore hrefused =>
      rename_i k
      constructor
      · intro _ k' hfine' haccepted' hstop'
        have hle : k' ≤ k := by
          by_contra hlt
          exact hrefused (haccepted' k (Nat.not_le.mp hlt))
        obtain hnone | hend := hstop'
        · exact absurd hnone (hfine k' (Nat.lt_succ_of_le hle))
        · have hmono : r.offered streamChunkBytes _ ≤ r.offered streamChunkBytes _ :=
            Source.offered_mono hle
          omega
      · intro _ hok
        exact absurd hok hrefused

/-- The streaming GET keeps its promise just when the body is unbroken. -/
theorem streamWhole_iff (t : Transport) (url : Option Bytes) (cb : Option (List Bytes → BbErr))
    (cfg : Option Cfg) (hasOut : Bool) :
    StreamWhole t url cb cfg hasOut ↔ StreamUnbroken t url cb cfg hasOut := by
  by_cases hargs : ∃ u f, url = some u ∧ cb = some f ∧ hasOut = true
  swap
  · have hstream : getStream t url cb cfg hasOut = ⟨.invalidArg, none, [], []⟩ :=
      getStream_invalid hargs
    constructor
    · rintro _ f i r hcb hout ⟨u, hu, _⟩
      exact absurd ⟨u, f, hu, hcb, hout⟩ hargs
    · intro _
      refine ⟨fun hok => ?_, Or.inl ?_, fun f _ j hj => ?_, fun h => ?_⟩
      · rw [hstream] at hok
        cases hok
      · rw [hstream]
      · rw [hstream] at hj
        exact absurd hj (Nat.not_lt_zero j)
      · rw [hstream]
        exact Or.inl rfl
  obtain ⟨u, f, rfl, rfl, rfl⟩ := hargs
  cases hres : (connect (t (configOf u cfg)) (attemptsOf cfg) 0).2 with
  | none =>
      have hstream := getStream_unanswered (f := f) hres
      constructor
      · rintro _ f' i r _ _ ⟨u', hu', hacc⟩
        cases hu'
        rw [connect_eq_some_iff.mpr hacc] at hres
        cases hres
      · intro _
        refine ⟨fun hok => ?_, Or.inl ?_, fun f' _ j hj => ?_, fun h => ?_⟩
        · rw [hstream] at hok
          cases hok
        · rw [hstream]
        · rw [hstream] at hj
          exact absurd hj (Nat.not_lt_zero j)
        · rw [hstream]
          exact (connect_spec _ _ _).given_up h fun r' hr' => by simp [hres] at hr'
  | some found =>
      obtain ⟨i, r⟩ := found
      have hacc := connect_eq_some_iff.mp hres
      have hans : Answers t (some u) cfg i r := ⟨u, rfl, hacc⟩
      obtain ⟨reads, res, hstream⟩ := getStream_answered (f := f) hacc
      have hend := stream_call r f
      have hiff := flatten_eq_iff_of_streamEnd hend
      constructor
      · intro hw f' i' r' hf' _ hans'
        cases hf'
        rw [answers_unique hans' hans]
        refine hiff.mp fun hok => ?_
        obtain ⟨i'', r'', hans'', hfetched, htext⟩ := hw.whole (by rw [hstream]; exact hok)
        rw [answers_unique hans'' hans] at hfetched htext
        rw [hstream] at htext
        exact ⟨hfetched, htext⟩
      · intro h
        have hwhole := hiff.mpr (h f i r rfl rfl hans)
        refine ⟨fun hok => ?_, Or.inr ⟨i, r, hans, ?_⟩, fun f' hf' j hj hrefused => ?_, fun h => ?_⟩
        · rw [hstream] at hok ⊢
          obtain ⟨hfetched, htext⟩ := hwhole hok
          exact ⟨i, r, hans, hfetched, htext⟩
        · rw [hstream]
          exact prefix_of_streamEnd hend
        · cases hf'
          rw [hstream] at hj hrefused ⊢
          exact refusal_of_streamEnd hend hj hrefused
        · rw [hstream]
          exact ops_fetch hres reads h

end Calls

/--
For every behaviour of the transport and every callback the two calls keep their promises just
when no read that they make fails before the end of the body.
-/
theorem fetch_whole_iff (t : Transport) (url body : Option Bytes)
    (cb : Option (List Bytes → BbErr)) (cfg : Option Cfg) (hasOut : Bool) :
    (GetWhole t url body cfg hasOut ∧ StreamWhole t url cb cfg hasOut) ↔
      (GetUnbroken t url body cfg hasOut ∧ StreamUnbroken t url cb cfg hasOut) := by
  rw [getWhole_iff, streamWhole_iff]

/-! ## A body that breaks off -/

/-- Three bytes announced, one received, then the connection is lost. -/
def brokenResponse : Response where
  body := [1, 2, 3]
  grant := fun k => if k = 0 then some 0 else none
  fetched := true
  status := 200

/-- A transport whose first attempt is answered so. -/
def brokenTransport : Transport := fun _ _ => .opened brokenResponse

/-- The call answers that it has the body, of which it has one byte. -/
theorem broken_body_is_ok :
    (get brokenTransport (some []) (some [0, 0, 0, 0, 0, 0]) none true).err = .ok ∧
      (get brokenTransport (some []) (some [0, 0, 0, 0, 0, 0]) none true).out =
        some ⟨200, 1, false, 0⟩ ∧
      ¬ (GetWhole brokenTransport (some []) (some [0, 0, 0, 0, 0, 0]) none true ∧
        StreamWhole brokenTransport (some []) (some fun _ => .ok) none true) := by
  refine ⟨rfl, rfl, fun h => ?_⟩
  have hans : Answers brokenTransport (some []) none 0 brokenResponse :=
    ⟨[], rfl, AcceptsFrom.here rfl rfl⟩
  have hall := ((getWhole_iff _ _ _ _ _).mp h.1 _ 0 _ rfl (by decide) rfl hans).2 1 rfl
    (fun j hj => by
      obtain rfl : j = 0 := by omega
      simp [brokenResponse])
    (fun j hj => by
      obtain rfl : j = 0 := by omega
      decide)
  exact absurd hall (by decide)

end HttpClient
end Breadboard
