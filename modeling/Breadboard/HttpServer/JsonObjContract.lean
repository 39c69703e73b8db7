import Breadboard.HttpServer.JsonObjText

/-!
# bb_http_server - the contract of a JSON object response

Whatever the calls and however the sends return, the chunks before the terminator are neither
empty nor larger than the buffer, and the first error is the last thing that happens.  Calls
that nest well and within the limit make a JSON object when all sends succeed, unless one of
the numbers is not finite: `%g` prints its name, which is no JSON.

Main results:

- Theorem `failsClean`: chunks and errors, for all calls.
- Theorem `delivered_of_finite`: the object, when all sends succeed.
- Theorem `emitsAsClaimed_iff`: both, exactly when the numbers are finite.
-/

namespace Breadboard
namespace HttpServer
namespace JsonObj

open Foundations.BoundedOutput (Output Emits Sound push flush flush_of_good push_of_bad
  pending_push_ne written_push good_push push_status)
open Foundations.JsonText
open SerializeJson (Libc)

/-! ## The contract -/

/-- The depth after some calls. -/
def nesting (cs : List Call) : Nat :=
  cs.foldl depthAfter 0

/-- The calls never nest deeper than there are levels. -/
def WithinLimit (cs : List Call) : Prop :=
  ∀ pre, pre <+: cs → nesting pre < maxDepth

/-- With all sends succeeding, the chunks are the text of the object that the calls mean. -/
def Delivered (lib : Libc) (cs : List Call) : Prop :=
  (respond lib (fun _ => .ok) cs).1 = .ok ∧
    ∀ evs, Means lib cs evs →
      IsText RfcNumber (respond lib (fun _ => .ok) cs).2.sent.flatten
        (.beginObj [] :: (evs ++ [.endObj]))

/-- The chunks and the errors of a response. -/
structure FailsClean (lib : Libc) (send : Nat → BbErr) (cs : List Call) : Prop where
  /-- A send that fails is the last one, and its error is that of the stream. -/
  failed_send : ∀ pre, pre <+: cs → ∀ k, k < (after lib send pre).sent.length → send k ≠ .ok →
    k + 1 = (after lib send pre).sent.length ∧ (after lib send pre).err = send k
  /-- A container beyond the limit is an error, and sends nothing. -/
  limit : ∀ pre, pre <+: cs → (after lib send pre).err = .ok → nesting pre + 1 = maxDepth →
    ∀ key c, c = .setObjBegin key ∨ c = .setArrBegin key →
      call lib send c (after lib send pre) =
        (.invalidArg, { after lib send pre with err := .invalidArg })
  /-- After an error every setter returns it, and does nothing. -/
  sticky : ∀ pre, pre <+: cs → (after lib send pre).err ≠ .ok → ∀ c,
    call lib send c (after lib send pre) = ((after lib send pre).err, after lib send pre)
  /-- After an error the end sends the terminator alone, and returns the error. -/
  ended : (after lib send cs).err ≠ .ok →
    respond lib send cs =
      ((after lib send cs).err,
        { after lib send cs with
          isOpen := false
          sent := (after lib send cs).sent ++ [[]] })
  /-- The terminator is the only chunk without bytes; a chunk that fails is the last before it. -/
  chunks : ∃ chunks, (respond lib send cs).2.sent = chunks ++ [[]] ∧
    (∀ chunk ∈ chunks, chunk ≠ [] ∧ chunk.length ≤ bufSize) ∧
    (∀ k, k < chunks.length → send k ≠ .ok →
      k + 1 = chunks.length ∧ (respond lib send cs).1 = send k) ∧
    ((after lib send cs).err = .ok → (∀ k, k < chunks.length → send k = .ok) →
      (respond lib send cs).1 = send chunks.length)

/-- Within the limit the calls are delivered, and any errors are clean. -/
def EmitsAsClaimed (lib : Libc) (cs : List Call) : Prop :=
  (WithinLimit cs → Delivered lib cs) ∧ ∀ send, FailsClean lib send cs

/-- `%g` prints what is not finite by its name, perhaps behind a minus. -/
def NamesNonFinite (lib : Libc) : Prop :=
  ∀ precision val, ¬ Finite val → ∃ sign name rest,
    lib.printG precision val = sign ++ (name ++ rest) ∧ (sign = [] ∨ sign = [45]) ∧
      (name = [105, 110, 102] ∨ name = [110, 97, 110])

section

variable {lib : Libc} {send : Nat → BbErr} {s : Stream} {commas : List Bool}

/-! ## All calls -/

/-- A stream between begin and end, at a depth. -/
structure Running (send : Nat → BbErr) (s : Stream) (depth : Nat) : Prop where
  sound : Sound .ok bufSize send s.output
  isOpen_eq : s.isOpen = true
  tracks : s.err = .ok → ∃ commas, Tracks s commas
  depth_eq : s.err = .ok → s.depth = depth

/-- The flags of a stream with no error are those of a container at least. -/
theorem Tracks.exists_cons (h : Tracks s commas) : ∃ comma below, commas = comma :: below := by
  cases commas with
  | nil =>
    have hdepth := h.depth_eq
    rw [List.length_nil] at hdepth
    omega
  | cons comma below => exact ⟨comma, below, rfl⟩

/-- The levels of an allowed call. -/
theorem length_commasAfter {comma : Bool} {below : List Bool} {depth : Nat}
    (hdepth : depth + 1 = (comma :: below).length) {c : Call} (hallowed : Allowed depth c) :
    depthAfter depth c + 1 = (commasAfter (comma :: below) c).length := by
  rw [List.length_cons] at hdepth
  have hsame : depth + 1 = (true :: below).length := hdepth
  have hdeeper : depth + 1 + 1 = (false :: true :: below).length := congrArg Nat.succ hdepth
  have hback : depth ≠ 0 → depth - 1 + 1 = below.length := by omega
  cases c with
  | setObjBegin key => exact hdeeper
  | setArrBegin key => exact hdeeper
  | setObjEnd => exact hback hallowed
  | setArrEnd => exact hback hallowed
  | _ => exact hsame

theorem begun_running (send : Nat → BbErr) : Running send (begun send) 0 := by
  refine ⟨⟨?_, Nat.zero_le _, ?_⟩, rfl, ?_, fun _ => rfl⟩
  · intro p hp
    rw [List.mem_singleton.mp hp]
    exact ⟨List.cons_ne_nil _ _, show 1 ≤ bufSize by decide⟩
  · intro k hk _
    have hzero : k = 0 := Nat.lt_one_iff.mp hk
    subst hzero
    exact ⟨rfl, rfl⟩
  · intro _
    exact ⟨[false], rfl, rfl, rfl⟩

theorem begun_tracks (send : Nat → BbErr) : Tracks (begun send) [false] :=
  ⟨rfl, rfl, rfl⟩

/-- A call keeps a stream running, at the depth it says. -/
theorem Running.call {depth : Nat} (h : Running send s depth) (lib : Libc) (c : Call) :
    Running send (call lib send c s).2 (depthAfter depth c) := by
  by_cases hok : s.err = .ok
  swap
  · rw [call_of_failed lib h.isOpen_eq hok c]
    exact ⟨h.sound, h.isOpen_eq, fun hgood => absurd hgood hok, fun hgood => absurd hgood hok⟩
  rcases h.tracks hok with ⟨commas, htracks⟩
  rcases htracks.exists_cons with ⟨comma, below, hcommas⟩
  subst hcommas
  have hdepth := h.depth_eq hok
  by_cases hallowed : Allowed s.depth c
  · have hemits := @call_emitting send s lib comma below h.isOpen_eq hok htracks c hallowed
    refine ⟨hemits.output.sound h.sound, hemits.isOpen_eq.trans h.isOpen_eq, ?_, ?_⟩
    · intro hgood
      exact ⟨_, hemits.tracks hgood⟩
    · intro hgood
      have hafter := (hemits.tracks hgood).depth_eq
      have hlevels := length_commasAfter htracks.depth_eq hallowed
      rw [hdepth] at hlevels
      omega
  · rcases @call_of_not_allowed send s lib h.isOpen_eq hok c hallowed with
      ⟨e, he, hcall⟩ | ⟨key, raw, hc, hcall⟩
    · rw [hcall]
      exact ⟨h.sound.fail hok e, h.isOpen_eq, fun hgood => absurd hgood he,
        fun hgood => absurd hgood he⟩
    · rw [hcall, hc]
      exact h

theorem after_append (lib : Libc) (send : Nat → BbErr) (cs : List Call) (c : Call) :
    after lib send (cs ++ [c]) = (call lib send c (after lib send cs)).2 := by
  rw [after, Foundations.run_append]
  rfl

/-- The invariant of a whole run of calls. -/
theorem after_running (lib : Libc) (send : Nat → BbErr) (cs : List Call) :
    Running send (after lib send cs) (nesting cs) := by
  induction cs using List.reverseRecOn with
  | nil => exact begun_running send
  | append_singleton cs c ih =>
    rw [after_append, nesting, List.foldl_append]
    exact ih.call lib c

/-! ## The end -/

/-- After an error the end sends the terminator alone. -/
theorem objEnd_of_failed (hbad : s.err ≠ .ok) :
    objEnd send s = (s.err, { s with isOpen := false, sent := s.sent ++ [[]] }) := by
  unfold objEnd
  dsimp only
  rw [if_neg hbad]
  unfold objFlush
  dsimp only
  rw [if_pos hbad]
  dsimp only
  rw [if_neg (fun h => hbad h.2)]

/-- The output once the closing brace is appended and what is pending is sent. -/
def closedOutput (send : Nat → BbErr) (s : Stream) : Output UInt8 BbErr :=
  flush .ok send (push .ok bufSize send s.output [125])

theorem objFlush_output (send : Nat → BbErr) (s : Stream) :
    (objFlush send s).2.output = flush .ok send s.output := by
  unfold flush
  by_cases hok : s.err = .ok
  · rw [objFlush_of_ok hok]
    exact (if_pos hok).symm
  · rw [objFlush, if_pos hok]
    exact (if_neg hok).symm

/-- The return of the terminator counts only without an error before. -/
theorem firstError_eq (fin e : BbErr) :
    (if fin ≠ .ok ∧ e = .ok then fin else e) = if e = .ok then fin else e := by
  by_cases he : e = .ok
  · rw [if_pos he]
    split
    · rfl
    · rename_i hnot
      have hfin : fin = .ok := by
        by_contra hbad
        exact hnot ⟨hbad, he⟩
      rw [hfin, he]
  · rw [if_neg he, if_neg (fun h => he h.2)]

/-- Otherwise the end does that, and then sends the terminator. -/
theorem objEnd_of_ok (hok : s.err = .ok) :
    (objEnd send s).2.sent = (closedOutput send s).sent ++ [[]] ∧
      (objEnd send s).1 =
        if (closedOutput send s).status = .ok then send (closedOutput send s).sent.length
        else (closedOutput send s).status := by
  have hput := (@objAppend_output send { s with isOpen := false } hok [125]).1
  have hflush := objFlush_output send (objPutc send 125 { s with isOpen := false }).2
  have hclosed : (objFlush send (objPutc send 125 { s with isOpen := false }).2).2.output =
      closedOutput send s := hflush.trans (congrArg (flush .ok send) hput)
  rw [← hclosed]
  unfold objEnd
  dsimp only
  rw [if_pos hok, firstError_eq]
  exact ⟨rfl, rfl⟩

theorem closedOutput_sound (h : Sound .ok bufSize send s.output) :
    Sound .ok bufSize send (closedOutput send s) := by
  have hput := @Sound.push UInt8 BbErr _ .ok bufSize send s.output [125] h
    (show 1 ≤ bufSize by decide)
  apply hput.flush
  intro hgood
  exact pending_push_ne hgood (List.cons_ne_nil _ _)

theorem closedOutput_written (hgood : (closedOutput send s).status = .ok) :
    (closedOutput send s).sent.flatten = s.output.written ++ [125] := by
  unfold closedOutput at hgood ⊢
  by_cases hput : (push .ok bufSize send s.output [125]).status = .ok
  · rw [flush_of_good hput, ← (written_push hput).2]
    simp [Output.written]
  · rw [flush, if_neg hput] at hgood
    exact absurd hgood hput

/-- Only a chunk that fails makes the status of the closed output bad. -/
theorem closedOutput_status (hok : s.err = .ok)
    (hall : ∀ k, k < (closedOutput send s).sent.length → send k = .ok) :
    (closedOutput send s).status = .ok := by
  by_contra hbad
  have hput := @push_status UInt8 BbErr _ .ok bufSize send s.output [125] hok
  unfold closedOutput at hall hbad
  by_cases hgood : (push .ok bufSize send s.output [125]).status = .ok
  · rw [flush_of_good hgood] at hall hbad
    apply hbad
    apply hall
    rw [List.length_append]
    exact Nat.lt_succ_self _
  · rw [flush, if_neg hgood] at hall hbad
    rcases hput with hstill | ⟨k, hk, hstatus⟩
    · exact hbad hstill
    · rw [hstatus] at hbad
      exact hbad (hall k hk)

theorem closedOutput_good (hsend : ∀ k, send k = .ok) (hok : s.err = .ok) :
    (closedOutput send s).status = .ok := by
  rw [closedOutput, flush_of_good (good_push hsend hok [125])]
  exact hsend _

/-- Chunks and errors of any response. -/
theorem failsClean (lib : Libc) (send : Nat → BbErr) (cs : List Call) : FailsClean lib send cs := by
  have hrunning := after_running lib send cs
  have hend := @objEnd_of_failed send (after lib send cs)
  constructor
  · intro pre _ k hk hbad
    exact (after_running lib send pre).sound.answered k hk hbad
  · intro pre _ hok hdepth key c hc
    have hpre := after_running lib send pre
    have hfull : ¬ (after lib send pre).depth + 1 < maxDepth := by
      rw [hpre.depth_eq hok, hdepth]
      exact Nat.lt_irrefl _
    rcases hc with hc | hc
    · rw [hc]
      exact containerBegin_of_full hpre.isOpen_eq hok hfull 123 key
    · rw [hc]
      exact containerBegin_of_full hpre.isOpen_eq hok hfull 91 key
  · intro pre _ hbad c
    exact call_of_failed lib (after_running lib send pre).isOpen_eq hbad c
  · intro hbad
    exact hend hbad
  · by_cases hok : (after lib send cs).err = .ok
    · have hsound := @closedOutput_sound send (after lib send cs) hrunning.sound
      rcases @objEnd_of_ok send (after lib send cs) hok with ⟨hsent, hcode⟩
      refine ⟨_, hsent, hsound.parcels, ?_, ?_⟩
      · intro k hk hbad
        rcases hsound.answered k hk hbad with ⟨hlast, hstatus⟩
        refine ⟨hlast, ?_⟩
        rw [respond, hcode, hstatus, if_neg hbad]
      · intro _ hall
        rw [respond, hcode, if_pos (closedOutput_status hok hall)]
    · refine ⟨(after lib send cs).sent, ?_, hrunning.sound.parcels, ?_, ?_⟩
      · rw [respond, hend hok]
      · intro k hk hbad
        rcases hrunning.sound.answered k hk hbad with ⟨hlast, hstatus⟩
        refine ⟨hlast, ?_⟩
        rw [respond, hend hok]
        exact hstatus
      · intro hgood
        exact absurd hgood hok

/-! ## Well-nested calls -/

/-- A value has a byte at least. -/
theorem isText_ne_nil {text : Bytes} {evs : List Event} (h : IsText RfcNumber text evs) :
    text ≠ [] := by
  rcases h with ⟨w, v, w', hsplit, _, hreads, _⟩
  have hvalue : v ≠ [] := by
    cases hreads with
    | num _ hnum => exact List.append_ne_nil_of_left_ne_nil hnum.lax.ne_nil _
    | _ => exact List.cons_ne_nil _ _
  rw [hsplit]
  exact List.append_ne_nil_of_right_ne_nil w hvalue

/-- A call that stands where it may is allowed within the limit. -/
theorem allowed_of_placed {isArray : Bool} {below : List Bool} {depth : Nat} {c : Call}
    (hplaced : Placed isArray below c) (hdepth : depth + 1 = (isArray :: below).length)
    (hlimit : depthAfter depth c < maxDepth) : Allowed depth c := by
  have hinner : below ≠ [] → depth ≠ 0 := by
    intro hbelow
    have hpos := List.length_pos_iff.mpr hbelow
    rw [List.length_cons] at hdepth
    omega
  cases c with
  | setRaw key raw =>
    rcases hplaced.2 with ⟨text, evs, hraw, htext⟩
    change raw.getD [] ≠ []
    rw [hraw]
    exact isText_ne_nil htext
  | setObjBegin key => exact hlimit
  | setArrBegin key => exact hlimit
  | setObjEnd => exact hinner hplaced.2
  | setArrEnd => exact hinner hplaced.2
  | _ => trivial

/-- The containers are as many as their flags. -/
theorem length_containersAfter {isArray comma : Bool} {below below' : List Bool}
    (h : (comma :: below').length = (isArray :: below).length) (c : Call) :
    (commasAfter (comma :: below') c).length = (containersAfter (isArray :: below) c).length := by
  have hbelow : below'.length = below.length := Nat.succ.inj h
  cases c with
  | setObjBegin key => exact congrArg (· + 2) hbelow
  | setArrBegin key => exact congrArg (· + 2) hbelow
  | setObjEnd => exact hbelow
  | setArrEnd => exact hbelow
  | _ => exact h

/-- With all sends succeeding, well-nested calls within the limit append their text. -/
theorem calls_written (hsend : ∀ k, send k = .ok) {cs : List Call} {containers : List Bool}
    (hnested : WellNested containers cs) (hlevels : commas.length = containers.length)
    (hopen : s.isOpen = true) (hok : s.err = .ok) (htracks : Tracks s commas)
    (hlimit : ∀ pre, pre <+: cs → pre.foldl depthAfter s.depth < maxDepth) :
    (Foundations.run (fun s c => (call lib send c s).2) s cs).err = .ok ∧
      (Foundations.run (fun s c => (call lib send c s).2) s cs).output.written =
        s.output.written ++ textOf lib commas cs := by
  induction cs generalizing s containers commas with
  | nil =>
    rw [textOf, List.append_nil]
    exact ⟨hok, rfl⟩
  | cons c cs ih =>
    rcases htracks.exists_cons with ⟨comma, below', hcommas⟩
    subst hcommas
    cases containers with
    | nil => exact absurd hnested id
    | cons isArray below =>
      rcases hnested with ⟨hplaced, hrest⟩
      have hallowed : Allowed s.depth c :=
        allowed_of_placed hplaced (htracks.depth_eq.trans hlevels) (hlimit [c] ⟨cs, rfl⟩)
      have hemits := @call_emitting send s lib comma below' hopen hok htracks c hallowed
      have hgood : (call lib send c s).2.err = .ok := hemits.output.good_of_answers hsend hok
      have hdepth : (call lib send c s).2.depth = depthAfter s.depth c := by
        have hafter := (hemits.tracks hgood).depth_eq
        have hcount := length_commasAfter htracks.depth_eq hallowed
        omega
      have hlimit' : ∀ pre, pre <+: cs →
          pre.foldl depthAfter (call lib send c s).2.depth < maxDepth := by
        intro pre hpre
        rw [hdepth]
        exact hlimit (c :: pre) (List.cons_prefix_cons.mpr ⟨rfl, hpre⟩)
      rcases ih hrest (length_containersAfter hlevels c) (hemits.isOpen_eq.trans hopen) hgood
        (hemits.tracks hgood) hlimit' with ⟨hend, hwritten⟩
      refine ⟨hend, ?_⟩
      rw [Foundations.run_cons, hwritten, (hemits.output.written hgood).2, List.append_assoc]
      rfl

/-- With all sends succeeding, the chunks of the response are the text of the object. -/
theorem respond_text {cs : List Call} (hnested : WellNested [false] cs) (hlimit : WithinLimit cs) :
    (respond lib (fun _ => .ok) cs).1 = .ok ∧
      (respond lib (fun _ => .ok) cs).2.sent.flatten = objectText lib cs := by
  have hsend : ∀ k, (fun _ : Nat => BbErr.ok) k = .ok := fun _ => rfl
  rcases @calls_written lib (fun _ => .ok) (begun fun _ => .ok) [false] hsend cs [false] hnested rfl
    rfl rfl (begun_tracks _) hlimit with ⟨hok, hwritten⟩
  have hgood := closedOutput_good hsend hok
  rcases objEnd_of_ok hok with ⟨hsent, hcode⟩
  constructor
  · rw [respond, after, hcode, if_pos hgood]
  · rw [respond, after, hsent, List.flatten_append, closedOutput_written hgood, hwritten]
    simp [objectText, begun, Stream.output, Output.written]

theorem delivered_of_finite (hlib : lib.PrintsRfcNumbers) {cs : List Call}
    (hnested : WellNested [false] cs) (hlimit : WithinLimit cs) (hfinite : NumbersFinite cs) :
    Delivered lib cs := by
  rcases @respond_text lib cs hnested hlimit with ⟨hok, htext⟩
  refine ⟨hok, ?_⟩
  intro evs hmeans
  rw [htext]
  exact isText_objectText hlib hnested hmeans hfinite

/-! ## Numbers that are not finite -/

/-- A number begins with a digit, or with a minus and a digit. -/
theorem rfcNumber_begins {n : Bytes} (h : RfcNumber n) :
    ∃ d rest, Foundations.Decimal.isDigit d = true ∧ (n = d :: rest ∨ n = 45 :: d :: rest) := by
  rcases h with ⟨sign, int, frac, exp, hsplit, hsign, hint, _, _⟩
  rcases List.exists_cons_of_ne_nil hint.1.1 with ⟨d, int', hd⟩
  refine ⟨d, int' ++ (frac ++ exp), hint.1.2 d (hd ▸ List.mem_cons_self), ?_⟩
  rw [hsplit, hd]
  rcases hsign with hsign | hsign
  · rw [hsign]
    exact Or.inl rfl
  · rw [hsign]
    exact Or.inr rfl

/-- A byte that is neither a digit nor a minus does not begin one. -/
theorem not_begins_rfcNumber {b : UInt8} (hdigit : Foundations.Decimal.isDigit b = false)
    (hminus : b ≠ 45) {n t rest : Bytes} (hnum : RfcNumber n) : b :: t ≠ n ++ rest := by
  intro heq
  rcases rfcNumber_begins hnum with ⟨d, n', hd, hplain | hneg⟩
  · rw [hplain, List.cons_append] at heq
    rw [← (List.cons.inj heq).1, hdigit] at hd
    cases hd
  · rw [hneg, List.cons_append] at heq
    exact hminus (List.cons.inj heq).1

/-- A name is not a number. -/
theorem not_rfcNumber_of_name {sign name rest : Bytes} (hsign : sign = [] ∨ sign = [45])
    (hname : name = [105, 110, 102] ∨ name = [110, 97, 110]) :
    ¬ RfcNumber (sign ++ (name ++ rest)) := by
  intro h
  have hletter : ∃ b t, name ++ rest = b :: t ∧ Foundations.Decimal.isDigit b = false ∧ b ≠ 45 := by
    rcases hname with hname | hname
    · rw [hname]
      exact ⟨105, _, rfl, by decide, by decide⟩
    · rw [hname]
      exact ⟨110, _, rfl, by decide, by decide⟩
  rcases hletter with ⟨b, t, htext, hdigit, hminus⟩
  rw [htext] at h
  rcases hsign with hsign | hsign
  · rw [hsign, List.nil_append] at h
    exact not_begins_rfcNumber hdigit hminus h (List.append_nil (b :: t)).symm
  · rw [hsign] at h
    rcases rfcNumber_begins h with ⟨d, t', hd, hplain | hneg⟩
    · rw [← (List.cons.inj hplain).1] at hd
      exact absurd hd (by decide)
    · rw [← (List.cons.inj (List.cons.inj hneg).2).1, hdigit] at hd
      cases hd

/-- What is delivered has only finite numbers. -/
theorem finite_of_delivered (hnames : NamesNonFinite lib) {cs : List Call}
    (hnested : WellNested [false] cs) (h : Delivered lib cs) : NumbersFinite cs := by
  intro key val hmem
  by_contra hbad
  rcases exists_means lib hnested with ⟨evs, hmeans⟩
  rcases h.2 evs hmeans with ⟨w, text, w', _, _, hreads, _⟩
  have hnum : Event.num (key.getD []) (lib.printG 6 val) ∈ .beginObj [] :: (evs ++ [.endObj]) :=
    List.mem_cons_of_mem _ (List.mem_append_left _ (hmeans.num_mem hmem))
  rcases hnames 6 val hbad with ⟨sign, name, rest, hprint, hsign, hname⟩
  have hrfc := hreads.num_mem hnum
  rw [hprint] at hrfc
  exact not_rfcNumber_of_name hsign hname hrfc

end

/--
Well-nested calls make the object they mean, in clean chunks and with clean errors, exactly when
no number within the limit is infinite or not a number.
-/
theorem emitsAsClaimed_iff (lib : Libc) (hlib : lib.PrintsRfcNumbers) (hnames : NamesNonFinite lib)
    (cs : List Call) (hnested : WellNested [false] cs) :
    EmitsAsClaimed lib cs ↔ (WithinLimit cs → NumbersFinite cs) := by
  constructor
  · intro h hlimit
    exact finite_of_delivered hnames hnested (h.1 hlimit)
  · intro h
    refine ⟨?_, fun send => failsClean lib send cs⟩
    intro hlimit
    exact delivered_of_finite hlib hnested hlimit (h hlimit)

/-! ## A number without a value -/

/-- A C library that prints finite numbers as zero, and the others by their name. -/
def namedFloats : Libc where
  printG _ val := if val.isNaN then [110, 97, 110] else if val.isInf then [105, 110, 102] else [48]
  strtod _ := 0
  length_printG_le := by
    intro precision val _
    split
    · decide
    · split
      · decide
      · decide

theorem namedFloats_printsRfcNumbers : namedFloats.PrintsRfcNumbers := by
  intro precision val hnan hinf
  change RfcNumber (if val.isNaN then _ else if val.isInf then _ else [48])
  rw [hnan, hinf]
  exact @SerializeJson.rfcNumber_of_integer [] [48] (Or.inl rfl) (SerializeJson.integer_decimal 0)

theorem namedFloats_namesNonFinite : NamesNonFinite namedFloats := by
  intro precision val hbad
  change ∃ sign name rest, (if val.isNaN then _ else if val.isInf then _ else [48]) = _ ∧ _
  cases hnan : val.isNaN with
  | true => exact ⟨[], _, [], rfl, Or.inl rfl, Or.inr rfl⟩
  | false =>
    cases hinf : val.isInf with
    | true => exact ⟨[], _, [], rfl, Or.inl rfl, Or.inl rfl⟩
    | false => exact absurd ⟨hnan, hinf⟩ hbad

/-- A member and an array in an object. -/
def callsNested : List Call :=
  [.setStr (some [97]) (some [34]), .setArrBegin (some [98]), .setInt none 5,
    .setRaw none (some [110, 117, 108, 108]), .setArrEnd]

theorem emitsAsClaimed_iff_nested :
    EmitsAsClaimed namedFloats callsNested ↔ (WithinLimit callsNested → NumbersFinite callsNested) := by
  apply emitsAsClaimed_iff namedFloats namedFloats_printsRfcNumbers namedFloats_namesNonFinite
  refine ⟨rfl, rfl, rfl, ⟨rfl, _, [.null []], rfl, ?_⟩, ⟨rfl, List.cons_ne_nil _ _⟩, rfl⟩
  exact ⟨[], _, [], rfl, fun b hb => absurd hb List.not_mem_nil, .litNull [] [],
    fun b hb => absurd hb List.not_mem_nil⟩

/-- The number that is none. -/
def notANumber : Float := .ofBits 0x7ff8000000000000

/-- `set_num` of such a number under the key `a`. -/
def callsNotANumber : List Call :=
  [.setNum (some [97]) notANumber]

/-- A value that begins with a brace is an object. -/
theorem object_of_reads {key t rest : Bytes} {evs : List Event}
    (h : Reads RfcNumber (.value key) (123 :: t) evs rest) :
    ∃ evs', Reads RfcNumber .objBody t evs' rest := by
  generalize htext : 123 :: t = text at h
  cases h with
  | ws hkind _ _ => cases hkind
  | num _ hnum => exact absurd htext (not_begins_rfcNumber (by decide) (by decide) hnum)
  | obj hbody =>
    rw [(List.cons.inj htext).2]
    exact ⟨_, hbody⟩
  | _ => exact absurd (List.cons.inj htext).1 (by decide)

/-- A value that begins with an `n` is a null. -/
theorem null_of_reads {key t rest : Bytes} {evs : List Event}
    (h : Reads RfcNumber (.value key) (110 :: t) evs rest) : ∃ t', t = 117 :: t' := by
  generalize htext : 110 :: t = text at h
  cases h with
  | ws hkind _ _ => cases hkind
  | num _ hnum => exact absurd htext (not_begins_rfcNumber (by decide) (by decide) hnum)
  | litNull _ rest => exact ⟨_, (List.cons.inj htext).2⟩
  | _ => exact absurd (List.cons.inj htext).1 (by decide)

/-- An object with the member `"a":nan` is not a JSON text. -/
theorem not_isText_nan (evs : List Event) :
    ¬ IsText RfcNumber [123, 34, 97, 34, 58, 110, 97, 110, 125] evs := by
  intro h
  rcases h with ⟨w, text, w', hsplit, hw, hreads, _⟩
  cases w with
  | cons b w =>
    have hb := hw b List.mem_cons_self
    rw [← (List.cons.inj hsplit).1] at hb
    exact absurd hb (by decide)
  | nil =>
    rw [List.nil_append] at hsplit
    subst hsplit
    -- the brace, the key, the colon, and then a value that cannot begin so
    rcases object_of_reads hreads with ⟨own, hbody⟩
    cases hbody with
    | ws _ hb _ => exact absurd hb (by decide)
    | objFirst hkey hcolon =>
      cases hkey with
      | plain _ hrest =>
        cases hrest with
        | plain hb _ => exact absurd hb (by decide)
        | close rest =>
          cases hcolon with
          | ws _ hb _ => exact absurd hb (by decide)
          | colon hmember =>
            cases hmember with
            | ws _ hb _ => exact absurd hb (by decide)
            | memberValue hvalue _ =>
              rcases null_of_reads hvalue with ⟨t', ht⟩
              exact absurd (List.cons.inj ht).1 (by decide)

/-- The member of such a number is `"a":nan`. -/
theorem notANumber_breaks_object :
    WellNested [false] callsNotANumber ∧ WithinLimit callsNotANumber ∧
      (∀ evs, ¬ IsText RfcNumber
        (respond namedFloats (fun _ => .ok) callsNotANumber).2.sent.flatten evs) ∧
      ¬ EmitsAsClaimed namedFloats callsNotANumber := by
  have hnested : WellNested [false] callsNotANumber := ⟨rfl, rfl⟩
  have hlimit : WithinLimit callsNotANumber := by
    intro pre hpre
    rcases List.prefix_cons_iff.mp hpre with hnil | ⟨pre', hcons, hpre'⟩
    · rw [hnil]
      decide
    · rw [hcons, List.prefix_nil.mp hpre']
      decide
  have htext : (respond namedFloats (fun _ => .ok) callsNotANumber).2.sent.flatten =
      [123, 34, 97, 34, 58, 110, 97, 110, 125] := by
    decide +kernel
  have hnone : ∀ evs, ¬ IsText RfcNumber
      (respond namedFloats (fun _ => .ok) callsNotANumber).2.sent.flatten evs := by
    rw [htext]
    exact not_isText_nan
  refine ⟨hnested, hlimit, hnone, ?_⟩
  intro h
  rcases exists_means namedFloats hnested with ⟨evs, hmeans⟩
  exact hnone _ ((h.1 hlimit).2 evs hmeans)

end JsonObj
end HttpServer
end Breadboard
