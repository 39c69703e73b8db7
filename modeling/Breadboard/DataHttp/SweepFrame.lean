import Breadboard.DataHttp.Sweep

/-!
# bb_data_http - what a sweep does to the clients it keeps

A sweep changes the clients' blocks, the ring and the environment, and may release
clients.  A client that is still there afterwards is the same client: it has the
subscription and the acquire number it had before, and a poll block if it had one.

Properties of poll blocks that survive publications, a detected generation and one
iteration of the STATE drain survive whole sweeps.

Main results:

- Theorem `World.sweepStep_frame`: the frame of a sweep.
- Theorem `World.sweepStep_pollHolds`: the invariant rule for poll blocks.
-/

namespace Breadboard
namespace DataHttp

open Queue Foundations

variable {cfg : Config}

/-! ## The same poll block -/

/-- The same subscription, acquire number and poll block. -/
structure SamePoll (c c' : Client cfg) : Prop where
  sub_eq : c'.sub = c.sub
  acquiredOn_eq : c'.acquiredOn = c.acquiredOn
  poll_eq : c'.poll = c.poll

theorem SamePoll.refl (c : Client cfg) : SamePoll c c :=
  ⟨rfl, rfl, rfl⟩

theorem SamePoll.trans {a b c : Client cfg} (hab : SamePoll a b) (hbc : SamePoll b c) :
    SamePoll a c :=
  ⟨hbc.1.trans hab.1, hbc.2.trans hab.2, hbc.3.trans hab.3⟩

namespace Client

theorem drainEvents_samePoll (table : AttachTable) (er : EventRing cfg) (c : Client cfg) :
    SamePoll c (c.drainEvents table er) := by
  unfold drainEvents
  split <;> exact ⟨rfl, rfl, rfl⟩

theorem flushLoop_samePoll (seams : Seams) (fuel : Nat) (env : Env cfg) (c : Client cfg) :
    Env.Later env (flushLoop seams fuel env c).1 ∧
      ∀ c', (flushLoop seams fuel env c).2 = some c' → SamePoll c c' := by
  induction fuel generalizing env c with
  | zero =>
    refine ⟨Env.Later.refl env, fun c' hc' => ?_⟩
    cases hc'
    exact SamePoll.refl c
  | succ fuel ih =>
    have hcall := env.later_call
    unfold flushLoop
    split
    · refine ⟨Env.Later.refl env, fun c' hc' => ?_⟩
      cases hc'
      exact SamePoll.refl c
    rename_i e _
    simp only
    split
    · have hrest := ih env.call.2 { c with sendFailCount := 0, out := c.out.popHanded e.tag }
      refine ⟨hcall.trans hrest.1, fun c' hc' => ?_⟩
      have hsame := hrest.2 c' hc'
      exact ⟨hsame.1, hsame.2, hsame.3⟩
    split
    · refine ⟨hcall, fun c' hc' => ?_⟩
      cases hc'
      unfold sendTimedOut
      split <;> exact ⟨rfl, rfl, rfl⟩
    · unfold sendFatal
      split
      · refine ⟨hcall, fun c' hc' => ?_⟩
        cases hc'
        exact ⟨rfl, rfl, rfl⟩
      · refine ⟨?_, fun c' hc' => by cases hc'⟩
        split
        · exact hcall.trans (Env.later_call _)
        · exact hcall

theorem flush_samePoll (seams : Seams) (env : Env cfg) (c : Client cfg) :
    Env.Later env (c.flush seams env).1 ∧
      ∀ c', (c.flush seams env).2 = some c' → SamePoll c c' := by
  unfold flush
  split
  · refine ⟨Env.Later.refl env, fun c' hc' => ?_⟩
    cases hc'
    exact ⟨rfl, rfl, rfl⟩
  · exact flushLoop_samePoll seams _ env c

end Client

theorem StateDrain.drainKey_later (seams : Seams) (table : AttachTable) (d : StateDrain cfg)
    (k : Nat) : Env.Later d.env (d.drainKey seams table k).env := by
  unfold drainKey
  split
  · exact Env.Later.refl _
  split
  · exact Env.Later.refl _
  rename_i slot _
  split
  · exact Env.Later.refl _
  split
  · exact Env.Later.refl _
  have hlater := d.env.later_renderFn slot.key
  unfold renderKey
  simp only
  split <;> exact hlater

/-! ## The frame of a sweep -/

/-- The client is the same one, with a poll block exactly if it had one. -/
structure SameClient (c c' : Client cfg) : Prop where
  sub_eq : c'.sub = c.sub
  acquiredOn_eq : c'.acquiredOn = c.acquiredOn
  poll_isSome : c'.poll.isSome = c.poll.isSome

theorem SamePoll.sameClient {c c' : Client cfg} (h : SamePoll c c') : SameClient c c' :=
  ⟨h.sub_eq, h.acquiredOn_eq, by rw [h.poll_eq]⟩

theorem SameClient.trans {a b c : Client cfg} (hab : SameClient a b) (hbc : SameClient b c) :
    SameClient a c :=
  ⟨hbc.1.trans hab.1, hbc.2.trans hab.2, hbc.3.trans hab.3⟩

namespace World

/-- What a part of a sweep leaves alone. -/
structure SweepFrame (w w' : World cfg) : Prop where
  table_eq : w'.table = w.table
  seams_eq : w'.seams = w.seams
  ticks_eq : w'.ticks = w.ticks
  later : Env.Later w.env w'.env
  clients : ∀ i c', w'.clients i = some c' → ∃ c, w.clients i = some c ∧ SameClient c c'

theorem SweepFrame.refl (w : World cfg) : SweepFrame w w where
  table_eq := rfl
  seams_eq := rfl
  ticks_eq := rfl
  later := Env.Later.refl _
  clients _ c' hc := ⟨c', hc, rfl, rfl, rfl⟩

theorem SweepFrame.trans {a b c : World cfg} (hab : SweepFrame a b)
    (hbc : SweepFrame b c) : SweepFrame a c where
  table_eq := hbc.table_eq.trans hab.table_eq
  seams_eq := hbc.seams_eq.trans hab.seams_eq
  ticks_eq := hbc.ticks_eq.trans hab.ticks_eq
  later := hab.later.trans hbc.later
  clients i c'' hc := by
    obtain ⟨c', hc', hsame'⟩ := hbc.clients i c'' hc
    obtain ⟨c₀, hc₀, hsame⟩ := hab.clients i c' hc'
    exact ⟨c₀, hc₀, hsame.trans hsame'⟩

/-! ## The invariant rule for poll blocks -/

/-- A property of poll blocks, for the client in a slot with a subscription and acquire number. -/
abbrev PollProp (cfg : Config) :=
  Nat → AttachTable → Subscription → Nat → Env cfg → PollState cfg → Prop

/-- The property holds of every poll block. -/
def PollHolds (Q : PollProp cfg) (w : World cfg) : Prop :=
  ∀ i c p, w.clients i = some c → c.poll = some p → Q i w.table c.sub c.acquiredOn w.env p

/-- The property survives publications, detected generations and STATE drain iterations. -/
structure PollInvariant (T : AttachTable → Prop) (S : Seams → Prop) (Q : PollProp cfg) : Prop where
  later : ∀ {i table sub acquiredOn env env' p}, Q i table sub acquiredOn env p →
    Env.Later env env' → Q i table sub acquiredOn env' p
  detect : ∀ {i table sub acquiredOn env p k slot}, T table → table[k]? = some slot →
    Q i table sub acquiredOn env p →
      Q i table sub acquiredOn env (p.detect k (env.sources slot.key).gen)
  drainKey : ∀ {i table sub acquiredOn seams k} {d : StateDrain cfg}, T table → S seams →
    k < table.length → Q i table sub acquiredOn d.env d.poll →
      Q i table sub acquiredOn (d.drainKey seams table k).env (d.drainKey seams table k).poll

variable {T : AttachTable → Prop} {S : Seams → Prop} {Q : PollProp cfg}

/-- The frame and the invariant rule for one part of a sweep. -/
def SweepPart (T : AttachTable → Prop) (S : Seams → Prop) (Q : PollProp cfg)
    (w w' : World cfg) : Prop :=
  SweepFrame w w' ∧ (PollInvariant T S Q → T w.table → S w.seams → PollHolds Q w → PollHolds Q w')

theorem SweepPart.refl (w : World cfg) : SweepPart T S Q w w :=
  ⟨SweepFrame.refl w, fun _ _ _ h => h⟩

theorem SweepPart.trans {a b c : World cfg} (hab : SweepPart T S Q a b) (hbc : SweepPart T S Q b c) :
    SweepPart T S Q a c := by
  refine ⟨hab.1.trans hbc.1, fun hQ hT hS h => ?_⟩
  refine hbc.2 hQ ?_ ?_ (hab.2 hQ hT hS h)
  · rw [hab.1.table_eq]
    exact hT
  · rw [hab.1.seams_eq]
    exact hS

/-- A part of a sweep that does not touch the clients. -/
theorem SweepPart.of_clients_eq {w w' : World cfg} (htable : w'.table = w.table)
    (hseams : w'.seams = w.seams) (hticks : w'.ticks = w.ticks)
    (hlater : Env.Later w.env w'.env) (hclients : w'.clients = w.clients) :
    SweepPart T S Q w w' := by
  refine ⟨⟨htable, hseams, hticks, hlater, fun i c' hc => ?_⟩, fun hQ _ _ h i c p hc hp => ?_⟩
  · exact ⟨c', hclients ▸ hc, rfl, rfl, rfl⟩
  · rw [htable]
    exact hQ.later (h i c p (hclients ▸ hc) hp) hlater

theorem forRange_part {body : World cfg → Nat → World cfg}
    (hbody : ∀ k v, SweepPart T S Q v (body v k)) (w : World cfg) (n : Nat) :
    SweepPart T S Q w (forRange body w n) := by
  induction n with
  | zero => exact SweepPart.refl w
  | succ n ih => exact ih.trans (hbody n _)

theorem detectKey_part (w : World cfg) (k : Nat) : SweepPart T S Q w (w.detectKey k) := by
  unfold detectKey
  split
  · exact SweepPart.refl w
  rename_i slot hslot
  split
  · exact SweepPart.refl w
  have hlater := w.env.later_genFn slot.key
  simp only
  split
  · exact SweepPart.of_clients_eq rfl rfl rfl hlater rfl
  rename_i gen hgen
  refine ⟨⟨rfl, rfl, rfl, hlater, fun i c' hc => ?_⟩, fun hQ hT _ h i c' p hc hp => ?_⟩
  · obtain ⟨c, hc₀, rfl⟩ := Option.map_eq_some_iff.mp hc
    refine ⟨c, hc₀, ?_⟩
    unfold Client.detect
    split
    · exact ⟨rfl, rfl, Option.isSome_map⟩
    · exact ⟨rfl, rfl, rfl⟩
  · obtain ⟨c, hc₀, rfl⟩ := Option.map_eq_some_iff.mp hc
    unfold Client.detect at hp ⊢
    split at hp
    · rename_i hsub
      obtain ⟨p₀, hp₀, rfl⟩ := Option.map_eq_some_iff.mp hp
      rw [if_pos hsub, Env.genFn_eq_some hgen]
      exact hQ.detect hT hslot (hQ.later (h i c p₀ hc₀ hp₀) hlater)
    · rename_i hsub
      rw [if_neg hsub]
      exact hQ.later (h i c p hc₀ hp) hlater

theorem pumpKey_part (w : World cfg) (k : Nat) : SweepPart T S Q w (w.pumpKey k) := by
  unfold pumpKey
  split
  · exact SweepPart.refl w
  rename_i slot _
  split
  · exact SweepPart.refl w
  have hlater := w.env.later_genFn slot.key
  simp only
  split
  · exact SweepPart.of_clients_eq rfl rfl rfl hlater rfl
  split
  · exact SweepPart.of_clients_eq rfl rfl rfl hlater rfl
  unfold pumpClaimed
  simp only
  split
  · exact SweepPart.of_clients_eq rfl rfl rfl hlater rfl
  have hrendered := hlater.trans (Env.later_renderFn _ slot.key)
  split
  · exact SweepPart.of_clients_eq rfl rfl rfl hrendered rfl
  · exact SweepPart.of_clients_eq rfl rfl rfl hrendered rfl

/-- The STATE drain of one client. -/
theorem drainState_spec (w : World cfg) (c : Client cfg) :
    Env.Later w.env (w.drainState c).1.env ∧ SameClient c (w.drainState c).2 ∧
      ∀ i, PollInvariant T S Q → T w.table → S w.seams →
        (∀ p, c.poll = some p → Q i w.table c.sub c.acquiredOn w.env p) →
          ∀ p', (w.drainState c).2.poll = some p' →
            Q i w.table c.sub c.acquiredOn (w.drainState c).1.env p' := by
  unfold drainState
  split
  · rename_i hnone
    refine ⟨Env.Later.refl _, ⟨rfl, rfl, rfl⟩, fun i _ _ _ _ p' hp' => ?_⟩
    rw [hnone] at hp'
    cases hp'
  rename_i p hp
  refine ⟨?_, ⟨rfl, rfl, by rw [hp]; rfl⟩, fun i hQ hT hS h p' hp' => ?_⟩
  · exact @forRange_invariant (StateDrain cfg) (fun d => Env.Later w.env d.env) _ _ w.table.length
      (Env.Later.refl _) fun k d _ hd => hd.trans (StateDrain.drainKey_later w.seams w.table d k)
  · cases hp'
    exact @forRange_invariant (StateDrain cfg)
      (fun d => Q i w.table c.sub c.acquiredOn d.env d.poll) _ _ w.table.length (h p hp)
      fun k d hk hd => hQ.drainKey hT hS hk hd

theorem serve_part (idx : Nat) (w : World cfg) : SweepPart T S Q w (w.serve idx) := by
  unfold serve
  split
  · exact SweepPart.refl w
  rename_i c hc
  split
  · refine ⟨⟨rfl, rfl, rfl, Env.Later.refl _, fun i c' hc' => ?_⟩, fun _ _ _ h i c' p hc' hp => ?_⟩
    · rcases update_eq_some hc' with ⟨-, hnone⟩ | ⟨-, hold⟩
      · cases hnone
      · exact ⟨c', hold, rfl, rfl, rfl⟩
    · rcases update_eq_some hc' with ⟨-, hnone⟩ | ⟨-, hold⟩
      · cases hnone
      · exact h i c' p hold hp
  obtain ⟨htable, -, -, hseams, hticks⟩ := w.drainState_frame c
  obtain ⟨hdrained, hsame, hholds⟩ := w.drainState_spec (T := T) (S := S) (Q := Q) c
  have hfed := Client.drainEvents_samePoll w.table w.events (w.drainState c).2
  obtain ⟨hflushed, hkept⟩ := Client.flush_samePoll w.seams (w.drainState c).1.env
    ((w.drainState c).2.drainEvents w.table w.events)
  refine ⟨⟨htable, hseams, hticks, hdrained.trans hflushed, fun i c' hc' => ?_⟩,
    fun hQ hT hS h i c' p' hc' hp' => ?_⟩
  · rcases update_eq_some hc' with ⟨rfl, hnew⟩ | ⟨-, hold⟩
    · exact ⟨c, hc, hsame.trans (hfed.trans (hkept c' hnew)).sameClient⟩
    · exact ⟨c', hold, rfl, rfl, rfl⟩
  · show Q i (w.drainState c).1.table c'.sub c'.acquiredOn _ p'
    rw [htable]
    rcases update_eq_some hc' with ⟨rfl, hnew⟩ | ⟨-, hold⟩
    · have hpoll := hfed.trans (hkept c' hnew)
      rw [hpoll.sub_eq, hpoll.acquiredOn_eq, hsame.sub_eq, hsame.acquiredOn_eq]
      exact hQ.later (hholds i hQ hT hS (fun p hp => h i c p hc hp) p' (hpoll.poll_eq ▸ hp'))
        hflushed
    · exact hQ.later (h i c' p' hold hp') (hdrained.trans hflushed)

theorem sweepStep_part (w : World cfg) : SweepPart T S Q w w.sweepStep := by
  have hdetect : SweepPart T S Q w w.detect := by
    unfold detect
    split
    · exact SweepPart.refl w
    · exact forRange_part (fun k v => v.detectKey_part k) w _
  have hpump : SweepPart T S Q w.detect w.detect.pushPump := by
    unfold pushPump
    split
    · exact SweepPart.refl _
    · exact forRange_part (fun k v => v.pumpKey_part k) _ _
  exact (hdetect.trans hpump).trans (forRange_part serve_part _ _)

/-- What a sweep leaves alone. -/
theorem sweepStep_frame (w : World cfg) : SweepFrame w w.sweepStep :=
  (sweepStep_part (T := fun _ => True) (S := fun _ => True)
    (Q := fun _ _ _ _ _ _ => True) w).1

/-- The invariant rule for poll blocks over a whole sweep. -/
theorem sweepStep_pollHolds (hQ : PollInvariant T S Q) {w : World cfg} (hT : T w.table)
    (hS : S w.seams) (h : PollHolds Q w) : PollHolds Q w.sweepStep :=
  (sweepStep_part w).2 hQ hT hS h

end World
end DataHttp
end Breadboard
