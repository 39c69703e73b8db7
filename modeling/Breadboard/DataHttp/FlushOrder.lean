import Breadboard.DataHttp.Outgoing

/-!
# bb_data_http - the order of sends and the drop bound

Main results:

- Theorem `sound_run`: in every run accepted frames come in push order, each
  once, and an ephemeral client is aborted once.
- Theorem `flush_order_and_drops`: when no push evicts a frame that is being
  retried, a dropped frame had the full number of timeouts in a row.
- Theorem `replaced_head_dropped_early`: a run in which one does.
-/

namespace Breadboard
namespace DataHttp
namespace Outgoing

open Queue Foundations

variable {cfg : Config}

/-! ## Order and aborts -/

/-- The frames the send seam accepted, with their numbers. -/
def accepted (log : List Sent) : List (Nat × Entry Origin) :=
  log.filterMap fun x =>
    match x with
    | .accepted n e => some (n, e)
    | _ => none

@[simp] theorem accepted_append (log log' : List Sent) :
    accepted (log ++ log') = accepted log ++ accepted log' :=
  List.filterMap_append

/--
What every run keeps: accepted frames are frames that were pushed, in push order and
each once; the client was aborted once if it is gone, and a durable one is not.
-/
structure Sound (s : Outgoing cfg) : Prop where
  lined : s.Lined
  order : (accepted s.log).Pairwise fun p q => p.1 < q.1
  below : ∀ p ∈ accepted s.log, p.1 < s.oldest
  named : ∀ p ∈ accepted s.log, s.pushed[p.1]? = some p.2
  aborts : s.log.count .aborted = if s.inUse then 0 else 1
  fatals : s.lifetime = .ephemeral → (∃ n e, .fatal n e ∈ s.log) → s.inUse = false
  durable : s.lifetime = .durable → s.inUse = true

theorem oldest_le_push {s : Outgoing cfg} (h : s.Lined) (e : Entry Origin) :
    s.oldest ≤ (s.push e).oldest := by
  by_cases hlen : e.len ≤ cfg.outboundEntryMax
  · obtain ⟨hcontents, hpushed⟩ := push_contents (s := s) hlen
    obtain ⟨gone, hgone⟩ := h
    have hpush : (gone ++ s.queue.evicted e.len) ++ (s.push e).queue.contents = (s.push e).pushed := by
      rw [hcontents, hpushed, ← hgone, ← s.queue.evicted_append_kept e.len]
      simp
    rw [oldest_eq hgone, oldest_eq hpush, List.length_append]
    exact Nat.le_add_right _ _
  · obtain ⟨hcontents, hpushed⟩ := push_refused (s := s) hlen
    have hcount : (s.push e).queue.count = s.queue.count := by
      rw [← BoundedRing.length_contents, ← BoundedRing.length_contents, hcontents]
    exact Nat.le_of_eq (by rw [oldest, oldest, hpushed, hcount])

theorem sound_push {s : Outgoing cfg} (h : s.Sound) (e : Entry Origin) : (s.push e).Sound where
  lined := lined_push h.lined e
  order := h.order
  below := by
    intro p hp
    exact Nat.lt_of_lt_of_le (h.below p hp) (oldest_le_push h.lined e)
  named := by
    intro p hp
    have hnamed := h.named p hp
    have hlt := (List.getElem?_eq_some_iff.mp hnamed).1
    unfold push
    dsimp only
    split
    · rwa [List.getElem?_append_left hlt]
    · exact hnamed
  aborts := h.aborts
  fatals := h.fatals
  durable := h.durable

section Head

variable {s : Outgoing cfg} {e : Entry Origin} {rest : List (Entry Origin)}

theorem sound_accept (h : s.Sound) (hcontents : s.queue.contents = e :: rest) :
    (s.accept e).Sound where
  lined := lined_pop h.lined
  order := by
    unfold accept
    rw [accepted_append, List.pairwise_append]
    refine ⟨h.order, List.pairwise_singleton _ _, ?_⟩
    intro p hp q hq
    rw [List.mem_singleton.mp hq]
    exact h.below p hp
  below := by
    intro p hp
    have holdest : (s.accept e).oldest = s.oldest + 1 := oldest_pop h.lined hcontents
    unfold accept at hp
    rw [accepted_append] at hp
    rw [holdest]
    rcases List.mem_append.mp hp with hold | hnew
    · exact Nat.lt_succ_of_lt (h.below p hold)
    · rw [List.mem_singleton.mp hnew]
      exact Nat.lt_succ_self _
  named := by
    intro p hp
    unfold accept at hp
    rw [accepted_append] at hp
    rcases List.mem_append.mp hp with hold | hnew
    · exact h.named p hold
    · rw [List.mem_singleton.mp hnew]
      exact pushed_oldest h.lined hcontents
  aborts := by
    show (s.log ++ [Sent.accepted s.oldest e]).count Sent.aborted = if s.inUse then 0 else 1
    simpa using h.aborts
  fatals := by
    intro hlife hfatal
    refine h.fatals hlife ?_
    simpa [accept] using hfatal
  durable := h.durable

/-- A send that was not accepted adds nothing to the accepted frames. -/
theorem sound_of_log {s' : Outgoing cfg} (h : s.Sound) {x : List Sent} (hlog : s'.log = s.log ++ x)
    (hx : accepted x = []) (hpushed : s'.pushed = s.pushed) (hlined : s'.Lined)
    (holdest : s.oldest ≤ s'.oldest)
    (haborts : s'.log.count .aborted = if s'.inUse then 0 else 1)
    (hfatals : s'.lifetime = .ephemeral → (∃ n e, .fatal n e ∈ s'.log) → s'.inUse = false)
    (hdurable : s'.lifetime = .durable → s'.inUse = true) : s'.Sound := by
  have hsame : accepted s'.log = accepted s.log := by
    rw [hlog, accepted_append, hx, List.append_nil]
  refine ⟨hlined, ?_, ?_, ?_, haborts, hfatals, hdurable⟩
  · rw [hsame]
    exact h.order
  · intro p hp
    rw [hsame] at hp
    exact Nat.lt_of_lt_of_le (h.below p hp) holdest
  · intro p hp
    rw [hsame] at hp
    rw [hpushed]
    exact h.named p hp

theorem sound_timeOut (h : s.Sound) (hcontents : s.queue.contents = e :: rest) :
    (s.timeOut e).Sound := by
  unfold timeOut
  split
  · refine sound_of_log h rfl rfl rfl h.lined (Nat.le_refl _) ?_ ?_ h.durable
    · simpa using h.aborts
    · intro hlife hfatal
      exact h.fatals hlife (by simpa using hfatal)
  · refine sound_of_log h rfl rfl rfl (lined_pop h.lined) ?_ ?_ ?_ h.durable
    · have holdest := oldest_pop h.lined hcontents
      exact Nat.le_trans (Nat.le_succ _) (Nat.le_of_eq holdest.symm)
    · show (s.log ++ [Sent.timedOut s.oldest e true]).count Sent.aborted =
          if s.inUse then 0 else 1
      simpa using h.aborts
    · intro hlife hfatal
      exact h.fatals hlife (by simpa using hfatal)

theorem sound_fail (h : s.Sound) (huse : s.inUse = true) : (s.fail e).Sound := by
  have haborts : s.log.count .aborted = 0 := by simpa [huse] using h.aborts
  unfold fail
  split
  · rename_i hlife
    refine sound_of_log h rfl rfl rfl h.lined (Nat.le_refl _) ?_ ?_ h.durable
    · simpa using h.aborts
    · intro hephemeral
      exact absurd (hlife.symm.trans hephemeral) (by decide)
  · rename_i hlife
    refine sound_of_log h rfl rfl rfl h.lined (Nat.le_refl _) ?_ ?_ ?_
    · simp [haborts]
    · intro _ _
      rfl
    · intro hdurable
      exact absurd (hlife.symm.trans hdurable) (by decide)

end Head

/-! ## Consecutive timeouts -/

/-- Every frame the retry bound dropped had timed out the full number of times in a row. -/
def DropsFair (failMax : Nat) (log : List Sent) : Prop :=
  ∀ before n e after, log = before ++ .timedOut n e true :: after →
    List.replicate (failMax - 1) (.timedOut n e false) <:+ before

theorem dropsFair_append {failMax : Nat} {log : List Sent} {x : Sent} (h : DropsFair failMax log)
    (hx : ∀ n e, x = .timedOut n e true →
      List.replicate (failMax - 1) (.timedOut n e false) <:+ log) :
    DropsFair failMax (log ++ [x]) := by
  intro before n e after hsplit
  rcases List.eq_nil_or_concat after with rfl | ⟨init, last, rfl⟩
  · obtain ⟨rfl, heq⟩ := List.append_inj' hsplit rfl
    exact hx n e (List.singleton_inj.mp heq)
  · have hsplit' : log ++ [x] = (before ++ .timedOut n e true :: init) ++ [last] := by
      rw [hsplit]
      simp
    exact h before n e init (List.append_inj' hsplit' rfl).1

/--
What a run without untimely evictions keeps: the failure count is the number of timeouts
in a row of the oldest frame.
-/
structure Streak (s : Outgoing cfg) : Prop where
  count_lt : s.sendFailCount < cfg.sendFailMax
  streak : s.inUse = true → s.sendFailCount = 0 ∨ ∃ e rest, s.queue.contents = e :: rest ∧
    List.replicate s.sendFailCount (.timedOut s.oldest e false) <:+ s.log
  fair : DropsFair cfg.sendFailMax s.log

/-- No push evicts the oldest frame while its failures are being counted. -/
def Guarded (s : Outgoing cfg) : Step → Prop
  | .push e => s.inUse = true → e.len ≤ cfg.outboundEntryMax →
      s.sendFailCount = 0 ∨ s.queue.evicted e.len = []
  | .flush _ => True

theorem sendFailMax_pos (cfg : Config) : 0 < cfg.sendFailMax :=
  cfg.sendFailMax_range.1

theorem streak_push {s : Outgoing cfg} (h : s.Streak) (hlined : s.Lined) (huse : s.inUse = true)
    {e : Entry Origin}
    (hguard : e.len ≤ cfg.outboundEntryMax → s.sendFailCount = 0 ∨ s.queue.evicted e.len = []) :
    (s.push e).Streak where
  count_lt := h.count_lt
  fair := h.fair
  streak := by
    intro _
    rcases h.streak huse with hzero | ⟨head, rest, hcontents, hsuffix⟩
    · exact Or.inl hzero
    by_cases hlen : e.len ≤ cfg.outboundEntryMax
    · rcases hguard hlen with hzero | hkeep
      · exact Or.inl hzero
      · obtain ⟨hpush, hpushed⟩ := push_contents (s := s) hlen
        have hkept : s.queue.kept e.len = s.queue.contents := by
          have hsplit := s.queue.evicted_append_kept e.len
          rwa [hkeep, List.nil_append] at hsplit
        rw [hkept] at hpush
        have holdest : (s.push e).oldest = s.oldest := by
          obtain ⟨gone, hgone⟩ := hlined
          have hgone' : gone ++ (s.push e).queue.contents = (s.push e).pushed := by
            rw [hpush, hpushed, ← hgone, List.append_assoc]
          rw [oldest_eq hgone, oldest_eq hgone']
        refine Or.inr ⟨head, rest ++ [e], ?_, ?_⟩
        · rw [hpush, hcontents, List.cons_append]
        · rw [holdest]
          exact hsuffix
    · obtain ⟨hsame, hpushed⟩ := push_refused (s := s) hlen
      have holdest : (s.push e).oldest = s.oldest := by
        have hcount : (s.push e).queue.count = s.queue.count := by
          rw [← BoundedRing.length_contents, ← BoundedRing.length_contents, hsame]
        rw [oldest, oldest, hpushed, hcount]
      refine Or.inr ⟨head, rest, by rw [hsame, hcontents], ?_⟩
      rw [holdest]
      exact hsuffix

section Head

variable {s : Outgoing cfg} {e : Entry Origin} {rest : List (Entry Origin)}

theorem streak_accept (h : s.Streak) : (s.accept e).Streak where
  count_lt := sendFailMax_pos cfg
  streak := fun _ => Or.inl rfl
  fair := dropsFair_append h.fair (by
    intro n e' heq
    cases heq)

/-- The timeouts in a row so far are all of the oldest frame. -/
theorem replicate_suffix (h : s.Streak) (huse : s.inUse = true) (hcontents : s.queue.contents = e :: rest) :
    List.replicate s.sendFailCount (.timedOut s.oldest e false) <:+ s.log := by
  rcases h.streak huse with hzero | ⟨head, rest', hcontents', hsuffix⟩
  · rw [hzero]
    exact List.nil_suffix
  · rw [hcontents] at hcontents'
    cases hcontents'
    exact hsuffix

theorem streak_timeOut (h : s.Streak) (huse : s.inUse = true)
    (hcontents : s.queue.contents = e :: rest) : (s.timeOut e).Streak := by
  have hsuffix := replicate_suffix h huse hcontents
  unfold timeOut
  split
  · rename_i hlt
    refine ⟨hlt, fun _ => Or.inr ⟨e, rest, hcontents, ?_⟩, dropsFair_append h.fair ?_⟩
    · obtain ⟨before, hbefore⟩ := hsuffix
      refine ⟨before, ?_⟩
      show before ++ List.replicate (s.sendFailCount + 1) (.timedOut s.oldest e false) =
        s.log ++ [.timedOut s.oldest e false]
      rw [List.replicate_succ', ← List.append_assoc, hbefore]
    · intro n e' heq
      cases heq
  · rename_i hge
    refine ⟨sendFailMax_pos cfg, fun _ => Or.inl rfl, dropsFair_append h.fair ?_⟩
    intro n e' heq
    cases heq
    have hlt := h.count_lt
    have hcount : cfg.sendFailMax - 1 = s.sendFailCount := by omega
    rw [hcount]
    exact hsuffix

theorem streak_fail (h : s.Streak) : (s.fail e).Streak := by
  unfold fail
  split
  · refine ⟨sendFailMax_pos cfg, fun _ => Or.inl rfl, dropsFair_append h.fair ?_⟩
    intro n e' heq
    cases heq
  · have hfatal : DropsFair cfg.sendFailMax (s.log ++ [.fatal s.oldest e]) := by
      refine dropsFair_append h.fair ?_
      intro n e' heq
      cases heq
    have hlog : s.log ++ [.fatal s.oldest e, .aborted] =
        (s.log ++ [.fatal s.oldest e]) ++ [.aborted] := by simp
    refine ⟨h.count_lt, ?_, ?_⟩
    · intro huse
      cases huse
    · rw [hlog]
      refine dropsFair_append hfatal ?_
      intro n e' heq
      cases heq

end Head

/-! ## Flushes and runs -/

/-- The flush rule: a property that survives one accepted frame and the last send. -/
theorem flushLoop_induct {I : Outgoing cfg → Prop}
    (haccept : ∀ s e rest, I s → s.inUse = true → s.queue.contents = e :: rest → I (s.accept e))
    (htimeOut : ∀ s e rest, I s → s.inUse = true → s.queue.contents = e :: rest → I (s.timeOut e))
    (hfail : ∀ s e rest, I s → s.inUse = true → s.queue.contents = e :: rest → I (s.fail e))
    (fuel : Nat) (rcs : List BbErr) {s : Outgoing cfg} (h : I s) (huse : s.inUse = true) :
    I (flushLoop fuel rcs s) := by
  induction fuel generalizing rcs s with
  | zero => exact h
  | succ fuel ih =>
    unfold flushLoop
    split
    · exact h
    · rename_i e hpeek
      obtain ⟨rest, hcontents⟩ := List.head?_eq_some_iff.mp ((s.queue.peekOldest_ok_iff e).mp hpeek)
      split
      · exact ih rcs.tail (haccept s e rest h huse hcontents) huse
      · split
        · exact htimeOut s e rest h huse hcontents
        · exact hfail s e rest h huse hcontents

theorem sound_step (s : Outgoing cfg) (a : Step) (h : s.Sound) : (s.step a).Sound := by
  unfold step
  split
  · exact h
  · rename_i huse
    cases a with
    | push e => exact sound_push h e
    | flush rcs =>
      exact flushLoop_induct (fun s e rest h _ hc => sound_accept h hc)
        (fun s e rest h _ hc => sound_timeOut h hc) (fun s e rest h hu _ => sound_fail h hu)
        _ rcs h (by simpa using huse)

theorem streak_step (s : Outgoing cfg) (a : Step) (h : s.Sound ∧ s.Streak) (hguard : s.Guarded a) :
    (s.step a).Sound ∧ (s.step a).Streak := by
  refine ⟨sound_step s a h.1, ?_⟩
  unfold step
  split
  · exact h.2
  · rename_i hfree
    have huse : s.inUse = true := by simpa using hfree
    cases a with
    | push e => exact streak_push h.2 h.1.lined huse (hguard huse)
    | flush rcs =>
      exact flushLoop_induct (fun s e rest h _ _ => streak_accept h)
        (fun s e rest h hu hc => streak_timeOut h hu hc) (fun s e rest h _ _ => streak_fail h)
        _ rcs h.2 huse

theorem sound_init {out : Outbox cfg} (hout : Outbox.create cfg = .ok out) (lifetime : Lifetime) :
    (init out lifetime).Sound := by
  have hempty : out.queue.contents = [] := by
    unfold Outbox.create at hout
    split at hout
    · cases hout
    · rename_i queue hqueue
      cases hout
      exact BoundedRing.create_contents hqueue
  refine ⟨?_, List.Pairwise.nil, nofun, nofun, rfl, ?_, fun _ => rfl⟩
  · unfold Lined init
    simp only [hempty, List.nil_suffix]
  · rintro _ ⟨n, e, hmem⟩
    cases hmem

theorem streak_init (out : Outbox cfg) (lifetime : Lifetime) : (init out lifetime).Streak := by
  refine ⟨sendFailMax_pos cfg, fun _ => Or.inl rfl, ?_⟩
  intro before n e after h
  cases before <;> cases h

/-- Every run of an acquired client. -/
theorem sound_run {out : Outbox cfg} (hout : Outbox.create cfg = .ok out) (lifetime : Lifetime)
    (as : List Step) : (run step (init out lifetime) as).Sound :=
  run_invariant sound_step (sound_init hout lifetime) as

/-! ## One flush -/

/-- Accepted frames numbered from `n`. -/
def acceptedFrom (n : Nat) : List (Entry Origin) → List Sent
  | [] => []
  | e :: es => .accepted n e :: acceptedFrom (n + 1) es

/--
How a flush ends in `s'`, once its accepted frames are gone, the frames `rest` are
left and the oldest of them is number `n`; the last index is what it adds to the log.
-/
inductive FlushEnd (s' : Outgoing cfg) (n : Nat) : List (Entry Origin) → List Sent → Prop where
  | drained (hcontents : s'.queue.contents = []) (huse : s'.inUse = true) : FlushEnd s' n [] []
  | retried (e : Entry Origin) (rest : List (Entry Origin))
      (hcontents : s'.queue.contents = e :: rest) (huse : s'.inUse = true) :
      FlushEnd s' n (e :: rest) [.timedOut n e false]
  | dropped (e : Entry Origin) (rest : List (Entry Origin))
      (hcontents : s'.queue.contents = rest) (huse : s'.inUse = true) :
      FlushEnd s' n (e :: rest) [.timedOut n e true]
  | kept (e : Entry Origin) (rest : List (Entry Origin)) (hlife : s'.lifetime = .durable)
      (hcontents : s'.queue.contents = e :: rest) (huse : s'.inUse = true) :
      FlushEnd s' n (e :: rest) [.fatal n e]
  | torn (e : Entry Origin) (rest : List (Entry Origin)) (hlife : s'.lifetime = .ephemeral)
      (huse : s'.inUse = false) : FlushEnd s' n (e :: rest) [.fatal n e, .aborted]

/-- The frames a flush sends are the first ones queued, and it stops at the first failure. -/
def FlushesInOrder (s s' : Outgoing cfg) : Prop :=
  ∃ sent rest last, s.queue.contents = sent ++ rest ∧
    s'.log = s.log ++ acceptedFrom s.oldest sent ++ last ∧
    FlushEnd s' (s.oldest + sent.length) rest last

theorem timeOut_ends {s : Outgoing cfg} (huse : s.inUse = true) {e : Entry Origin}
    {rest : List (Entry Origin)} (hcontents : s.queue.contents = e :: rest) :
    FlushesInOrder s (s.timeOut e) := by
  unfold timeOut
  split
  · refine ⟨[], e :: rest, [.timedOut s.oldest e false], hcontents, by simp [acceptedFrom], ?_⟩
    exact .retried e rest hcontents huse
  · refine ⟨[], e :: rest, [.timedOut s.oldest e true], hcontents, by simp [acceptedFrom], ?_⟩
    refine .dropped e rest ?_ huse
    simp [pop, hcontents]

theorem fail_ends {s : Outgoing cfg} (huse : s.inUse = true) {e : Entry Origin}
    {rest : List (Entry Origin)} (hcontents : s.queue.contents = e :: rest) :
    FlushesInOrder s (s.fail e) := by
  unfold fail
  split
  · rename_i hlife
    refine ⟨[], e :: rest, [.fatal s.oldest e], hcontents, by simp [acceptedFrom], ?_⟩
    exact .kept e rest hlife hcontents huse
  · rename_i hlife
    refine ⟨[], e :: rest, [.fatal s.oldest e, .aborted], hcontents, by simp [acceptedFrom], ?_⟩
    exact .torn e rest hlife rfl

theorem flushLoop_ends {s : Outgoing cfg} (h : s.Lined) (huse : s.inUse = true) (fuel : Nat)
    (rcs : List BbErr) (hfuel : s.queue.contents.length ≤ fuel) :
    FlushesInOrder s (flushLoop fuel rcs s) := by
  have hdrained : ∀ s : Outgoing cfg, s.inUse = true → s.queue.contents = [] →
      FlushesInOrder s s := by
    intro s huse hnil
    exact ⟨[], [], [], by simpa using hnil, by simp [acceptedFrom], .drained hnil huse⟩
  induction fuel generalizing s rcs with
  | zero => exact hdrained s huse (List.eq_nil_of_length_eq_zero (Nat.le_zero.mp hfuel))
  | succ fuel ih =>
    unfold flushLoop
    cases hpeek : s.queue.peekOldest with
    | error err =>
      refine hdrained s huse ?_
      cases hcontents : s.queue.contents with
      | nil => rfl
      | cons e rest =>
        have hok := (s.queue.peekOldest_ok_iff e).mpr (by rw [hcontents]; rfl)
        rw [hpeek] at hok
        cases hok
    | ok e =>
      obtain ⟨rest, hcontents⟩ := List.head?_eq_some_iff.mp ((s.queue.peekOldest_ok_iff e).mp hpeek)
      dsimp only
      split
      · have haccept : (s.accept e).queue.contents = rest := by
          simp [accept, pop, hcontents]
        have hlength : rest.length ≤ fuel := by
          rw [hcontents] at hfuel
          exact Nat.le_of_succ_le_succ hfuel
        obtain ⟨sent, left, last, hsplit, hlog, hend⟩ :=
          ih (s := s.accept e) (lined_pop h) huse rcs.tail (by rw [haccept]; exact hlength)
        have holdest : (s.accept e).oldest = s.oldest + 1 := oldest_pop h hcontents
        refine ⟨e :: sent, left, last, ?_, ?_, ?_⟩
        · rw [hcontents, List.cons_append, ← hsplit, haccept]
        · rw [hlog, holdest]
          simp [accept, acceptedFrom]
        · have hnumber : s.oldest + (e :: sent).length = (s.accept e).oldest + sent.length := by
            rw [holdest, List.length_cons]
            omega
          rw [hnumber]
          exact hend
      · split
        · exact timeOut_ends huse hcontents
        · exact fail_ends huse hcontents

/-- A flush sends frames from the front of the queue and stops at the first failure. -/
theorem flush_ends {s : Outgoing cfg} (h : s.Lined) (huse : s.inUse = true) (rcs : List BbErr) :
    FlushesInOrder s (s.flush rcs) :=
  flushLoop_ends h huse s.queue.count rcs (Nat.le_of_eq s.queue.length_contents)

/-! ## The contract -/

/--
What a run of sweeps promises: accepted frames are pushed frames, in push order and each
once; a frame the bound dropped had timed out the full number of times in a row; each
flush sends from the front of the queue and stops at the first failure, which costs at
most its own frame; and a client is aborted once if it is gone, never if it is durable.
-/
structure Contract (lifetime : Lifetime) (out : Outbox cfg) (as : List Step) : Prop where
  order : (accepted (run step (init out lifetime) as).log).Pairwise fun p q => p.1 < q.1
  named : ∀ p ∈ accepted (run step (init out lifetime) as).log,
    (run step (init out lifetime) as).pushed[p.1]? = some p.2
  fair : DropsFair cfg.sendFailMax (run step (init out lifetime) as).log
  flushes : ∀ sofar rcs, sofar ++ [.flush rcs] <+: as →
    (run step (init out lifetime) sofar).inUse = true →
      FlushesInOrder (run step (init out lifetime) sofar)
        (run step (init out lifetime) (sofar ++ [.flush rcs]))
  aborts : (run step (init out lifetime) as).log.count .aborted =
    if (run step (init out lifetime) as).inUse then 0 else 1
  fatals : lifetime = .ephemeral → (∃ n e, .fatal n e ∈ (run step (init out lifetime) as).log) →
    (run step (init out lifetime) as).inUse = false
  durable : lifetime = .durable → (run step (init out lifetime) as).inUse = true

/-- No step changes the lifetime. -/
theorem lifetime_run (s : Outgoing cfg) (as : List Step) :
    (run step s as).lifetime = s.lifetime := by
  have hstep : ∀ (t : Outgoing cfg) a, t.lifetime = s.lifetime → (t.step a).lifetime = s.lifetime := by
    intro t a ht
    unfold step
    split
    · exact ht
    · rename_i huse
      cases a with
      | push e => exact ht
      | flush rcs =>
        refine flushLoop_induct (I := fun u => u.lifetime = s.lifetime) ?_ ?_ ?_ _ rcs ht
          (by simpa using huse)
        · intro u e rest hu _ _
          exact hu
        · intro u e rest hu _ _
          unfold timeOut
          split <;> exact hu
        · intro u e rest hu _ _
          unfold fail
          split <;> exact hu
  exact run_invariant hstep rfl as

/--
In every run in which no push evicts a frame that is being retried, the contract holds.
Evictions of other frames are no matter.
-/
theorem flush_order_and_drops {out : Outbox cfg} (hout : Outbox.create cfg = .ok out)
    (lifetime : Lifetime) (as : List Step)
    (hguard : Along step Guarded (init out lifetime) as) : Contract lifetime out as := by
  have hsound := sound_run hout lifetime as
  have hstreak : (run step (init out lifetime) as).Streak :=
    (run_invariant_along (I := fun s => s.Sound ∧ s.Streak) streak_step
      ⟨sound_init hout lifetime, streak_init out lifetime⟩ hguard).2
  have hlife : (run step (init out lifetime) as).lifetime = lifetime :=
    lifetime_run (init out lifetime) as
  refine ⟨hsound.order, hsound.named, hstreak.fair, ?_, hsound.aborts, ?_, ?_⟩
  · intro sofar rcs _ huse
    have hflush : run step (init out lifetime) (sofar ++ [.flush rcs]) =
        (run step (init out lifetime) sofar).flush rcs := by
      rw [run_append, run_cons, run_nil, step, huse]
      rfl
    rw [hflush]
    exact flush_ends (sound_run hout lifetime sofar).lined huse rcs
  · intro hephemeral
    exact hsound.fatals (hlife.trans hephemeral)
  · intro hdurable
    exact hsound.durable (hlife.trans hdurable)

/-! ## A push that evicts the frame being retried -/

/-- An empty STATE frame of the first key. -/
def stateFrame : Entry Origin :=
  { id := 0, ts := 0, data := [], tag := .state 0 }

/-- Two timeouts of one frame, a push that replaces it, one timeout of the new frame. -/
def replacedHead : List Step :=
  [.push stateFrame, .flush [.timeout], .flush [.timeout], .push stateFrame, .flush [.timeout]]

/-- What `replacedHead` puts in the log. -/
def replacedHeadLog : List Sent :=
  [.timedOut 0 stateFrame false, .timedOut 0 stateFrame false, .timedOut 1 stateFrame true]

theorem replacedHead_log : ∃ out, Outbox.create oneFrameConfig = .ok out ∧
    (run step (init out .ephemeral) replacedHead).log = replacedHeadLog := by
  have hlog : (match Outbox.create oneFrameConfig with
      | .error _ => false
      | .ok out => decide ((run step (init out .ephemeral) replacedHead).log = replacedHeadLog))
        = true := by
    decide +kernel
  split at hlog
  · cases hlog
  · rename_i out hout
    exact ⟨out, hout, decide_eq_true_eq.mp hlog⟩

/-- The new frame is dropped after a single timeout of its own. -/
theorem replaced_head_dropped_early :
    ¬ ∀ (cfg : Config) (out : Outbox cfg) (lifetime : Lifetime) (as : List Step),
      Outbox.create cfg = .ok out → Contract lifetime out as := by
  intro hall
  obtain ⟨out, hout, hlog⟩ := replacedHead_log
  have hfair := (hall oneFrameConfig out .ephemeral replacedHead hout).fair
  rw [hlog] at hfair
  have hrow := hfair [.timedOut 0 stateFrame false, .timedOut 0 stateFrame false] 1 stateFrame [] rfl
  exact absurd (hrow.subset (List.mem_replicate.mpr ⟨by decide, rfl⟩)) (by decide)

/-- The same run without the second push: the one frame is dropped after its third timeout. -/
theorem flush_order_and_drops_threeTimeouts :
    ∃ out, Outbox.create oneFrameConfig = .ok out ∧
      Contract .ephemeral out
        [.push stateFrame, .flush [.timeout], .flush [.timeout], .flush [.timeout]] := by
  obtain ⟨out, hout, -⟩ := replacedHead_log
  refine ⟨out, hout, flush_order_and_drops hout .ephemeral _ ⟨?_, trivial, trivial, trivial, trivial⟩⟩
  intro _ _
  exact Or.inl rfl

end Outgoing
end DataHttp
end Breadboard
