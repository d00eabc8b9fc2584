import RustUtils.Concurrency.ShutdownDrain

/-!
# Overlapping calls of `shutdown`

Any number of clones may call `shutdown`, one while others wait. Whether a call returns `Ok` is
decided at the moment at which its wait ends: it does if the tracker has been drained since the
wait began. A call that has timed out counts the tracked tasks only afterwards, so its report may
say that none is left (`Answer`). Overlapping calls do not contradict one another: a wait that
covers another one which has resolved resolves as well (`shutdown_calls_law`).
-/

namespace RustUtils

open Transition

namespace ShutdownController

variable {ls xs ys : List Label} {s s' m : State} {l : Label} {k : ℕ}

/-! ### The tasks in flight -/

/-- The number of tasks in flight: those whose tracked future has not ended. -/
def inFlight (s : State) : ℕ := s.tasks.countP (·.phase.tracked)

/-- The tracker counts the tasks in flight. -/
private theorem Counts.length_eq (hc : Counts s) : (trackedTasks s).length = inFlight s := by
  have hperm : (trackedTasks s).Perm ((List.range s.tasks.length).filter (isTracked s)) := by
    refine (List.perm_ext_iff_of_nodup hc.nodup (List.nodup_range.filter _)).mpr fun i => ?_
    rw [hc.mem_iff, List.mem_filter, List.mem_range]
    refine ⟨fun hi => ⟨?_, hi⟩, And.right⟩
    obtain ⟨t, ht, -⟩ := Config.exists_of_look hi
    exact (List.getElem?_eq_some_iff.mp ht).1
  rw [hperm.length_eq, ← List.countP_eq_length_filter]
  exact Config.countP_range _ s

/-! ### The timeouts -/

/-- The timeouts that the callers of `shutdown` have passed, call by call. -/
def timeouts (ls : List Label) : List Duration :=
  ls.filterMap fun
    | .main (.shutdown _ timeout) => some timeout
    | _ => none

private theorem timeouts_append (xs ys : List Label) :
    timeouts (xs ++ ys) = timeouts xs ++ timeouts ys :=
  List.filterMap_append

namespace Shared

variable {sh : Shared}

private theorem timeouts_settle : sh.settle.calls.map ShutdownCall.timeout =
    sh.calls.map ShutdownCall.timeout := by
  rw [settle, List.map_map]
  rfl

private theorem timeouts_setCall {c c' : ShutdownCall} (hc : sh.calls[k]? = some c)
    (htimeout : c'.timeout = c.timeout) :
    (sh.setCall k c').calls.map ShutdownCall.timeout = sh.calls.map ShutdownCall.timeout := by
  have hget : (sh.calls.map ShutdownCall.timeout)[k]? = some c'.timeout := by
    rw [List.getElem?_map, hc, htimeout]
    rfl
  obtain ⟨hk, hget⟩ := List.getElem?_eq_some_iff.mp hget
  rw [setCall, List.map_set, ← hget, List.set_getElem_self]

end Shared

/-- The timeout of a call stays what its caller has passed. -/
private theorem timeouts_of_run (h : system.machine.Run ls s) :
    s.shared.calls.map ShutdownCall.timeout = timeouts ls := by
  refine run_induct (I := fun ls s => s.shared.calls.map ShutdownCall.timeout = timeouts ls) rfl
    (fun ls l s s' _ hw hI hl => ?_) h
  rw [timeouts_append, ← hI]
  obtain ⟨hcalls⟩ | ⟨htask, htransits⟩ := hl
  · cases hcalls with
    | clone | trigger => simp [timeouts, Shared.cancel]
    | spawn hg => cases hg <;> simp [timeouts, Shared.track]
    | shutdown => simp [timeouts, Shared.addCall, Shared.cancel]
    | close hcall =>
      refine Shared.timeouts_settle.trans (Eq.trans (Shared.timeouts_setCall hcall rfl) ?_)
      simp [timeouts]
    | wait hcall | finish hcall | deadline hcall | report hcall =>
      refine Eq.trans (Shared.timeouts_setCall hcall rfl) ?_
      simp [timeouts]
  · rename_i e
    cases e with
    | none | cancel => simp [timeouts, Effect.apply, Shared.cancel]
    | untrack =>
      rw [Effect.apply, Shared.untrack, Shared.timeouts_settle]
      simp [timeouts]

/-! ### What a call returns -/

/-- The wait of call `k` is over after the run `xs` to `m`. -/
structure WaitEnds (k : ℕ) (xs : List Label) (m : State) : Prop where
  run : system.machine.Run xs m
  pending : Pending m k

/-- What call `k` returns in the run `ls`, by the moves of its own. -/
inductive Answer (k : ℕ) (ls : List Label) : UtilsResult Unit → Prop
  /-- Its wait has resolved. -/
  | finish {xs ys : List Label} {m : State} (hls : ls = xs ++ .main (.finish k) :: ys)
      (hends : WaitEnds k xs m) (hdrained : DrainedSince k xs) : Answer k ls (.ok ())
  /-- Its wait has resolved when its deadline comes. -/
  | inTime {xs ys : List Label} {m : State} (hls : ls = xs ++ .main (.deadline k) :: ys)
      (hends : WaitEnds k xs m) (hdrained : DrainedSince k xs) : Answer k ls (.ok ())
  /-- It has not resolved, and the tasks in flight are counted later. -/
  | timedOut {xs ys zs : List Label} {m m' : State} {timeout : Duration}
      (hls : ls = xs ++ .main (.deadline k) :: ys ++ .main (.report k) :: zs)
      (hends : WaitEnds k xs m) (hdrained : ¬ DrainedSince k xs) (hinFlight : 0 < inFlight m)
      (hcounted : system.machine.Run (xs ++ .main (.deadline k) :: ys) m')
      (htimeout : (timeouts ls)[k]? = some timeout) :
      Answer k ls (.error (timeoutReport timeout (inFlight m')))

/-- A task is in flight as long as a wait has not resolved. -/
private theorem inFlight_pos (h : system.machine.Run ls s) (hk : Pending s k)
    (hnot : ¬ DrainedSince k ls) : 0 < inFlight s := by
  obtain ⟨resolved, hk⟩ := hk
  refine Nat.pos_of_ne_zero fun hzero => hnot ⟨ls, [], s, by simp, h, ?_, fun i => ?_⟩
  · rw [← entered_iff h, hk]
    rfl
  · rw [← (counts_of_run h).length_eq] at hzero
    exact (counts_of_run h).eq_nil_iff.mp (List.length_eq_zero_iff.mp hzero) i

/-- What the history tells of a call that has timed out or returned. -/
def Accounts (k : ℕ) (ls : List Label) : CallPhase → Prop
  | .timedOut => ∃ xs ys m, ls = xs ++ .main (.deadline k) :: ys ∧ WaitEnds k xs m ∧
      ¬ DrainedSince k xs ∧ 0 < inFlight m
  | .returned result => Answer k ls result
  | _ => True

/-- The history of a call stays its history when the run goes on. -/
private theorem Accounts.snoc {p : CallPhase} (h : Accounts k ls p) (l : Label) :
    Accounts k (ls ++ [l]) p := by
  rcases p with _ | _ | _ | _ | result
  case timedOut =>
    obtain ⟨xs, ys, m, rfl, hm⟩ := h
    exact ⟨xs, ys ++ [l], m, by simp, hm⟩
  case returned =>
    cases h with
    | @finish xs ys m hls hends hdrained =>
      exact .finish (show ls ++ [l] = xs ++ .main (.finish k) :: (ys ++ [l]) by simp [hls])
        hends hdrained
    | @inTime xs ys m hls hends hdrained =>
      exact .inTime (show ls ++ [l] = xs ++ .main (.deadline k) :: (ys ++ [l]) by simp [hls])
        hends hdrained
    | @timedOut xs ys zs m m' timeout hls hends hdrained hinFlight hcounted htimeout =>
      refine .timedOut (show ls ++ [l] =
        xs ++ .main (.deadline k) :: ys ++ .main (.report k) :: (zs ++ [l]) by simp [hls])
        hends hdrained hinFlight hcounted ?_
      obtain ⟨hk, hget⟩ := List.getElem?_eq_some_iff.mp htimeout
      rw [timeouts_append, List.getElem?_append_left hk, htimeout]
  all_goals trivial

private theorem Accounts.resolve {p : CallPhase} (h : Accounts k ls p) (drained : Bool) :
    Accounts k ls (p.resolve drained) := by
  cases p with
  | waiting resolved => trivial
  | _ => exact h

/-- A move keeps the account of a call, or gives it. -/
private theorem Accounts.step (hrun : system.machine.Run ls s)
    (hl : system.machine.step s l = some s')
    (hI : ∀ p, s.shared.callPhase k = some p → Accounts k ls p) {p : CallPhase}
    (hk : s'.shared.callPhase k = some p) : Accounts k (ls ++ [l]) p := by
  have hcall := (step_of_wired (wired_of_run hrun) hl).call (wired_of_run hrun) k
  generalize hq : s.shared.callPhase k = q, s'.shared.callPhase k = q' at hcall hk
  cases hcall with
  | stay => exact (hI p (hq.trans hk)).snoc l
  | settle =>
    obtain ⟨r, rfl, rfl⟩ := Option.map_eq_some_iff.mp hk
    exact ((hI r hq).snoc l).resolve _
  | shutdown | close | wait =>
    obtain rfl := Option.some_inj.mp hk
    trivial
  | finish =>
    obtain rfl := Option.some_inj.mp hk
    exact .finish rfl ⟨hrun, _, hq⟩ ((resolved_iff hrun hq).mp rfl)
  | @deadline resolved =>
    obtain rfl := Option.some_inj.mp hk
    have hends : WaitEnds k ls s := ⟨hrun, _, hq⟩
    cases resolved with
    | true => exact .inTime rfl hends ((resolved_iff hrun hq).mp rfl)
    | false =>
      have hnot : ¬ DrainedSince k ls := fun hd =>
        Bool.false_ne_true ((resolved_iff hrun hq).mpr hd)
      exact ⟨ls, [], s, rfl, hends, hnot, inFlight_pos hrun hends.pending hnot⟩
  | @report timeout htimeout =>
    obtain rfl := Option.some_inj.mp hk
    obtain ⟨xs, ys, m, rfl, hends, hnot, hpos⟩ := hI _ hq
    rw [(counts_of_run hrun).length_eq]
    refine .timedOut rfl hends hnot hpos hrun ?_
    rw [timeouts_append, ← timeouts_of_run hrun]
    simpa [timeouts] using htimeout

/-- **What a call has returned** it was told by the end of its wait, and rightly so. -/
theorem accounts_of_run (h : system.machine.Run ls s) {p : CallPhase}
    (hk : s.shared.callPhase k = some p) : Accounts k ls p := by
  refine h.induct (I := fun ls s => ∀ p, s.shared.callPhase k = some p → Accounts k ls p)
    (by simp [Shared.callPhase, system, TaskSystem.machine])
    (fun ls l s s' hrun hI hl p hk => ?_) p hk
  exact Accounts.step hrun hl hI hk

/-- The wait of call `j` that has begun before that of call `k` has resolved when `k` returns
`Ok`. -/
private theorem passed_of_covers {j : ℕ} (h : system.machine.Run (xs ++ .main (.wait k) :: ys) m)
    (hj : .main (.wait j) ∈ xs) (hk : Returned m k (.ok ())) (hpending : Pending m j) :
    passed m j = true := by
  obtain ⟨m₀, hxs, htail⟩ := Machine.run_append_iff.mp h
  obtain ⟨m₁, hwait, -⟩ := (system.machine.exec_cons_iff).mp htail
  -- call `k` begins to wait once, so all of `xs` comes before its wait
  have honce : .main (.wait k) ∉ xs := by
    intro hmem
    have hentered := (entered_iff hxs k).mpr hmem
    obtain ⟨hcalls⟩ := step_of_wired (wired_of_run hxs) hwait
    cases hcalls with
    | spawn hg => cases hg
    | wait hcall => simp [Shared.callPhase_of_call hcall, CallPhase.entered] at hentered
  obtain ⟨zs, zs', t, hsplit, ht, hmem, hnone⟩ :=
    drainedSince_of_passed h (k := k) (by rw [passed, hk]; rfl)
  have hprefix : .main (.wait j) ∈ zs := by
    rcases List.append_eq_append_iff.mp hsplit with ⟨as, rfl, -⟩ | ⟨bs, rfl, -⟩
    · exact List.mem_append_left _ hj
    · exact absurd (List.mem_append_left _ hmem) honce
  obtain ⟨resolved, hphase⟩ := hpending
  have hresolved := (resolved_iff h hphase).mpr ⟨zs, zs', t, hsplit, ht, hprefix, hnone⟩
  rw [passed, hphase, hresolved]
  rfl

/-! ### The next move of a call -/

/-- Call `k` can make the move `g`, and is at `p` then. -/
def Can (s : State) (k : ℕ) (g : Move) (p : CallPhase) : Prop :=
  ∃ s', system.machine.step s (.main g) = some s' ∧ s'.shared.callPhase k = some p

/-- A move that only moves the call on. -/
private theorem can_of_main {c : ShutdownCall} {g : Move} (hcall : s.shared.calls[k]? = some c)
    (c' : ShutdownCall) (hmain : main s g = some (s.shared.setCall k c', [])) :
    Can s k g c'.phase := by
  refine ⟨_, (system.step_iff).mpr (.main hmain), ?_⟩
  exact (Shared.callPhase_setCall hcall k).trans (if_pos rfl)

/-- A call that has cancelled the token can close the tracker. -/
private theorem can_close (h : system.machine.Run ls s)
    (hk : s.shared.callPhase k = some .cancelled) :
    Can s k (.close k) .closed := by
  have hw := (wired_of_run h).shared
  obtain ⟨⟨controller, timeout, phase⟩, hcall, rfl⟩ := Option.map_eq_some_iff.mp hk
  obtain rfl : controller = root := hw.calls _ (List.mem_of_getElem? hcall)
  let sh := s.shared.setCall k ⟨root, timeout, .closed⟩
  have hmain : main s (.close k) = some (sh.close 0, []) := by simp [main, hcall, root, sh]
  refine ⟨_, (system.step_iff).mpr (.main hmain), ?_⟩
  rw [(hw.setCall k rfl).callPhase_close, Shared.callPhase_setCall hcall, if_pos rfl]
  rfl

/-- A call that has closed the tracker can begin to wait. -/
private theorem can_wait (h : system.machine.Run ls s) (hk : s.shared.callPhase k = some .closed) :
    Can s k (.wait k) (.waiting (drained s)) := by
  obtain ⟨⟨controller, timeout, phase⟩, hcall, rfl⟩ := Option.map_eq_some_iff.mp hk
  obtain rfl : controller = root := (wired_of_run h).shared.calls _ (List.mem_of_getElem? hcall)
  exact can_of_main hcall ⟨root, timeout, .waiting (drained s)⟩
    (by simp [main, hcall, root, drained])

/-- A wait can end with the deadline, and by itself once it has resolved. -/
private theorem can_expire {resolved : Bool}
    (hk : s.shared.callPhase k = some (.waiting resolved)) :
    Can s k (.deadline k) (.expired resolved) ∧
      (resolved = true → Can s k (.finish k) (.returned (.ok ()))) := by
  obtain ⟨⟨controller, timeout, phase⟩, hcall, rfl⟩ := Option.map_eq_some_iff.mp hk
  refine ⟨?_, ?_⟩
  · exact can_of_main hcall ⟨controller, timeout, .expired resolved⟩
      (by simp [main, hcall])
  · rintro rfl
    exact can_of_main hcall ⟨controller, timeout, .returned (.ok ())⟩
      (by simp [main, hcall])

/-- A call whose timeout has fired can count the tasks and report them. -/
private theorem can_report (h : system.machine.Run ls s)
    (hk : s.shared.callPhase k = some .timedOut)
    {timeout : Duration} (htimeout : (timeouts ls)[k]? = some timeout) :
    Can s k (.report k) (.returned (.error (timeoutReport timeout (inFlight s)))) := by
  obtain ⟨⟨controller, given, phase⟩, hcall, rfl⟩ := Option.map_eq_some_iff.mp hk
  obtain rfl : controller = root := (wired_of_run h).shared.calls _ (List.mem_of_getElem? hcall)
  obtain rfl : given = timeout := by
    simpa [← timeouts_of_run h, List.getElem?_map, hcall] using htimeout
  rw [← (counts_of_run h).length_eq]
  exact can_of_main hcall ⟨root, given,
    .returned (.error (timeoutReport given (trackedTasks s).length))⟩
    (by simp [main, hcall, root, trackedTasks])

/-! ### The law of the calls -/

/-- **The law of overlapping calls**, for every interleaving of any number of calls of `shutdown`
with everything else that happens to a controller and its clones. What a call returns is decided
where its wait ends: `Ok` exactly if the tracker has been drained since the wait began, and else,
with some task in flight then, a report of its own timeout and of the tasks in flight when it
counts them, which may be none. A wait that begins earlier than that of a call that returns `Ok`,
and has not ended by then, ends with `Ok` too. And no call hangs: each of its moves is open to it
in turn, the deadline at any time during its wait, and the return with `Ok` as soon as the tracker
has been drained. -/
theorem shutdown_calls_law (h : system.machine.Run ls s) :
    (∀ k result, Returned s k result → Answer k ls result) ∧
    (∀ xs ys zs m j k result, ls = xs ++ .main (.wait k) :: ys ++ zs → .main (.wait j) ∈ xs →
      system.machine.Run (xs ++ .main (.wait k) :: ys) m → Returned m k (.ok ()) →
      Pending m j → Returned s j result → result = .ok ()) ∧
    (∀ k, s.shared.callPhase k = some .cancelled → Can s k (.close k) .closed) ∧
    (∀ k, s.shared.callPhase k = some .closed → Can s k (.wait k) (.waiting (drained s))) ∧
    (∀ k, Pending s k → DrainedSince k ls →
      Can s k (.finish k) (.returned (.ok ())) ∧ Can s k (.deadline k) (.returned (.ok ()))) ∧
    (∀ k, Pending s k → ¬ DrainedSince k ls → Can s k (.deadline k) .timedOut) ∧
    ∀ k timeout, s.shared.callPhase k = some .timedOut → (timeouts ls)[k]? = some timeout →
      Can s k (.report k) (.returned (.error (timeoutReport timeout (inFlight s)))) := by
  refine ⟨fun k result hk => accounts_of_run h hk, ?_, fun k hk => can_close h hk,
    fun k hk => can_wait h hk, ?_, ?_, fun k timeout hk htimeout => can_report h hk htimeout⟩
  · intro xs ys zs m j k result hsplit hj hm hk hpending hreturned
    rw [hsplit] at h
    obtain ⟨m', hm', hzs⟩ := Machine.run_append_iff.mp h
    obtain rfl : m = m' := Option.some_inj.mp (hm.symm.trans hm')
    have hpassed := passed_of_exec hm hzs (passed_of_covers hm hj hk hpending)
    rw [passed, hreturned] at hpassed
    cases result with
    | ok u => rfl
    | error report => exact absurd hpassed (by simp [CallPhase.passed])
  · rintro k ⟨resolved, hk⟩ hdrained
    obtain rfl := (resolved_iff h hk).mpr hdrained
    exact ⟨(can_expire hk).2 rfl, (can_expire hk).1⟩
  · rintro k ⟨resolved, hk⟩ hdrained
    obtain rfl : resolved = false := Bool.eq_false_iff.mpr fun hr =>
      hdrained ((resolved_iff h hk).mp hr)
    exact (can_expire hk).1

/-- Two clones call `shutdown` while a task runs. The second one has no patience and times out, but
the task finishes before it counts the tasks in flight, and the first one returns `Ok`. -/
def impatientClone : List Label :=
  [.main (.spawn 0), .main (.clone 0), .main (.shutdown 0 (.fromNanos 5)), .main (.close 0),
    .main (.wait 0), .main (.shutdown 1 .zero), .main (.close 1), .main (.wait 1),
    .main (.deadline 1), .act 0 .finish, .main (.report 1), .main (.finish 0)]

theorem shutdown_calls_law_impatientClone :
    ∃ s, system.machine.Run impatientClone s ∧ Answer 0 impatientClone (.ok ()) ∧
      Answer 1 impatientClone (.error (timeoutReport .zero 0)) := by
  let s : State := ⟨⟨[root, root], [true], [⟨true, []⟩],
    [⟨root, .fromNanos 5, .returned (.ok ())⟩,
      ⟨root, .zero, .returned (.error (timeoutReport .zero 0))⟩]⟩, [⟨root, .ended⟩]⟩
  have hrun : system.machine.Run impatientClone s := by decide +kernel
  have hlaw := shutdown_calls_law hrun
  exact ⟨s, hrun, hlaw.1 0 _ rfl, hlaw.1 1 _ rfl⟩

end ShutdownController

end RustUtils
