import RustUtils.Concurrency.WorkerPoolBound

/-!
# Progress of the worker pool

Backpressure suspends the owner of a `WorkerPool` until a job finishes, so the question is whether
it ever goes on. The steps a pool makes when it is left alone are those of its jobs and those of
the pending `submit` or `join` (`Label.spontaneous`). Each of them uses up `fuel`, and as long as
anything is left to do one of them is enabled (`exists_step`), because a `submit` without a permit
waits for jobs that hold all of them. So however the steps are scheduled, `submit` and `join` return
and every job runs to its end (`worker_pool_progress`).
-/

namespace RustUtils

open Transition

namespace WorkerPool

variable {T : Type} {n : ℕ} {ls : List (Label T)} {s : State T}

/-- A step that the owner does not decide on: no call is made, and none is dropped. -/
def Label.spontaneous : Label T → Bool
  | .main (.submit _) | .main .drop | .main .join => false
  | _ => true

/-! ### Every step uses up fuel -/

/-- How far the owner is from the end of its call. -/
def Owner.weight : Owner T → ℕ
  | called _ => 7
  | reaping _ => 6
  | waiting _ => 5
  | granted _ => 4
  | joining => 1
  | idle | joined => 0

/-- How far a job is from its end. -/
def Task.weight (t : Task T) : ℕ :=
  match t.phase with
  | .spawned => 2
  | .running => 1
  | .completed | .panicked => 0

/-- How far the pool is from having nothing left to do. -/
def fuel (s : State T) : ℕ :=
  s.shared.owner.weight + s.shared.joins.length + (s.tasks.map Task.weight).sum

private theorem fuel_lt {s' : State T} {l : Label T} (hl : Label.spontaneous l = true)
    (h : (system n).machine.step s l = some s') : fuel s' < fuel s := by
  unfold fuel
  cases ((system n).step_iff).mp h with
  | main hmain =>
    cases owns_of_owner hmain with
    | submit ho | drop ho | dropGranted ho | join ho => simp [Label.spontaneous] at hl
    | enter ho | reaped ho hnone | acquire ho hpos | joined ho hempty =>
      simp [ho, Owner.weight]
    | spawn ho =>
      simp only [ho, Owner.weight, List.length_append, List.length_singleton, List.map_append,
        List.map_singleton, List.sum_append, List.sum_singleton, Task.weight]
      omega
    | reap ho hmem hfin | joinNext ho hmem hfin =>
      have hpos := List.length_pos_of_mem hmem
      rw [List.length_erase_of_mem hmem, List.append_nil]
      dsimp only
      omega
  | @act i a t t' pool htask hact =>
    have hsum := Config.sum_act (f := Task.weight) (q := t') htask
    obtain ⟨p, rfl, hacts⟩ := acts_of_act hact
    have hweight : Task.weight ⟨t.job, p⟩ < t.weight := by
      cases hacts with
      | start hp | complete hp | panic hp => simp [Task.weight, hp]
    dsimp only
    rw [hacts.frame.1, hacts.frame.2.1]
    omega

/-! ### Deadlock freedom -/

/-- A job that has not finished can make a step. -/
private theorem exists_act {t : Task T} {i : ℕ} (ht : s.tasks[i]? = some t)
    (hlive : t.live = true) :
    ∃ l s', Label.spontaneous l = true ∧ (system n).machine.step s l = some s' := by
  obtain ⟨job, phase⟩ := t
  cases phase with
  | spawned => exact ⟨.act i .start, _, rfl, ((system n).step_iff).mpr (.act ht rfl)⟩
  | running => exact ⟨.act i .complete, _, rfl, ((system n).step_iff).mpr (.act ht rfl)⟩
  | completed | panicked => simp [Task.live, Phase.finished] at hlive

/-- So can the owner, if its move is enabled. -/
private theorem exists_main {g : Move T} {r : Pool T × List (Task T)}
    (hg : Label.spontaneous (.main g : Label T) = true) (h : owner s g = some r) :
    ∃ l s', Label.spontaneous l = true ∧ (system n).machine.step s l = some s' :=
  ⟨.main g, _, hg, ((system n).step_iff).mpr (.main h)⟩

/-- **A pool with something left to do is not stuck.** -/
theorem exists_step (hn : 0 < n) (h : (system n).machine.Run ls s)
    (hleft : (∃ t ∈ s.tasks, t.live = true) ∨
      ¬(s.shared.owner = .idle ∨ s.shared.owner = .joined)) :
    ∃ l s', Label.spontaneous l = true ∧ (system n).machine.step s l = some s' := by
  by_cases hlive : ∃ t ∈ s.tasks, t.live = true
  · obtain ⟨t, ht, hlive⟩ := hlive
    obtain ⟨i, hi, rfl⟩ := List.getElem_of_mem ht
    exact exists_act (List.getElem?_eq_getElem hi) hlive
  · have hcalled := hleft.resolve_left hlive
    have hnone : s.tasks.countP Task.live = 0 := List.countP_eq_zero.mpr fun t ht hl =>
      hlive ⟨t, ht, hl⟩
    have hpermits := permits_eq h
    cases howner : s.shared.owner with
    | idle | joined => simp [howner] at hcalled
    | called job => exact exists_main (g := .enter) rfl (by simp only [owner, howner]; rfl)
    | reaping job =>
      by_cases hfin : ∃ i ∈ s.shared.joins, isFinished s i = true
      · obtain ⟨i, hmem, hfin⟩ := hfin
        exact exists_main (g := .reap i) rfl (by simp only [owner, howner, hmem, hfin]; rfl)
      · have hany : s.shared.joins.any (isFinished s) = false := by simpa using hfin
        exact exists_main (g := .reaped) rfl (by simp only [owner, howner, hany]; rfl)
    | waiting job =>
      -- no job is alive, so nobody holds a permit
      have hzero : s.shared.owner.permits = 0 := by rw [howner]; rfl
      have hpos : 0 < s.shared.available := by omega
      exact exists_main (g := .acquire) rfl (by simp only [owner, howner, if_pos hpos]; rfl)
    | granted job => exact exists_main (g := .spawn) rfl (by simp only [owner, howner]; rfl)
    | joining =>
      by_cases hempty : s.shared.joins = []
      · exact exists_main (g := .joined) rfl (by simp only [owner, howner, if_pos hempty]; rfl)
      · obtain ⟨i, hmem⟩ := List.exists_mem_of_ne_nil _ hempty
        have hi := (joins_nodup h).2 i hmem
        have hfin : isFinished s i = true := by
          rw [isFinished, Config.look_of_getElem? (List.getElem?_eq_getElem hi)]
          by_contra hne
          exact hlive ⟨_, List.getElem_mem hi, by rw [Task.live]; simpa using hne⟩
        exact exists_main (g := .joinNext i) rfl (by simp only [owner, howner, hmem, hfin]; rfl)

/-- A pool with nothing left to do is stuck. -/
private theorem step_eq_none (howner : s.shared.owner = .idle ∨ s.shared.owner = .joined)
    (hended : ∀ t ∈ s.tasks, t.live = false) {l : Label T} (hl : Label.spontaneous l = true) :
    (system n).machine.step s l = none := by
  refine Option.eq_none_iff_forall_ne_some.mpr fun s' h => ?_
  cases ((system n).step_iff).mp h with
  | main hmain => cases owns_of_owner hmain <;> simp_all [Label.spontaneous]
  | act htask hact =>
    obtain ⟨p, -, hacts⟩ := acts_of_act hact
    have hlive := hended _ (List.mem_of_getElem? htask)
    rw [hacts.live] at hlive
    contradiction

/-! ### Where the pool ends up -/

/-- The pool is being joined, or has been. -/
def Owner.closing : Owner T → Bool
  | joining | joined => true
  | _ => false

/-- A pending `join` stays one, a pending `submit` does not become one, and the job of a pending
`submit` stays with it until it is spawned. -/
private theorem exec_spontaneous {more : List (Label T)} {s' : State T}
    (hmore : ∀ l ∈ more, Label.spontaneous l = true)
    (h : (system n).machine.exec s more = some s') :
    s'.shared.owner.closing = s.shared.owner.closing ∧
      ∀ job, s.shared.owner.job = some job → s'.shared.owner.job = some job ∨ job ∈ jobs s' := by
  refine (system n).machine.exec_preserves (P := fun s' =>
    s'.shared.owner.closing = s.shared.owner.closing ∧
      ∀ job, s.shared.owner.job = some job → s'.shared.owner.job = some job ∨ job ∈ jobs s')
    ?_ ⟨rfl, fun job hjob => Or.inl hjob⟩ h
  rintro s₁ l hl s₂ ⟨hclosing, hjob⟩ hstep
  have hl := hmore l hl
  cases ((system n).step_iff).mp hstep with
  | main hmain =>
    cases owns_of_owner hmain with
    | submit ho | drop ho | dropGranted ho | join ho => simp [Label.spontaneous] at hl
    | enter ho | reaped ho hnone | acquire ho hpos | joined ho hempty =>
      simp only [ho, jobs, List.append_nil] at hclosing hjob ⊢
      exact ⟨hclosing, hjob⟩
    | reap ho hmem hfin | joinNext ho hmem hfin =>
      rw [List.append_nil]
      exact ⟨hclosing, hjob⟩
    | @spawn job ho =>
      refine ⟨by rw [← hclosing, ho]; rfl, fun job' hjob' => Or.inr ?_⟩
      rw [jobs, List.map_append, List.mem_append]
      rcases hjob job' hjob' with heq | hmem
      · rw [ho] at heq
        obtain rfl := Option.some_inj.mp heq
        exact Or.inr (List.mem_singleton_self _)
      · exact Or.inl hmem
  | @act i a t t' pool htask hact =>
    obtain ⟨p, rfl, hacts⟩ := acts_of_act hact
    have hjobs : jobs ⟨pool, s₁.tasks.set i ⟨t.job, p⟩⟩ = jobs s₁ := Config.map_act htask rfl
    rw [hjobs]
    dsimp only
    rw [hacts.frame.1]
    exact ⟨hclosing, hjob⟩

/-- **Progress of the worker pool.** Leave a pool alone in any reachable state: no call is made or
dropped, and its jobs and the pending call make their steps in any order. They make finitely many,
at most `fuel`. When no more is enabled, all jobs have finished and all permits are back; a pending
`submit` has returned, and its job has been run; and a pending `join` has returned. -/
theorem worker_pool_progress {pool : TaskSystem (Pool T) (Task T) (Move T) Act}
    (hnew : new n = some pool) (hrun : pool.machine.Run ls s) {more : List (Label T)}
    {s' : State T} (hmore : ∀ l ∈ more, Label.spontaneous l = true)
    (hexec : pool.machine.exec s more = some s') :
    more.length + fuel s' ≤ fuel s ∧
      ((∀ l, Label.spontaneous l = true → pool.machine.step s' l = none) →
        (∀ t ∈ s'.tasks, t.phase.finished = true) ∧ s'.shared.available = n ∧
        (s.shared.owner.closing = false → s'.shared.owner = .idle) ∧
        (s.shared.owner.closing = true → s'.shared.owner = .joined) ∧
        ∀ job, s.shared.owner.job = some job → ∃ t ∈ s'.tasks, t.job = job) := by
  obtain ⟨⟨hpos, -⟩, hsystem⟩ := Option.ite_none_right_eq_some.mp hnew
  obtain rfl := Option.some_inj.mp hsystem
  refine ⟨(system n).machine.exec_length_add_le (P := fun l => Label.spontaneous l = true)
    (fun _ _ _ hl h => fuel_lt hl h) hmore hexec, fun hstuck => ?_⟩
  have hrun' := hrun.append hexec
  -- a pool in which nothing is enabled has nothing left to do
  have hdone : ¬((∃ t ∈ s'.tasks, t.live = true) ∨
      ¬(s'.shared.owner = .idle ∨ s'.shared.owner = .joined)) := fun hleft => by
    obtain ⟨l, s₂, hl, hstep⟩ := exists_step hpos hrun' hleft
    rw [hstuck l hl] at hstep
    contradiction
  obtain ⟨hended, howner⟩ := not_or.mp hdone
  have howner := not_not.mp howner
  have hfinished : ∀ t ∈ s'.tasks, t.live = false := fun t ht =>
    Bool.eq_false_iff.mpr fun hlive => hended ⟨t, ht, hlive⟩
  obtain ⟨hclosing, hjob⟩ := exec_spontaneous hmore hexec
  refine ⟨fun t ht => by simpa [Task.live] using hfinished t ht, ?_, fun hopen => ?_,
    fun hclosed => ?_, fun job hj => ?_⟩
  · have hpermits := permits_eq hrun'
    have hnone : s'.tasks.countP Task.live = 0 :=
      List.countP_eq_zero.mpr fun t ht => by simp [hfinished t ht]
    have hzero : s'.shared.owner.permits = 0 := by
      rcases howner with howner | howner <;> rw [howner] <;> rfl
    omega
  · refine howner.resolve_right fun hjoined => ?_
    rw [hopen, hjoined] at hclosing
    contradiction
  · refine howner.resolve_left fun hidle => ?_
    rw [hclosed, hidle] at hclosing
    contradiction
  · have hnojob : s'.shared.owner.job = none := by
      rcases howner with howner | howner <;> rw [howner] <;> rfl
    have hmem := (hjob job hj).resolve_left (by simp [hnojob])
    exact List.mem_map.mp hmem

/-- The second of two jobs for one permit waits for the first one, which panics. -/
theorem worker_pool_progress_panicking :
    ∃ s : State Char, (system 1).machine.Run [.main (.submit 'a'), .main .enter, .main .reaped,
        .main .acquire, .main .spawn, .main (.submit 'b'), .main .enter, .main .reaped] s ∧
      ∃ s', (system 1).machine.exec s [.act 0 .start, .act 0 .panic, .main .acquire, .main .spawn,
          .act 1 .start, .act 1 .complete] = some s' ∧ s'.shared.owner = .idle := by
  have hnew : new (T := Char) 1 = some (system 1) := if_pos (by decide)
  let s : State Char := ⟨⟨0, [0], .waiting ⟨1, 'b'⟩, 2⟩, [⟨⟨0, 'a'⟩, .spawned⟩]⟩
  let s' : State Char := ⟨⟨1, [0, 1], .idle, 2⟩, [⟨⟨0, 'a'⟩, .panicked⟩, ⟨⟨1, 'b'⟩, .completed⟩]⟩
  have hrun : (system 1).machine.Run [.main (.submit 'a'), .main .enter, .main .reaped,
      .main .acquire, .main .spawn, .main (.submit 'b'), .main .enter, .main .reaped] s := by
    decide +kernel
  have hexec : (system 1).machine.exec s [.act 0 .start, .act 0 .panic, .main .acquire,
      .main .spawn, .act 1 .start, .act 1 .complete] = some s' := by
    decide +kernel
  obtain ⟨-, hstuck⟩ := worker_pool_progress hnew hrun (by decide) hexec
  obtain ⟨-, -, hidle, -⟩ := hstuck fun l hl =>
    step_eq_none (Or.inl rfl) (by decide) hl
  exact ⟨s, hrun, s', hexec, hidle rfl⟩

end WorkerPool

end RustUtils
