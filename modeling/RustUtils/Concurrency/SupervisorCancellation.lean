import RustUtils.Concurrency.RestartBudget

/-!
# Cancelling `Supervisor::run`

The token may fire between any two statements of the loop. Three facts carry everything:
a cancelled token stays cancelled, a result once returned stays returned, and from a
cancelled state the only way to a spawn is the gap between the check at the top of the loop
and the spawn itself. `run_under_cancellation` collects what follows for whole runs.
-/

namespace RustUtils

open Transition

namespace Supervisor

variable (p : Supervisor)

/-! ### What no step undoes -/

private theorem cancelled_of_step {s s' : State} {l : Label} (hl : p.step s l = some s')
    (h : s.cancelled = true) : s'.cancelled = true := by
  cases (p.step_iff).mp hl with
  | cancel => rfl
  | _ => exact h

private theorem cancelled_of_exec {s s' : State} {ls : List Label}
    (hls : p.machine.exec s ls = some s') (h : s.cancelled = true) : s'.cancelled = true :=
  p.machine.exec_preserves (fun _ _ _ _ hs hl => p.cancelled_of_step hl hs) h hls

/-- The token is cancelled exactly when the environment has cancelled it. -/
theorem cancelled_iff {ls : List Label} {s : State} (h : p.machine.Run ls s) :
    s.cancelled = true ↔ .cancel ∈ ls := by
  refine h.induct (I := fun ls s => s.cancelled = true ↔ .cancel ∈ ls) (by simp [machine]) ?_
  intro ls l s s' _ ih hl
  rw [List.mem_append, List.mem_singleton]
  cases (p.step_iff).mp hl with
  | cancel => simp
  | _ => simpa using ih

/-- Once `run` has returned, only the environment moves. -/
theorem returned_of_exec {s s' : State} {ls : List Label} {r : UtilsResult Unit}
    (hls : p.machine.exec s ls = some s') (h : s.pc = .returned r) : s'.pc = .returned r := by
  refine p.machine.exec_preserves (P := fun s => s.pc = .returned r) ?_ h hls
  intro s l _ s' hs hl
  cases (p.step_iff).mp hl with
  | cancel => exact hs
  | _ hpc => exact absurd (hpc.symm.trans hs) (by simp)

/-- The loop only ever suspends in the `select!` on its own token. -/
theorem sleeping_select {ls : List Label} {s : State} (h : p.machine.Run ls s) :
    ∀ sleep, s.pc = .sleeping sleep → ∃ deadline, sleep = .select () deadline := by
  refine h.invariant (P := fun s =>
    ∀ sleep, s.pc = .sleeping sleep → ∃ deadline, sleep = .select () deadline)
    (by simp [machine]) ?_
  intro s l s' ih hl sleep hpc'
  cases (p.step_iff).mp hl with
  | cancel => exact ih sleep hpc'
  | backoff hpc hclock =>
    dsimp only at hpc'
    split at hpc'
    · contradiction
    · next hzero =>
      rw [Sleep.start, if_neg hzero] at hpc'
      exact ⟨_, (Pc.sleeping.inj hpc').symm⟩
  | @poll now sl hpc hclock =>
    obtain ⟨deadline, rfl⟩ := ih _ hpc
    dsimp only [Sleep.poll] at hpc'
    split_ifs at hpc'
    · contradiction
    · contradiction
    · exact ⟨deadline, (Pc.sleeping.inj hpc').symm⟩
  | classify hpc =>
    have hout := p.outstanding_classifyOutcome (congrArg Pc.outstanding hpc')
    contradiction
  | checkTop hpc | checkJoin hpc | budget hpc =>
    dsimp only at hpc'
    split at hpc' <;> contradiction
  | _ => contradiction

/-! ### After the cancellation -/

/-- One for the gap between the check at the top of the loop and the spawn. -/
def Pc.aboutToSpawn : Pc → ℕ
  | .spawn => 1
  | _ => 0

private theorem aboutToSpawn_classifyOutcome (outcome : Outcome) :
    (p.classifyOutcome outcome).aboutToSpawn = 0 := by
  rcases p.classifyOutcome_cases outcome with h | ⟨result, h, -⟩ <;> rw [h] <;> rfl

private theorem aboutToSpawn_afterPoll (sleep : Sleep Unit) :
    (afterPoll sleep).aboutToSpawn = 0 := by
  rcases afterPoll_cases sleep with h | h | h <;> rw [h] <;> rfl

/-- From a cancelled state a step spends the gap or leaves it alone, and never opens it. -/
theorem instances_step_le {s s' : State} {l : Label} (h : s.cancelled = true)
    (hl : p.step s l = some s') :
    instances [l] + s'.pc.aboutToSpawn ≤ s.pc.aboutToSpawn := by
  have hzero : ∀ {n m : ℕ}, n = 0 → n ≤ m := fun hn => hn ▸ Nat.zero_le _
  cases (p.step_iff).mp hl with
  | cancel => exact (Nat.zero_add _).le
  | spawn hpc hclock => simp [hpc, instances, Pc.aboutToSpawn]
  | checkTop hpc | checkJoin hpc => simp [h, instances, Pc.aboutToSpawn]
  | classify hpc => exact hzero ((Nat.zero_add _).trans (p.aboutToSpawn_classifyOutcome _))
  | poll hpc hclock => exact hzero ((Nat.zero_add _).trans (aboutToSpawn_afterPoll _))
  | budget hpc => exact hzero (by split <;> rfl)
  | backoff hpc hclock => exact hzero (by split <;> rfl)
  | _ => exact Nat.zero_le _

/-- From a cancelled state, at most the spawn that has already passed its check happens. -/
private theorem instances_le_of_cancelled {s s' : State} {ls : List Label} (h : s.cancelled = true)
    (hls : p.machine.exec s ls = some s') : instances ls ≤ s.pc.aboutToSpawn := by
  induction ls generalizing s with
  | nil => exact Nat.zero_le _
  | cons l ls ih =>
    obtain ⟨s₁, hl, hrest⟩ := (p.machine.exec_cons_iff).mp hls
    calc instances (l :: ls) = instances [l] + instances ls := instances_append [l] ls
      _ ≤ instances [l] + s₁.pc.aboutToSpawn :=
          Nat.add_le_add_left (ih (p.cancelled_of_step hl h) hrest) _
      _ ≤ s.pc.aboutToSpawn := p.instances_step_le h hl

/-- The statements at which `run` looks at its token. -/
def Label.looksAtToken : Label → Bool
  | .checkTop | .checkJoin | .poll _ => true
  | _ => false

/-- Looking at a cancelled token returns `Ok(())`. -/
private theorem returned_of_looksAtToken {ls : List Label} {s s' : State} {l : Label}
    (hrun : p.machine.Run ls s) (h : s.cancelled = true) (hl : p.step s l = some s')
    (hlook : l.looksAtToken = true) : s'.pc = .returned (.ok ()) := by
  cases (p.step_iff).mp hl with
  | checkTop hpc | checkJoin hpc => exact if_pos h
  | poll hpc hclock =>
    -- the `select!` polls the token first
    obtain ⟨deadline, rfl⟩ := p.sleeping_select hrun _ hpc
    simp [Sleep.poll, h, afterPoll]
  | _ => contradiction

/-- From a pending sleep on, a cancelled run leaves the sleep pending or has returned. -/
private theorem sleeping_or_returned_of_exec {before after : List Label} {s s₁ : State}
    {sleep : Sleep Unit}
    (h₁ : p.machine.Run before s₁) (hc : s₁.cancelled = true) (hpc : s₁.pc = .sleeping sleep)
    (hafter : p.machine.exec s₁ after = some s) :
    s.pc = .sleeping sleep ∨ s.pc = .returned (.ok ()) := by
  induction after using List.reverseRecOn generalizing s with
  | nil =>
    obtain rfl := Option.some_inj.mp hafter
    exact Or.inl hpc
  | append_singleton after l ih =>
    obtain ⟨s₂, h₂, hl⟩ := (p.machine.exec_snoc_iff).mp hafter
    have hc₂ := p.cancelled_of_exec h₂ hc
    rcases ih h₂ with hs | hs
    · cases (p.step_iff).mp hl with
      | cancel => exact Or.inl hs
      | poll => exact Or.inr (p.returned_of_looksAtToken (h₁.append h₂) hc₂ hl rfl)
      | _ hpc' => exact absurd (hpc'.symm.trans hs) (by simp)
    · have hstep := (p.machine.exec_snoc_iff).mpr ⟨s₂, p.machine.exec_nil s₂, hl⟩
      exact Or.inr (p.returned_of_exec hstep hs)

/-- The points between a backoff and the next check of the token. -/
def Pc.beforeCheck : Pc → Bool
  | .loopTop | .sleeping _ | .returned _ => true
  | _ => false

private theorem beforeCheck_afterPoll (sleep : Sleep Unit) :
    (afterPoll sleep).beforeCheck = true := by
  rcases afterPoll_cases sleep with h | h | h <;> rw [h] <;> rfl

/-- Without a check at the top of the loop, no statement leads from a backoff to a spawn. -/
private theorem beforeCheck_of_exec {s s' : State} {ls : List Label}
    (hls : p.machine.exec s ls = some s') (hnot : .checkTop ∉ ls)
    (h : s.pc.beforeCheck = true) : s'.pc.beforeCheck = true := by
  refine p.machine.exec_preserves (P := fun s => s.pc.beforeCheck = true) ?_ h hls
  intro s l hmem s' hs hl
  cases (p.step_iff).mp hl with
  | cancel => exact hs
  | checkTop => exact absurd hmem hnot
  | poll hpc hclock => exact beforeCheck_afterPoll _
  | _ hpc => exact absurd hs (by simp [hpc, Pc.beforeCheck])

/-! ### Where an error comes from -/

/-- The points after the join check that can still return an error, or have. -/
def Pc.pastJoinCheck : Pc → Bool
  | .healthy _ _ | .classify _ | .record | .budget | .returned (.error _) => true
  | _ => false

private theorem pastJoinCheck_afterPoll (sleep : Sleep Unit) :
    (afterPoll sleep).pastJoinCheck = false := by
  rcases afterPoll_cases sleep with h | h | h <;> rw [h] <;> rfl

/-- Whoever stands past a join check has passed the last one, that of the last instance,
with a token that was not cancelled. -/
private theorem joinCheck_of_pastJoinCheck {ls : List Label} {s : State} (h : p.machine.Run ls s) :
    s.pc.pastJoinCheck = true →
      ∃ before after, ls = before ++ [.checkJoin] ++ after ∧ .checkJoin ∉ after ∧
        instances after = 0 ∧ .cancel ∉ before := by
  refine h.induct (I := fun ls s => s.pc.pastJoinCheck = true →
    ∃ before after, ls = before ++ [.checkJoin] ++ after ∧ .checkJoin ∉ after ∧
      instances after = 0 ∧ .cancel ∉ before) (by simp [machine, Pc.pastJoinCheck]) ?_
  intro ls l s s' hrun ih hl hpast
  -- a later statement only extends what comes after the check
  have hextend : s.pc.pastJoinCheck = true → l ≠ .checkJoin → instances [l] = 0 →
      ∃ before after, ls ++ [l] = before ++ [.checkJoin] ++ after ∧ .checkJoin ∉ after ∧
        instances after = 0 ∧ .cancel ∉ before := by
    intro hs hne hquiet
    obtain ⟨before, after, rfl, hafter, hnone, hbefore⟩ := ih hs
    refine ⟨before, after ++ [l], by simp, ?_, ?_, hbefore⟩
    · simpa [hafter] using fun heq => hne heq.symm
    · rw [instances_append, hnone, hquiet]
  cases (p.step_iff).mp hl with
  | checkJoin hpc =>
    have hnot : ¬ s.cancelled = true := by
      intro hc
      simp [hc, Pc.pastJoinCheck] at hpast
    exact ⟨ls, [], by simp, by simp, rfl, fun hmem => hnot ((p.cancelled_iff hrun).mpr hmem)⟩
  | cancel => exact hextend hpast (by simp) rfl
  | healthy hpc | classify hpc | record hpc | budget hpc =>
    exact hextend (by simp [hpc, Pc.pastJoinCheck]) (by simp) rfl
  | poll hpc => simp [pastJoinCheck_afterPoll] at hpast
  | checkTop hpc | backoff hpc =>
    dsimp only at hpast
    split at hpast <;> contradiction
  | _ => contradiction

/-! ### Runs under cancellation -/

/-- **Cancellation at any point of `run`.** In every run: at most one instance is spawned
after a cancellation; once the loop looks at the token after the cancellation, at the top,
after a join or in a sleep, it has returned `Ok(())`, and a backoff sleep that is pending
then leads nowhere else; an error is returned only when the token was not cancelled at the
join check of the last instance; and between every backoff, also one that does not sleep,
and the next spawn the token is checked. -/
theorem run_under_cancellation {ls : List Label} {s : State} (hrun : p.machine.Run ls s) :
    (∀ before after, ls = before ++ [.cancel] ++ after → instances after ≤ 1) ∧
    (∀ before l after, ls = before ++ [l] ++ after → .cancel ∈ before →
      l.looksAtToken = true → s.pc = .returned (.ok ())) ∧
    (∀ before after s₁ sleep, ls = before ++ after → p.machine.Run before s₁ →
      .cancel ∈ before → s₁.pc = .sleeping sleep →
      s.pc = .sleeping sleep ∨ s.pc = .returned (.ok ())) ∧
    (∀ r, s.pc = .returned (.error r) →
      ∃ before after, ls = before ++ [.checkJoin] ++ after ∧ .checkJoin ∉ after ∧
        instances after = 0 ∧ .cancel ∉ before) ∧
    (∀ before now wall between now' after,
      ls = before ++ [.backoff now wall] ++ between ++ [.spawn now'] ++ after →
      .checkTop ∈ between) := by
  refine ⟨?_, ?_, ?_, ?_, ?_⟩
  · rintro before after rfl
    obtain ⟨s₁, h₁, hafter⟩ := Machine.run_append_iff.mp hrun
    have hc : s₁.cancelled = true := (p.cancelled_iff h₁).mpr (by simp)
    refine Nat.le_trans (p.instances_le_of_cancelled hc hafter) ?_
    unfold Pc.aboutToSpawn
    split <;> decide
  · rintro before l after rfl hcancel hlook
    obtain ⟨s₂, h₂, hafter⟩ := Machine.run_append_iff.mp hrun
    obtain ⟨s₁, h₁, hl⟩ := (p.machine.exec_snoc_iff).mp h₂
    have hc : s₁.cancelled = true := (p.cancelled_iff h₁).mpr hcancel
    exact p.returned_of_exec hafter (p.returned_of_looksAtToken h₁ hc hl hlook)
  · rintro before after s₁ sleep rfl h₁ hcancel hpc
    obtain ⟨s₁', h₁', hafter⟩ := Machine.run_append_iff.mp hrun
    obtain rfl : s₁' = s₁ := Option.some_inj.mp (h₁'.symm.trans h₁)
    have hc : s₁'.cancelled = true := (p.cancelled_iff h₁).mpr hcancel
    exact p.sleeping_or_returned_of_exec h₁ hc hpc hafter
  · intro r hpc
    exact p.joinCheck_of_pastJoinCheck hrun (by simp [hpc, Pc.pastJoinCheck])
  · rintro before now wall between now' after rfl
    by_contra hnot
    obtain ⟨s₄, h₄, -⟩ := Machine.run_append_iff.mp hrun
    obtain ⟨s₃, h₃, hspawn⟩ := (p.machine.exec_snoc_iff).mp h₄
    obtain ⟨s₂, h₂, hbetween⟩ := Machine.run_append_iff.mp h₃
    obtain ⟨s₁, h₁, hbackoff⟩ := (p.machine.exec_snoc_iff).mp h₂
    -- after the backoff the loop stands before a check, and would still do so at the spawn
    have hstart : s₂.pc.beforeCheck = true := by
      cases (p.step_iff).mp hbackoff with
      | backoff hpc hclock =>
        dsimp only
        split <;> rfl
    have hend := p.beforeCheck_of_exec hbetween hnot hstart
    cases (p.step_iff).mp hspawn with
    | spawn hpc hclock => simp [hpc, Pc.beforeCheck] at hend

/-- The token fires in the gap between the check at the top of the loop and the spawn. -/
def cancelInGap : List Label :=
  [.checkTop, .cancel, .spawn 1, .join (.error ⟨true, "boom"⟩), .checkJoin]

/-- The instance spawned in the gap is the only one, and its panic is not restarted. -/
theorem run_under_cancellation_inGap :
    instances (cancelInGap.drop 2) ≤ 1 ∧
      ∃ s, tightPolicy.machine.Run cancelInGap s ∧ s.pc = .returned (.ok ()) := by
  have hrun : tightPolicy.machine.Run cancelInGap ⟨true, 1, [], 0, .returned (.ok ())⟩ := by
    decide +kernel
  obtain ⟨hspawns, hlook, -⟩ := tightPolicy.run_under_cancellation hrun
  exact ⟨hspawns [.checkTop] _ rfl, _, hrun,
    hlook [.checkTop, .cancel, .spawn 1, .join (.error ⟨true, "boom"⟩)] .checkJoin [] rfl
      (by decide) rfl⟩

end Supervisor

end RustUtils
