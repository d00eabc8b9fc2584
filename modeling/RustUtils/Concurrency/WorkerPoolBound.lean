import RustUtils.Concurrency.WorkerPool

/-!
# The size of the `JoinSet`

Finished tasks stay in the `JoinSet` of a `WorkerPool` until the next `submit` reaps them, and more
tasks can finish while that `submit` waits for its permit. When its reaping loop ends the set holds
tasks that have not finished only, so no more than there are permits, and until the `submit` spawns
its task nothing enters the set. That makes one more than the cap the bound at all times
(`active_le`).
-/

namespace RustUtils

open Transition

namespace WorkerPool

variable {T : Type} {n : ℕ} {ls : List (Label T)} {s : State T}

/-- `WorkerPool::active`. -/
def active (s : State T) : ℕ := s.shared.joins.length

/-- The tasks the owner may leave in the `JoinSet` above the cap. -/
def Owner.excess : Owner T → ℕ
  | waiting _ | granted _ => 0
  | _ => 1

private theorem Owner.excess_le_one (o : Owner T) : o.excess ≤ 1 := by
  unfold excess
  split <;> decide

/-- The `JoinSet` tracks spawned tasks, each once. -/
theorem joins_nodup (h : (system n).machine.Run ls s) :
    s.shared.joins.Nodup ∧ ∀ i ∈ s.shared.joins, i < s.tasks.length := by
  refine h.invariant (P := fun s =>
    s.shared.joins.Nodup ∧ ∀ i ∈ s.shared.joins, i < s.tasks.length) ⟨List.nodup_nil, ?_⟩ ?_
  · exact fun i hi => absurd hi List.not_mem_nil
  · rintro s l s' ⟨hnodup, hlt⟩ hl
    cases ((system n).step_iff).mp hl with
    | main hmain =>
      cases owns_of_owner hmain with
      | spawn ho =>
        rw [List.length_append, List.length_singleton]
        refine ⟨List.nodup_append.mpr ⟨hnodup, List.nodup_singleton _, ?_⟩, ?_⟩
        · rintro i hi j hj rfl
          exact Nat.lt_irrefl i (List.mem_singleton.mp hj ▸ hlt i hi)
        · intro i hi
          rcases List.mem_append.mp hi with hi | hi
          · exact Nat.lt_succ_of_lt (hlt i hi)
          · exact List.mem_singleton.mp hi ▸ Nat.lt_succ_self _
      | reap ho hmem hfin | joinNext ho hmem hfin =>
        rw [List.append_nil]
        exact ⟨hnodup.erase _, fun j hj => hlt j (List.mem_of_mem_erase hj)⟩
      | _ => exact ⟨hnodup, by rwa [List.append_nil]⟩
    | act htask hact =>
      obtain ⟨p, rfl, hacts⟩ := acts_of_act hact
      dsimp only
      rw [hacts.frame.2.1, List.length_set]
      exact ⟨hnodup, hlt⟩

/-- After the reaping loop no more tasks are tracked than there are permits. -/
private theorem active_le_of_reaped (h : (system n).machine.Run ls s)
    (hnone : ∀ i ∈ s.shared.joins, isFinished s i = false) : active s ≤ n := by
  obtain ⟨hnodup, hlt⟩ := joins_nodup h
  have hlive : ∀ i ∈ s.shared.joins, s.look Task.live false i = true := by
    intro i hi
    have hget := List.getElem?_eq_getElem (hlt i hi)
    have hfin := hnone i hi
    rw [isFinished, Config.look_of_getElem? hget] at hfin
    rw [Config.look_of_getElem? hget, Task.live, hfin]
    rfl
  have hle := Config.length_le_countP hnodup hlive
  have hpermits := permits_eq h
  rw [active]
  omega

/-- **The bound at every point of the owner.** -/
theorem active_le_excess (h : (system n).machine.Run ls s) :
    active s ≤ n + s.shared.owner.excess := by
  refine h.induct (I := fun _ s => active s ≤ n + s.shared.owner.excess) (Nat.zero_le _) ?_
  intro ls l s s' hrun ih hl
  cases ((system n).step_iff).mp hl with
  | main hmain =>
    cases owns_of_owner hmain with
    | reaped ho hnone =>
      have hle := active_le_of_reaped hrun hnone
      exact hle
    | spawn ho =>
      -- the only task that enters the set meets the reaped one
      rw [ho] at ih
      simpa [active, Owner.excess] using ih
    | reap ho hmem hfin | joinNext ho hmem hfin =>
      exact Nat.le_trans (List.length_erase_le) ih
    | acquire ho hpos =>
      rw [ho] at ih
      exact ih
    | submit | enter | join | joined | drop | dropGranted =>
      exact Nat.le_trans ih (Nat.add_le_add_left (Owner.excess_le_one _) n)
  | act htask hact =>
    obtain ⟨p, rfl, hacts⟩ := acts_of_act hact
    obtain ⟨howner, hjoins, -⟩ := hacts.frame
    rw [active] at ih ⊢
    dsimp only
    rwa [howner, hjoins]

/-- **The `JoinSet` stays bounded.** In every reachable state of a pool with the cap `n`, whatever
has been submitted and in whatever order the handlers complete and panic, at most `n + 1` tasks are
tracked. -/
theorem active_le {pool : TaskSystem (Pool T) (Task T) (Move T) Act} (hnew : new n = some pool)
    (hrun : pool.machine.Run ls s) : active s ≤ n + 1 := by
  obtain ⟨-, hsystem⟩ := Option.ite_none_right_eq_some.mp hnew
  obtain rfl := Option.some_inj.mp hsystem
  exact Nat.le_trans (active_le_excess hrun) (Nat.add_le_add_left (Owner.excess_le_one _) n)

/-- The first of two jobs for one permit completes while the second `submit` waits, after its
reaping loop: both tasks are tracked then. -/
def completeWhileWaiting : List (Label Char) :=
  [.main (.submit 'a'), .main .enter, .main .reaped, .main .acquire, .main .spawn,
    .main (.submit 'b'), .main .enter, .main .reaped, .act 0 .start, .act 0 .complete,
    .main .acquire, .main .spawn]

theorem active_le_completeWhileWaiting :
    ∃ s, (system 1).machine.Run completeWhileWaiting s ∧ active s = 2 ∧ active s ≤ 1 + 1 := by
  have hnew : new (T := Char) 1 = some (system 1) := if_pos (by decide)
  have hrun : (system 1).machine.Run completeWhileWaiting
      ⟨⟨0, [0, 1], .idle, 2⟩, [⟨⟨0, 'a'⟩, .completed⟩, ⟨⟨1, 'b'⟩, .spawned⟩]⟩ := by
    decide +kernel
  exact ⟨_, hrun, rfl, active_le hnew hrun⟩

end WorkerPool

end RustUtils
