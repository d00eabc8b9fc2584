import RustUtils.Concurrency.Throttle
import RustUtils.Timeline.Selection

/-!
# What a throttle drops

`Throttle` decides on every call as it comes, by the latest admission alone. The admission law says
which calls it drops; `throttle_selection` says that it drops no more than it has to. Between two
resets no other choice among the same calls that keeps the interval lets more of them through, or
lets its first `k` through any sooner.
-/

namespace RustUtils

open Transition Timeline

namespace Throttle

variable {th : Throttle}

/-- **No call is dropped in vain**, for every interleaving of any number of calls. In a stretch of
the ledger without a reset the admitted calls are apart by the interval, from one another and from
the admissions before; and they are ahead of every choice among the calls of the stretch of which
that is true. -/
theorem throttle_selection {ls : List Label} {s : State} (hrun : th.system.machine.Run ls s)
    {before stretch after : List (Entry ℕ)} (hledger : th.ledger ls = before ++ stretch ++ after)
    (hreset : .reset ∉ stretch) :
    let choices := {sel : List ℕ | sel.Sublist (attempts stretch) ∧
      Spaced th.minInterval.toNanos (sinceReset before ++ sel)}
    stamps stretch ∈ choices ∧
    (∀ sel ∈ choices, Ahead (stamps stretch) sel) ∧
    IsGreatest (List.length '' choices) (stamps stretch).length := by
  intro choices
  obtain ⟨-, hlawful, -⟩ := lastRun_eq_latest hrun
  rw [hledger] at hlawful
  have hsince := sinceReset_append (L := before) hreset
  have hmem : stamps stretch ∈ choices :=
    ⟨stamps_sublist_attempts, hsince ▸ hlawful.of_append.spaced⟩
  have hahead : ∀ sel ∈ choices, Ahead (stamps stretch) sel := fun sel hsel =>
    (hsince ▸ hlawful.of_append.selection_ahead hreset hsel.1 hsel.2).of_append
  refine ⟨hmem, hahead, Set.mem_image_of_mem _ hmem, ?_⟩
  rintro n ⟨sel, hsel, rfl⟩
  exact (hahead sel hsel).1

/-- Four callers, ten nanoseconds apart at least: the second and the fourth come too early. The two
of them would have been a choice as well. -/
def fourCallers : List Label :=
  [.main .tryRun, .main .tryRun, .main .tryRun, .main .tryRun, .act 0 .lock, .act 0 (.check 5),
    .act 0 .unlock, .act 1 .lock, .act 1 (.check 9), .act 1 .unlock, .act 2 .lock,
    .act 2 (.check 15), .act 2 .unlock, .act 3 .lock, .act 3 (.check 20), .act 3 .unlock]

theorem throttle_selection_fourCallers :
    stamps [Entry.accept 0 5, .discard 1 9, .accept 2 15, .discard 3 20] = [5, 15] ∧
      Ahead [5, 15] [9, 20] := by
  let th : Throttle := ⟨Duration.fromNanos 10⟩
  have hrun : th.system.machine.Run fourCallers
      ⟨⟨some 15, none, false, 20⟩, [.admitted 5, .discarded 9, .admitted 15, .discarded 20]⟩ := by
    decide +kernel
  have hledger : th.ledger fourCallers =
      [] ++ [.accept 0 5, .discard 1 9, .accept 2 15, .discard 3 20] ++ [] := by
    decide +kernel
  have hchoice : Spaced th.minInterval.toNanos [9, 20] := by
    unfold Spaced
    decide +kernel
  obtain ⟨-, hahead, -⟩ := throttle_selection hrun hledger (by decide)
  exact ⟨rfl, hahead [9, 20] ⟨by decide, hchoice⟩⟩

end Throttle

end RustUtils
