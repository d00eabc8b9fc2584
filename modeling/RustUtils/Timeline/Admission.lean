import RustUtils.Timeline.Spacing

/-!
# Admission ledgers

A gate that lets at most one caller per interval through leaves a ledger: who was admitted
when, who was turned away when, and when the gate was reset. `Lawful m L` says that every
entry was right when it was made, judged against the latest admission since the latest
reset alone, which is all a gate remembers.

The law for all pairs follows (`Lawful.spaced`): admissions with no reset between them are
at least `m` apart, so an interval free of resets cannot crowd, and a caller is turned away
exactly when some admission since the latest reset is less than `m` ago.
-/

namespace Timeline

variable {ι : Type*}

/-- An entry of the ledger of a gate. -/
inductive Entry (ι : Type*) where
  | accept (caller : ι) (t : ℕ)
  | discard (caller : ι) (t : ℕ)
  | reset
  deriving DecidableEq

/-- Whom an entry is about. -/
def Entry.caller : Entry ι → Option ι
  | .accept i _ => some i
  | .discard i _ => some i
  | .reset => none

/-- The admission times of a stretch of the ledger. -/
def stamps (L : List (Entry ι)) : List ℕ :=
  L.filterMap fun
    | .accept _ t => some t
    | _ => none

/-- The admission times since the latest reset. -/
def sinceReset (L : List (Entry ι)) : List ℕ :=
  L.foldl (fun ts e =>
    match e with
    | .accept _ t => ts ++ [t]
    | .discard _ _ => ts
    | .reset => []) []

/-- The latest admission since the latest reset. -/
def latest (L : List (Entry ι)) : Option ℕ := (sinceReset L).getLast?

@[simp]
theorem sinceReset_nil : sinceReset ([] : List (Entry ι)) = [] := rfl

@[simp]
theorem sinceReset_snoc_accept (L : List (Entry ι)) (i : ι) (t : ℕ) :
    sinceReset (L ++ [.accept i t]) = sinceReset L ++ [t] := by
  simp [sinceReset]

@[simp]
theorem sinceReset_snoc_discard (L : List (Entry ι)) (i : ι) (t : ℕ) :
    sinceReset (L ++ [.discard i t]) = sinceReset L := by
  simp [sinceReset]

@[simp]
theorem sinceReset_snoc_reset (L : List (Entry ι)) :
    sinceReset (L ++ [.reset]) = [] := by
  simp [sinceReset]

/-- A stretch without a reset adds its admissions to those before it. -/
theorem sinceReset_append {L M : List (Entry ι)} (h : .reset ∉ M) :
    sinceReset (L ++ M) = sinceReset L ++ stamps M := by
  induction M using List.reverseRecOn with
  | nil => simp [stamps]
  | append_singleton M e ih =>
    have hM : .reset ∉ M := fun hmem => h (List.mem_append_left _ hmem)
    rw [← List.append_assoc]
    cases e with
    | accept i t =>
      rw [sinceReset_snoc_accept, ih hM]
      simp [stamps]
    | discard i t =>
      rw [sinceReset_snoc_discard, ih hM]
      simp [stamps]
    | reset => exact absurd (by simp) h

/-- An entry that is right, given the latest admission before it. -/
def EntryOk (m : ℕ) (last : Option ℕ) : Entry ι → Prop
  | .accept _ t => ∀ u, last = some u → u + m ≤ t
  | .discard _ t => ∃ u, last = some u ∧ u ≤ t ∧ t < u + m
  | .reset => True

/-- Every entry of the ledger was right when it was made. -/
def Lawful (m : ℕ) (L : List (Entry ι)) : Prop :=
  ∀ before e after, L = before ++ e :: after → EntryOk m (latest before) e

variable {m : ℕ} {L : List (Entry ι)}

@[simp]
theorem lawful_nil : Lawful m ([] : List (Entry ι)) := fun before e after h => by
  simp at h

/-- The beginning of a lawful ledger is lawful. -/
theorem Lawful.of_append {M : List (Entry ι)} (h : Lawful m (L ++ M)) : Lawful m L :=
  fun before e after hL => h before e (after ++ M) (by rw [hL]; simp)

/-- A lawful ledger stays so by an entry that is right after its latest admission. -/
theorem Lawful.snoc {e : Entry ι} (h : Lawful m L) (he : EntryOk m (latest L) e) :
    Lawful m (L ++ [e]) := by
  intro before e' after heq
  rcases List.eq_nil_or_concat' after with rfl | ⟨after', e'', rfl⟩
  · -- the new entry itself
    obtain ⟨rfl, hcons⟩ := List.append_inj' heq rfl
    obtain rfl : e = e' := by simpa using hcons
    exact he
  · -- an earlier one, whose past has not changed
    have heq' : L ++ [e] = (before ++ e' :: after') ++ [e''] := by simpa using heq
    obtain ⟨rfl, -⟩ := List.append_inj' heq' rfl
    exact h before e' after' rfl

/-- **Spacing.** The admissions since the latest reset are pairwise at least `m` apart. -/
theorem Lawful.spaced (h : Lawful m L) : Spaced m (sinceReset L) := by
  induction L using List.reverseRecOn with
  | nil => exact spaced_nil
  | append_singleton L e ih =>
    have hL := ih h.of_append
    have he := h L e [] rfl
    cases e with
    | accept i t =>
      rw [sinceReset_snoc_accept]
      exact spaced_snoc_iff.mpr ⟨hL, he⟩
    | discard i t => rwa [sinceReset_snoc_discard]
    | reset => exact sinceReset_snoc_reset L ▸ spaced_nil

/-- The admissions of a stretch without a reset are pairwise at least `m` apart. -/
theorem Lawful.spaced_stamps {before M after : List (Entry ι)}
    (h : Lawful m (before ++ M ++ after)) (hM : .reset ∉ M) : Spaced m (stamps M) := by
  have hspaced := h.of_append.spaced
  rw [sinceReset_append hM] at hspaced
  exact hspaced.sublist (List.sublist_append_right _ _)

/-- Two admissions with no reset between them are at least `m` apart. -/
theorem Lawful.add_le_of_accept {before between after : List (Entry ι)} {i j : ι} {t t' : ℕ}
    (h : Lawful m (before ++ [.accept i t] ++ between ++ [.accept j t'] ++ after))
    (hno : .reset ∉ between) : t + m ≤ t' := by
  have hno' : .reset ∉ [.accept i t] ++ between ++ [.accept j t'] := by simpa using hno
  have hspaced : Spaced m (stamps ([.accept i t] ++ between ++ [.accept j t'])) := by
    have hL : Lawful m (before ++ ([.accept i t] ++ between ++ [.accept j t']) ++ after) := by
      simpa using h
    exact hL.spaced_stamps hno'
  have hsplit : stamps ([.accept i t] ++ between ++ [.accept j t']) =
      t :: (stamps between ++ [t']) := by
    simp [stamps]
  rw [hsplit] at hspaced
  exact (List.pairwise_cons.mp hspaced).1 t' (by simp)

/-- **No crowding.** In a stretch without a reset, a half-open interval of length `len`
holds at most `len ⌈/⌉ m` admissions. -/
theorem Lawful.countP_stamps_le (hm : 0 < m) {before M after : List (Entry ι)}
    (h : Lawful m (before ++ M ++ after)) (hM : .reset ∉ M) (a len : ℕ) :
    (stamps M).countP (fun t => a ≤ t && t < a + len) ≤ len ⌈/⌉ m := by
  rw [List.countP_eq_length_filter]
  refine ((h.spaced_stamps hM).sublist List.filter_sublist).length_le_ceilDiv hm (a := a) ?_
  intro t ht
  simpa using (List.mem_filter.mp ht).2

/-- An admitted caller comes at least `m` after every admission since the latest reset. -/
theorem Lawful.add_le_of_mem {before after : List (Entry ι)} {i : ι} {t u : ℕ}
    (h : Lawful m (before ++ .accept i t :: after)) (hu : u ∈ sinceReset before) : u + m ≤ t := by
  have hpre : Lawful m (before ++ [.accept i t]) := by
    have hL : Lawful m (before ++ [.accept i t] ++ after) := by simpa using h
    exact hL.of_append
  have hspaced := hpre.spaced
  rw [sinceReset_snoc_accept] at hspaced
  exact (List.pairwise_append.mp hspaced).2.2 u hu t (by simp)

/-- A discarded caller comes less than `m` after some admission since the latest reset. -/
theorem Lawful.exists_of_discard {before after : List (Entry ι)} {i : ι} {t : ℕ}
    (h : Lawful m (before ++ .discard i t :: after)) :
    ∃ u ∈ sinceReset before, u ≤ t ∧ t < u + m := by
  obtain ⟨u, hlast, hle, hlt⟩ := h before (.discard i t) after rfl
  exact ⟨u, List.mem_of_getLast? hlast, hle, hlt⟩

end Timeline
