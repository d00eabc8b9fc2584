import RustUtils.Timeline.Admission

/-!
# Greedy selection

A gate that admits whoever comes at least `m` after the latest admission selects from the attempts
of its callers, one by one and without knowing the later ones. `Lawful.selection_ahead` says that
nothing is lost by that: any other selection from the same attempts that keeps them `m` apart is no
longer, and reaches its `k`th entry no earlier (`Ahead`).
-/

namespace Timeline

variable {ι : Type*} {m : ℕ}

/-! ### One timeline ahead of another -/

/-- `ts` is as long as `us` at least, and reaches each of its entries no later than `us`. -/
def Ahead (ts us : List ℕ) : Prop :=
  us.length ≤ ts.length ∧ ∀ (k : ℕ) t u, ts[k]? = some t → us[k]? = some u → t ≤ u

variable {ts us : List ℕ}

theorem Ahead.refl (ts : List ℕ) : Ahead ts ts :=
  ⟨Nat.le_refl _, fun _ _ _ ht hu => (Option.some_inj.mp (ht.symm.trans hu)).le⟩

theorem Ahead.snoc_left (h : Ahead ts us) (t : ℕ) : Ahead (ts ++ [t]) us := by
  refine ⟨h.1.trans (by simp), fun k a b ha hb => h.2 k a b ?_ hb⟩
  have hk : k < ts.length := (List.getElem?_eq_some_iff.mp hb).1.trans_le h.1
  rwa [List.getElem?_append_left hk] at ha

/-- A timeline that is longer and over by `u` stays ahead of an entry at `u`. -/
theorem Ahead.snoc_right {u : ℕ} (h : Ahead ts us) (hlength : us.length < ts.length)
    (hle : ∀ t ∈ ts, t ≤ u) : Ahead ts (us ++ [u]) := by
  refine ⟨by simpa using Nat.succ_le_of_lt hlength, fun k a b ha hb => ?_⟩
  rcases Nat.lt_or_ge k us.length with hk | hk
  · rw [List.getElem?_append_left hk] at hb
    exact h.2 k a b ha hb
  · have hb' : k - us.length < 1 := (List.getElem?_eq_some_iff.mp
      ((List.getElem?_append_right hk).symm.trans hb)).1
    obtain rfl : k = us.length := by omega
    obtain rfl : u = b := by simpa using hb
    exact hle a (List.mem_of_getElem? ha)

/-- What both begin with can be left out. -/
theorem Ahead.of_append {xs : List ℕ} (h : Ahead (xs ++ ts) (xs ++ us)) : Ahead ts us := by
  refine ⟨by simpa using h.1, fun k a b ha hb => h.2 (xs.length + k) a b ?_ ?_⟩
  · rwa [List.getElem?_append_right (Nat.le_add_right _ _), Nat.add_sub_cancel_left]
  · rwa [List.getElem?_append_right (Nat.le_add_right _ _), Nat.add_sub_cancel_left]

/-- Of two timelines of one length the one ahead is over first. -/
theorem Ahead.last_le {t u : ℕ} (h : Ahead ts us) (hlength : ts.length = us.length)
    (ht : ts.getLast? = some t) (hu : us.getLast? = some u) : t ≤ u := by
  rw [List.getLast?_eq_getElem?] at ht hu
  exact h.2 _ t u ht (hlength ▸ hu)

/-- The entries of a spaced timeline come no later than its last one. -/
theorem Spaced.le_last {t u : ℕ} (h : Spaced m ts) (hlast : ts.getLast? = some u) (ht : t ∈ ts) :
    t ≤ u := by
  obtain ⟨init, rfl⟩ := List.getLast?_eq_some_iff.mp hlast
  rcases List.mem_append.mp ht with hinit | htail
  · have hle := (List.pairwise_append.mp h).2.2 t hinit u (by simp)
    omega
  · exact (List.mem_singleton.mp htail).le

/-! ### The selection of a gate -/

/-- The times of the attempts of a stretch of the ledger, the admitted and the discarded ones. -/
def attempts (L : List (Entry ι)) : List ℕ :=
  L.filterMap fun
    | .accept _ t | .discard _ t => some t
    | .reset => none

variable {L M : List (Entry ι)}

theorem attempts_append : attempts (L ++ M) = attempts L ++ attempts M := List.filterMap_append

/-- What is admitted has been attempted. -/
theorem stamps_sublist_attempts : (stamps M).Sublist (attempts M) := by
  induction M with
  | nil => exact List.Sublist.slnil
  | cons e M ih =>
    cases e with
    | accept i t => exact ih.cons_cons t
    | discard i t => exact ih.cons t
    | reset => exact ih

/-- A selection from a list and one more entry takes that entry at its end, or not at all. -/
theorem sublist_snoc_cases {sel xs : List ℕ} {t : ℕ} (h : sel.Sublist (xs ++ [t])) :
    sel.Sublist xs ∨ ∃ init, sel = init ++ [t] ∧ init.Sublist xs := by
  obtain ⟨init, tail, rfl, hinit, htail⟩ := List.sublist_append_iff.mp h
  rcases List.sublist_singleton.mp htail with rfl | rfl
  · exact Or.inl (by simpa using hinit)
  · exact Or.inr ⟨init, rfl, hinit⟩

/-- An admission keeps the gate ahead, whether the other selection takes the attempt or not. -/
theorem Ahead.accept {t : ℕ} (h : Ahead ts us) (hspaced : Spaced m (ts ++ [t])) :
    Ahead (ts ++ [t]) us ∧ Ahead (ts ++ [t]) (us ++ [t]) := by
  refine ⟨h.snoc_left t, (h.snoc_left t).snoc_right ?_ fun s hs => ?_⟩
  · rw [List.length_append, List.length_singleton]
    exact Nat.lt_succ_of_le h.1
  · exact hspaced.le_last (by simp) hs

/-- An attempt that the gate discards leaves it ahead of a selection that takes it. -/
theorem Ahead.discard {t last : ℕ} (h : Ahead ts us) (hts : Spaced m ts)
    (hlast : ts.getLast? = some last) (hle : last ≤ t) (hrecent : t < last + m)
    (hspaced : Spaced m (us ++ [t])) : Ahead ts (us ++ [t]) := by
  refine h.snoc_right (Nat.lt_of_le_of_ne h.1 fun hlength => ?_) fun s hs =>
    (hts.le_last hlast hs).trans hle
  -- as long as the gate's own, the other selection has its last entry after the gate's
  have hne : us ≠ [] := by
    rintro rfl
    rw [List.length_eq_zero_iff.mp hlength.symm] at hlast
    simp at hlast
  have hbehind := h.last_le hlength.symm hlast (List.getLast?_eq_some_getLast hne)
  have happart := (spaced_snoc_iff.mp hspaced).2 _ (List.getLast?_eq_some_getLast hne)
  omega

/-- **Greedy stays ahead.** After any past, the admissions of a stretch without a reset are ahead of
every other selection from its attempts that would have kept the admissions `m` apart. -/
theorem Lawful.selection_ahead {before : List (Entry ι)} (h : Lawful m (before ++ M))
    (hreset : .reset ∉ M) {sel : List ℕ} (hsel : sel.Sublist (attempts M))
    (hspaced : Spaced m (sinceReset before ++ sel)) :
    Ahead (sinceReset (before ++ M)) (sinceReset before ++ sel) := by
  induction M using List.reverseRecOn generalizing sel with
  | nil =>
    obtain rfl : sel = [] := List.sublist_nil.mp hsel
    rw [List.append_nil, List.append_nil]
    exact Ahead.refl _
  | append_singleton M e ih =>
    have hM : .reset ∉ M := fun hmem => hreset (List.mem_append_left _ hmem)
    rw [← List.append_assoc] at h ⊢
    have hgate := h.of_append.spaced
    cases e with
    | accept i t =>
      have hall := h.spaced
      rw [sinceReset_snoc_accept] at hall ⊢
      rcases sublist_snoc_cases (attempts_append ▸ hsel) with hsub | ⟨init, rfl, hsub⟩
      · exact ((ih h.of_append hM hsub hspaced).accept hall).1
      · rw [← List.append_assoc] at hspaced ⊢
        exact ((ih h.of_append hM hsub (spaced_snoc_iff.mp hspaced).1).accept hall).2
    | discard i t =>
      obtain ⟨last, hlast, hle, hrecent⟩ := h (before ++ M) (.discard i t) [] (by simp)
      rw [sinceReset_snoc_discard]
      rcases sublist_snoc_cases (attempts_append ▸ hsel) with hsub | ⟨init, rfl, hsub⟩
      · exact ih h.of_append hM hsub hspaced
      · rw [← List.append_assoc] at hspaced ⊢
        exact (ih h.of_append hM hsub (spaced_snoc_iff.mp hspaced).1).discard hgate hlast hle
          hrecent hspaced
    | reset => exact absurd (by simp) hreset

end Timeline
