import Mathlib.Tactic.Common

/-!
# Resumptions

An async function as the tree of what it performs: it is done, or it performs an effect and goes on
with the answer. Resumptions are a monad, so a function is written down as in its source, and
`Resumption.interp` runs it in any monad that answers the effects. `Resumption.Reaches` says what is
left of a function after some effects and their answers, whoever has given them.

A `Monitor` watches the effects with a state of its own. `Resumption.Meets` is the weakest
precondition: from this state of the monitor on, the function performs allowed effects only and
returns with a postcondition, whatever the answers are. `meets_bind` and `Meets.mono` are the rules
for it, and `Meets.reaches` takes it along the effects that have been answered.
-/

namespace Transition

universe u v w x

/-- An async function with result `α` and effects `E`, which have answers `A`. -/
inductive Resumption (E : Type u) (A : E → Type v) (α : Type w) where
  | done (result : α)
  | await (e : E) (k : A e → Resumption E A α)

namespace Resumption

variable {E : Type u} {A : E → Type v}

/-! ### Sequencing -/

section

variable {α : Type w} {β : Type x}

/-- Go on with the result. -/
protected def bind : Resumption E A α → (α → Resumption E A β) → Resumption E A β
  | done result, f => f result
  | await e k, f => await e fun a => (k a).bind f

end

instance : Monad (Resumption.{u, v, w} E A) where
  pure := done
  bind := Resumption.bind

/-- Perform an effect, with its answer as the result. -/
def perform (e : E) : Resumption E A (A e) := await e done

/-- A function run in a monad that answers the effects. -/
def interp {m : Type v → Type x} [Monad m] (answers : ∀ e, m (A e)) {α : Type v} :
    Resumption E A α → m α
  | done result => pure result
  | await e k => answers e >>= fun a => (k a).interp answers

section

variable {m : Type v → Type x} [Monad m] (answers : ∀ e, m (A e)) {α β : Type v}

@[simp]
theorem interp_pure (a : α) : interp answers (pure a : Resumption E A α) = pure a := rfl

variable [LawfulMonad m]

@[simp]
theorem interp_perform (e : E) : interp answers (perform e) = answers e := bind_pure (answers e)

/-- **A sequence runs in sequence.** -/
@[simp]
theorem interp_bind (r : Resumption E A α) (f : α → Resumption E A β) :
    interp answers (r >>= f) = interp answers r >>= fun a => interp answers (f a) := by
  induction r with
  | done result => exact (pure_bind (m := m) result fun a => interp answers (f a)).symm
  | await e k ih =>
    calc interp answers (await e k >>= f)
        = answers e >>= fun a => interp answers (k a >>= f) := rfl
      _ = answers e >>= fun a => interp answers (k a) >>= fun b => interp answers (f b) :=
        congrArg (answers e >>= ·) (funext ih)
      _ = interp answers (await e k) >>= fun b => interp answers (f b) :=
        (bind_assoc (answers e) _ _).symm

end

/-! ### What is left of a function -/

section

variable {α : Type w}

/-- Effects with their answers, after which `r'` is left of a function. -/
inductive Reaches (r : Resumption E A α) : List (Sigma A) → Resumption E A α → Prop
  | refl : Reaches r [] r
  | snoc {p : List (Sigma A)} {e : E} {k : A e → Resumption E A α} (h : Reaches r p (await e k))
      (a : A e) : Reaches r (p ++ [⟨e, a⟩]) (k a)

end

/-! ### Monitors -/

/-- An observer of the effects, which may forbid them. -/
structure Monitor (E : Type u) (A : E → Type v) (S : Type x) where
  allows : S → E → Prop
  /-- The state after an effect with its answer. -/
  next : S → (e : E) → A e → S

variable {S : Type x} {M : Monitor E A S}

/-- The state after effects with their answers. -/
def Monitor.after (M : Monitor E A S) (s : S) (p : List (Sigma A)) : S :=
  p.foldl (fun s e => M.next s e.1 e.2) s

@[simp]
theorem Monitor.after_snoc (s : S) (p : List (Sigma A)) (e : Sigma A) :
    M.after s (p ++ [e]) = M.next (M.after s p) e.1 e.2 := by
  rw [after, List.foldl_append]
  rfl

section

variable {α : Type w}

/-- From this state on, the function performs allowed effects only, and returns with the
postcondition. -/
def Meets (M : Monitor E A S) (post : S → α → Prop) : Resumption E A α → S → Prop
  | done result, s => post s result
  | await e k, s => M.allows s e ∧ ∀ a, Meets M post (k a) (M.next s e a)

variable {post post' : S → α → Prop} {r r' : Resumption E A α} {s : S}

/-- **Consequence.** -/
theorem Meets.mono (h : r.Meets M post s) (hpost : ∀ s a, post s a → post' s a) :
    r.Meets M post' s := by
  induction r generalizing s with
  | done result => exact hpost s result h
  | await e k ih => exact ⟨h.1, fun a => ih a (h.2 a)⟩

/-- A precondition goes along with the effects that have been answered. -/
theorem Meets.reaches (h : r.Meets M post s) {p : List (Sigma A)} (hp : r.Reaches p r') :
    r'.Meets M post (M.after s p) := by
  induction hp with
  | refl => exact h
  | snoc hp a ih =>
    rw [Monitor.after_snoc]
    exact ih.2 a

/-- A function that meets a postcondition performs allowed effects only. -/
theorem Meets.forall_mem {P : Sigma A → Prop} (h : r.Meets M post s)
    (hP : ∀ s e, M.allows s e → ∀ a, P ⟨e, a⟩) {p : List (Sigma A)} (hp : r.Reaches p r') :
    ∀ e ∈ p, P e := by
  induction hp with
  | refl => exact fun e he => absurd he List.not_mem_nil
  | snoc hp a ih =>
    intro e he
    rcases List.mem_append.mp he with he | he
    · exact ih e he
    · obtain rfl := List.mem_singleton.mp he
      exact hP _ _ (h.reaches hp).1 a

/-- What every allowed effect preserves, every function that meets a postcondition does. -/
theorem Meets.invariant {I : S → Prop} (h : r.Meets M post s)
    (hI : ∀ s e a, I s → M.allows s e → I (M.next s e a)) (hs : I s) {p : List (Sigma A)}
    (hp : r.Reaches p r') : I (M.after s p) := by
  induction hp with
  | refl => exact hs
  | snoc hp a ih =>
    rw [Monitor.after_snoc]
    exact hI _ _ _ ih (h.reaches hp).1

end

section

variable {α β : Type w} {post : S → β → Prop} {s : S}

@[simp]
theorem meets_pure (b : β) : (pure b : Resumption E A β).Meets M post s ↔ post s b := Iff.rfl

/-- **Sequencing.** -/
@[simp]
theorem meets_bind (r : Resumption E A α) (f : α → Resumption E A β) :
    (r >>= f).Meets M post s ↔ r.Meets M (fun s a => (f a).Meets M post s) s := by
  induction r generalizing s with
  | done result => exact Iff.rfl
  | await e k ih => exact and_congr_right fun _ => forall_congr' fun a => ih a

end

@[simp]
theorem meets_perform {e : E} {post : S → A e → Prop} {s : S} :
    (perform e).Meets M post s ↔ M.allows s e ∧ ∀ a, post (M.next s e a) a := Iff.rfl

end Resumption

end Transition
