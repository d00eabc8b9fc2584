import RustUtils.Network.Stack

/-!
# How long a stack of retry layers takes

Any number of retry layers over any executor, each with a policy of its own and perhaps a token. An
observer below the stack notes when the executor is called and when it returns.

A call of the stack is a sequence of calls of the executor with sleeps between them, so the time it
takes is that of the executor and that of the sleeps. A layer sleeps between its attempts for at
most its cap each time, whatever delay a server asks for, and makes every attempt through the layers
below it. `sleepBudget` adds this up over the layers, and `stack_latency` is the induction.
-/

namespace RustUtils

/-- A retry layer: what a `RetryingClient` adds to its executor. -/
structure RetryLayer where
  policy : RetryPolicy
  cancel : Option CancellationToken

/-- Retry layers over an executor, the outermost first. -/
def retryLayers {σ : Type} (layers : List RetryLayer) (base : HttpExecutor σ) : HttpExecutor σ :=
  layers.foldr (fun layer inner => RetryingClient.execute ⟨inner, layer.policy, layer.cancel⟩) base

/-- Layers without tokens are a stack. -/
theorem retryLayers_map {σ : Type} (policies : List RetryPolicy) (base : HttpExecutor σ) :
    retryLayers (policies.map (⟨·, none⟩)) base = retryStack policies base := by
  rw [retryLayers, List.foldr_map]
  rfl

/-- The most that the layers can sleep in one call. -/
def sleepBudget : List RetryLayer → ℕ
  | [] => 0
  | layer :: layers =>
    layer.policy.maxAttempts.val * sleepBudget layers +
      (layer.policy.maxAttempts.val - 1) * layer.policy.maxBackoff.toNanos

variable {σ : Type}

/-- An executor whose calls are noted. -/
def HttpExecutor.observed (exec : HttpExecutor σ) :
    HttpExecutor (σ × List RetryingClient.Sent) := fun req =>
  Async.traced (exec req) fun w _ w' => [⟨req, w.now, w'.now⟩]

/-! ### What a call takes -/

/-- The observed call `o` is the call `r` made in `w`. It calls the executor below as listed, at
most `bound` times and one call after the other, and all sleeps together take at most `budget`. -/
structure Accounted (req : Request) (bound budget : ℕ) (w : World σ)
    (r : UtilsResult Response × World σ)
    (o : UtilsResult Response × World (σ × List RetryingClient.Sent))
    (log sent : List RetryingClient.Sent) : Prop where
  observed : o = (r.1, r.2.logging (log ++ sent))
  head : sent.head?.map (·.startedAt) = some w.now
  last : ∀ e ∈ sent.getLast?, e.finishedAt ≤ r.2.now
  isChain : sent.IsChain fun e e' => e.finishedAt ≤ e'.startedAt
  length_le : sent.length ≤ bound
  requests : ∀ e ∈ sent, e.request = req
  slept : r.2.now + (sent.map (·.startedAt)).sum ≤
    w.now + (sent.map (·.finishedAt)).sum + budget

/-- Every call of the executor is accounted for. -/
def Latent (bound budget : ℕ) (exec : HttpExecutor σ)
    (observed : HttpExecutor (σ × List RetryingClient.Sent)) : Prop :=
  ∀ req w log, ∃ sent,
    Accounted req bound budget w (exec req w) (observed req (w.logging log)) log sent

section

variable {req : Request} {bound bound' budget budget' : ℕ} {w w' : World σ}
  {r r' : UtilsResult Response × World σ}
  {o o' : UtilsResult Response × World (σ × List RetryingClient.Sent)}
  {log sent sent' : List RetryingClient.Sent}

private theorem Accounted.mono (h : Accounted req bound budget w r o log sent)
    (hbound : bound ≤ bound')
    (hbudget : budget ≤ budget') : Accounted req bound' budget' w r o log sent :=
  { h with
    length_le := h.length_le.trans hbound
    slept := h.slept.trans (Nat.add_le_add_left hbudget _) }

/-- A call, a sleep of at most `cap`, and another call. -/
private theorem Accounted.append {cap : ℕ} (h : Accounted req bound budget w r o log sent)
    (hle : r.2.now ≤ w'.now) (hcap : w'.now ≤ r.2.now + cap)
    (h' : Accounted req bound' budget' w' r' o' (log ++ sent) sent') :
    Accounted req (bound + bound') (budget + cap + budget') w r' o' log (sent ++ sent') where
  observed := by rw [h'.observed, List.append_assoc]
  head := by
    have hne : sent ≠ [] := fun hnil => by simpa [hnil] using h.head
    rw [List.head?_append_of_ne_nil _ hne, h.head]
  last := by
    have hne : sent' ≠ [] := fun hnil => by simpa [hnil] using h'.head
    rw [List.getLast?_append_of_ne_nil _ hne]
    exact h'.last
  isChain := by
    refine List.isChain_append.mpr ⟨h.isChain, h'.isChain, fun e he e' he' => ?_⟩
    have hstart : e'.startedAt = w'.now := by
      have hhead := h'.head
      rw [Option.mem_def.mp he'] at hhead
      exact Option.some_inj.mp hhead
    exact (h.last e he).trans (hle.trans hstart.ge)
  length_le := by
    rw [List.length_append]
    exact Nat.add_le_add h.length_le h'.length_le
  requests := fun e he => (List.mem_append.mp he).elim (h.requests e) (h'.requests e)
  slept := by
    have hfirst := h.slept
    have hsecond := h'.slept
    simp only [List.map_append, List.sum_append]
    omega

/-- A call and a sleep of at most `cap` that is cut short. -/
private theorem Accounted.cut {cap : ℕ} (h : Accounted req bound budget w r o log sent)
    (hle : r.2.now ≤ w'.now) (hcap : w'.now ≤ r.2.now + cap) :
    Accounted req bound (budget + cap) w (r.1, w') (r.1, w'.logging (log ++ sent)) log sent :=
  { h with
    observed := rfl
    last := fun e he => (h.last e he).trans hle
    slept := by
      have hslept := h.slept
      dsimp only
      omega }

end

/-- A call of the executor itself. -/
private theorem HttpExecutor.latent (exec : HttpExecutor σ) : Latent 1 0 exec exec.observed := by
  intro req w log
  refine ⟨[⟨req, w.now, (exec req w).2.now⟩], rfl, rfl, ?_, .singleton _, le_rfl, ?_, ?_⟩
  · simp
  · simp
  · simp [Nat.add_comm]

/-! ### One layer -/

section

variable {bound budget : ℕ} {inner : HttpExecutor σ}
  {inner' : HttpExecutor (σ × List RetryingClient.Sent)}

/-- The loop of a layer, with `n` further attempts to go. -/
private theorem Latent.calls (h : Latent bound budget inner inner') (layer : RetryLayer)
    (req : Request)
    (n k : ℕ) (w : World σ) (log : List RetryingClient.Sent) :
    ∃ sent, Accounted req ((n + 1) * bound)
      ((n + 1) * budget + n * layer.policy.maxBackoff.toNanos) w
      (RetryingClient.calls ⟨inner, layer.policy, layer.cancel⟩ req n k w)
      (RetryingClient.calls ⟨inner', layer.policy, layer.cancel⟩ req n k (w.logging log)) log
      sent := by
  induction n generalizing k w log with
  | zero =>
    obtain ⟨sent, hsent⟩ := h req w log
    exact ⟨sent, hsent.mono (by omega) (by omega)⟩
  | succ n ih =>
    obtain ⟨sent, hsent⟩ := h req w log
    let outer : RetryingClient σ := ⟨inner, layer.policy, layer.cancel⟩
    let outer' : RetryingClient (σ × List RetryingClient.Sent) :=
      ⟨inner', layer.policy, layer.cancel⟩
    have hbound : bound ≤ (n + 1 + 1) * bound := Nat.le_mul_of_pos_left _ (Nat.succ_pos _)
    have hbudget : budget ≤ (n + 1 + 1) * budget := Nat.le_mul_of_pos_left _ (Nat.succ_pos _)
    have hresult : (inner' req (w.logging log)).1 = (inner req w).1 :=
      congrArg Prod.fst hsent.observed
    rcases outer.settled_or_retry req w with hsettled | ⟨hretry, hclone⟩
    · have hsettled' : layer.policy.shouldRetry (inner' req (w.logging log)).1 req.method = false ∨
          req.tryClone = none := hresult ▸ hsettled
      rw [RetryingClient.calls_of_settled (c := outer) hsettled,
        RetryingClient.calls_of_settled (c := outer') hsettled']
      exact ⟨sent, hsent.mono hbound (hbudget.trans (Nat.le_add_right _ _))⟩
    · have hretry' : layer.policy.shouldRetry (inner' req (w.logging log)).1 req.method = true :=
        hresult ▸ hretry
      -- both layers sleep alike, for at most the cap
      have hsleep : outer'.sleepAfter k (outer'.inner req (w.logging log)) =
          ((outer.sleepAfter k (outer.inner req w)).1,
            (outer.sleepAfter k (outer.inner req w)).2.logging (log ++ sent)) :=
        congrArg (outer'.sleepAfter k) hsent.observed
      obtain ⟨hle, hcap⟩ := RetryingClient.sleepAfter_spec (c := outer) k (outer.inner req w)
      rw [RetryingClient.calls_of_retry (c := outer) hretry hclone,
        RetryingClient.calls_of_retry (c := outer') hretry' hclone, hsleep]
      dsimp only
      cases hslept : (outer.sleepAfter k (outer.inner req w)).1 with
      | false =>
        rw [if_neg Bool.false_ne_true, if_neg Bool.false_ne_true]
        have hsame : (outer'.inner req (w.logging log)).1 = (outer.inner req w).1 := hresult
        rw [hsame]
        refine ⟨sent, (hsent.cut hle hcap).mono hbound (Nat.add_le_add hbudget ?_)⟩
        exact Nat.le_mul_of_pos_left _ (Nat.succ_pos n)
      | true =>
        rw [if_pos rfl, if_pos rfl]
        obtain ⟨sent', hsent'⟩ :=
          ih (k + 1) (outer.sleepAfter k (outer.inner req w)).2 (log ++ sent)
        refine ⟨sent ++ sent', (hsent.append hle hcap hsent').mono ?_ ?_⟩
        · rw [Nat.succ_mul (n + 1), Nat.add_comm]
        · have hbudget' : (n + 1 + 1) * budget = (n + 1) * budget + budget := Nat.succ_mul _ _
          have hcaps : (n + 1) * layer.policy.maxBackoff.toNanos =
              n * layer.policy.maxBackoff.toNanos + layer.policy.maxBackoff.toNanos :=
            Nat.succ_mul _ _
          dsimp only [outer]
          omega

/-- **A layer** calls the executor as often as its attempts allow, and sleeps between them. -/
theorem Latent.layer (h : Latent bound budget inner inner') (layer : RetryLayer) :
    Latent (layer.policy.maxAttempts.val * bound)
      (layer.policy.maxAttempts.val * budget +
        (layer.policy.maxAttempts.val - 1) * layer.policy.maxBackoff.toNanos)
      (RetryingClient.execute ⟨inner, layer.policy, layer.cancel⟩)
      (RetryingClient.execute ⟨inner', layer.policy, layer.cancel⟩) := by
  intro req w log
  have hcalls := h.calls layer req (layer.policy.maxAttempts.val - 1) 1 w log
  rwa [Nat.sub_add_cancel layer.policy.maxAttempts.property.1] at hcalls

end

/-! ### The stack -/

private theorem latent_retryLayers (layers : List RetryLayer) (base : HttpExecutor σ) :
    Latent (layers.map (·.policy.maxAttempts.val)).prod (sleepBudget layers)
      (retryLayers layers base) (retryLayers layers base.observed) := by
  induction layers with
  | nil => exact base.latent
  | cons layer layers ih =>
    rw [List.map_cons, List.prod_cons, sleepBudget]
    exact ih.layer layer

/-- **How long a stack takes.** A call of retry layers over an executor, with any policies and
tokens, is the call of the executor made at least once and at most as often as the product of the
attempts, with the same request every time, the first one at once and every other one after the one
before it has returned. The time the call takes is at most what the executor takes for these calls
and `sleepBudget` more, whatever delays the responses ask for. -/
theorem stack_latency (layers : List RetryLayer) (base : HttpExecutor σ) (req : Request)
    (w : World σ) :
    let run := retryLayers layers base req w
    let observed := retryLayers layers base.observed req (w.logging [])
    let sent := observed.2.log
    observed.1 = run.1 ∧ observed.2.own = run.2 ∧
      1 ≤ sent.length ∧ sent.length ≤ (layers.map (·.policy.maxAttempts.val)).prod ∧
      (∀ e ∈ sent, e.request = req) ∧ sent.head?.map (·.startedAt) = some w.now ∧
      (sent.IsChain fun e e' => e.finishedAt ≤ e'.startedAt) ∧
      run.2.now + (sent.map (·.startedAt)).sum ≤
        w.now + (sent.map (·.finishedAt)).sum + sleepBudget layers := by
  obtain ⟨sent, hsent⟩ := latent_retryLayers layers base req w []
  dsimp only
  rw [hsent.observed, List.nil_append]
  refine ⟨rfl, rfl, ?_, hsent.length_le, hsent.requests, hsent.head, hsent.isChain, hsent.slept⟩
  refine List.length_pos_iff.mpr fun hnil => ?_
  have hhead := hsent.head
  rw [show sent = [] from hnil] at hhead
  contradiction

/-- A layer with a cap of `cap` nanoseconds. -/
def cappedLayer (attempts : NonZeroU32) (cap : ℕ) : RetryLayer where
  policy :=
    { RetryPolicy.default with maxAttempts := attempts, maxBackoff := Duration.fromNanos cap }
  cancel := none

/-- A server that answers after five nanoseconds, and asks for a second each time. -/
def busyServer : HttpExecutor Unit := fun _ w =>
  (.ok ⟨.serviceUnavailable, some [0x31]⟩, { w with now := w.now + 5 })

-- six calls, and all of the budget
example : (retryLayers [cappedLayer .three 2, cappedLayer ⟨2, by decide, by decide⟩ 3] busyServer
      ⟨.get, .empty⟩ ⟨0, 0, ()⟩).2.now = 6 * 5 + 13 ∧
    sleepBudget [cappedLayer .three 2, cappedLayer ⟨2, by decide, by decide⟩ 3] = 13 := by
  decide +kernel

end RustUtils
