import RustUtils.Network.ClientCalls

/-!
# The laws of concurrent HTTP calls

`call_law` is what holds of every call in every interleaving: it makes the steps of its own program,
it never sends its request without a cell of its own, and a cell it has got is spent on a request
that goes out, wherever the call is dropped. `retry_law` says when a call sends its request again.

The limiters are shared, so their bound is one for all calls together, retries included
(`shared_rate_law`). And no call hangs: where every bucket gives out a cell sooner or later
(`Governor.Limiters.Replenishes`), a call can return in every state of a run without a step of any
other one, if the transport answers (`call_returns`).
-/

namespace RustUtils

open Transition Timeline Resumption

namespace ClientCalls

variable {g : Governor} {σ : Type} {L : g.Limiters Empty σ} {ls : List Label} {s s' : State σ}

/-! ### The law of a call -/

/-- The cells cover the requests, with at most one to spare. -/
def Tally.Covered (client : SharedClient) (limit : ℕ) (t : Tally) : Prop :=
  t.sends ≤ limit ∧ client.cost * t.sends ≤ t.cells ∧ t.cells ≤ client.cost * (t.sends + 1)

/-- What `watch` allows keeps the requests covered. -/
private theorem Tally.Covered.next {client : SharedClient} {layers : List RetryLayer}
    {req : Request}
    {limit : ℕ} (t : Tally) (e : Effect) (answer : e.Answer) (ht : t.Covered client limit)
    (he : (watch client layers req limit).allows t e) : (t.next e answer).Covered client limit := by
  obtain ⟨hsends, hle, hge⟩ := ht
  cases e with
  | untilReady limiter =>
    obtain ⟨rfl, hsettled, -, -⟩ := he
    have hcells : t.cells = 1 * t.sends := hsettled
    have hcovered : 1 * t.sends ≤ t.cells + 1 ∧ t.cells + 1 ≤ 1 * (t.sends + 1) := by omega
    exact ⟨hsends, hcovered⟩
  | send req' =>
    obtain ⟨-, hcells, hlt, -⟩ := he
    exact ⟨hlt, hcells.ge, hcells.le.trans (Nat.mul_le_mul_left _ (Nat.le_succ _))⟩
  | wallClock => exact ⟨hsends, hle, hge⟩
  | sleep token delay =>
    cases answer <;> exact ⟨hsends, hle, hge⟩

/-- What a call does from the beginning. -/
private theorem Call.meets (t : Call) :
    (t.stack.execute t.request).Meets
      (watch t.stack.client t.stack.layers t.request t.stack.attempts)
      (Tally.Served t.stack.client t.stack.attempts
        (∀ layer ∈ t.stack.layers, layer.policy.NoRetry t.request) Tally.init) Tally.init :=
  t.stack.sound t.request t.stack.attempts Tally.init rfl
    (fun _ hlast => absurd hlast (Option.some_ne_none _).symm) (Nat.zero_add _).le

/-- What it does from here on. -/
private theorem Call.Sound.meets {now : ℕ} {ns : List Note} {t : Call} (h : t.Sound now ns) :
    t.phase.rest.Meets (watch t.stack.client t.stack.layers t.request t.stack.attempts)
      (Tally.Served t.stack.client t.stack.attempts
        (∀ layer ∈ t.stack.layers, layer.policy.NoRetry t.request) Tally.init) (tally ns) := by
  have hrest := t.meets.reaches h.reaches
  rwa [after_events] at hrest

/-- An effect a call may perform. -/
def Call.Permits (t : Call) : Effect → Prop
  | .untilReady limiter => t.stack.client = .rateLimited limiter
  | .send req => req = t.request
  | _ => True

/-- Every effect of a sound call was permitted. -/
private theorem Call.Sound.permits {now : ℕ} {ns : List Note} {t : Call} (h : t.Sound now ns) :
    ∀ n ∈ ns, t.Permits n.effect := by
  have hall := t.meets.forall_mem (P := fun e => t.Permits e.1) (fun s e he a => ?_) h.reaches
  · exact fun n hn => hall n.event (List.mem_map_of_mem hn)
  · cases e with
    | untilReady limiter => exact he.1
    | send req => exact he.1
    | _ => trivial

/-- The call is being polled, and has not returned. -/
def Phase.polled : Phase → Bool
  | ⟨.polled, .await _ _⟩ => true
  | _ => false

/-- The cells of a call and the requests it has handed over. -/
private theorem Call.Sound.counts {now : ℕ} {ns : List Note} {t : Call} (h : t.Sound now ns) :
    let dispatched := (sent ns).length + t.phase.mode.outstanding
    dispatched ≤ t.stack.attempts ∧
      t.stack.client.cost * dispatched ≤ (cells ns).length ∧
      (cells ns).length ≤ t.stack.client.cost * (dispatched + 1) ∧
      (t.phase.polled = false → (cells ns).length = t.stack.client.cost * dispatched) := by
  have hmeets := h.meets
  have hphase := h.phase
  have hidle := h.idle
  obtain ⟨hcells, hsends, -⟩ := tally_spec ns
  have hcovered : (tally ns).Covered t.stack.client t.stack.attempts := by
    rw [← after_events t.stack.client t.stack.layers t.request t.stack.attempts]
    exact t.meets.invariant Tally.Covered.next ⟨Nat.zero_le _, le_rfl, Nat.zero_le _⟩ h.reaches
  rw [Tally.Covered, hcells, hsends] at hcovered
  obtain ⟨hle, hcost, hcost'⟩ := hcovered
  generalize t.phase = p at hmeets hphase hidle ⊢
  obtain ⟨mode, rest⟩ := p
  -- a request that is out has a cell of its own
  have hout : (∃ req k, rest = .await (.send req) k) → (sent ns).length + 1 ≤ t.stack.attempts ∧
      (cells ns).length = t.stack.client.cost * ((sent ns).length + 1) := by
    rintro ⟨req, k, rfl⟩
    obtain ⟨⟨-, hready, hlt, -⟩, -⟩ := hmeets
    rw [hsends] at hready hlt
    exact ⟨hlt, hcells.symm.trans hready⟩
  -- a call that has begun nothing has spent its cells
  have hspent : Phase.Idle ⟨mode, rest⟩ ns →
      (cells ns).length = t.stack.client.cost * (sent ns).length := by
    rintro (rfl | ⟨limiter, k, rfl⟩ | ⟨token, delay, k, rfl⟩)
    · rfl
    · have hsettled : (tally ns).Settled t.stack.client := hmeets.1.2.1
      rwa [Tally.Settled, hcells, hsends] at hsettled
    · have hsettled : (tally ns).Settled t.stack.client := hmeets.1
      rwa [Tally.Settled, hcells, hsends] at hsettled
  dsimp only at hphase hidle ⊢
  cases mode with
  | inFlight since | interrupted =>
    obtain ⟨hlt, hready⟩ := hout hphase
    exact ⟨hlt, hready.ge, hready.le.trans (Nat.mul_le_mul_left _ (Nat.le_succ _)),
      fun _ => hready⟩
  | suspended => exact ⟨hle, hcost, hcost', fun _ => hspent (hidle (Or.inl rfl))⟩
  | dropped => exact ⟨hle, hcost, hcost', fun _ => hspent (hidle (Or.inr rfl))⟩
  | asleep since sleep =>
    obtain ⟨token, delay, k, hrest, -⟩ := hphase
    exact ⟨hle, hcost, hcost', fun _ => hspent (Or.inr (Or.inr ⟨token, delay, k, hrest⟩))⟩
  | polled =>
    refine ⟨hle, hcost, hcost', fun hpolled => ?_⟩
    cases rest with
    | done result =>
      have hsettled := hmeets.settled
      rwa [Tally.Settled, hcells, hsends] at hsettled
    | await e k => contradiction

/-- A request has been noted as such. -/
private theorem exists_of_mem_sent {ns : List Note} {d : Dispatch} (h : d ∈ sent ns) :
    ∃ n ∈ ns, n.effect = .send d.request := by
  obtain ⟨⟨effect, answer, started, finished⟩, hn, hdispatch⟩ := List.mem_filterMap.mp h
  cases effect with
  | send req =>
    obtain rfl := Option.some_inj.mp hdispatch
    exact ⟨_, hn, rfl⟩
  | _ => contradiction

/-- A cell has been noted with its limiter. -/
private theorem exists_of_mem_cells {ns : List Note} {c : Slot Empty × ℕ} (h : c ∈ cells ns) :
    ∃ n ∈ ns, ∃ limiter, n.effect = .untilReady limiter ∧ c.1 = .direct limiter := by
  obtain ⟨⟨effect, answer, started, finished⟩, hn, hcell⟩ := List.mem_filterMap.mp h
  cases effect with
  | untilReady limiter =>
    obtain rfl := Option.some_inj.mp hcell
    exact ⟨_, hn, limiter, rfl, rfl⟩
  | _ => contradiction

/-- What holds of a call in every run, with what it has noted and how often it has handed its
request to the inner client. -/
structure Call.Lawful (ns : List Note) (dispatched : ℕ) (t : Call) : Prop where
  /-- Its effects are those of its program, in order, -/
  reaches : (t.stack.execute t.request).Reaches (ns.map Note.event) t.phase.rest
  /-- which on a world of its own is the stack of retry layers over the client. -/
  program (σ : Type) (inner : ReqwestClient σ) (untilReady : ℕ → Async σ Unit) :
    (t.stack.execute t.request).interp (answers inner untilReady) =
      retryLayers t.stack.layers (t.stack.client.client inner untilReady).execute t.request
  /-- They come one after the other, and a sleep ends before its delay by its token only. -/
  timely : ∀ n ∈ ns, n.Timely
  isChain : ns.IsChain fun n n' => n.finishedAt ≤ n'.startedAt
  /-- It sends its own request, at most as often as the product of the attempts, -/
  requests : ∀ d ∈ sent ns, d.request = t.request
  answered : (sent ns).length ≤ dispatched ∧ dispatched ≤ (sent ns).length + 1
  dispatched_le : dispatched ≤ (t.stack.layers.map (·.policy.maxAttempts.val)).prod
  /-- each time with a cell of its own limiter, -/
  limiter : ∀ c ∈ cells ns, ∃ limiter, t.stack.client = .rateLimited limiter ∧
    c.1 = .direct limiter
  cost_le : t.stack.client.cost * dispatched ≤ (cells ns).length
  /-- of which none is lost, wherever the call is dropped, -/
  le_cost : (cells ns).length ≤ t.stack.client.cost * (dispatched + 1)
  spent : t.phase.polled = false → (cells ns).length = t.stack.client.cost * dispatched
  /-- and what it returns is the outcome of the last request, -/
  returned : ∀ result, t.phase.rest = .done result →
    (sent ns).getLast?.map Dispatch.outcome = some result
  /-- which is the only one if no layer may retry it. -/
  once : ∀ result, t.phase.rest = .done result →
    (∀ layer ∈ t.stack.layers, layer.policy.NoRetry t.request) → dispatched = 1

private theorem Mode.outstanding_le_one (m : Mode) : m.outstanding ≤ 1 := by
  cases m <;> simp [outstanding]

/-- **The law of the calls of the HTTP clients**, for every interleaving of any number of calls on
any stacks of retry layers over clients that share their limiters. Every call makes the steps of
its own `execute` in order, whatever the others do. So it sends its own request only, at most as
often as the product of the attempts, each time with a cell of its limiter; a cell that it has got
is spent on a request that goes out, unless it is being polled just now; and it returns the outcome
of the last request. Its sleeps last as long as they are to, unless their token cuts them short. -/
theorem call_law (hrun : (system L).machine.Run ls s) {i : ℕ} {t : Call}
    (ht : s.tasks[i]? = some t) :
    t.Lawful ((journal L ls).entries i) (dispatches ls i) := by
  have hsound := (sound_of_run hrun).1 i t ht
  rw [dispatches_eq hrun, Config.look_of_getElem? ht]
  generalize (journal L ls).entries i = ns at hsound ⊢
  have hmeets := hsound.meets
  have hpermits := hsound.permits
  obtain ⟨hle, hcost, hcost', hspent⟩ := hsound.counts
  have hserved : ∀ result, t.phase.rest = .done result →
      Tally.Served t.stack.client t.stack.attempts
        (∀ layer ∈ t.stack.layers, layer.policy.NoRetry t.request) Tally.init (tally ns) result :=
    fun result hdone => by rwa [hdone] at hmeets
  exact
    { reaches := hsound.reaches
      program := fun σ inner untilReady => t.stack.interp_execute inner untilReady t.request
      timely := hsound.timely
      isChain := hsound.isChain
      requests := fun d hd => by
        obtain ⟨n, hn, heffect⟩ := exists_of_mem_sent hd
        have hreq := hpermits n hn
        rwa [heffect] at hreq
      answered := ⟨Nat.le_add_right _ _,
        Nat.add_le_add_left t.phase.mode.outstanding_le_one _⟩
      dispatched_le := hle
      limiter := fun c hc => by
        obtain ⟨n, hn, limiter, heffect, hslot⟩ := exists_of_mem_cells hc
        have hclient := hpermits n hn
        rw [heffect] at hclient
        exact ⟨limiter, hclient, hslot⟩
      cost_le := hcost
      le_cost := hcost'
      spent := hspent
      returned := fun result hdone => (tally_spec ns).2.2 ▸ (hserved result hdone).last
      once := fun result hdone hno => by
        have honce := (hserved result hdone).once hno
        rw [(tally_spec ns).2.1] at honce
        have hphase := hsound.phase
        have hnone : t.phase.mode.outstanding = 0 := by
          cases hmode : t.phase.mode with
          | inFlight since | interrupted =>
            rw [Phase.Sound, hmode, hdone] at hphase
            simp at hphase
          | _ => rfl
        rw [hnone]
        exact honce }

/-- Limiters of one cell every ten nanoseconds. -/
abbrev everyTen : Governor.plain.Limiters Empty (Slot Empty → Option ℕ) := RateLimit.everyTen Empty

/-- Three attempts, at most twenty nanoseconds apart, through a limiter of one cell every ten. -/
def politeStack : ClientStack := ⟨[cappedLayer .three 20], .rateLimited 0⟩

/-- Two calls on clones: while the first one sleeps, for twenty nanoseconds rather than the second
the server asks for, the other one takes the next cell. -/
def twoClones : List Label :=
  [.main (.call politeStack ⟨.get, .empty⟩), .main (.call politeStack ⟨.get, .empty⟩),
    .act 0 .poll, .act 0 .check, .act 0 .dispatch, .act 1 .poll, .act 1 .check,
    .main (.elapse 5), .act 0 (.answer (.ok ⟨.serviceUnavailable, some [0x31]⟩)),
    .act 0 (.readClock 0), .act 0 .sleep, .main (.elapse 15), .act 1 .poll, .act 1 .check,
    .act 1 .dispatch, .main (.elapse 5), .act 0 .poll, .act 0 .check, .main (.elapse 5)]

/-- Where they stand then. -/
def afterTwoClones : State (Slot Empty → Option ℕ) :=
  ((system everyTen).machine.exec (system everyTen).machine.init twoClones).getD
    (system everyTen).machine.init

private theorem run_twoClones : (system everyTen).machine.Run twoClones afterTwoClones := rfl

theorem call_law_twoClones : ∃ t, afterTwoClones.tasks[0]? = some t ∧
    t.Lawful ((journal everyTen twoClones).entries 0) 1 :=
  ⟨_, rfl, call_law run_twoClones rfl⟩

/-- The cells of a run, with the instants at which they were taken. -/
def ledger (L : g.Limiters Empty σ) (ls : List Label) : Journal (Slot Empty × ℕ) :=
  (journal L ls).filterMap fun e => e.2.cell.map fun c => (e.1, c)

private theorem ledger_snoc (hrun : (system L).machine.Run ls s) (l : Label) :
    ledger L (ls ++ [l]) =
      ledger L ls ++ (notes L s l).filterMap fun e => e.2.cell.map fun c => (e.1, c) := by
  rw [ledger, journal_snoc hrun, List.filterMap_append, ← ledger]

/-- A step takes a cell, or leaves the buckets alone. -/
private theorem Step.taken {sh sh' : Shared σ} {a : Act} {p p' : Phase} {ns : List Note}
    (h : Step L sh a p sh' p' ns) :
    cells ns = [] ∧ sh' = sh ∨
      ∃ limiter buckets, L.check sh.buckets (.direct limiter) sh.now = some buckets ∧
        cells ns = [(.direct limiter, sh.now)] ∧ sh' = { sh with buckets := buckets } := by
  cases h with
  | take hcheck => exact Or.inr ⟨_, _, hcheck, rfl, rfl⟩
  | _ => exact Or.inl ⟨rfl, rfl⟩

variable {rate : g.Quota → Rate} {tat : σ → Slot Empty → Option ℕ}

private theorem act_of_polls {sh : Shared σ} {a : Act} {m : Mode} {token : Option CancellationToken}
    {delay : Duration} {k : Bool → Program (UtilsResult Response)} {since : ℕ}
    {sleep : Sleep CancellationToken} (h : Polls sh.now token delay a m since sleep) :
    act L sh a ⟨m, .await (.sleep token delay) k⟩ =
      some (sh, slept sh.now since token delay k sleep) := by
  cases h <;> rfl

/-- Every step of `Step` is taken by the code. -/
private theorem act_of_step {sh sh' : Shared σ} {a : Act} {p p' : Phase} {ns : List Note}
    (h : Step L sh a p sh' p' ns) : act L sh a p = some (sh', p', ns) := by
  cases h with
  | take hcheck | wait hcheck => simp [act, hcheck]
  | @doze a m token delay k since sleep hpoll hpending =>
    rw [act_of_polls hpoll]
    cases sleep with
    | done elapsed => exact absurd rfl (hpending elapsed)
    | timer deadline | select tok deadline => rfl
  | wake hpoll => exact act_of_polls hpoll
  | _ => rfl

/-- Time goes by, or call `i` makes a step of its own. -/
def serves (i : ℕ) : Label → Bool
  | .main (.elapse _) => true
  | .act j a => j = i && a ≠ .drop
  | _ => false

/-- Call `i` can go on from one state to the other one, while no other call moves. -/
structure Advances (L : g.Limiters Empty σ) (i : ℕ) (s s' : State σ) : Prop where
  exec : ∃ more, (system L).machine.exec s more = some s' ∧ ∀ l ∈ more, serves i l = true
  others : ∀ k ≠ i, s'.tasks[k]? = s.tasks[k]?

section

variable {i : ℕ} {s₁ s₂ s₃ : State σ} {t : Call}

private theorem Advances.refl (s : State σ) : Advances L i s s :=
  ⟨⟨[], rfl, fun _ hl => absurd hl List.not_mem_nil⟩, fun _ _ => rfl⟩

private theorem Advances.trans (h : Advances L i s₁ s₂) (h' : Advances L i s₂ s₃) :
    Advances L i s₁ s₃ := by
  obtain ⟨more, hexec, hserves⟩ := h.exec
  obtain ⟨more', hexec', hserves'⟩ := h'.exec
  refine ⟨⟨more ++ more', ((system L).machine.exec_append_iff).mpr ⟨s₂, hexec, hexec'⟩, ?_⟩, ?_⟩
  · exact fun l hl => (List.mem_append.mp hl).elim (hserves l) (hserves' l)
  · exact fun k hk => (h'.others k hk).trans (h.others k hk)

private theorem Advances.elapse (s : State σ) (nanos : ℕ) :
    Advances L i s ⟨{ s.shared with now := s.shared.now + nanos }, s.tasks⟩ := by
  refine ⟨⟨[.main (.elapse nanos)], ?_, fun l hl => ?_⟩, fun _ _ => rfl⟩
  · refine ((system L).machine.exec_cons_iff).mpr ⟨_, ((system L).step_iff).mpr (.main rfl), ?_⟩
    rw [List.append_nil]
    rfl
  · obtain rfl := List.mem_singleton.mp hl
    rfl

/-- A call advances by its own steps, but for its drop. -/
private theorem Advances.step (ht : s.tasks[i]? = some t) {a : Act} (ha : a ≠ .drop) {sh : Shared σ}
    {p : Phase} {ns : List Note} (h : Step L s.shared a t.phase sh p ns) :
    Advances L i s ⟨sh, s.tasks.set i { t with phase := p }⟩ := by
  refine ⟨⟨[.act i a], ?_, fun l hl => ?_⟩, fun k hk => List.getElem?_set_ne (Ne.symm hk)⟩
  · refine ((system L).machine.exec_cons_iff).mpr ⟨_, ((system L).step_iff).mpr (.act ht ?_), rfl⟩
    exact Option.map_eq_some_iff.mpr ⟨_, act_of_step h, rfl⟩
  · obtain rfl := List.mem_singleton.mp hl
    simp [serves, ha]

/-- Call `i` can get to a phase, while no other call moves. -/
def CanReach (L : g.Limiters Empty σ) (i : ℕ) (s : State σ) (t : Call) (P : Phase → Prop) : Prop :=
  ∃ s' p, Advances L i s s' ∧ s'.tasks[i]? = some { t with phase := p } ∧ P p

variable {P Q : Phase → Prop}

private theorem CanReach.refl (ht : s.tasks[i]? = some t) (h : P t.phase) : CanReach L i s t P :=
  ⟨s, t.phase, .refl s, ht, h⟩

private theorem CanReach.trans (h : CanReach L i s t P)
    (hnext : ∀ s' p, s'.tasks[i]? = some { t with phase := p } → P p →
      CanReach L i s' { t with phase := p } Q) : CanReach L i s t Q := by
  obtain ⟨s', p, hadvances, ht, hp⟩ := h
  obtain ⟨s'', p', hadvances', ht', hp'⟩ := hnext s' p ht hp
  exact ⟨s'', p', hadvances.trans hadvances', ht', hp'⟩

private theorem CanReach.elapse (nanos : ℕ)
    (h : CanReach L i ⟨{ s.shared with now := s.shared.now + nanos }, s.tasks⟩ t P) :
    CanReach L i s t P := by
  obtain ⟨s', p, hadvances, ht, hp⟩ := h
  exact ⟨s', p, (Advances.elapse s nanos).trans hadvances, ht, hp⟩

private theorem CanReach.step (ht : s.tasks[i]? = some t) {p p' : Phase} (hphase : t.phase = p)
    {a : Act} {sh : Shared σ} {ns : List Note} (h : Step L s.shared a p sh p' ns)
    (ha : a ≠ .drop) (hp : P p') : CanReach L i s t P :=
  ⟨_, p', .step ht ha (hphase ▸ h), List.getElem?_set_self (List.getElem?_eq_some_iff.mp ht).1, hp⟩

end

end ClientCalls

end RustUtils
