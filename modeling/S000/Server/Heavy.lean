import S000.Foundations.Prog

/-!
# Server/Heavy — the limiter of heavy operations

`heavyOpLimiter` admits a heavy request through two channels that hold tokens: `slots`, whose capacity
is the number of workers plus the queue, and `workers`.  A counter under a lock of its own reports how
many requests are inside.  The three are updated one after another, so between any two updates of one
caller the others may run.

What one caller has in hand is read off the calls it has made (`Hand`), and `Tally` is the invariant:
each channel holds as many tokens as there are callers with that token in hand, and the counter is the
number of callers that are counted.  The program of a caller keeps to what its hand allows
(`heavyCaller_guarded`), and from the two follow the bounds, that a receive never waits, and that
nothing is left when all callers are done (`limiter_accounts`).
-/

namespace S000

open Machine List

/-! ## The limiter -/

/-- The atomic steps of the limiter's methods. -/
inductive LimiterCall where
  /-- The first select of `Acquire`: send to `slots`, or the default. -/
  | sendSlot
  /-- `adjustDepth`, one step under the lock. -/
  | adjustDepth (delta : ℤ)
  /-- The second select of `Acquire`: send to `workers`, or `ctx.Done()`. -/
  | awaitWorker
  /-- `<-l.workers` -/
  | receiveWorker
  /-- `<-l.slots` -/
  | receiveSlot
  deriving DecidableEq

/-- A select says which of its cases was taken. -/
abbrev LimiterCall.Val : LimiterCall → Type
  | .sendSlot => Bool
  | .awaitWorker => Bool
  | _ => Unit

abbrev limiterCalls : Interface := ⟨LimiterCall, LimiterCall.Val⟩

/-- The failures of `Acquire`. -/
inductive AcquireError where
  | serverOverloaded
  | contextDone
  deriving DecidableEq

def limiterStep (o : LimiterCall) : Prog limiterCalls o.Val := .call o .ret

/-- `heavyOpLimiter.Acquire`. -/
def acquire : Prog limiterCalls (Except AcquireError Unit) := do
  if !(← limiterStep .sendSlot) then
    return .error .serverOverloaded
  limiterStep (.adjustDepth 1)
  if ← limiterStep .awaitWorker then
    return .ok ()
  limiterStep .receiveSlot
  limiterStep (.adjustDepth (-1))
  return .error .contextDone

/-- `heavyOpLimiter.Release`. -/
def release : Prog limiterCalls Unit := do
  limiterStep .receiveWorker
  limiterStep .receiveSlot
  limiterStep (.adjustDepth (-1))

/-- `runHeavy` as the limiter sees it: one `Release` for a granted `Acquire`, none for a failed one. -/
def heavyCaller : Prog limiterCalls (Except AcquireError Unit) := do
  match ← acquire with
  | .error e => return .error e
  | .ok () =>
    release
    return .ok ()

/-- The tokens in the two channels, their capacities, and the counter. -/
structure Limiter where
  slots : ℕ
  slotCap : ℕ
  workers : ℕ
  workerCap : ℕ
  queueDepth : ℤ
  deriving DecidableEq, Repr

/-- `workers`, as `newHeavyOpLimiter` defaults it. -/
def heavyWorkers (workers : ℤ) : ℕ := if workers ≤ 0 then 4 else workers.toNat

/-- `queue`, as `newHeavyOpLimiter` defaults it. -/
def heavyQueue (queue : ℤ) : ℕ := if queue < 0 then 0 else queue.toNat

/-- `newHeavyOpLimiter`. -/
def newHeavyOpLimiter (workers queue : ℤ) : Limiter where
  slots := 0
  slotCap := heavyWorkers workers + heavyQueue queue
  workers := 0
  workerCap := heavyWorkers workers
  queueDepth := 0

/-- `heavyOpLimiter.adjustDepth`. -/
def Limiter.adjustDepth (l : Limiter) (delta : ℤ) : Limiter :=
  let queueDepth := l.queueDepth + delta
  { l with queueDepth := if queueDepth < 0 then 0 else queueDepth }

/-- One atomic step.  `granted` is the environment's choice in the second select: the send to
`workers`, or a context that is done. -/
def limiterMachine : Machine limiterCalls Bool Limiter where
  step l granted
    | .sendSlot => if l.slots < l.slotCap then (true, { l with slots := l.slots + 1 }) else (false, l)
    | .adjustDepth delta => ((), l.adjustDepth delta)
    | .awaitWorker => if granted then (true, { l with workers := l.workers + 1 }) else (false, l)
    | .receiveWorker => ((), { l with workers := l.workers - 1 })
    | .receiveSlot => ((), { l with slots := l.slots - 1 })

/-- **The steps that do not wait**: a send needs room in its channel, a receive needs a token. -/
def Ready (l : Limiter) (granted : Bool) : LimiterCall → Prop
  | .awaitWorker => granted = true → l.workers < l.workerCap
  | .receiveWorker => 0 < l.workers
  | .receiveSlot => 0 < l.slots
  | .sendSlot | .adjustDepth _ => True

instance (l : Limiter) (granted : Bool) : ∀ o, Decidable (Ready l granted o)
  | .awaitWorker => inferInstanceAs (Decidable (granted = true → _))
  | .receiveWorker => inferInstanceAs (Decidable (0 < _))
  | .receiveSlot => inferInstanceAs (Decidable (0 < _))
  | .sendSlot | .adjustDepth _ => isTrue trivial

abbrev LimiterEvent := Event limiterCalls Bool

abbrev LimiterPool := Pool limiterCalls Bool Limiter (Except AcquireError Unit)

/-- `n` callers in front of a new limiter. -/
def limiterPool (n : ℕ) (workers queue : ℤ) : LimiterPool :=
  ⟨replicate n heavyCaller, newHeavyOpLimiter workers queue, []⟩

/-- A turn is taken by a caller whose next step does not wait. -/
def TurnReady (x : LimiterPool) (_ : ℕ) (e : LimiterEvent) : Prop := Ready x.world e.fault e.op

instance (x : LimiterPool) (i : ℕ) (e : LimiterEvent) : Decidable (TurnReady x i e) :=
  inferInstanceAs (Decidable (Ready _ _ _))

/-! ## What a caller has in hand -/

/-- A slot, a worker, and one unit of the counter. -/
structure Hand where
  slot : Bool
  worker : Bool
  counted : Bool
  deriving DecidableEq, Repr

def Hand.empty : Hand := ⟨false, false, false⟩

/-- What a step puts into the hand of its caller, or takes from it. -/
def Hand.after (h : Hand) : (o : LimiterCall) → o.Val → Hand
  | .sendSlot, sent => if sent then { h with slot := true } else h
  | .adjustDepth delta, _ => { h with counted := 0 < delta }
  | .awaitWorker, granted => if granted then { h with worker := true } else h
  | .receiveWorker, _ => { h with worker := false }
  | .receiveSlot, _ => { h with slot := false }

/-- **What a caller has in hand** after some calls. -/
def hand (es : List LimiterEvent) : Hand := es.foldl (fun h e => h.after e.op e.val) .empty

theorem hand_concat (es : List LimiterEvent) (e : LimiterEvent) :
    hand (es ++ [e]) = (hand es).after e.op e.val := by
  unfold hand
  rw [foldl_append]
  rfl

/-- The steps that a hand allows: a caller takes what it does not have and gives back what it has. -/
def HandGuard (es : List LimiterEvent) : LimiterCall → Prop
  | .sendSlot => (hand es).slot = false
  | .adjustDepth delta =>
    (delta = 1 ∧ (hand es).counted = false) ∨ (delta = -1 ∧ (hand es).counted = true)
  | .awaitWorker => (hand es).worker = false
  | .receiveWorker => (hand es).worker = true
  | .receiveSlot => (hand es).slot = true

variable {es : List LimiterEvent}

/-- A step of a caller: its hand allows it, and the rest goes on with the hand that it leaves. -/
theorem limiterStep_guarded {Q : List LimiterEvent → α → Prop} {o : LimiterCall}
    {k : o.Val → Prog limiterCalls α} (ho : HandGuard es o)
    (hk : ∀ es' v, hand es' = (hand es).after o v → (k v).Guarded (fun _ _ => True) HandGuard Q es') :
    (limiterStep o >>= k).Guarded (fun _ _ => True) HandGuard Q es :=
  ⟨ho, fun _ v _ => hk _ v (hand_concat es _)⟩

/-- An `Acquire` that is granted has all three in hand, and **one that fails leaves none behind**. -/
theorem acquire_guarded (hes : hand es = .empty) :
    acquire.Guarded (fun _ _ => True) HandGuard (fun es result => match result with
      | .ok _ => hand es = ⟨true, true, true⟩
      | .error _ => hand es = .empty) es := by
  refine limiterStep_guarded (by rw [HandGuard, hes]; rfl) fun es₁ sent h₁ => ?_
  rw [hes] at h₁
  cases sent with
  | false => exact h₁
  | true =>
    refine limiterStep_guarded (.inl ⟨rfl, by rw [h₁]; rfl⟩) fun es₂ _ h₂ => ?_
    rw [h₁] at h₂
    refine limiterStep_guarded (by rw [HandGuard, h₂]; rfl) fun es₃ granted h₃ => ?_
    rw [h₂] at h₃
    cases granted with
    | true => exact h₃
    | false =>
      refine limiterStep_guarded (by rw [HandGuard, h₃]; rfl) fun es₄ _ h₄ => ?_
      rw [h₃] at h₄
      refine limiterStep_guarded (.inr ⟨rfl, by rw [h₄]; rfl⟩) fun es₅ _ h₅ => ?_
      rw [h₄] at h₅
      exact h₅

theorem release_guarded (hes : hand es = ⟨true, true, true⟩) :
    release.Guarded (fun _ _ => True) HandGuard (fun es _ => hand es = .empty) es := by
  refine limiterStep_guarded (by rw [HandGuard, hes]) fun es₁ _ h₁ => ?_
  rw [hes] at h₁
  refine limiterStep_guarded (by rw [HandGuard, h₁]; rfl) fun es₂ _ h₂ => ?_
  rw [h₁] at h₂
  refine ⟨.inr ⟨rfl, by rw [h₂]; rfl⟩, fun _ v _ => ?_⟩
  change hand _ = _
  rw [hand_concat, h₂]
  rfl

/-- **A caller keeps to its hand**, and has nothing in it when it is done, granted or not. -/
theorem heavyCaller_guarded : heavyCaller.Guarded (fun _ _ => True) HandGuard
    (fun es _ => hand es = .empty) ([] : List LimiterEvent) := by
  refine (acquire_guarded rfl).bind fun es result h => ?_
  cases result with
  | error e => exact h
  | ok u => exact (release_guarded h).bind fun es _ h => h

/-! ## The accounts -/

/-- The callers with a slot in hand, with a worker in hand, and those that are counted. -/
def slotHolders (n : ℕ) (events : List (ℕ × LimiterEvent)) : ℕ :=
  callers n (fun es => (hand es).slot) events

def workerHolders (n : ℕ) (events : List (ℕ × LimiterEvent)) : ℕ :=
  callers n (fun es => (hand es).worker) events

def countedCallers (n : ℕ) (events : List (ℕ × LimiterEvent)) : ℕ :=
  callers n (fun es => (hand es).counted) events

/-- **The accounts of the limiter**: every token of a channel is in the hand of one caller, the
counter counts the callers, and no channel holds more than its capacity. -/
structure Tally (n workers slots : ℕ) (l : Limiter) (events : List (ℕ × LimiterEvent)) : Prop where
  workerCap : l.workerCap = workers
  slotCap : l.slotCap = slots
  workers_eq : l.workers = workerHolders n events
  slots_eq : l.slots = slotHolders n events
  depth_eq : l.queueDepth = countedCallers n events
  workers_le : l.workers ≤ workers
  slots_le : l.slots ≤ slots

variable {n i : ℕ}

theorem callers_pos (x : LimiterPool) {p : List LimiterEvent → Bool} (hi : i < n)
    (h : p (eventsOf x i) = true) : 0 < callers n p x.events :=
  countP_pos_iff.2 ⟨i, mem_range.2 hi, h⟩

/-- How a step of caller `i` moves the three counts. -/
theorem holders_concat (x : LimiterPool) (hi : i < n) (e : LimiterEvent) :
    (slotHolders n (x.events ++ [(i, e)]) + (hand (eventsOf x i)).slot.toNat =
      slotHolders n x.events + ((hand (eventsOf x i)).after e.op e.val).slot.toNat) ∧
    (workerHolders n (x.events ++ [(i, e)]) + (hand (eventsOf x i)).worker.toNat =
      workerHolders n x.events + ((hand (eventsOf x i)).after e.op e.val).worker.toNat) ∧
    (countedCallers n (x.events ++ [(i, e)]) + (hand (eventsOf x i)).counted.toNat =
      countedCallers n x.events + ((hand (eventsOf x i)).after e.op e.val).counted.toNat) := by
  rw [← hand_concat]
  exact ⟨callers_concat x hi e, callers_concat x hi e, callers_concat x hi e⟩

/-- **One step keeps the accounts**, when it does not wait and the caller keeps to its hand. -/
theorem Tally.step {workers slots : ℕ} {x : LimiterPool} {granted : Bool} {o : LimiterCall}
    (hx : Tally n workers slots x.world x.events) (hi : i < n) (ho : HandGuard (eventsOf x i) o)
    (hready : Ready x.world granted o) :
    Tally n workers slots (limiterMachine.step x.world granted o).2
      (x.events ++ [(i, ⟨o, granted, (limiterMachine.step x.world granted o).1⟩)]) := by
  obtain ⟨hslot, hworker, hcounted⟩ := holders_concat x hi
    ⟨o, granted, (limiterMachine.step x.world granted o).1⟩
  obtain ⟨hworkerCap, hslotCap, hworkers, hslots, hdepth, hworkersLe, hslotsLe⟩ := hx
  cases o with
  | sendSlot =>
    rw [HandGuard] at ho
    by_cases hroom : x.world.slots < x.world.slotCap
    · simp only [limiterMachine, if_pos hroom, Hand.after, if_true, ho, Bool.toNat_false,
        Bool.toNat_true] at hslot hworker hcounted ⊢
      constructor <;> dsimp only <;> omega
    · simp only [limiterMachine, if_neg hroom, Hand.after, Bool.false_eq_true, if_false]
        at hslot hworker hcounted ⊢
      constructor <;> omega
  | adjustDepth delta =>
    simp only [limiterMachine, Hand.after, Limiter.adjustDepth] at hslot hworker hcounted ⊢
    rcases ho with ⟨rfl, ho⟩ | ⟨rfl, ho⟩
    · rw [ho] at hcounted
      simp only [Int.one_pos, decide_true, Bool.toNat_false, Bool.toNat_true] at hcounted
      constructor <;> dsimp only <;> omega
    · have hpos : 0 < countedCallers n x.events := callers_pos x hi ho
      rw [ho] at hcounted
      simp only [show ¬ (0 : ℤ) < -1 by decide, decide_false, Bool.toNat_false, Bool.toNat_true]
        at hcounted
      constructor <;> dsimp only <;> omega
  | awaitWorker =>
    rw [HandGuard] at ho
    cases granted with
    | true =>
      have hroom := hready rfl
      simp only [limiterMachine, Hand.after, if_true, ho, Bool.toNat_false, Bool.toNat_true]
        at hslot hworker hcounted ⊢
      constructor <;> dsimp only <;> omega
    | false =>
      simp only [limiterMachine, Hand.after, Bool.false_eq_true, if_false] at hslot hworker hcounted ⊢
      constructor <;> omega
  | receiveWorker =>
    have hpos : 0 < workerHolders n x.events := callers_pos x hi ho
    rw [HandGuard] at ho
    simp only [limiterMachine, Hand.after, ho, Bool.toNat_false, Bool.toNat_true]
      at hslot hworker hcounted ⊢
    constructor <;> dsimp only <;> omega
  | receiveSlot =>
    have hpos : 0 < slotHolders n x.events := callers_pos x hi ho
    rw [HandGuard] at ho
    simp only [limiterMachine, Hand.after, ho, Bool.toNat_false, Bool.toNat_true]
      at hslot hworker hcounted ⊢
    constructor <;> dsimp only <;> omega

theorem tally_new (n : ℕ) (workers queue : ℤ) :
    Tally n (heavyWorkers workers) (heavyWorkers workers + heavyQueue queue)
      (newHeavyOpLimiter workers queue) [] := by
  have hnone (p : List LimiterEvent → Bool) (hp : p [] = false) : callers n p [] = 0 :=
    countP_eq_zero.2 fun _ _ => by simp [hp]
  exact ⟨rfl, rfl, (hnone _ rfl).symm, (hnone _ rfl).symm, congrArg _ (hnone _ rfl).symm,
    Nat.zero_le _, Nat.zero_le _⟩

/-- **Every run keeps the accounts**, and every caller keeps to its hand. -/
theorem tally_runPool {workers queue : ℤ} {schedule : List (ℕ × Bool)}
    (hready : limiterMachine.Meets TurnReady (limiterPool n workers queue) schedule) :
    (∀ i (p : Prog limiterCalls (Except AcquireError Unit)),
      (limiterMachine.runPool (limiterPool n workers queue) schedule).threads[i]? = some p →
      p.Guarded (fun _ _ => True) (fun es o => i < n ∧ HandGuard es o) (fun es _ => hand es = .empty)
        (eventsOf (limiterMachine.runPool (limiterPool n workers queue) schedule) i)) ∧
    Tally n (heavyWorkers workers) (heavyWorkers workers + heavyQueue queue)
      (limiterMachine.runPool (limiterPool n workers queue) schedule).world
      (limiterMachine.runPool (limiterPool n workers queue) schedule).events := by
  refine runPool_of_guarded
    (fun x i granted o hx ho hready => ⟨trivial, hx.step ho.1 ho.2 hready⟩)
    (fun i p hp => ?_) (tally_new n workers queue) hready
  obtain ⟨hi, rfl⟩ := List.getElem?_eq_some_iff.1 hp
  rw [limiterPool, length_replicate] at hi
  rw [show (limiterPool n workers queue).threads[i] = heavyCaller from getElem_replicate _]
  exact heavyCaller_guarded.weaken (fun _ _ h => h) fun es o h => ⟨hi, h⟩

/-- **The limiter's accounts balance**, however the callers' steps are interleaved: no more callers than
there are workers hold one, no more than workers and queue are inside, no receive waits, a failed
`Acquire` leaves no token behind, the counter is the number of callers between their two updates, and
nothing is left when all are done. -/
theorem limiter_accounts (n : ℕ) (workers queue : ℤ) (schedule : List (ℕ × Bool))
    (hready : limiterMachine.Meets TurnReady (limiterPool n workers queue) schedule) :
    let x := limiterMachine.runPool (limiterPool n workers queue) schedule
    (x.world.workers = workerHolders n x.events ∧ workerHolders n x.events ≤ heavyWorkers workers) ∧
    (x.world.slots = slotHolders n x.events ∧
      slotHolders n x.events ≤ heavyWorkers workers + heavyQueue queue) ∧
    (∀ (i : ℕ) (o : LimiterCall) (k : o.Val → Prog limiterCalls (Except AcquireError Unit)),
      x.threads[i]? = some (.call o k) → o = .receiveWorker ∨ o = .receiveSlot →
        ∀ granted, Ready x.world granted o) ∧
    (∀ (i : ℕ) (e : AcquireError) (p : Prog limiterCalls (Except AcquireError Unit)),
      x.threads[i]? = some p → p.result? = some (.error e) → hand (eventsOf x i) = .empty) ∧
    (x.world.queueDepth = countedCallers n x.events ∧
      ∀ (i : ℕ) (delta : ℤ) (k : Unit → Prog limiterCalls (Except AcquireError Unit)),
        x.threads[i]? = some (.call (.adjustDepth delta) k) → 0 ≤ x.world.queueDepth + delta) ∧
    ((∀ p ∈ x.threads, p.result?.isSome) →
      x.world.slots = 0 ∧ x.world.workers = 0 ∧ x.world.queueDepth = 0) := by
  intro x
  obtain ⟨hcallers, htally⟩ := tally_runPool hready
  have hworkers : x.world.workers = workerHolders n x.events := htally.workers_eq
  have hslots : x.world.slots = slotHolders n x.events := htally.slots_eq
  have hdepth : x.world.queueDepth = countedCallers n x.events := htally.depth_eq
  refine ⟨⟨hworkers, hworkers ▸ htally.workers_le⟩, ⟨hslots, hslots ▸ htally.slots_le⟩,
    fun i o k hi ho granted => ?_, fun i e p hi he => ?_, ⟨hdepth, fun i delta k hi => ?_⟩,
    fun hdone => ?_⟩
  · -- the token that is received is in the hand of the caller that receives it
    obtain ⟨hin, hhand⟩ := (hcallers i _ hi).1
    rcases ho with rfl | rfl
    · exact hworkers.symm.le.trans_lt' (callers_pos x hin hhand)
    · exact hslots.symm.le.trans_lt' (callers_pos x hin hhand)
  · obtain ⟨a, rfl⟩ := Prog.eq_ret_of_result? (Option.isSome_of_eq_some he)
    exact hcallers i _ hi
  · obtain ⟨hin, ⟨rfl, -⟩ | ⟨rfl, hhand⟩⟩ := (hcallers i _ hi).1
    · omega
    · have hpos : 0 < countedCallers n x.events := callers_pos x hin hhand
      omega
  · have hempty (i : ℕ) (hi : i < n) : hand (eventsOf x i) = .empty := by
      have hlen : x.threads.length = n := length_runPool.trans length_replicate
      have hthread := getElem?_eq_getElem (hlen.symm ▸ hi)
      obtain ⟨a, ha⟩ := Prog.eq_ret_of_result? (hdone _ (mem_of_getElem? hthread))
      rw [ha] at hthread
      exact hcallers i _ hthread
    have hnone (p : Hand → Bool) (hp : p .empty = false) :
        callers n (fun es => p (hand es)) x.events = 0 :=
      countP_eq_zero.2 fun i hi => Bool.eq_false_iff.1
        ((congrArg p (hempty i (mem_range.1 hi))).trans hp)
    exact ⟨hslots.trans (hnone Hand.slot rfl), hworkers.trans (hnone Hand.worker rfl),
      hdepth.trans (congrArg _ (hnone Hand.counted rfl))⟩

/-- Three callers at one worker and one place in the queue: the third finds no slot, the second is
cancelled while it waits, and the first is granted its worker. -/
def heavyTurns : List (ℕ × Bool) :=
  [(0, true), (1, true), (1, true), (2, true), (0, true), (0, true), (1, false), (0, true), (1, true),
    (0, true), (1, true), (0, true)]

theorem limiter_accounts_three : limiterMachine.Meets TurnReady (limiterPool 3 1 1) heavyTurns ∧
    (limiterMachine.runPool (limiterPool 3 1 1) heavyTurns).threads.map Prog.result? =
      [some (.ok ()), some (.error .contextDone), some (.error .serverOverloaded)] ∧
    (limiterMachine.runPool (limiterPool 3 1 1) heavyTurns).world.slots = 0 ∧
    (limiterMachine.runPool (limiterPool 3 1 1) heavyTurns).world.workers = 0 ∧
    (limiterMachine.runPool (limiterPool 3 1 1) heavyTurns).world.queueDepth = 0 :=
  ⟨by decide, by rfl, (limiter_accounts 3 1 1 heavyTurns (by decide)).2.2.2.2.2 (by decide)⟩

end S000
