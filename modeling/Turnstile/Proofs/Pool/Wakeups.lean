import Turnstile.Proofs.Pool.ExactlyOnce

/-!
Who wakes the workers that wait. While jobs are queued, as many threads as
there are jobs are about to look at the queue or about to notify a worker; and
in a pool that was closed, a worker waits only until a thread that closed it
has notified all of them.
-/

namespace Turnstile.Pool

def Stage.owesOne : Stage Question → Bool
  | .accepted _ | .notifying _ => true
  | _ => false

def Stage.owesAll : Stage Question → Bool
  | .closing _ => true
  | _ => false

def Stage.isJoining : Stage Question → Bool
  | .joining _ => true
  | _ => false

/-- The thread waits for workers to exit, which a worker must not do. -/
def Stage.awaitsWorkers : Stage Question → Bool
  | .awaiting _ | .joining _ => true
  | _ => false

def Worker.isAt (p : Stage Question → Bool) : Worker Question → Bool
  | .working stage => p stage
  | _ => false

theorem Stage.owesAll_iff {stage : Stage Question} :
    stage.owesAll = true ↔ ∃ next, stage = .closing next := by
  cases stage <;> simp [owesAll]

theorem Stage.isJoining_iff {stage : Stage Question} :
    stage.isJoining = true ↔ ∃ next, stage = .joining next := by
  cases stage <;> simp [isJoining]

theorem Worker.isAt_iff {p : Stage Question → Bool} {worker : Worker Question} :
    worker.isAt p = true ↔ ∃ stage, worker = .working stage ∧ p stage = true := by
  cases worker <;> simp [isAt]

def parked (pool : Pool Question) : Nat := pool.workers.countP Worker.isParked

def staff (p : Worker Question → Bool) (pool : Pool Question) : Nat := pool.workers.countP p

def working (p : Stage Question → Bool) (pool : Pool Question) : Nat :=
  pool.workers.countP (Worker.isAt p)

/-! How many workers wait, look at the queue, or stand somewhere in a job. -/

theorem Worker.isParked_iff {worker : Worker Question} :
    worker.isParked = true ↔ worker = .parked := by
  cases worker <;> simp [isParked]

@[simp] theorem Worker.isAt_woken (p : Stage Question → Bool) (worker : Worker Question) :
    worker.woken.isAt p = worker.isAt p := by
  cases worker <;> rfl

section Counts

variable {pool : Pool Question} {index : Nat} {old : Worker Question}

theorem parked_pos_iff : 0 < pool.parked ↔ .parked ∈ pool.workers := by
  unfold parked
  simp [List.countP_pos_iff, Worker.isParked_iff]

theorem parked_setWorker (new : Worker Question) (h : pool.workers[index]? = some old) :
    (pool.setWorker index new).parked + old.isParked.toNat =
      pool.parked + new.isParked.toNat :=
  countP_set Worker.isParked new h

theorem working_setWorker (p : Stage Question → Bool) (new : Worker Question)
    (h : pool.workers[index]? = some old) :
    (pool.setWorker index new).working p + (old.isAt p).toNat =
      pool.working p + (new.isAt p).toNat :=
  countP_set (Worker.isAt p) new h

theorem wake_of_parked (h : pool.workers[index]? = some .parked) :
    pool.wake index = pool.setWorker index .checking := by
  unfold wake setWorker
  rw [List.modify_eq_set_getElem?, h]
  rfl

theorem wake_of_not_parked (h : (pool.workers[index]?).any Worker.isParked = false) :
    pool.wake index = pool := by
  unfold wake
  rw [List.modify_eq_set_getElem?]
  cases hworker : pool.workers[index]? with
  | none => rfl
  | some worker =>
      obtain ⟨hindex, rfl⟩ := List.getElem?_eq_some_iff.mp hworker
      rw [hworker, Option.any_some] at h
      simp [Worker.woken_of_not_parked h]

theorem wake_cases (pool : Pool Question) (index : Nat) :
    pool.wake index = pool ∨
      pool.workers[index]? = some .parked ∧ pool.wake index = pool.setWorker index .checking := by
  cases hany : (pool.workers[index]?).any Worker.isParked with
  | false => exact .inl (wake_of_not_parked hany)
  | true =>
      obtain ⟨worker, hworker, hparked⟩ := (Option.any_eq_true _ _).mp hany
      cases Worker.isParked_iff.mp hparked
      exact .inr ⟨hworker, wake_of_parked hworker⟩

theorem staff_setWorker (p : Worker Question → Bool) (new : Worker Question)
    (h : pool.workers[index]? = some old) :
    (pool.setWorker index new).staff p + (p old).toNat = pool.staff p + (p new).toNat :=
  countP_set p new h

theorem staff_wake {p : Worker Question → Bool}
    (hwoken : ∀ worker : Worker Question, p worker.woken = p worker)
    (pool : Pool Question) (index : Nat) : (pool.wake index).staff p = pool.staff p := by
  rcases pool.wake_cases index with hsame | ⟨hparked, hset⟩
  · rw [hsame]
  · have hcount := staff_setWorker p .checking hparked
    rw [← hwoken .parked] at hcount
    rw [hset]
    exact Nat.add_right_cancel hcount

theorem staff_wakeAll {p : Worker Question → Bool}
    (hwoken : ∀ worker : Worker Question, p worker.woken = p worker)
    (pool : Pool Question) : pool.wakeAll.staff p = pool.staff p := by
  unfold staff wakeAll
  rw [List.countP_map]
  congr 1
  exact funext hwoken

theorem parked_wake (pool : Pool Question) (index : Nat) :
    (pool.wake index).parked ≤ pool.parked ∧
      (pool.wake index).parked + (pool.wake index).checks = pool.parked + pool.checks := by
  rcases pool.wake_cases index with hsame | ⟨hparked, hset⟩
  · rw [hsame]
    exact ⟨Nat.le_refl _, rfl⟩
  · have hone := parked_setWorker .checking hparked
    have htwo := checks_setWorker pool .checking hparked
    simp only [Worker.isParked, Worker.isChecking, Bool.toNat_true, Bool.toNat_false] at hone htwo
    rw [hset]
    omega

theorem parked_of_mayWake {chosen : Nat} (hmay : pool.mayWake chosen = true)
    (hparked : 0 < pool.parked) : pool.workers[chosen]? = some .parked := by
  have hany : pool.workers.any Worker.isParked = true :=
    List.any_eq_true.mpr ⟨_, parked_pos_iff.mp hparked, rfl⟩
  simp only [mayWake, hany, Bool.not_true, Bool.or_false, Option.any_eq_true] at hmay
  obtain ⟨worker, hworker, hwaits⟩ := hmay
  cases Worker.isParked_iff.mp hwaits
  exact hworker

theorem parked_wakeAll (pool : Pool Question) : pool.wakeAll.parked = 0 := by
  unfold parked wakeAll
  rw [List.countP_map, List.countP_eq_zero]
  intro worker _
  cases worker <;> exact Bool.false_ne_true

theorem checks_wakeAll (pool : Pool Question) :
    pool.wakeAll.checks = pool.parked + pool.checks := by
  unfold parked checks wakeAll
  simp only
  induction pool.workers with
  | nil => rfl
  | cons worker rest ih =>
      rw [List.map_cons, List.countP_cons, List.countP_cons, List.countP_cons, ih]
      cases worker <;> simp [Worker.woken, Worker.isParked, Worker.isChecking] <;> omega

theorem working_wake (p : Stage Question → Bool) (pool : Pool Question) (index : Nat) :
    (pool.wake index).working p = pool.working p :=
  staff_wake (Worker.isAt_woken p) pool index

end Counts

/-! Parts of a routine. -/

section Advance

variable {pool after : Pool Question} {seat : Seat} {chosen : Nat} {stage next : Stage Question}

theorem parked_advance (h : pool.advance? seat chosen stage = some (next, after)) :
    after.parked ≤ pool.parked ∧ after.parked + after.checks = pool.parked + pool.checks := by
  rcases workers_advance h with hsame | hwake | hwakeAll
  · rw [parked, checks, hsame]
    exact ⟨Nat.le_refl _, rfl⟩
  · have hcounts := pool.parked_wake chosen
    simp only [parked, checks, hwake] at hcounts ⊢
    exact hcounts
  · have hparked := pool.parked_wakeAll
    have hchecks := pool.checks_wakeAll
    simp only [parked, checks, hwakeAll] at hparked hchecks ⊢
    omega

theorem staff_advance {p : Worker Question → Bool}
    (hwoken : ∀ worker : Worker Question, p worker.woken = p worker)
    (h : pool.advance? seat chosen stage = some (next, after)) : after.staff p = pool.staff p := by
  unfold staff
  rcases workers_advance h with hsame | hwake | hwakeAll
  · rw [hsame]
  · rw [hwake]
    exact staff_wake hwoken pool chosen
  · rw [hwakeAll]
    exact staff_wakeAll hwoken pool

theorem working_advance (p : Stage Question → Bool)
    (h : pool.advance? seat chosen stage = some (next, after)) :
    after.working p = pool.working p :=
  staff_advance (Worker.isAt_woken p) h

/-- As long as a worker waits, a job that is queued adds a thread that owes a
notification, and a notification adds a worker that is about to look at the queue. -/
theorem attended_advance (h : pool.advance? seat chosen stage = some (next, after))
    (hparked : 0 < after.parked) :
    after.queue.length + stage.owesOne.toNat + pool.checks ≤
      pool.queue.length + next.owesOne.toNat + after.checks := by
  cases advance_of_some h with
  | enter _ =>
      rw [List.length_append]
      exact Nat.le_refl _
  | notify hmay =>
      have hwake := pool.parked_wake chosen
      have hchosen := parked_of_mayWake hmay (by omega)
      have hone : (pool.wake chosen).checks = pool.checks + 1 := by
        rw [wake_of_parked hchosen]
        exact checks_setWorker pool .checking hchosen
      change pool.queue.length + 1 + pool.checks ≤ pool.queue.length + 0 + (pool.wake chosen).checks
      omega
  | notifyAll _ => exact absurd hparked (parked_wakeAll pool ▸ Nat.lt_irrefl 0)
  | await _ => exact absurd hparked (parked_wakeAll pool ▸ Nat.lt_irrefl 0)
  | close _ _ => exact Nat.le_refl _
  | stop _ _ => exact Nat.le_refl _
  | refuse _ => exact Nat.le_refl _
  | observe => exact Nat.le_refl _
  | countAccepted => exact Nat.le_refl _
  | countRejected => exact Nat.le_refl _
  | hold _ => exact Nat.le_refl _
  | join _ _ => exact Nat.le_refl _

/-- Workers that still wait after a step do so in an open pool, or in one that a
thread has closed without having notified all of them. -/
theorem announced_advance (h : pool.advance? seat chosen stage = some (next, after))
    (hjoined : pool.unjoined = [] → pool.parked = 0) (hclosed : after.phase ≠ .running)
    (hparked : 0 < after.parked) :
    stage.owesAll = false ∧ (next.owesAll = true ∨ pool.phase ≠ .running) := by
  cases advance_of_some h with
  | close _ _ => exact ⟨rfl, .inl rfl⟩
  | notifyAll _ => exact absurd hparked (parked_wakeAll pool ▸ Nat.lt_irrefl 0)
  | await _ => exact absurd hparked (parked_wakeAll pool ▸ Nat.lt_irrefl 0)
  | stop hunjoined _ => exact absurd hparked (hjoined hunjoined ▸ Nat.lt_irrefl 0)
  | enter _ => exact ⟨rfl, .inr hclosed⟩
  | refuse _ => exact ⟨rfl, .inr hclosed⟩
  | observe => exact ⟨rfl, .inr hclosed⟩
  | countAccepted => exact ⟨rfl, .inr hclosed⟩
  | notify _ => exact ⟨rfl, .inr hclosed⟩
  | countRejected => exact ⟨rfl, .inr hclosed⟩
  | hold _ => exact ⟨rfl, .inr hclosed⟩
  | join _ _ => exact ⟨rfl, .inr hclosed⟩

theorem awaitsWorkers_advance (h : pool.advance? .worker chosen stage = some (next, after))
    (hstage : stage.awaitsWorkers = false) :
    next.awaitsWorkers = false ∧ after.joinHeld = pool.joinHeld := by
  cases advance_of_some h with
  | await hseat => cases hseat
  | hold _ => cases hstage
  | join _ _ => cases hstage
  | stop _ _ => cases hstage
  | enter _ => exact ⟨rfl, rfl⟩
  | refuse _ => exact ⟨rfl, rfl⟩
  | close _ _ => exact ⟨rfl, rfl⟩
  | observe => exact ⟨rfl, rfl⟩
  | countAccepted => exact ⟨rfl, rfl⟩
  | notify _ => exact ⟨rfl, rfl⟩
  | countRejected => exact ⟨rfl, rfl⟩
  | notifyAll _ => exact ⟨rfl, rfl⟩

theorem joinHeld_advance (h : pool.advance? seat chosen stage = some (next, after))
    (hheld : stage.isJoining = true → pool.joinHeld = true) :
    after.joinHeld.toNat + stage.isJoining.toNat =
      pool.joinHeld.toNat + next.isJoining.toNat := by
  cases advance_of_some h with
  | hold hfree =>
      rw [hfree]
      rfl
  | stop _ _ =>
      rw [hheld rfl]
      rfl
  | enter _ => rfl
  | refuse _ => rfl
  | close _ _ => rfl
  | observe => rfl
  | countAccepted => rfl
  | notify _ => rfl
  | countRejected => rfl
  | notifyAll _ => rfl
  | await _ => rfl
  | join _ _ => rfl

theorem unjoined_advance (h : pool.advance? seat chosen stage = some (next, after)) :
    after.unjoined ⊆ pool.unjoined := by
  cases advance_of_some h with
  | join hunjoined _ => exact hunjoined ▸ List.subset_cons_self ..
  | enter _ => exact List.Subset.refl _
  | refuse _ => exact List.Subset.refl _
  | close _ _ => exact List.Subset.refl _
  | observe => exact List.Subset.refl _
  | countAccepted => exact List.Subset.refl _
  | notify _ => exact List.Subset.refl _
  | countRejected => exact List.Subset.refl _
  | notifyAll _ => exact List.Subset.refl _
  | await _ => exact List.Subset.refl _
  | hold _ => exact List.Subset.refl _
  | stop _ _ => exact List.Subset.refl _

end Advance

/-! Steps of workers. -/

section Serve

variable {pool left : Pool Question} {chosen index : Nat} {old new : Worker Question}

theorem working_serve (p : Stage Question → Bool)
    (h : Serve pool chosen index old new left) : left.working p = pool.working p := by
  cases h with
  | goOn hadvance => exact working_advance p hadvance
  | @count ending => cases ending <;> rfl
  | take _ => rfl
  | park _ _ => rfl
  | leave _ _ => rfl
  | begin => rfl
  | finish => rfl

theorem unjoined_serve (h : Serve pool chosen index old new left) :
    left.unjoined ⊆ pool.unjoined := by
  cases h with
  | goOn hadvance => exact unjoined_advance hadvance
  | @count ending => cases ending <;> exact List.Subset.refl _
  | take _ => exact List.Subset.refl _
  | park _ _ => exact List.Subset.refl _
  | leave _ _ => exact List.Subset.refl _
  | begin => exact List.Subset.refl _
  | finish => exact List.Subset.refl _

theorem awaitsWorkers_serve (h : Serve pool chosen index old new left)
    (hold : old.isAt Stage.awaitsWorkers = false) :
    new.isAt Stage.awaitsWorkers = false ∧ left.joinHeld = pool.joinHeld := by
  cases h with
  | goOn hadvance => exact awaitsWorkers_advance hadvance hold
  | @count ending => cases ending <;> exact ⟨rfl, rfl⟩
  | take _ => exact ⟨rfl, rfl⟩
  | park _ _ => exact ⟨rfl, rfl⟩
  | leave _ _ => exact ⟨rfl, rfl⟩
  | begin => exact ⟨rfl, rfl⟩
  | finish => exact ⟨rfl, rfl⟩

end Serve

/-- What keeps workers from waiting for good, where `one` threads owe a
notification to one worker and `all` threads owe it to all. -/
structure Lively (pool : Pool Question) (one all : Nat) : Prop where
  attended : 0 < pool.parked → pool.queue.length ≤ one + pool.checks
  announced : pool.phase ≠ .running → 0 < pool.parked → 0 < all

namespace Lively

variable {pool after left : Pool Question} {one all laterOne laterAll chosen index : Nat}
  {seat : Seat} {stage next : Stage Question} {old new : Worker Question}

theorem advance (h : Lively pool one all)
    (hadvance : pool.advance? seat chosen stage = some (next, after))
    (hjoined : pool.unjoined = [] → pool.parked = 0)
    (hone : laterOne + stage.owesOne.toNat = one + next.owesOne.toNat)
    (hall : laterAll + stage.owesAll.toNat = all + next.owesAll.toNat) :
    Lively after laterOne laterAll where
  attended := by
    intro hparked
    have hfewer := (parked_advance hadvance).1
    have hqueue := h.attended (Nat.lt_of_lt_of_le hparked hfewer)
    have hpaid := attended_advance hadvance hparked
    omega
  announced := by
    intro hclosed hparked
    have hfewer := (parked_advance hadvance).1
    obtain ⟨hstage, hnext | hbefore⟩ := announced_advance hadvance hjoined hclosed hparked
    · rw [hstage, hnext, Bool.toNat_true, Bool.toNat_false] at hall
      omega
    · have hpos := h.announced hbefore (Nat.lt_of_lt_of_le hparked hfewer)
      rw [hstage, Bool.toNat_false] at hall
      omega

theorem setWorker (h : Lively pool one all) (hold : pool.workers[index]? = some old)
    (hold_parked : old.isParked = false) (hnew_parked : new.isParked = false)
    (hlooks : old.isChecking.toNat ≤ new.isChecking.toNat) :
    Lively (pool.setWorker index new) one all := by
  have hparked := parked_setWorker new hold
  have hchecks := checks_setWorker pool new hold
  rw [hold_parked, hnew_parked] at hparked
  constructor
  · intro hwaits
    have hqueue := h.attended (by omega)
    change pool.queue.length ≤ _
    omega
  · intro hclosed hwaits
    exact h.announced hclosed (by omega)

theorem serve (h : Lively pool one all) (hserve : Serve pool chosen index old new left)
    (hold : pool.workers[index]? = some old) (hjoined : pool.unjoined = [] → pool.parked = 0)
    (hone : laterOne + (old.isAt Stage.owesOne).toNat = one + (new.isAt Stage.owesOne).toNat)
    (hall : laterAll + (old.isAt Stage.owesAll).toNat = all + (new.isAt Stage.owesAll).toNat) :
    Lively (left.setWorker index new) laterOne laterAll := by
  have hkept := getElem?_workers_serve hserve hold
  cases hserve with
  | goOn hadvance =>
      exact (h.advance hadvance hjoined hone hall).setWorker hkept rfl rfl (Nat.le_refl _)
  | begin =>
      cases hone
      cases hall
      have hentered : Lively pool.enterJob one all := ⟨h.attended, h.announced⟩
      exact hentered.setWorker hkept rfl rfl (Nat.le_refl _)
  | finish =>
      cases hone
      cases hall
      have hleft : Lively pool.leaveJob one all := ⟨h.attended, h.announced⟩
      exact hleft.setWorker hkept rfl rfl (Nat.le_refl _)
  | @count ending =>
      cases hone
      cases hall
      have hcounted : Lively (pool.countEnding index ending) one all := by
        cases ending <;> exact ⟨h.attended, h.announced⟩
      exact hcounted.setWorker hkept rfl rfl (Nat.zero_le _)
  | @take job rest hqueue =>
      cases hone
      cases hall
      have hparked := parked_setWorker (.fetched job) hkept
      have hchecks := checks_setWorker _ (.fetched job) hkept
      change _ = pool.parked at hparked
      change _ + 1 = pool.checks at hchecks
      have hlength : pool.queue.length = rest.length + 1 := congrArg List.length hqueue
      constructor
      · intro hwaits
        have hattended := h.attended (hparked ▸ hwaits)
        change rest.length ≤ _
        omega
      · intro hclosed hwaits
        exact h.announced hclosed (hparked ▸ hwaits)
  | park hempty hopen =>
      constructor
      · intro _
        change pool.queue.length ≤ _
        rw [hempty]
        exact Nat.zero_le _
      · intro hclosed
        exact absurd hopen hclosed
  | leave hempty _ =>
      cases hone
      cases hall
      have hparked := parked_setWorker .exited hkept
      change _ = pool.parked at hparked
      constructor
      · intro _
        change pool.queue.length ≤ _
        rw [hempty]
        exact Nat.zero_le _
      · intro hclosed hwaits
        exact h.announced hclosed (hparked ▸ hwaits)

theorem wake (h : Lively pool one all) (index : Nat) : Lively (pool.wake index) one all := by
  obtain ⟨hfewer, hsum⟩ := pool.parked_wake index
  constructor
  · intro hparked
    have hqueue := h.attended (Nat.lt_of_lt_of_le hparked hfewer)
    change pool.queue.length ≤ _
    omega
  · intro hclosed hparked
    exact h.announced hclosed (Nat.lt_of_lt_of_le hparked hfewer)

end Lively

/-! Steps of a system. -/

namespace System

def threads (p : Stage Question → Bool) (system : System Question) : Nat :=
  system.callers.countP p + system.pool.working p

section Threads

variable {system : System Question} {index chosen : Nat}

theorem threads_setWorker (p : Stage Question → Bool) {left : Pool Question}
    {old : Worker Question} (new : Worker Question) (hleft : left.working p = system.pool.working p)
    (hold : left.workers[index]? = some old) :
    threads p { system with pool := left.setWorker index new } + (old.isAt p).toNat =
      system.threads p + (new.isAt p).toNat := by
  have hcount := working_setWorker p new hold
  simp only [threads]
  omega

theorem threads_setCaller (p : Stage Question → Bool) {pool : Pool Question}
    {old : Stage Question} (new : Stage Question) (hpool : pool.working p = system.pool.working p)
    (hold : system.callers[index]? = some old) :
    threads p ({ system with pool }.setCaller index new) + (p old).toNat =
      system.threads p + (p new).toNat := by
  have hcount := countP_set p new hold
  simp only [threads, setCaller]
  omega

end Threads

structure Supervised (config : PoolConfig) (system : System Question) : Prop where
  lively : Lively system.pool (system.threads Stage.owesOne) (system.threads Stage.owesAll)
  seated : system.pool.working Stage.awaitsWorkers = 0
  held : system.callers.countP Stage.isJoining = system.pool.joinHeld.toNat
  unjoined_lt : ∀ index ∈ system.pool.unjoined, index < config.workers

namespace Supervised

variable {config : PoolConfig} {system after : System Question}

theorem start (config : PoolConfig) : Supervised config (start config : System Question) where
  lively := by
    have hnone : (System.start config : System Question).pool.parked = 0 := by
      simp [System.start, Pool.start, parked, List.countP_replicate, Worker.isParked]
    constructor <;> simp [hnone]
  seated := by simp [System.start, Pool.start, working, List.countP_replicate, Worker.isAt]
  held := rfl
  unjoined_lt := fun _ hmem => List.mem_range.mp hmem

theorem not_awaiting {index : Nat} {worker : Worker Question} (h : Supervised config system)
    (hworker : system.pool.workers[index]? = some worker) :
    worker.isAt Stage.awaitsWorkers = false :=
  Bool.eq_false_iff.mpr (List.countP_eq_zero.mp h.seated worker (List.mem_of_getElem? hworker))

theorem joinHeld_of_joining {index : Nat} {stage : Stage Question} (h : Supervised config system)
    (hstage : system.callers[index]? = some stage) (hjoining : stage.isJoining = true) :
    system.pool.joinHeld = true := by
  have hpos := List.countP_pos_iff.mpr ⟨stage, List.mem_of_getElem? hstage, hjoining⟩
  rw [h.held] at hpos
  cases hfree : system.pool.joinHeld with
  | true => rfl
  | false =>
      rw [hfree] at hpos
      cases hpos

theorem transition {move : Move Question} (h : Supervised config system)
    (hjoined : system.pool.unjoined = [] → system.pool.parked = 0)
    (htransition : Transition system move after) : Supervised config after := by
  cases htransition with
  | @call routine =>
      have hsame (p : Stage Question → Bool) (hready : p (.ready routine) = false) :
          (system.callers ++ [Stage.ready routine]).countP p = system.callers.countP p := by
        simp [List.countP_append, hready]
      exact { h with
        lively := by
          simp only [System.call, threads, hsame Stage.owesOne rfl, hsame Stage.owesAll rfl]
          exact h.lively
        held := (hsame Stage.isJoining rfl).trans h.held }
  | @serve _ index old new left hold hserve =>
      have hkept := getElem?_workers_serve hserve hold
      have hthreads (p : Stage Question → Bool) := threads_setWorker p new
        (working_serve p hserve) hkept
      obtain ⟨hnew, hheld⟩ := awaitsWorkers_serve hserve (h.not_awaiting hold)
      exact {
        lively := h.lively.serve hserve hold hjoined (hthreads _) (hthreads _)
        seated := by
          have hcount := working_setWorker Stage.awaitsWorkers new hkept
          rw [hnew, working_serve _ hserve, h.seated] at hcount
          exact Nat.eq_zero_of_add_eq_zero_right hcount
        held := h.held.trans (congrArg Bool.toNat hheld.symm)
        unjoined_lt := fun index hmem => h.unjoined_lt index (unjoined_serve hserve hmem) }
  | @hearWorker index question next answer hold =>
      have hlively : Lively (system.pool.setWorker index (.working (.ready (next answer)))) _ _ :=
        h.lively.setWorker hold rfl rfl (Nat.le_refl _)
      have hthreads (p : Stage Question → Bool) := threads_setWorker p
        (.working (.ready (next answer))) rfl hold
      exact { h with
        lively := by
          rw [Nat.add_right_cancel (hthreads Stage.owesOne),
            Nat.add_right_cancel (hthreads Stage.owesAll)]
          exact hlively
        seated := by
          have hcount := working_setWorker Stage.awaitsWorkers
            (.working (.ready (next answer))) hold
          exact hcount.trans h.seated }
  | @advance _ index stage next pool hstage hadvance =>
      have hthreads (p : Stage Question → Bool) := threads_setCaller p next
        (working_advance p hadvance) hstage
      exact {
        lively := h.lively.advance hadvance hjoined (hthreads _) (hthreads _)
        seated := (working_advance _ hadvance).trans h.seated
        held := by
          have hcount := countP_set Stage.isJoining next hstage
          have hright := joinHeld_advance hadvance (h.joinHeld_of_joining hstage)
          have hheld := h.held
          simp only [setCaller]
          omega
        unjoined_lt := fun index hmem => h.unjoined_lt index (unjoined_advance hadvance hmem) }
  | @hearCaller index question next answer hstage =>
      have hthreads (p : Stage Question → Bool) := threads_setCaller p
        (.ready (next answer)) (rfl : system.pool.working p = system.pool.working p) hstage
      exact { h with
        lively := by
          rw [Nat.add_right_cancel (hthreads Stage.owesOne),
            Nat.add_right_cancel (hthreads Stage.owesAll)]
          exact h.lively
        held := (countP_set Stage.isJoining (.ready (next answer)) hstage).trans h.held }
  | @wake index =>
      exact { h with
        lively := by
          simp only [threads, working_wake]
          exact h.lively.wake index
        seated := (system.pool.working_wake _ index).trans h.seated }

end Supervised

theorem parked_eq_zero_of_joined {config : PoolConfig} {pool : Pool Question}
    {ledger : Ledger Question} (h : Orderly config pool ledger) (hjoined : pool.unjoined = []) :
    pool.parked = 0 := by
  apply List.countP_eq_zero.mpr
  intro worker hmem hparked
  cases Worker.isParked_iff.mp hparked
  cases h.hand_eq_gone hjoined _ (List.mem_map_of_mem hmem)

theorem supervised_of_run {config : PoolConfig} {moves : List (Move Question)}
    {last : System Question} (hrun : (start config).run? moves = some last) :
    Supervised config last := by
  have hkept (before : System Question) (move : Move Question) (after : System Question)
      (seen : Ledger Question)
      (h : Orderly config before.pool seen ∧ Supervised config before)
      (hstep : step? before move = some after) :
      Orderly config after.pool (note before move seen) ∧ Supervised config after :=
    ⟨h.1.step hstep,
      h.2.transition (parked_eq_zero_of_joined h.1) (transition_of_step hstep)⟩
  have hstart : Orderly config (Pool.start config : Pool Question) {} ∧
      Supervised config (start config : System Question) := ⟨.start config, .start config⟩
  exact (Steps.history_invariant hrun hstart hkept).2

/-- Nobody is forgotten: whoever waits, someone is about to wake. -/
structure Attended (system : System Question) : Prop where
  queue_le : .parked ∈ system.pool.workers →
    system.pool.queue.length ≤ system.threads Stage.owesOne + system.pool.checks
  announced : system.pool.phase ≠ .running → .parked ∈ system.pool.workers →
    0 < system.threads Stage.owesAll
  staffed : system.pool.phase = .running → .exited ∉ system.pool.workers

theorem attended_of_run {config : PoolConfig} {moves : List (Move Question)}
    {last : System Question} (hrun : (start config).run? moves = some last) :
    Attended last := by
  have hlively := (supervised_of_run hrun).lively
  exact {
    queue_le := fun hparked => hlively.attended (parked_pos_iff.mpr hparked)
    announced := fun hclosed hparked => hlively.announced hclosed (parked_pos_iff.mpr hparked)
    staffed := fun hopen hexited =>
      ((orderly_of_run hrun).gone (List.mem_map_of_mem hexited)).1 hopen }

end System

end Turnstile.Pool
