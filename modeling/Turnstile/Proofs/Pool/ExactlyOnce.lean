import Turnstile.Proofs.Pool.Routines

/-!
However the threads of a pool interleave, jobs leave the queue in the order in
which they were accepted, and each of them is run once: no part of shutting
down loses a job, and no job that was refused is ever run.
-/

namespace Turnstile.Pool

/-- What a push was told, against the state of the queue it met. -/
structure Push.Fair (capacity : Nat) (push : Push Question) : Prop where
  accepted_iff : push.answer = .ok () ↔ push.phase = .running ∧ push.queued < capacity
  shuttingDown_iff : push.answer = .error .shuttingDown ↔ push.phase ≠ .running
  queueFull_iff : push.answer = .error .queueFull ↔
    push.phase = .running ∧ capacity ≤ push.queued

structure Orderly (config : PoolConfig) (pool : Pool Question) (ledger : Ledger Question) :
    Prop where
  capacity_eq : pool.capacity = config.queue
  length_hands : pool.hands.length = config.workers
  fifo : ledger.accepted = ledger.taken ++ pool.queue
  queue_le : pool.queue.length ≤ config.queue
  fair : ∀ push ∈ ledger.pushes, push.Fair config.queue
  holding : ∀ (index : Nat) (job : Routine Question),
    pool.hands[index]? = some (.holding job) → ledger.taken[ledger.holds index]? = some job
  begun : ∀ run ∈ ledger.begun, ledger.taken[run.1]? = some run.2
  /-- What left the queue was begun, or is in the hands of one worker. -/
  taken_perm : (List.range ledger.taken.length).Perm
    (ledger.begunNumbers ++ held pool.hands ledger.holds Hand.isHolding)
  /-- What was begun is finished, or run by one worker. -/
  begun_perm : ledger.begunNumbers.Perm
    (ledger.finished ++ held pool.hands ledger.holds Hand.isRunning)
  gone : .gone ∈ pool.hands → pool.phase ≠ .running ∧ pool.queue = []
  joined : ∀ index < config.workers,
    index ∉ pool.unjoined → pool.hands[index]? = some .gone

namespace Orderly

variable {config : PoolConfig} {pool : Pool Question} {ledger : Ledger Question}

theorem start (config : PoolConfig) :
    Orderly config (Pool.start config : Pool Question) {} where
  capacity_eq := rfl
  length_hands := by simp [hands, Pool.start]
  fifo := rfl
  queue_le := Nat.zero_le _
  fair := fun _ hmem => absurd hmem List.not_mem_nil
  holding := fun index job hjob => by
    have hmem := List.mem_of_getElem? hjob
    simp [hands, Pool.start, Worker.hand] at hmem
  begun := fun _ hmem => absurd hmem List.not_mem_nil
  taken_perm := by
    rw [held_eq_nil (by simp [hands, Pool.start, Worker.hand, Hand.isHolding])]
    exact .nil
  begun_perm := by
    rw [held_eq_nil (by simp [hands, Pool.start, Worker.hand, Hand.isRunning])]
    exact .nil
  gone := by simp [hands, Pool.start, Worker.hand]
  joined := fun index hindex hjoined => absurd (List.mem_range.mpr hindex) hjoined

theorem frame {after : Pool Question} (h : Orderly config pool ledger)
    (hcapacity : after.capacity = pool.capacity) (hhands : after.hands = pool.hands)
    (hqueue : after.queue = pool.queue)
    (hphase : pool.phase ≠ .running → after.phase ≠ .running)
    (hjoined : ∀ index, index ∉ after.unjoined → index ∉ pool.unjoined ∨
      pool.hands[index]? = some .gone) :
    Orderly config after ledger where
  capacity_eq := hcapacity.trans h.capacity_eq
  length_hands := hhands ▸ h.length_hands
  fifo := hqueue ▸ h.fifo
  queue_le := hqueue ▸ h.queue_le
  fair := h.fair
  holding := hhands ▸ h.holding
  begun := h.begun
  taken_perm := hhands ▸ h.taken_perm
  begun_perm := hhands ▸ h.begun_perm
  gone := by
    rw [hhands, hqueue]
    intro hgone
    obtain ⟨hclosed, hempty⟩ := h.gone hgone
    exact ⟨hphase hclosed, hempty⟩
  joined := by
    intro index hindex hafter
    rw [hhands]
    rcases hjoined index hafter with hbefore | hgone
    · exact h.joined index hindex hbefore
    · exact hgone

/-! Pushing a job. -/

theorem fair_push (h : Orderly config pool ledger) (job : Routine Question) :
    Push.Fair config.queue ⟨job, pool.phase, pool.queue.length, (pool.enter job).1⟩ := by
  have hcapacity := h.capacity_eq
  unfold enter
  constructor <;> grind

theorem enter (h : Orderly config pool ledger) (job : Routine Question) :
    Orderly config (pool.enter job).2 (ledger.push pool job) := by
  have hfair : ∀ push ∈ (ledger.push pool job).pushes, push.Fair config.queue := by
    intro push hmem
    rcases List.mem_append.mp hmem with hold | hnew
    · exact h.fair push hold
    · rw [List.mem_singleton.mp hnew]
      exact h.fair_push job
  cases hanswer : (pool.enter job).1 with
  | error rejection =>
      have hsame : (pool.enter job).2 = pool := enter_eq_self_of_error (Prod.ext hanswer rfl)
      have haccepted : (ledger.push pool job).accepted = ledger.accepted := by
        simp [Ledger.accepted, Ledger.push, hanswer, Except.isOk, Except.toBool]
      rw [hsame]
      exact { h with fifo := haccepted.trans h.fifo, fair := hfair }
  | ok _ =>
      obtain ⟨hrunning, hroom⟩ := (pool.enter_eq_ok_iff job).mp hanswer
      have haccepted : (ledger.push pool job).accepted = ledger.accepted ++ [job] := by
        simp [Ledger.accepted, Ledger.push, hanswer, Except.isOk, Except.toBool]
      have hentered : (pool.enter job).2 = { pool with queue := pool.queue ++ [job] } :=
        enter_eq_of_ok (Prod.ext hanswer rfl)
      rw [hentered]
      exact { h with
        fifo := by
          rw [haccepted, h.fifo, List.append_assoc]
          rfl
        queue_le := by
          have hcapacity := h.capacity_eq
          simp only [List.length_append, List.length_singleton]
          omega
        fair := hfair
        gone := fun hgone => absurd hrunning (h.gone hgone).1 }

/-! Joining the workers, and all else that a thread does. -/

theorem join {first : Nat} {rest : List Nat} (h : Orderly config pool ledger)
    (hunjoined : pool.unjoined = first :: rest)
    (hexited : pool.workers[first]? = some .exited) :
    Orderly config { pool with unjoined := rest } ledger := by
  refine h.frame rfl rfl rfl id ?_
  intro index hafter
  rcases Decidable.em (index = first) with rfl | hne
  · exact .inr (getElem?_hands hexited)
  · left
    rw [hunjoined]
    exact List.not_mem_cons_of_ne_of_not_mem hne hafter

theorem advance {after : Pool Question} {seat : Seat} {chosen : Nat}
    {stage next : Stage Question} (h : Orderly config pool ledger)
    (hadvance : pool.advance? seat chosen stage = some (next, after)) :
    Orderly config after (ledger.addStage pool stage) := by
  have hunchanged {same : Pool Question} (hcapacity : same.capacity = pool.capacity)
      (hhands : same.hands = pool.hands) (hqueue : same.queue = pool.queue)
      (hphase : same.phase = pool.phase) (hunjoined : same.unjoined = pool.unjoined) :
      Orderly config same ledger :=
    h.frame hcapacity hhands hqueue (fun hclosed => hphase ▸ hclosed)
      fun _ hjoined => .inl (hunjoined ▸ hjoined)
  cases advance_of_some hadvance with
  | @enter job rest hentered =>
      have hpushed := h.enter job
      rw [hentered] at hpushed
      exact hpushed
  | @refuse job rest rejection hrefused =>
      have hpushed := h.enter job
      rw [hrefused] at hpushed
      exact hpushed
  | close _ hclosed => exact h.frame rfl rfl rfl (fun _ => hclosed) fun _ hjoined => .inl hjoined
  | observe => exact h
  | countAccepted => exact hunchanged rfl rfl rfl rfl rfl
  | notify _ => exact hunchanged rfl (pool.hands_wake chosen) rfl rfl rfl
  | countRejected => exact hunchanged rfl rfl rfl rfl rfl
  | notifyAll _ => exact hunchanged rfl pool.hands_wakeAll rfl rfl rfl
  | await _ => exact hunchanged rfl pool.hands_wakeAll rfl rfl rfl
  | hold _ => exact hunchanged rfl rfl rfl rfl rfl
  | join hunjoined hexited => exact h.join hunjoined hexited
  | stop _ _ => exact h.frame rfl rfl rfl (fun _ => nofun) fun _ hjoined => .inl hjoined

/-! Taking a job, beginning it and finishing it. -/

theorem sameHand {index : Nat} {worker : Worker Question} (h : Orderly config pool ledger)
    (hindex : pool.hands[index]? = some worker.hand) :
    Orderly config (pool.setWorker index worker) ledger := by
  have hhands : (pool.setWorker index worker).hands = pool.hands := by
    obtain ⟨hlt, hget⟩ := List.getElem?_eq_some_iff.mp hindex
    rw [hands_setWorker, ← hget, List.set_getElem_self]
  exact h.frame rfl hhands rfl id fun _ hjoined => .inl hjoined

theorem gone_of_set {hands : List (Hand Question)} {index : Nat} {new : Hand Question}
    (hgone : .gone ∈ hands.set index new) (hnew : new ≠ .gone) : .gone ∈ hands := by
  rcases List.mem_or_eq_of_mem_set hgone with hold | hsame
  · exact hold
  · exact absurd hsame.symm hnew

theorem joined_set {index : Nat} {old new : Hand Question} (h : Orderly config pool ledger)
    (hindex : pool.hands[index]? = some old) (hold : old ≠ .gone) :
    ∀ other < config.workers,
      other ∉ pool.unjoined → (pool.hands.set index new)[other]? = some .gone := by
  intro other hother hjoined
  have hgone := h.joined other hother hjoined
  have hne : index ≠ other := by
    rintro rfl
    rw [hgone] at hindex
    exact hold (Option.some.inj hindex).symm
  rw [List.getElem?_set_ne hne]
  exact hgone

theorem take {index : Nat} {job : Routine Question} {rest : List (Routine Question)}
    (h : Orderly config pool ledger) (hindex : pool.hands[index]? = some .empty)
    (hqueue : pool.queue = job :: rest) :
    Orderly config ({ pool with queue := rest }.setWorker index (.fetched job))
      (ledger.take index job) := by
  have hhands : ({ pool with queue := rest }.setWorker index (.fetched job)).hands =
      pool.hands.set index (.holding job) := hands_setWorker ..
  have hgrown {number : Nat} {taken : Routine Question}
      (htaken : ledger.taken[number]? = some taken) :
      (ledger.taken ++ [job])[number]? = some taken := by
    rw [List.getElem?_append_left (List.getElem?_eq_some_iff.mp htaken).1]
    exact htaken
  have hlater : ∀ other, other ≠ index → (ledger.take index job).holds other =
      ledger.holds other := fun _ hne => if_neg hne
  have hself : (ledger.take index job).holds index = ledger.taken.length := if_pos rfl
  exact {
    capacity_eq := h.capacity_eq
    length_hands := by
      rw [hhands, List.length_set]
      exact h.length_hands
    fifo := by
      have hfifo := h.fifo
      rw [hqueue, List.append_cons] at hfifo
      exact hfifo
    queue_le := by
      have hle := h.queue_le
      rw [hqueue, List.length_cons] at hle
      exact Nat.le_of_succ_le hle
    fair := h.fair
    holding := by
      rw [hhands]
      intro other held hheld
      rcases Decidable.em (other = index) with rfl | hne
      · rw [List.getElem?_set_self (List.getElem?_eq_some_iff.mp hindex).1] at hheld
        cases hheld
        rw [hself]
        exact List.getElem?_concat_length
      · rw [List.getElem?_set_ne (Ne.symm hne)] at hheld
        rw [hlater other hne]
        exact hgrown (h.holding other held hheld)
    begun := fun run hrun => hgrown (h.begun run hrun)
    taken_perm := by
      have hheld : (held (pool.hands.set index (.holding job)) (ledger.take index job).holds
          Hand.isHolding).Perm _ := held_set hindex rfl rfl hlater
      rw [hself] at hheld
      have hrange := (h.taken_perm.append_right [ledger.taken.length]).trans
        (List.append_assoc .. ▸ hheld.symm.append_left ledger.begunNumbers)
      rw [hhands, Ledger.take, List.length_append, List.length_singleton, List.range_succ]
      exact hrange
    begun_perm := by
      rw [hhands, held_set_of_not (p := Hand.isRunning) hindex rfl rfl hlater]
      exact h.begun_perm
    gone := by
      rw [hhands]
      intro hgone
      obtain ⟨-, hempty⟩ := h.gone (gone_of_set hgone nofun)
      rw [hqueue] at hempty
      cases hempty
    joined := by
      rw [hhands]
      exact h.joined_set hindex nofun }

theorem holding_set {index : Nat} {new : Hand Question} (h : Orderly config pool ledger)
    (hnew : ∀ job, new ≠ .holding job) :
    ∀ (other : Nat) (job : Routine Question),
      (pool.hands.set index new)[other]? = some (.holding job) →
      ledger.taken[ledger.holds other]? = some job := by
  intro other job hjob
  rw [List.getElem?_set] at hjob
  split at hjob
  · split at hjob
    · cases hjob
      exact absurd rfl (hnew job)
    · cases hjob
  · exact h.holding other job hjob

theorem begin {index : Nat} {job : Routine Question} (h : Orderly config pool ledger)
    (hindex : pool.hands[index]? = some (.holding job)) :
    Orderly config (pool.enterJob.setWorker index (.working (.ready job)))
      (ledger.begin index job) := by
  have hhands : (pool.enterJob.setWorker index (.working (.ready job))).hands =
      pool.hands.set index .running := hands_setWorker ..
  have hnumbers : (ledger.begin index job).begunNumbers =
      ledger.begunNumbers ++ [ledger.holds index] := List.map_append
  exact {
    capacity_eq := h.capacity_eq
    length_hands := by
      rw [hhands, List.length_set]
      exact h.length_hands
    fifo := h.fifo
    queue_le := h.queue_le
    fair := h.fair
    holding := by
      rw [hhands]
      exact h.holding_set nofun
    begun := by
      intro run hrun
      rcases List.mem_append.mp hrun with hold | hnew
      · exact h.begun run hold
      · rw [List.mem_singleton.mp hnew]
        exact h.holding index job hindex
    taken_perm := by
      have hheld : (held pool.hands ledger.holds Hand.isHolding).Perm
          ([ledger.holds index] ++
            held (pool.hands.set index .running) ledger.holds Hand.isHolding) :=
        (held_of_set hindex rfl rfl).trans List.perm_append_comm
      rw [hhands, hnumbers, List.append_assoc]
      exact h.taken_perm.trans (hheld.append_left _)
    begun_perm := by
      have hheld : (held (pool.hands.set index .running) ledger.holds Hand.isRunning).Perm _ :=
        held_set hindex rfl rfl fun _ _ => rfl
      rw [hhands, hnumbers]
      apply (h.begun_perm.append_right _).trans
      rw [List.append_assoc]
      exact hheld.symm.append_left _
    gone := by
      rw [hhands]
      exact fun hgone => h.gone (gone_of_set hgone nofun)
    joined := by
      rw [hhands]
      exact h.joined_set hindex nofun }

theorem finish {index : Nat} (ending : Ending) (h : Orderly config pool ledger)
    (hindex : pool.hands[index]? = some .running) :
    Orderly config (pool.leaveJob.setWorker index (.ended ending)) (ledger.finish index) := by
  have hhands : (pool.leaveJob.setWorker index (.ended ending)).hands =
      pool.hands.set index .empty := hands_setWorker ..
  exact {
    capacity_eq := h.capacity_eq
    length_hands := by
      rw [hhands, List.length_set]
      exact h.length_hands
    fifo := h.fifo
    queue_le := h.queue_le
    fair := h.fair
    holding := by
      rw [hhands]
      exact h.holding_set nofun
    begun := h.begun
    taken_perm := by
      rw [hhands]
      have hsame : held (pool.hands.set index .empty) ledger.holds Hand.isHolding =
          held pool.hands ledger.holds Hand.isHolding :=
        held_set_of_not hindex rfl rfl fun _ _ => rfl
      exact hsame ▸ h.taken_perm
    begun_perm := by
      have hheld : (held pool.hands ledger.holds Hand.isRunning).Perm
          ([ledger.holds index] ++
            held (pool.hands.set index .empty) ledger.holds Hand.isRunning) :=
        (held_of_set hindex rfl rfl).trans List.perm_append_comm
      rw [hhands, Ledger.finish, List.append_assoc]
      exact h.begun_perm.trans (hheld.append_left _)
    gone := by
      rw [hhands]
      exact fun hgone => h.gone (gone_of_set hgone nofun)
    joined := by
      rw [hhands]
      exact h.joined_set hindex nofun }

theorem leave {index : Nat} (h : Orderly config pool ledger)
    (hindex : pool.hands[index]? = some .empty) (hclosed : pool.phase ≠ .running)
    (hempty : pool.queue = []) :
    Orderly config ((pool.emit (.workerExiting index)).setWorker index .exited) ledger := by
  have hhands : ((pool.emit (.workerExiting index)).setWorker index .exited).hands =
      pool.hands.set index .gone := hands_setWorker ..
  have hheld (p : Hand Question → Bool) (hold : p .empty = false) (hnew : p .gone = false) :
      held (pool.hands.set index .gone) ledger.holds p = held pool.hands ledger.holds p :=
    held_set_of_not hindex hold hnew fun _ _ => rfl
  exact {
    capacity_eq := h.capacity_eq
    length_hands := by
      rw [hhands, List.length_set]
      exact h.length_hands
    fifo := h.fifo
    queue_le := h.queue_le
    fair := h.fair
    holding := by
      rw [hhands]
      exact h.holding_set nofun
    begun := h.begun
    taken_perm := by
      rw [hhands, hheld Hand.isHolding rfl rfl]
      exact h.taken_perm
    begun_perm := by
      rw [hhands, hheld Hand.isRunning rfl rfl]
      exact h.begun_perm
    gone := fun _ => ⟨hclosed, hempty⟩
    joined := by
      rw [hhands]
      exact h.joined_set hindex nofun }

/-! Steps of a system. -/

theorem serve {left : Pool Question} {chosen index : Nat} {old new : Worker Question}
    (h : Orderly config pool ledger) (hold : pool.workers[index]? = some old)
    (hserve : Serve pool chosen index old new left) :
    Orderly config (left.setWorker index new) (ledger.addWorker pool index old) := by
  have hhand := getElem?_hands hold
  have hkept := getElem?_hands (getElem?_workers_serve hserve hold)
  cases hserve with
  | take hqueue =>
      simp only [Ledger.addWorker, hqueue]
      exact h.take hhand hqueue
  | park hempty _ =>
      simp only [Ledger.addWorker, hempty]
      exact h.sameHand hhand
  | leave hempty hclosed =>
      simp only [Ledger.addWorker, hempty]
      exact h.leave hhand hclosed hempty
  | begin => exact h.begin hhand
  | @finish ending => exact h.finish ending hhand
  | goOn hadvance =>
      rw [Ledger.addWorker_working hadvance]
      exact (h.advance hadvance).sameHand hkept
  | @count ending =>
      have hcounted : Orderly config (pool.countEnding index ending) ledger := by
        cases ending <;> exact h.frame rfl rfl rfl id fun _ hjoined => .inl hjoined
      exact hcounted.sameHand hkept

theorem step {system after : System Question} {move : System.Move Question}
    (h : Orderly config system.pool ledger) (hstep : System.step? system move = some after) :
    Orderly config after.pool (System.note system move ledger) := by
  cases System.transition_of_step hstep with
  | call => exact h
  | serve hold hserve =>
      simp only [System.note, hold]
      exact h.serve hold hserve
  | @hearWorker index _ next answer hold =>
      have hhand : system.pool.hands[index]? = some .running := getElem?_hands hold
      exact h.sameHand hhand
  | advance hstage hadvance =>
      simp only [System.note, hstage]
      exact h.advance hadvance
  | hearCaller _ => exact h
  | @wake index =>
      exact h.frame rfl (system.pool.hands_wake index) rfl id fun _ hjoined => .inl hjoined

end Orderly

/-- What can be relied on in every state. Numbers count the accepted jobs. -/
structure ExactlyOnce (config : PoolConfig) (pool : Pool Question) (ledger : Ledger Question) :
    Prop where
  fifo : ledger.accepted = ledger.taken ++ pool.queue
  queue_le : pool.queue.length ≤ config.queue
  fair : ∀ push ∈ ledger.pushes, push.Fair config.queue
  begun_nodup : ledger.begunNumbers.Nodup
  begun_accepted : ∀ run ∈ ledger.begun, ledger.accepted[run.1]? = some run.2
  refused_not_begun : ∀ job, (∀ push ∈ ledger.pushes, push.answer = .ok () → push.job ≠ job) →
    ∀ run ∈ ledger.begun, run.2 ≠ job
  finished_nodup : ledger.finished.Nodup
  finished_begun : ledger.finished ⊆ ledger.begunNumbers

/-- Nothing is left to do: every accepted job was begun and finished, once. -/
structure AllRun (pool : Pool Question) (ledger : Ledger Question) : Prop where
  queue_eq : pool.queue = []
  begun_perm : ledger.begunNumbers.Perm (List.range ledger.accepted.length)
  finished_perm : ledger.finished.Perm (List.range ledger.accepted.length)

namespace Orderly

variable {config : PoolConfig} {pool : Pool Question} {ledger : Ledger Question}

theorem exactlyOnce (h : Orderly config pool ledger) : ExactlyOnce config pool ledger := by
  have htaken := (List.nodup_append.mp (h.taken_perm.nodup_iff.mp List.nodup_range)).1
  have hbegun : ∀ run ∈ ledger.begun, ledger.accepted[run.1]? = some run.2 := by
    intro run hrun
    have hjob := h.begun run hrun
    rw [h.fifo, List.getElem?_append_left (List.getElem?_eq_some_iff.mp hjob).1]
    exact hjob
  exact {
    fifo := h.fifo
    queue_le := h.queue_le
    fair := h.fair
    begun_nodup := htaken
    begun_accepted := hbegun
    refused_not_begun := by
      intro job hrefused run hrun
      have hmem := List.mem_of_getElem? (hbegun run hrun)
      obtain ⟨push, hpush, hsame⟩ := List.mem_map.mp hmem
      obtain ⟨hpushed, hok⟩ := List.mem_filter.mp hpush
      rw [← hsame]
      apply hrefused push hpushed
      cases hanswer : push.answer with
      | ok _ => rfl
      | error rejection =>
          rw [hanswer] at hok
          cases hok
    finished_nodup := (List.nodup_append.mp (h.begun_perm.nodup_iff.mp htaken)).1
    finished_begun := fun number hnumber =>
      h.begun_perm.mem_iff.mpr (List.mem_append_left _ hnumber) }

theorem hand_eq_gone (h : Orderly config pool ledger) (hjoined : pool.unjoined = []) :
    ∀ hand ∈ pool.hands, hand = .gone := by
  intro hand hmem
  obtain ⟨index, hindex, hget⟩ := List.mem_iff_getElem.mp hmem
  have hlast := h.joined index (h.length_hands ▸ hindex) (hjoined ▸ List.not_mem_nil)
  rw [List.getElem?_eq_getElem hindex, hget] at hlast
  exact Option.some.inj hlast

theorem allRun (h : Orderly config pool ledger) (hvalid : config.Valid)
    (hjoined : pool.unjoined = []) : AllRun pool ledger := by
  have hgone := h.hand_eq_gone hjoined
  have hempty : pool.queue = [] := by
    -- There is at least one worker, and none leaves while anything is queued.
    have hworkers := (config.valid_iff.mp hvalid).1
    exact (h.gone (List.mem_of_getElem? (h.joined 0 hworkers (hjoined ▸ List.not_mem_nil)))).2
  have hheld (p : Hand Question → Bool) (hnot : p .gone = false) :
      held pool.hands ledger.holds p = [] :=
    held_eq_nil fun hand hmem => hgone hand hmem ▸ hnot
  have htaken := h.taken_perm
  have hbegun := h.begun_perm
  rw [hheld Hand.isHolding rfl, List.append_nil] at htaken
  rw [hheld Hand.isRunning rfl, List.append_nil] at hbegun
  have haccepted : ledger.accepted.length = ledger.taken.length := by
    rw [h.fifo, hempty, List.append_nil]
  exact {
    queue_eq := hempty
    begun_perm := haccepted ▸ htaken.symm
    finished_perm := haccepted ▸ hbegun.symm.trans htaken.symm }

end Orderly

namespace System

variable {config : PoolConfig}

def start (config : PoolConfig) : System Question where
  pool := .start config

theorem orderly_of_run {moves : List (Move Question)} {last : System Question}
    (hrun : (start config).run? moves = some last) :
    Orderly config last.pool (ledger (start config) moves) := by
  have hkept (before : System Question) (move : Move Question) (after : System Question)
      (seen : Ledger Question) (h : Orderly config before.pool seen)
      (hstep : step? before move = some after) :
      Orderly config after.pool (note before move seen) := h.step hstep
  refine Steps.history_invariant hrun ?_ hkept
  exact .start config

theorem ownRoutines_of_run {moves : List (Move Question)} {last : System Question}
    (hrun : (start config).run? moves = some last) :
    OwnRoutines last.pool (ledger (start config) moves) := by
  have hkept (before : System Question) (move : Move Question) (after : System Question)
      (seen : Ledger Question) (h : OwnRoutines before.pool seen)
      (hstep : step? before move = some after) :
      OwnRoutines after.pool (note before move seen) := h.step hstep
  exact Steps.history_invariant hrun (.start config) hkept

theorem unjoined_of_returned {system after : System Question} {chosen index : Nat}
    {next : Routine Question} (hjoining : system.callers[index]? = some (.joining next))
    (hstep : step? system (.caller chosen index) = some after)
    (hready : after.callers[index]? = some (.ready next)) : after.pool.unjoined = [] := by
  have hindex := (List.getElem?_eq_some_iff.mp hjoining).1
  simp only [step?, callerStep?, hjoining, Option.bind_eq_bind, Option.bind_some,
    Option.bind_eq_some_iff, Option.pure_def, Option.some.injEq] at hstep
  obtain ⟨⟨stage, pool⟩, hadvance, rfl⟩ := hstep
  simp only [setCaller, List.getElem?_set_self hindex, Option.some.injEq] at hready
  subst hready
  simp only [advance?] at hadvance
  split at hadvance
  · rename_i hunjoined
    cases hadvance
    unfold stop
    split <;> exact hunjoined
  · simp only [Option.map_eq_some_iff, Prod.mk.injEq, reduceCtorEq, false_and, and_false,
      exists_false] at hadvance

/-- However threads push jobs, workers run them and anyone shuts the pool down. -/
theorem jobs_run_once (hvalid : config.Valid) {moves : List (Move Question)}
    {last : System Question} (hrun : (start config).run? moves = some last) :
    ExactlyOnce config last.pool (ledger (start config) moves) ∧
      OwnRoutines last.pool (ledger (start config) moves) ∧
      ∀ chosen index next after, last.callers[index]? = some (.joining next) →
        step? last (.caller chosen index) = some after →
        after.callers[index]? = some (.ready next) →
        AllRun after.pool (ledger (start config) (moves ++ [.caller chosen index])) := by
  have h := orderly_of_run hrun
  refine ⟨h.exactlyOnce, ownRoutines_of_run hrun, ?_⟩
  intro chosen index next after hjoining hstep hready
  have hledger : ledger (start config) (moves ++ [.caller chosen index]) =
      note last (.caller chosen index) (ledger (start config) moves) := by
    rw [ledger, Steps.history_append _ _ hrun, Steps.history_cons_of_step _ _ hstep]
    rfl
  rw [hledger]
  exact (h.step hstep).allRun hvalid (unjoined_of_returned hjoining hstep hready)

def panicMoves : List (Move Empty) :=
  let routine : Routine Empty :=
    .submit (.finish (.panicked "boom")) fun _ =>
      .submit (.finish .returned) fun _ => .shutdown (.finish .returned)
  [.call routine, .caller 0 0, .caller 0 0, .caller 0 0, .caller 0 0, .caller 0 0,
    .caller 0 0, .caller 0 0, .caller 0 0, .worker 0 0, .worker 0 0, .worker 0 0,
    .worker 0 0, .worker 0 0, .caller 0 0]

theorem jobs_run_once_panicMoves :
    ∃ last after : System Empty, (start ⟨1, 1⟩).run? panicMoves = some last ∧
      step? last (.caller 0 0) = some after ∧
      ExactlyOnce ⟨1, 1⟩ last.pool (ledger (start ⟨1, 1⟩) panicMoves) ∧
      OwnRoutines last.pool (ledger (start ⟨1, 1⟩) panicMoves) ∧
      AllRun after.pool (ledger (start ⟨1, 1⟩) (panicMoves ++ [.caller 0 0])) := by
  obtain ⟨last, hrun, hjoining, after, hstep, hready⟩ :
      ∃ last : System Empty, (start ⟨1, 1⟩).run? panicMoves = some last ∧
        last.callers[0]? = some (.joining (.finish .returned)) ∧
        ∃ after, step? last (.caller 0 0) = some after ∧
          after.callers[0]? = some (.ready (.finish .returned)) :=
    ⟨_, rfl, rfl, _, rfl, rfl⟩
  obtain ⟨hexact, hown, hreturned⟩ := jobs_run_once (by decide) hrun
  exact ⟨last, after, hrun, hstep, hexact, hown, hreturned 0 0 _ _ hjoining hstep hready⟩

end System

end Turnstile.Pool
