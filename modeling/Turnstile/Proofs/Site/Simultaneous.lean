import Turnstile.Proofs.Ring.Backlog
import Turnstile.Proofs.Site.NextFlush
import Turnstile.Proofs.Window.OneReading

/-!
Requests of one client that many threads make while the clock stands still. Which of them are
admitted depends on how their parts interleave. How many are, what the window holds afterwards,
what is added to the totals and which decisions the next flush offers does not.
-/

namespace Turnstile.Site

def Call.decided? : Call → Option Decision
  | .counting _ reading allowed | .answered _ reading allowed => some (.made reading allowed)
  | .finding _ | .entering _ | .judging _ | .recording .. | .listing | .visiting ..
  | .offering .. | .reported _ => none

theorem Call.isSome_judged? {call : Call} {client : String}
    (hclient : call.requested? = some client) (hfinished : call.isFinished = true) :
    call.judged?.isSome = true := by
  cases call <;> first | rfl | (cases hclient; done) | cases hfinished

theorem Call.answer?_of_isFinished {call : Call} (hfinished : call.isFinished = true) :
    call.answer? = call.judged?.map fun judgement => judgement.2.2 := by
  cases call <;> first | rfl | cases hfinished

theorem Call.decided?_of_isFinished {call : Call} (hfinished : call.isFinished = true) :
    call.decided? = call.judged?.map fun judgement => .made judgement.2.1 judgement.2.2 := by
  cases call <;> first | rfl | cases hfinished

namespace System

section Rush

variable (config : AdmissionConfig) (client : String) (admitted : List Nat)
  (unread : List Decision) (first : System σ)

/-- Where a site stands after `count` judgements of one client's requests, `fresh` being the
requests that were begun since `first`. -/
structure Rushing (fresh : List Call) (count : Nat) (system : System σ) : Prop where
  calls_eq : system.calls = first.calls ++ fresh
  time_eq : system.site.time = first.site.time
  requested : ∀ call ∈ fresh, call.requested? = some client
  remembers : Window.Remembers config.span first.site.time.reading
    (Window.crowded first.site.time.reading config.limit config.span admitted count)
    (system.site.controller.window client)
  window_eq : system.site.controller.window client =
    if count = 0 then first.site.controller.window client
    else ⟨Window.live first.site.time.reading config.span
      (Window.crowded first.site.time.reading config.limit config.span admitted count)⟩
  judged : (fresh.filterMap Call.judged?).Perm
    ((Window.verdicts (Window.room first.site.time.reading config.limit config.span admitted)
      count).map fun allowed => (client, first.site.time.reading, allowed))
  awaits : ∃ recorded, recorded.Perm (fresh.filterMap Call.decided?) ∧
    (system.site.controller.ring client).Awaits (unread ++ recorded)
  allowed_eq : system.site.controller.allowed =
    first.site.controller.allowed + (fresh.filterMap Call.answer?).count true
  denied_eq : system.site.controller.denied =
    first.site.controller.denied + (fresh.filterMap Call.answer?).count false

end Rush

namespace Rushing

variable {config : AdmissionConfig} {client : String} {admitted : List Nat}
  {unread : List Decision} {first system : System σ} {fresh : List Call} {count : Nat}
  {ledger : Ledger}

theorem start
    (hremembers : Window.Remembers config.span first.site.time.reading admitted
      (first.site.controller.window client))
    (hawaits : (first.site.controller.ring client).Awaits unread) :
    Rushing config client admitted unread first [] 0 first where
  calls_eq := (List.append_nil _).symm
  time_eq := rfl
  requested := fun _ hmem => absurd hmem List.not_mem_nil
  remembers := by
    rw [Window.crowded, Nat.zero_min, List.replicate_zero, List.append_nil]
    exact hremembers
  window_eq := rfl
  judged := .nil
  awaits := ⟨[], .nil, (List.append_nil unread).symm ▸ hawaits⟩
  allowed_eq := rfl
  denied_eq := rfl

theorem request (h : Rushing config client admitted unread first fresh count system) :
    Rushing config client admitted unread first (fresh ++ [.finding client]) count
      { system with calls := system.calls ++ [.finding client] } :=
  { h with
    calls_eq := by
      simp only [h.calls_eq, List.append_assoc]
    requested := by
      intro call hmem
      rcases List.mem_append.mp hmem with hold | hnew
      · exact h.requested call hold
      · rw [List.mem_singleton.mp hnew]
        rfl
    judged := by
      rw [filterMap_concat_of_none rfl]
      exact h.judged
    awaits := by
      rw [filterMap_concat_of_none rfl]
      exact h.awaits
    allowed_eq := by
      rw [filterMap_concat_of_none rfl]
      exact h.allowed_eq
    denied_eq := by
      rw [filterMap_concat_of_none rfl]
      exact h.denied_eq }

theorem calls_set {place : Nat} {next : Call}
    (h : Rushing config client admitted unread first fresh count system) :
    system.calls.set (first.calls.length + place) next = first.calls ++ fresh.set place next := by
  rw [h.calls_eq, List.set_append_right _ _ (Nat.le_add_right ..), Nat.add_sub_cancel_left]

theorem requested_set {place : Nat} {next : Call}
    (h : Rushing config client admitted unread first fresh count system)
    (hnext : next.requested? = some client) :
    ∀ call ∈ fresh.set place next, call.requested? = some client := by
  intro call hmem
  rcases List.mem_or_eq_of_mem_set hmem with hold | rfl
  · exact h.requested call hold
  · exact hnext

theorem frame {place : Nat} {call next : Call} {site : Site σ}
    (h : Rushing config client admitted unread first fresh count system)
    (hcall : fresh[place]? = some call) (hnext : next.requested? = some client)
    (htime : site.time = system.site.time)
    (hwindow : site.controller.window client = system.site.controller.window client)
    (hring : site.controller.ring client = system.site.controller.ring client)
    (hallowed : site.controller.allowed = system.site.controller.allowed)
    (hdenied : site.controller.denied = system.site.controller.denied)
    (hjudged : next.judged? = call.judged?) (hdecided : next.decided? = call.decided?)
    (hanswer : next.answer? = call.answer?) :
    Rushing config client admitted unread first (fresh.set place next) count
      { site, calls := system.calls.set (first.calls.length + place) next } where
  calls_eq := h.calls_set
  time_eq := htime.trans h.time_eq
  requested := h.requested_set hnext
  remembers := hwindow ▸ h.remembers
  window_eq := hwindow.trans h.window_eq
  judged := (filterMap_set_of_eq hcall hjudged).trans h.judged
  awaits := by
    obtain ⟨recorded, hrecorded, hawaits⟩ := h.awaits
    exact ⟨recorded, hrecorded.trans (filterMap_set_of_eq hcall hdecided).symm, hring ▸ hawaits⟩
  allowed_eq := by
    rw [hallowed, h.allowed_eq, (filterMap_set_of_eq hcall hanswer).count_eq]
  denied_eq := by
    rw [hdenied, h.denied_eq, (filterMap_set_of_eq hcall hanswer).count_eq]

theorem judge {place : Nat}
    (h : Rushing config client admitted unread first fresh count system)
    (hspan : 0 < config.span) (hconfig : system.site.controller.config = config)
    (hknows : system.site.controller.knows client = true)
    (hcall : fresh[place]? = some (.judging client)) :
    let reading := system.site.time.reading
    let judged := system.site.controller.judge reading client
    Rushing config client admitted unread first
      (fresh.set place (.recording client reading judged.1)) (count + 1)
      { site := { system.site with controller := judged.2 }
        calls := system.calls.set (first.calls.length + place)
          (.recording client reading judged.1) } := by
  intro reading judged
  have hreading : reading = first.site.time.reading := congrArg TimeSource.reading h.time_eq
  have hanswer : judged.1 = decide (count < Window.room first.site.time.reading config.limit
      config.span admitted) := by
    rw [system.site.controller.judge_fst, hconfig, hreading,
      h.remembers.allow_fst (Nat.le_refl _), Window.countAnew_crowded hspan]
  have hwindow : judged.2.window client = ((system.site.controller.window client).allow
      first.site.time.reading config.limit config.span).2 := by
    rw [system.site.controller.window_judge_self hknows, hconfig, hreading]
  have htimes := h.remembers.times_allow hspan (Nat.le_refl _) config.limit
  have hremembers := h.remembers.allow_snd (Nat.le_refl _) config.limit
  rw [Window.countAnew_crowded hspan] at htimes hremembers
  have hdecisions : ((fresh.set place (.recording client reading judged.1)).filterMap
      Call.decided?).Perm (fresh.filterMap Call.decided?) := filterMap_set_of_eq hcall rfl
  have hanswers : ((fresh.set place (.recording client reading judged.1)).filterMap
      Call.answer?).Perm (fresh.filterMap Call.answer?) := filterMap_set_of_eq hcall rfl
  exact {
    calls_eq := h.calls_set
    time_eq := h.time_eq
    requested := h.requested_set rfl
    remembers := hwindow ▸ hremembers
    window_eq := by
      rw [if_neg (Nat.succ_ne_zero count), ← htimes]
      exact hwindow
    judged := by
      have hperm := filterMap_set_of_none hcall rfl
        (show (Call.recording client reading judged.1).judged? = some _ from rfl)
      rw [Window.verdicts_succ, List.map_append, ← hanswer]
      refine hperm.trans ?_
      rw [hreading]
      exact h.judged.append_right _
    awaits := by
      obtain ⟨recorded, hrecorded, hawaits⟩ := h.awaits
      refine ⟨recorded, hrecorded.trans hdecisions.symm, ?_⟩
      rw [Controller.ring_judge]
      exact hawaits
    allowed_eq := h.allowed_eq.trans (congrArg _ (hanswers.count_eq true).symm)
    denied_eq := h.denied_eq.trans (congrArg _ (hanswers.count_eq false).symm) }

theorem record {place reading : Nat} {allowed : Bool}
    (h : Rushing config client admitted unread first fresh count system)
    (hknows : system.site.controller.knows client = true)
    (hcall : fresh[place]? = some (.recording client reading allowed)) :
    Rushing config client admitted unread first
      (fresh.set place (.counting client reading allowed)) count
      { site := { system.site with
          controller := system.site.controller.record client (.made reading allowed) }
        calls := system.calls.set (first.calls.length + place)
          (.counting client reading allowed) } := by
  have hjudgements : ((fresh.set place (.counting client reading allowed)).filterMap
      Call.judged?).Perm (fresh.filterMap Call.judged?) := filterMap_set_of_eq hcall rfl
  have hdecisions := filterMap_set_of_none hcall rfl
    (show (Call.counting client reading allowed).decided? = some _ from rfl)
  have hanswers : ((fresh.set place (.counting client reading allowed)).filterMap
      Call.answer?).Perm (fresh.filterMap Call.answer?) := filterMap_set_of_eq hcall rfl
  exact {
    calls_eq := h.calls_set
    time_eq := h.time_eq
    requested := h.requested_set rfl
    remembers := (Controller.window_record ..).symm ▸ h.remembers
    window_eq := (Controller.window_record ..).trans h.window_eq
    judged := hjudgements.trans h.judged
    awaits := by
      obtain ⟨recorded, hrecorded, hawaits⟩ := h.awaits
      refine ⟨recorded ++ [.made reading allowed],
        (hrecorded.append_right _).trans hdecisions.symm, ?_⟩
      rw [Controller.ring_record_self _ hknows, ← List.append_assoc]
      exact hawaits.record _
    allowed_eq := h.allowed_eq.trans (congrArg _ (hanswers.count_eq true).symm)
    denied_eq := h.denied_eq.trans (congrArg _ (hanswers.count_eq false).symm) }

theorem tally {place reading : Nat} {allowed : Bool}
    (h : Rushing config client admitted unread first fresh count system)
    (hcall : fresh[place]? = some (.counting client reading allowed)) :
    Rushing config client admitted unread first
      (fresh.set place (.answered client reading allowed)) count
      { site := { system.site with controller := system.site.controller.count allowed }
        calls := system.calls.set (first.calls.length + place)
          (.answered client reading allowed) } := by
  have hjudgements : ((fresh.set place (.answered client reading allowed)).filterMap
      Call.judged?).Perm (fresh.filterMap Call.judged?) := filterMap_set_of_eq hcall rfl
  have hdecisions : ((fresh.set place (.answered client reading allowed)).filterMap
      Call.decided?).Perm (fresh.filterMap Call.decided?) := filterMap_set_of_eq hcall rfl
  have hanswers := filterMap_set_of_none hcall rfl
    (show (Call.answered client reading allowed).answer? = some allowed from rfl)
  exact {
    calls_eq := h.calls_set
    time_eq := h.time_eq
    requested := h.requested_set rfl
    remembers := (Controller.window_count ..).symm ▸ h.remembers
    window_eq := (Controller.window_count ..).trans h.window_eq
    judged := hjudgements.trans h.judged
    awaits := by
      obtain ⟨recorded, hrecorded, hawaits⟩ := h.awaits
      refine ⟨recorded, hrecorded.trans hdecisions.symm, ?_⟩
      rw [Controller.ring_count]
      exact hawaits
    allowed_eq := by
      rw [hanswers.count_eq, List.count_append, ← Nat.add_assoc, ← h.allowed_eq]
      cases allowed <;> rfl
    denied_eq := by
      rw [hanswers.count_eq, List.count_append, ← Nat.add_assoc, ← h.denied_eq]
      cases allowed <;> rfl }

theorem part {place : Nat} {order : List String} {call next : Call} {site : Site σ}
    (h : Rushing config client admitted unread first fresh count system)
    (hspan : 0 < config.span) (hadmitting : Admitting config system ledger)
    (hcall : fresh[place]? = some call)
    (hpart : system.site.part? order call = some (next, site)) :
    ∃ later, Rushing config client admitted unread first (fresh.set place next) later
      { site, calls := system.calls.set (first.calls.length + place) next } := by
  have hrequested := h.requested call (List.mem_of_getElem? hcall)
  have hnext := (part_of_requested hrequested hpart).1
  have hknows (hentered : call.entered? = some client) :
      system.site.controller.knows client = true := by
    have hplace : system.calls[first.calls.length + place]? = some call := by
      rw [h.calls_eq, List.getElem?_append_right (Nat.le_add_right ..), Nat.add_sub_cancel_left]
      exact hcall
    exact hadmitting.knows_of_entered hplace hentered
  cases part_of_some hpart with
  | found hknows => exact ⟨count, h.frame hcall hnext rfl rfl rfl rfl rfl rfl rfl rfl⟩
  | missed hknows => exact ⟨count, h.frame hcall hnext rfl rfl rfl rfl rfl rfl rfl rfl⟩
  | enter =>
      refine ⟨count, h.frame hcall hnext rfl (Controller.window_track ..)
        (Controller.ring_track ..) ?_ ?_ rfl rfl rfl⟩
      all_goals
        unfold Controller.track
        split <;> rfl
  | judge =>
      cases hrequested
      exact ⟨count + 1, h.judge hspan hadmitting.config_eq (hknows rfl) hcall⟩
  | record =>
      cases hrequested
      exact ⟨count, h.record (hknows rfl) hcall⟩
  | count =>
      cases hrequested
      exact ⟨count, h.tally hcall⟩
  | list | skip | drain | offer | account | report => cases hrequested

end Rushing

/-- A move by which a request of the client begins, or a call goes on that was not among the
first ones. -/
def Move.isRush (client : String) (calls : Nat) : Move → Bool
  | .request other => other = client
  | .part index _ => calls ≤ index
  | .flush | .clock _ => false

/-- Requests of one client from several threads, each with its share of them. The threads go on
in any order; the clock stands still, and so does every call that was begun before. A thread
makes its requests one after the other, but nothing depends on it, so that requests of one
thread may overlap here as well. -/
structure Rush (client : String) (shares : List Nat) (first : System σ) (moves : List Move)
    (last : System σ) : Prop where
  run : first.run? moves = some last
  isRush : ∀ move ∈ moves, move.isRush client first.calls.length = true
  count_le : moves.count (.request client) ≤ shares.sum

theorem Rushing.step {config : AdmissionConfig} {client : String} {admitted : List Nat}
    {unread : List Decision} {first system after : System σ} {fresh : List Call} {count : Nat}
    {ledger : Ledger} {move : Move}
    (h : Rushing config client admitted unread first fresh count system)
    (hspan : 0 < config.span) (hadmitting : Admitting config system ledger)
    (hmove : move.isRush client first.calls.length = true)
    (hstep : step? system move = some after) :
    ∃ later next, Rushing config client admitted unread first later next after ∧
      later.length = fresh.length + [move].count (.request client) ∧
      sumOf Call.ahead later + 1 ≤
        sumOf Call.ahead fresh + 6 * [move].count (.request client) := by
  rcases step?_eq_some_iff.mp hstep with ⟨other, rfl, rfl⟩ | ⟨rfl, rfl⟩ | ⟨tick, rfl, rfl⟩ |
    ⟨index, order, call, next, site, rfl, hcall, hpart, rfl⟩
  · obtain rfl : other = client := of_decide_eq_true hmove
    refine ⟨_, count, h.request, ?_, ?_⟩
    · rw [List.length_append, List.count_singleton_self, List.length_singleton]
    · rw [sumOf_append, List.count_singleton_self]
      exact Nat.le_refl _
  · cases hmove
  · cases hmove
  · obtain ⟨place, rfl⟩ := Nat.exists_eq_add_of_le (of_decide_eq_true hmove)
    rw [h.calls_eq, List.getElem?_append_right (Nat.le_add_right ..),
      Nat.add_sub_cancel_left] at hcall
    have hrequested := h.requested call (List.mem_of_getElem? hcall)
    have hnone : [Move.part (first.calls.length + place) order].count (.request client) = 0 := rfl
    obtain ⟨later, hlater⟩ := h.part hspan hadmitting hcall hpart
    refine ⟨_, later, hlater, ?_, ?_⟩
    · rw [List.length_set, hnone, Nat.add_zero]
    · have hahead := sumOf_set Call.ahead next hcall
      have hless := (part_of_requested hrequested hpart).2
      omega

namespace Rush

variable {config : AdmissionConfig} {valid : config.Valid} {receive : Receiver σ} {sink : σ}
  {time : TimeSource} {client : String} {shares : List Nat} {before moves : List Move}
  {first last : System σ} {admitted : List Nat} {unread : List Decision}

theorem exists_rushing (h : Rush client shares first moves last)
    (hrun : (start config valid receive sink time).run? before = some first)
    (hfirst : Rushing config client admitted unread first [] 0 first) :
    ∃ fresh count, Rushing config client admitted unread first fresh count last ∧
      fresh.length = moves.count (.request client) ∧
      moves.length + sumOf Call.ahead fresh ≤ 6 * moves.count (.request client) := by
  let Holds (moves : List Move) (system : System σ) : Prop :=
    ∃ fresh count, Rushing config client admitted unread first fresh count system ∧
      fresh.length = moves.count (.request client) ∧
      moves.length + sumOf Call.ahead fresh ≤ 6 * moves.count (.request client)
  suffices hlast : Holds moves last from hlast
  refine Steps.run_induction h.run ⟨[], 0, hfirst, rfl, Nat.le_refl 0⟩ ?_
  intro earlier system hearlier hholds move hmem after hstep
  obtain ⟨fresh, count, hrushing, hlength, hahead⟩ := hholds
  have hadmitting := admitting_of_run (Steps.run?_append_of_run? hrun hearlier)
  obtain ⟨later, next, hnext, hlonger, hless⟩ :=
    hrushing.step valid.span_pos hadmitting (h.isRush move hmem) hstep
  refine ⟨later, next, hnext, ?_, ?_⟩
  · rw [List.count_append, hlonger, hlength]
  · rw [List.count_append, List.length_append, List.length_singleton]
    omega

end Rush

/-! How a rush ends. -/

/-- A rush in which every thread has made its requests, and has been answered. -/
structure RushOver (client : String) (shares : List Nat) (first : System σ) (moves : List Move)
    (last : System σ) : Prop extends Rush client shares first moves last where
  count_eq : moves.count (.request client) = shares.sum
  isFinished : ∀ call ∈ last.calls.drop first.calls.length, call.isFinished = true

def windowAfter (window : Window) (live : List Nat) (reading admitted denied : Nat) : Window :=
  if admitted + denied = 0 then window else ⟨live ++ List.replicate admitted reading⟩

/-- What has come of a rush, told by how many of its requests were admitted and denied. -/
structure Settled (client : String) (live : List Nat) (admitted denied : Nat)
    (first last : System σ) : Prop where
  answers_perm : ((last.calls.drop first.calls.length).filterMap Call.answer?).Perm
    (List.replicate admitted true ++ List.replicate denied false)
  window_eq : last.site.controller.window client = windowAfter
    (first.site.controller.window client) live first.site.time.reading admitted denied
  allowed_eq : last.site.controller.allowed = first.site.controller.allowed + admitted
  denied_eq : last.site.controller.denied = first.site.controller.denied + denied

namespace Rushing

variable {config : AdmissionConfig} {client : String} {admitted : List Nat}
  {unread : List Decision} {first system : System σ} {fresh : List Call} {count : Nat}

theorem drop_calls (h : Rushing config client admitted unread first fresh count system) :
    system.calls.drop first.calls.length = fresh := by
  rw [h.calls_eq, List.drop_left]

theorem exists_step (h : Rushing config client admitted unread first fresh count system)
    {index : Nat} {call : Call} (hindex : first.calls.length ≤ index)
    (hcall : system.calls[index]? = some call) (hunfinished : call.isFinished = false) :
    ∃ after, step? system (.part index []) = some after := by
  have hfresh : call ∈ fresh := by
    rw [h.calls_eq, List.getElem?_append_right hindex] at hcall
    exact List.mem_of_getElem? hcall
  have hanswer : call.answer? = none := by
    cases call <;> first | rfl | cases hunfinished
  obtain ⟨next, site, hpart, -⟩ := system.site.exists_part (h.requested call hfresh) hanswer
  exact ⟨_, step?_eq_some_iff.mpr (.inr (.inr (.inr
    ⟨index, [], call, next, site, rfl, hcall, hpart, rfl⟩)))⟩

theorem count_eq (h : Rushing config client admitted unread first fresh count system)
    (hfinished : ∀ call ∈ fresh, call.isFinished = true) : count = fresh.length := by
  have hjudged : (fresh.filterMap Call.judged?).length = fresh.length := by
    rw [List.length_filterMap_eq_countP, List.countP_eq_length]
    exact fun call hmem => Call.isSome_judged? (h.requested call hmem) (hfinished call hmem)
  rw [← hjudged, h.judged.length_eq, List.length_map, Window.length_verdicts]

theorem answers_perm (h : Rushing config client admitted unread first fresh count system)
    (hfinished : ∀ call ∈ fresh, call.isFinished = true) :
    (fresh.filterMap Call.answer?).Perm
      (Window.verdicts (Window.room first.site.time.reading config.limit config.span admitted)
        count) := by
  have hanswers : fresh.filterMap Call.answer? =
      (fresh.filterMap Call.judged?).map fun judgement => judgement.2.2 := by
    rw [List.map_filterMap]
    exact List.filterMap_congr fun call hmem => Call.answer?_of_isFinished (hfinished call hmem)
  have hperm := h.judged.map fun judgement => judgement.2.2
  rw [List.map_map, ← hanswers] at hperm
  exact hperm.trans (.of_eq (List.map_id' _))

theorem decided_perm (h : Rushing config client admitted unread first fresh count system)
    (hfinished : ∀ call ∈ fresh, call.isFinished = true) :
    (fresh.filterMap Call.decided?).Perm
      ((Window.verdicts (Window.room first.site.time.reading config.limit config.span admitted)
        count).map (Decision.made first.site.time.reading)) := by
  have hdecided : fresh.filterMap Call.decided? =
      (fresh.filterMap Call.judged?).map fun judgement => .made judgement.2.1 judgement.2.2 := by
    rw [List.map_filterMap]
    exact List.filterMap_congr fun call hmem => Call.decided?_of_isFinished (hfinished call hmem)
  have hperm := h.judged.map fun judgement => Decision.made judgement.2.1 judgement.2.2
  rw [List.map_map, ← hdecided] at hperm
  exact hperm

theorem settled (h : Rushing config client admitted unread first fresh count system)
    (hspan : 0 < config.span) (hfinished : ∀ call ∈ fresh, call.isFinished = true) :
    let live := Window.live first.site.time.reading config.span admitted
    Settled client live (min count (config.limit - live.length))
      (count - (config.limit - live.length)) first system := by
  intro live
  have hanswers := h.answers_perm hfinished
  rw [Window.verdicts_eq] at hanswers
  exact {
    answers_perm := h.drop_calls.symm ▸ hanswers
    window_eq := by
      have hcount : min count (config.limit - live.length) +
          (count - (config.limit - live.length)) = count := by omega
      rw [h.window_eq, windowAfter, hcount, Window.live_crowded hspan]
      rfl
    allowed_eq := by
      rw [h.allowed_eq, hanswers.count_eq]
      simp [Window.room, live, List.count_replicate]
    denied_eq := by
      rw [h.denied_eq, hanswers.count_eq]
      simp [Window.room, live, List.count_replicate] }

theorem harvest_perm (h : Rushing config client admitted [] first fresh count system)
    (hfinished : ∀ call ∈ fresh, call.isFinished = true)
    (hroom : count ≤ (system.site.controller.ring client).capacity) :
    (system.site.controller.ring client).harvest.1.events.Perm
      ((Window.verdicts (Window.room first.site.time.reading config.limit config.span admitted)
        count).map (Decision.made first.site.time.reading)) := by
  obtain ⟨recorded, hrecorded, hawaits⟩ := h.awaits
  have hperm := hrecorded.trans (h.decided_perm hfinished)
  have hlength : recorded.length = count := by
    rw [hperm.length_eq, List.length_map, Window.length_verdicts]
  have hall : recorded.rtake (system.site.controller.ring client).capacity = recorded := by
    rw [List.rtake, Nat.sub_eq_zero_of_le (hlength ▸ hroom), List.drop_zero]
  have hkept : recorded.map Decision.kept = recorded := by
    apply (List.map_congr_left ?_).trans (List.map_id _)
    intro decision hmem
    obtain ⟨allowed, -, rfl⟩ := List.mem_map.mp (hperm.mem_iff.mp hmem)
    exact Decision.ofWord_toWord_made ..
  rw [hawaits.harvest_fst, List.nil_append, hall, hkept]
  exact hperm

end Rushing

/-- A rush may begin in any state that a site can be in. -/
theorem Accounted.rushing {config : AdmissionConfig} {receive : Receiver σ} {sink : σ}
    {first : System σ} {ledger : Ledger} (h : Accounted config receive sink first ledger)
    (client : String) :
    Rushing config client (Window.admissions (ledger.judgedOf client))
      ((ledger.recordedOf client).drop (first.site.controller.ring client).read) first [] 0
      first := by
  have hlatest : ∀ reading ∈ (ledger.judgedOf client).map Prod.fst,
      reading ≤ first.site.time.reading := by
    intro reading hmem
    obtain ⟨judgement, hjudgement, rfl⟩ := List.mem_map.mp hmem
    obtain ⟨request, hrequest, hsame⟩ := List.mem_filterMap.mp hjudgement
    simp only [Option.ite_none_right_eq_some, Option.some.injEq] at hsame
    exact hsame.2 ▸ h.admitting.latest request hrequest
  exact .start
    ((h.admitting.judged client).remembers (h.admitting.pairwise_judgedOf client) hlatest)
    ⟨_, h.balanced.rings client, rfl⟩

/-- Requests that many threads make of one client while the clock stands still always come to
their answers, and in whatever order they go on, as many of them are admitted as the limit has
left room for and no more. The window, the totals and, as long as the ring has room, the
decisions that the next flush offers follow from the number of requests alone. -/
theorem simultaneous_admissions_eq_room {config : AdmissionConfig} (valid : config.Valid)
    (receive : Receiver σ) (sink : σ) (time : TimeSource) {before : List Move} {first : System σ}
    (hrun : (start config valid receive sink time).run? before = some first) (client : String)
    (shares : List Nat) :
    let reading := first.site.time.reading
    let live := Window.live reading config.span
      (Window.admissions ((ledger (start config valid receive sink time) before).judgedOf client))
    let admitted := min shares.sum (config.limit - live.length)
    let denied := shares.sum - admitted
    (∀ moves last, Rush client shares first moves last →
      moves.length ≤ 6 * shares.sum ∧
        ∀ index call, first.calls.length ≤ index → last.calls[index]? = some call →
          call.isFinished = false → ∃ after, step? last (.part index []) = some after) ∧
      ∀ moves last, RushOver client shares first moves last →
        Settled client live admitted denied first last ∧
          (∃ later flushed, FlushedNext last later flushed) ∧
          (∀ later flushed, FlushedNext last later flushed →
            Sent receive last.site.sink flushed (ledger last (.flush :: later))) ∧
          (first.site.controller.pending client = 0 → shares.sum ≤ config.capacity →
            ∀ later flushed, FlushedNext last later flushed →
              ((ledger last (.flush :: later)).offeredTo client).Perm
                (List.replicate admitted ⟨min reading Decision.maxTime, true⟩ ++
                  List.replicate denied ⟨min reading Decision.maxTime, false⟩)) := by
  intro reading live admitted denied
  have haccounted := accounted_of_run hrun
  have hfirst := haccounted.rushing client
  refine ⟨fun moves last hrush => ?_, fun moves last hover => ?_⟩
  · obtain ⟨fresh, count, hrushing, -, hahead⟩ := hrush.exists_rushing hrun hfirst
    have hcount := hrush.count_le
    exact ⟨by omega, fun index call => hrushing.exists_step⟩
  · obtain ⟨fresh, count, hrushing, hlength, -⟩ := hover.toRush.exists_rushing hrun hfirst
    have hfinished : ∀ call ∈ fresh, call.isFinished = true :=
      hrushing.drop_calls ▸ hover.isFinished
    obtain rfl : count = shares.sum :=
      (hrushing.count_eq hfinished).trans (hlength.trans hover.count_eq)
    have hdenied : denied = shares.sum - (config.limit - live.length) := by omega
    have hwhole := Steps.run?_append_of_run? hrun hover.run
    have hreceive : last.site.receive = receive := (accounted_of_run hwhole).sent.receive_eq
    refine ⟨hdenied ▸ hrushing.settled valid.span_pos hfinished, last.exists_flushedNext,
      fun later flushed hflushed => hreceive ▸ hflushed.sent,
      fun hpending hroom later flushed hflushed => ?_⟩
    have hawaits : (first.site.controller.ring client).Awaits _ :=
      ⟨_, haccounted.balanced.rings client, rfl⟩
    rw [Controller.pending_eq] at hpending
    rw [hawaits.eq_nil_of_pending hpending] at hrushing
    have hcapacity := capacity_of_run hwhole client
    have hoffered := hrushing.harvest_perm hfinished (hcapacity.symm ▸ hroom)
    rw [Window.verdicts_eq, List.map_append, List.map_replicate, List.map_replicate,
      ← hflushed.offeredTo_eq] at hoffered
    exact hdenied ▸ hoffered

def crowded : System Unit :=
  start ⟨2, .ofParts 0 10, 4⟩ (by decide) (fun _ _ _ => (⟨.delivered, []⟩, ())) ()
    (.manual ⟨0, Nat.zero_le _⟩)

def earlierMoves : List Move :=
  [.request "a", .part 0 [], .part 0 [], .part 0 [], .part 0 [], .part 0 [],
    .flush, .part 1 ["a"], .part 1 [], .part 1 [], .part 1 [], .part 1 [], .clock (.set 5)]

/-- The request that is judged first is overtaken by the two that are denied. -/
def overtakingMoves : List Move :=
  [.request "a", .request "a", .part 2 [], .part 3 [], .part 3 [], .part 2 [], .part 2 [],
    .part 2 [], .request "a", .part 4 [], .part 4 [], .part 4 [], .part 4 [], .part 3 [],
    .part 3 []]

def nextFlush : List Move :=
  [.part 5 ["a"], .part 5 [], .part 5 [], .part 5 [], .part 5 [], .part 5 [], .part 5 []]

theorem simultaneous_admissions_eq_room_overtakingMoves :
    ∃ first last flushed, crowded.run? earlierMoves = some first ∧
      RushOver "a" [2, 1] first overtakingMoves last ∧ FlushedNext last nextFlush flushed ∧
      Settled "a" [0] 1 2 first last ∧
      Sent crowded.site.receive last.site.sink flushed (ledger last (.flush :: nextFlush)) ∧
      ((ledger last (.flush :: nextFlush)).offeredTo "a").Perm
        [⟨5, true⟩, ⟨5, false⟩, ⟨5, false⟩] := by
  obtain ⟨first, last, flushed, hrun, hover, hflushed, hpending⟩ :
      ∃ first last flushed, crowded.run? earlierMoves = some first ∧
        RushOver "a" [2, 1] first overtakingMoves last ∧ FlushedNext last nextFlush flushed ∧
        first.site.controller.pending "a" = 0 :=
    ⟨_, _, _, rfl, ⟨⟨rfl, by decide, by decide⟩, rfl, by decide⟩,
      ⟨rfl, by decide, ⟨_, rfl⟩⟩, rfl⟩
  obtain ⟨hsettled, -, hsent, hoffered⟩ := (simultaneous_admissions_eq_room (by decide) _ ()
    (.manual ⟨0, Nat.zero_le _⟩) hrun "a" [2, 1]).2 _ _ hover
  exact ⟨first, last, flushed, hrun, hover, hflushed, by cases hrun; exact hsettled,
    hsent _ _ hflushed, by cases hrun; exact hoffered hpending (by decide) _ _ hflushed⟩

end System

end Turnstile.Site
