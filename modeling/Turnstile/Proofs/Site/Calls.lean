import Turnstile.Lists
import Turnstile.Site.System

/-! What the calls at a site show of themselves, and what one of them changes. -/

namespace Turnstile

def FlushReport.total (report : FlushReport) : Nat :=
  report.delivered + report.failures + report.dropped

theorem FlushReport.total_addClient (report : FlushReport) (dropped : Nat) (outcome : Offering) :
    (report.addClient dropped outcome).total =
      report.total + dropped + (outcome.delivered + outcome.failures) := by
  simp only [total, addClient]
  omega

theorem Offering.delivered_add_failures_add (client : String) (outcome : Offering)
    (receipt : Receipt) :
    (outcome.add client receipt).delivered + (outcome.add client receipt).failures =
      outcome.delivered + outcome.failures + 1 := by
  unfold add
  split <;> simp only <;> omega

namespace Site

namespace Call

def requested? : Call → Option String
  | .finding client | .entering client | .judging client | .recording client _ _
  | .counting client _ _ | .answered client _ _ => some client
  | .listing | .visiting .. | .offering .. | .reported _ => none

def entered? : Call → Option String
  | .judging client | .recording client _ _ | .counting client _ _
  | .answered client _ _ => some client
  | .finding _ | .entering _ | .listing | .visiting .. | .offering .. | .reported _ => none

def judged? : Call → Option (String × Nat × Bool)
  | .recording client reading allowed | .counting client reading allowed
  | .answered client reading allowed => some (client, reading, allowed)
  | .finding _ | .entering _ | .judging _ | .listing | .visiting .. | .offering ..
  | .reported _ => none

/-- A judgement by which a client is admitted, at a reading in the span that begins at `start`. -/
def grantsWithin (client : String) (start span : Nat) (judgement : String × Nat × Bool) : Bool :=
  judgement.1 == client && judgement.2.2 &&
    (start ≤ judgement.2.1 && judgement.2.1 < start + span)

def admittedWithin (client : String) (start span : Nat) (call : Call) : Bool :=
  call.judged?.any (grantsWithin client start span)

def isSeeking : Call → Bool
  | .finding _ | .entering _ => true
  | _ => false

theorem entered?_eq_requested? {call : Call} (h : call.isSeeking = false) :
    call.entered? = call.requested? := by
  cases call <;> first | rfl | cases h

/-! What a call has done with decisions. -/

def written : Call → Nat
  | .counting .. | .answered .. => 1
  | .finding _ | .entering _ | .judging _ | .recording .. | .listing | .visiting ..
  | .offering .. | .reported _ => 0

def harvested : Call → Nat
  | .visiting _ report | .reported report => report.total
  | .offering _ dropped decisions outcome _ report =>
      (report.addClient dropped outcome).total + decisions.length
  | .finding _ | .entering _ | .judging _ | .recording .. | .counting .. | .answered ..
  | .listing => 0

def answer? : Call → Option Bool
  | .answered _ _ allowed => some allowed
  | _ => none

def report? : Call → Option FlushReport
  | .reported report => some report
  | _ => none

def isRequest (call : Call) : Bool := call.requested?.isSome

def isFinished (call : Call) : Bool := call.answer?.isSome || call.report?.isSome

theorem written_of_isFinished {call : Call} (h : call.isFinished = true) :
    call.written = call.isRequest.toNat := by
  cases call <;> first | rfl | cases h

theorem harvested_of_isFinished {call : Call} (h : call.isFinished = true) :
    call.harvested = (call.report?.map FlushReport.total).getD 0 := by
  cases call <;> first | rfl | cases h

theorem harvested_offering (client : String) (dropped : Nat) (decision : Decision)
    (decisions : List Decision) (outcome : Offering) (clients : List String)
    (report : FlushReport) (receipt : Receipt) :
    (offering client dropped decisions (outcome.add client receipt) clients report).harvested =
      (offering client dropped (decision :: decisions) outcome clients report).harvested := by
  have hadd := outcome.delivered_add_failures_add client receipt
  simp only [harvested, FlushReport.total_addClient, List.length_cons]
  omega

/-- How many parts a request has before it. -/
def ahead : Call → Nat
  | .finding _ => 5
  | .entering _ => 4
  | .judging _ => 3
  | .recording .. => 2
  | .counting .. => 1
  | .answered .. | .listing | .visiting .. | .offering .. | .reported _ => 0

end Call

/-- What a part of a call can be. -/
inductive Part (order : List String) (site : Site σ) : Call → Call → Site σ → Prop
  | found {client : String} (hknows : site.controller.knows client = true) :
      Part order site (.finding client) (.judging client) site
  | missed {client : String} (hknows : site.controller.knows client = false) :
      Part order site (.finding client) (.entering client) site
  | enter {client : String} :
      Part order site (.entering client) (.judging client)
        { site with controller := site.controller.track client }
  | judge {client : String} :
      Part order site (.judging client)
        (.recording client site.time.reading (site.controller.judge site.time.reading client).1)
        { site with controller := (site.controller.judge site.time.reading client).2 }
  | record {client : String} {reading : Nat} {allowed : Bool} :
      Part order site (.recording client reading allowed) (.counting client reading allowed)
        { site with controller := site.controller.record client (.made reading allowed) }
  | count {client : String} {reading : Nat} {allowed : Bool} :
      Part order site (.counting client reading allowed) (.answered client reading allowed)
        { site with controller := site.controller.count allowed }
  | list (horder : order.Perm site.controller.clients.names) :
      Part order site .listing (.visiting order {}) site
  | skip {client : String} {clients : List String} {report : FlushReport}
      (hempty : (site.controller.drain client).1.isEmpty = true) :
      Part order site (.visiting (client :: clients) report) (.visiting clients report)
        { site with controller := (site.controller.drain client).2 }
  | drain {client : String} {clients : List String} {report : FlushReport}
      (hfull : ¬ (site.controller.drain client).1.isEmpty = true) :
      Part order site (.visiting (client :: clients) report)
        (.offering client (site.controller.drain client).1.dropped
          (site.controller.drain client).1.events {} clients report)
        { site with controller := (site.controller.drain client).2 }
  | offer {client : String} {dropped : Nat} {decision : Decision} {decisions : List Decision}
      {outcome : Offering} {clients : List String} {report : FlushReport} :
      Part order site (.offering client dropped (decision :: decisions) outcome clients report)
        (.offering client dropped decisions
          (outcome.add client (site.receive site.sink client decision).1) clients report)
        { site with sink := (site.receive site.sink client decision).2 }
  | account {client : String} {dropped : Nat} {outcome : Offering} {clients : List String}
      {report : FlushReport} :
      Part order site (.offering client dropped [] outcome clients report)
        (.visiting clients (report.addClient dropped outcome))
        { site with
          controller := site.controller.emitAll
            (outcome.account client dropped site.controller.config.capacity) }
  | report {report : FlushReport} :
      Part order site (.visiting [] report) (.reported report)
        { site with controller := site.controller.countFlush report }

theorem part_of_some {order : List String} {site after : Site σ} {call next : Call}
    (h : site.part? order call = some (next, after)) : Part order site call next after := by
  cases call with
  | finding client =>
      simp only [part?] at h
      split at h <;> cases h
      · exact .found ‹_›
      · exact .missed (Bool.eq_false_iff.mpr ‹_›)
  | entering client =>
      cases h
      exact .enter
  | judging client =>
      cases h
      exact .judge
  | recording client reading allowed =>
      cases h
      exact .record
  | counting client reading allowed =>
      cases h
      exact .count
  | answered client reading allowed => cases h
  | listing =>
      simp only [part?] at h
      split at h <;> cases h
      exact .list (List.isPerm_iff.mp ‹_›)
  | visiting clients report =>
      cases clients with
      | nil =>
          cases h
          exact .report
      | cons client clients =>
          simp only [part?] at h
          split at h <;> cases h
          · exact .skip ‹_›
          · exact .drain ‹_›
  | offering client dropped decisions outcome clients report =>
      cases decisions with
      | nil =>
          cases h
          exact .account
      | cons decision decisions =>
          cases h
          exact .offer
  | reported report => cases h

theorem exists_part (site : Site σ) {call : Call} {client : String}
    (hclient : call.requested? = some client) (hanswer : call.answer? = none) :
    ∃ next after, site.part? [] call = some (next, after) ∧ next.ahead < call.ahead := by
  cases call with
  | finding client =>
      simp only [part?]
      split <;> exact ⟨_, _, rfl, by simp only [Call.ahead]; omega⟩
  | entering client => exact ⟨_, _, rfl, Nat.lt_succ_self 3⟩
  | judging client => exact ⟨_, _, rfl, Nat.lt_succ_self 2⟩
  | recording client reading allowed => exact ⟨_, _, rfl, Nat.lt_succ_self 1⟩
  | counting client reading allowed => exact ⟨_, _, rfl, Nat.lt_succ_self 0⟩
  | answered client reading allowed => cases hanswer
  | listing => cases hclient
  | visiting clients report => cases hclient
  | offering client dropped decisions offering clients report => cases hclient
  | reported report => cases hclient

/-- A part of a request brings it nearer to its answer, and leaves its client as it is. -/
theorem part_of_requested {order : List String} {site after : Site σ} {call next : Call}
    {client : String} (hclient : call.requested? = some client)
    (hpart : site.part? order call = some (next, after)) :
    next.requested? = some client ∧ next.ahead < call.ahead := by
  cases part_of_some hpart with
  | found hknows => exact ⟨hclient, by simp only [Call.ahead]; omega⟩
  | missed hknows => exact ⟨hclient, Nat.lt_succ_self 4⟩
  | enter => exact ⟨hclient, Nat.lt_succ_self 3⟩
  | judge => exact ⟨hclient, Nat.lt_succ_self 2⟩
  | record => exact ⟨hclient, Nat.lt_succ_self 1⟩
  | count => exact ⟨hclient, Nat.lt_succ_self 0⟩
  | list horder => cases hclient
  | skip hempty => cases hclient
  | drain hfull => cases hclient
  | offer => cases hclient
  | account => cases hclient
  | report => cases hclient

end Site

end Turnstile
