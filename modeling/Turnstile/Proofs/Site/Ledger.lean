import Turnstile.Proofs.Controller
import Turnstile.Proofs.History
import Turnstile.Site.System

/-!
What has happened at a site, beyond what its state still shows: which states
were made for clients, which requests were judged, which decisions were
recorded, and which were offered to the sink.
-/

namespace Turnstile.Site

/-- A decision handed to the sink, with its number among its client's decisions. -/
structure Offer where
  client : String
  number : Nat
  decision : Decision
  deriving DecidableEq

def Call.records : Call → List (String × Decision)
  | .recording client reading allowed => [(client, .made reading allowed)]
  | .finding _ | .entering _ | .judging _ | .counting .. | .answered .. | .listing | .visiting ..
  | .offering .. | .reported _ => []

structure Ledger where
  created : List String := []
  /-- Client, reading and answer of each request, in the order of judgement. -/
  judged : List (String × Nat × Bool) := []
  recorded : List (String × Decision) := []
  /-- The number of the decision that a flush offers next, by the place of its call. -/
  upcoming : Nat → Nat := fun _ => 0
  offers : List Offer := []

namespace Ledger

def judgedOf (ledger : Ledger) (client : String) : List (Nat × Bool) :=
  ledger.judged.filterMap fun request =>
    if request.1 = client then some request.2 else none

def recordedOf (ledger : Ledger) (client : String) : List Decision :=
  ledger.recorded.filterMap fun entry => if entry.1 = client then some entry.2 else none

def setUpcoming (ledger : Ledger) (index number : Nat) : Ledger :=
  { ledger with
    upcoming := fun other => if other = index then number else ledger.upcoming other }

def offer (ledger : Ledger) (index : Nat) (client : String) (decision : Decision) : Ledger :=
  let offer : Offer := ⟨client, ledger.upcoming index, decision⟩
  { ledger with offers := ledger.offers ++ [offer] }.setUpcoming index (offer.number + 1)

def add (ledger : Ledger) (site : Site σ) (index : Nat) : Call → Ledger
  | .entering client =>
      if site.controller.knows client then ledger
      else { ledger with created := ledger.created ++ [client] }
  | .judging client =>
      let reading := site.time.reading
      { ledger with
        judged := ledger.judged ++
          [(client, reading, (site.controller.judge reading client).1)] }
  | .recording client reading allowed =>
      { ledger with recorded := ledger.recorded ++ [(client, .made reading allowed)] }
  | .visiting (client :: _) _ =>
      ledger.setUpcoming index
        ((ledger.recordedOf client).length - (site.controller.drain client).1.events.length)
  | .offering client _ (decision :: _) _ _ _ => ledger.offer index client decision
  | .finding _ | .counting .. | .answered .. | .listing | .visiting [] _
  | .offering _ _ [] _ _ _ | .reported _ => ledger

theorem exists_add_entering (ledger : Ledger) (site : Site σ) (index : Nat) (client : String) :
    ∃ created, ledger.add site index (.entering client) = { ledger with created } := by
  simp only [add]
  split
  · exact ⟨ledger.created, rfl⟩
  · exact ⟨ledger.created ++ [client], rfl⟩

theorem recorded_add (ledger : Ledger) (site : Site σ) (index : Nat) (call : Call) :
    (ledger.add site index call).recorded = ledger.recorded ++ call.records := by
  cases call with
  | entering client =>
      obtain ⟨created, hadd⟩ := ledger.exists_add_entering site index client
      rw [hadd]
      exact (List.append_nil _).symm
  | recording client reading allowed => rfl
  | visiting clients report => cases clients <;> exact (List.append_nil _).symm
  | offering client dropped decisions outcome clients report =>
      cases decisions <;> exact (List.append_nil _).symm
  | _ => exact (List.append_nil _).symm

theorem setUpcoming_of_ne (ledger : Ledger) {index other : Nat} (number : Nat)
    (hne : other ≠ index) :
    (ledger.setUpcoming index number).upcoming other = ledger.upcoming other :=
  if_neg hne

theorem setUpcoming_self (ledger : Ledger) (index number : Nat) :
    (ledger.setUpcoming index number).upcoming index = number :=
  if_pos rfl

theorem judgedOf_judge (ledger : Ledger) (client other : String) (reading : Nat)
    (allowed : Bool) :
    { ledger with judged := ledger.judged ++ [(client, reading, allowed)] }.judgedOf other =
      if client = other then ledger.judgedOf other ++ [(reading, allowed)]
      else ledger.judgedOf other := by
  simp only [judgedOf, List.filterMap_append]
  split <;> simp_all

theorem recordedOf_record (ledger : Ledger) (client other : String) (decision : Decision) :
    { ledger with recorded := ledger.recorded ++ [(client, decision)] }.recordedOf other =
      if client = other then ledger.recordedOf other ++ [decision]
      else ledger.recordedOf other := by
  simp only [recordedOf, List.filterMap_append]
  split <;> simp_all

end Ledger

namespace System

def start (config : AdmissionConfig) (valid : config.Valid) (receive : Receiver σ) (sink : σ)
    (time : TimeSource) : System σ where
  site := { controller := .ofConfig config valid, receive, sink, time }

def note (system : System σ) (move : Move) (ledger : Ledger) : Ledger :=
  match move with
  | .part index _ =>
      match system.calls[index]? with
      | some call => ledger.add system.site index call
      | none => ledger
  | .request _ | .flush | .clock _ => ledger

def ledger (first : System σ) (moves : List Move) : Ledger :=
  Steps.history step? note {} first moves

theorem ledger_concat {first system after : System σ} {before : List Move} {move : Move}
    (hbefore : first.run? before = some system) (hstep : step? system move = some after) :
    ledger first (before ++ [move]) = note system move (ledger first before) :=
  Steps.history_concat ({} : Ledger) hbefore hstep

theorem step?_eq_some_iff {before after : System σ} {move : Move} :
    step? before move = some after ↔
      (∃ client, move = .request client ∧
          after = { before with calls := before.calls ++ [.finding client] }) ∨
        (move = .flush ∧ after = { before with calls := before.calls ++ [.listing] }) ∨
        (∃ step, move = .clock step ∧ after = { before with site := before.site.move step }) ∨
        ∃ index order call next site, move = .part index order ∧
          before.calls[index]? = some call ∧
          before.site.part? order call = some (next, site) ∧
          after = { site, calls := before.calls.set index next } := by
  cases move with
  | request client => simp [step?, eq_comm]
  | flush => simp [step?, eq_comm]
  | clock step => simp [step?, eq_comm]
  | part index order =>
      simp only [step?, Option.bind_eq_bind, Option.bind_eq_some_iff, Option.pure_def,
        Option.some.injEq, Prod.exists, reduceCtorEq, false_and, exists_false, false_or,
        Move.part.injEq]
      constructor
      · rintro ⟨call, hcall, next, site, hpart, rfl⟩
        exact ⟨index, order, call, next, site, ⟨rfl, rfl⟩, hcall, hpart, rfl⟩
      · rintro ⟨_, _, call, next, site, ⟨rfl, rfl⟩, hcall, hpart, rfl⟩
        exact ⟨call, hcall, next, site, hpart, rfl⟩

theorem note_part {system : System σ} {index : Nat} {order : List String} {call : Call}
    (hcall : system.calls[index]? = some call) (ledger : Ledger) :
    note system (.part index order) ledger = ledger.add system.site index call := by
  simp only [note, hcall]

end System

end Turnstile.Site
