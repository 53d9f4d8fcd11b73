import Turnstile.Proofs.Site.Calls
import Turnstile.Site.Machine

/-!
What becomes of the totals of a flush in words of 64 bits. They are the exact ones, whatever the
arithmetic, unless a flush comes to as many clients or decisions as words can count.
-/

namespace Turnstile

/-- What sums of no more than `bound` lead to: the exact value, one that has wrapped around, or an
overflow. -/
inductive Summed (arithmetic : Arithmetic) (bound : Nat) (exact : α) : Except Ring.Fault α → Prop
  | exact : Summed arithmetic bound exact (.ok exact)
  | wrapped (value : α) (harithmetic : arithmetic = .wrapping) (hbound : UInt64.size ≤ bound) :
      Summed arithmetic bound exact (.ok value)
  | overflow (left right : Nat) (harithmetic : arithmetic = .checked)
      (hsize : UInt64.size ≤ left + right) (hbound : left + right ≤ bound) :
      Summed arithmetic bound exact (.error (.overflow left right))

namespace Summed

variable {arithmetic : Arithmetic} {bound : Nat}

theorem add? {left right : Nat} (hbound : left + right ≤ bound) :
    Summed arithmetic bound (left + right) (arithmetic.add? left right) := by
  rcases Nat.lt_or_ge (left + right) UInt64.size with hfits | hsize
  · cases arithmetic with
    | checked =>
        rw [Arithmetic.add?, Ring.add?_eq hfits]
        exact .exact
    | wrapping =>
        rw [Arithmetic.add?, Nat.mod_eq_of_lt hfits]
        exact .exact
  · cases arithmetic with
    | checked =>
        rw [Arithmetic.add?, Ring.add?, if_neg (Nat.not_lt.mpr hsize)]
        exact .overflow left right rfl hsize hbound
    | wrapping => exact .wrapped _ rfl (Nat.le_trans hsize hbound)

theorem bind {value : α} {result : Except Ring.Fault α} {f : α → β}
    {next : α → Except Ring.Fault β} (h : Summed arithmetic bound value result)
    (hnext : ∀ value, Summed arithmetic bound (f value) (next value)) :
    Summed arithmetic bound (f value) (result >>= next) := by
  cases h with
  | exact => exact hnext value
  | wrapped other harithmetic hbound =>
      have hother := hnext other
      change Summed arithmetic bound (f value) (next other)
      cases hlast : next other with
      | ok last => exact .wrapped last harithmetic hbound
      | error fault =>
          rw [hlast] at hother
          cases hother with
          | overflow left right hchecked _ _ => cases harithmetic.symm.trans hchecked
  | overflow left right harithmetic hsize hbound =>
      exact .overflow left right harithmetic hsize hbound

variable {report : FlushReport} {dropped delivered : Nat} {offering : Offering}

theorem addHarvest? (hclients : report.clients + 1 ≤ bound)
    (hdropped : report.dropped + dropped ≤ bound)
    (hdelivered : report.delivered + delivered ≤ bound) :
    Summed arithmetic bound
      { report with
        clients := report.clients + 1
        dropped := report.dropped + dropped
        delivered := report.delivered + delivered }
      (report.addHarvest? arithmetic dropped delivered) := by
  refine .bind (f := fun clients => { report with
    clients, dropped := report.dropped + dropped, delivered := report.delivered + delivered })
    (.add? hclients) fun clients => ?_
  refine .bind (f := fun dropped =>
    { report with clients, dropped, delivered := report.delivered + delivered })
    (.add? hdropped) fun dropped => ?_
  exact .bind (f := fun delivered => { report with clients, dropped, delivered })
    (.add? hdelivered) fun _ => .exact

theorem addClient? (hclients : report.clients + 1 ≤ bound)
    (hdropped : report.dropped + dropped ≤ bound)
    (hdelivered : report.delivered + offering.delivered ≤ bound)
    (hfailures : report.failures + offering.failures ≤ bound) :
    Summed arithmetic bound (report.addClient dropped offering)
      (report.addClient? arithmetic dropped offering) := by
  refine .bind (f := fun harvested =>
    { harvested with failures := report.failures + offering.failures })
    (.addHarvest? hclients hdropped hdelivered) fun harvested => ?_
  exact .bind (f := fun failures => { harvested with failures }) (.add? hfailures)
    fun _ => .exact

end Summed

namespace Site

namespace Call

def drained : Call → Nat
  | .visiting _ report | .reported report => report.clients
  | .offering _ _ _ _ _ report => report.clients + 1
  | .finding _ | .entering _ | .judging _ | .recording .. | .counting .. | .answered ..
  | .listing => 0

def largest (call : Call) : Nat := max call.drained call.harvested

/-- What a call comes to, and the thread that makes it, once the sums of its report are taken. -/
inductive Settles (arithmetic : Arithmetic) : Call → Task → Prop
  | same (next : Call) : Settles arithmetic next (.free next)
  | wrapped (clients : List String) (exact report : FlushReport)
      (harithmetic : arithmetic = .wrapping)
      (hsize : UInt64.size ≤ (Call.visiting clients exact).largest) :
      Settles arithmetic (.visiting clients exact) (.free (.visiting clients report))
  | overflow (next : Call) (left right : Nat) (harithmetic : arithmetic = .checked)
      (hsize : UInt64.size ≤ left + right) (hbound : left + right ≤ next.largest) :
      Settles arithmetic next (.halted (.overflow left right))

theorem Settles.offering (arithmetic : Arithmetic) (client : String) (dropped : Nat)
    (decisions : List Decision) (outcome : Offering) (clients : List String)
    (report : FlushReport) :
    Settles arithmetic (.offering client dropped decisions outcome clients report)
      (.ofResult ((report.addHarvest? arithmetic dropped outcome.delivered).map fun _ =>
        .offering client dropped decisions outcome clients report)) := by
  let call : Call := .offering client dropped decisions outcome clients report
  have hclients : report.clients + 1 ≤ call.largest := Nat.le_max_left ..
  have hall : report.total + dropped + (outcome.delivered + outcome.failures) ≤ call.largest := by
    rw [← FlushReport.total_addClient]
    exact Nat.le_trans (Nat.le_add_right _ decisions.length) (Nat.le_max_right ..)
  simp only [FlushReport.total] at hall
  have hdelivered : report.delivered + outcome.delivered ≤ call.largest := by omega
  have hsummed : Summed arithmetic call.largest _ (report.addHarvest? arithmetic dropped _) :=
    .addHarvest? hclients (by omega) hdelivered
  generalize report.addHarvest? arithmetic dropped outcome.delivered = result at hsummed ⊢
  cases hsummed with
  | exact => exact .same call
  | wrapped _ _ _ => exact .same call
  | overflow left right harithmetic hsize hbound =>
      exact .overflow call left right harithmetic hsize hbound

theorem Settles.visiting (arithmetic : Arithmetic) (dropped : Nat) (outcome : Offering)
    (clients : List String) (report : FlushReport) :
    Settles arithmetic (.visiting clients (report.addClient dropped outcome))
      (.ofResult ((report.addClient? arithmetic dropped outcome).map (.visiting clients))) := by
  let call : Call := .visiting clients (report.addClient dropped outcome)
  have hclients : report.clients + 1 ≤ call.largest := Nat.le_max_left ..
  have hall : report.total + dropped + (outcome.delivered + outcome.failures) ≤ call.largest := by
    rw [← FlushReport.total_addClient]
    exact Nat.le_max_right ..
  simp only [FlushReport.total] at hall
  have hsummed : Summed arithmetic call.largest _ (report.addClient? arithmetic dropped outcome) :=
    .addClient? hclients (by omega) (by omega) (by omega)
  generalize report.addClient? arithmetic dropped outcome = result at hsummed ⊢
  cases hsummed with
  | exact => exact .same call
  | wrapped value harithmetic hsize => exact .wrapped clients _ value harithmetic hsize
  | overflow left right harithmetic hsize hbound =>
      exact .overflow call left right harithmetic hsize hbound

theorem Settles.eq_free {arithmetic : Arithmetic} {next : Call} {task : Task}
    (h : Settles arithmetic next task) (hfits : next.largest < UInt64.size) :
    task = .free next := by
  cases h with
  | same => rfl
  | wrapped _ _ _ _ hsize => exact absurd hsize (Nat.not_le.mpr hfits)
  | overflow _ left right _ hsize hbound =>
      exact absurd (Nat.le_trans hsize hbound) (Nat.not_le.mpr hfits)

end Call

theorem settles_part {order : List String} {site after : Site σ} {call next : Call}
    (hpart : site.part? order call = some (next, after)) (arithmetic : Arithmetic) :
    Call.Settles arithmetic next (.ofResult (call.totalled? arithmetic next)) := by
  cases part_of_some hpart with
  | drain hfull => exact .offering ..
  | offer => exact .offering ..
  | account => exact .visiting ..
  | found | missed | enter | judge | record | count | list | skip | report => exact .same _

end Site

end Turnstile
