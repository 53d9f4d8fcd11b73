import Mathlib.Data.List.Perm.Subperm
import Turnstile.Proofs.Site.Balance

/-!
Which decisions are offered to the sink. A drain hands a flush decisions that
no drain before it had reached, and a flush offers each of them once; so the
number of a decision among those of its client never comes up twice.
-/

namespace Turnstile.Site

def Offer.key (offer : Offer) : String × Nat := (offer.client, offer.number)

def Offer.numbered (client : String) (number : Nat) (decisions : List Decision) : List Offer :=
  (decisions.zipIdx number).map fun entry => ⟨client, entry.2, entry.1⟩

theorem Offer.mem_numbered {client : String} {number : Nat} {decisions : List Decision}
    {offer : Offer} :
    offer ∈ numbered client number decisions ↔
      offer.client = client ∧ number ≤ offer.number ∧
        decisions[offer.number - number]? = some offer.decision := by
  simp only [numbered, List.mem_map, List.mem_zipIdx_iff_le_and_getElem?_sub]
  constructor
  · rintro ⟨⟨decision, place⟩, ⟨hle, hdecision⟩, rfl⟩
    exact ⟨rfl, hle, hdecision⟩
  · rintro ⟨rfl, hle, hdecision⟩
    exact ⟨(offer.decision, offer.number), ⟨hle, hdecision⟩, rfl⟩

theorem Offer.nodup_numbered (client : String) (number : Nat) (decisions : List Decision) :
    ((numbered client number decisions).map key).Nodup := by
  have hkeys : (numbered client number decisions).map key =
      (List.range' number decisions.length).map fun place => (client, place) := by
    rw [← List.zipIdx_map_snd, numbered, List.map_map, List.map_map]
    rfl
  rw [hkeys]
  refine List.Nodup.map ?_ (List.nodup_range' 1)
  intro first second hsame
  exact congrArg Prod.snd hsame

def Call.inHand (number : Nat) : Call → List Offer
  | .offering client _ decisions .. => Offer.numbered client number decisions
  | .finding _ | .entering _ | .judging _ | .recording .. | .counting .. | .answered ..
  | .listing | .visiting .. | .reported _ => []

def Ledger.inHandAt (ledger : Ledger) (calls : List Call) (index : Nat) : List Offer :=
  ((calls[index]?).map (Call.inHand (ledger.upcoming index))).getD []

def Ledger.issued (ledger : Ledger) (calls : List Call) : List Offer :=
  ledger.offers ++ (List.range calls.length).flatMap (ledger.inHandAt calls)

theorem Ledger.issued_newCall (ledger : Ledger) (calls : List Call) (call : Call)
    (hinHand : call.inHand (ledger.upcoming calls.length) = []) :
    ledger.issued (calls ++ [call]) = ledger.issued calls := by
  have hlast : ledger.inHandAt (calls ++ [call]) calls.length = [] := by
    simp [inHandAt, hinHand]
  have hothers : (List.range calls.length).flatMap (ledger.inHandAt (calls ++ [call])) =
      (List.range calls.length).flatMap (ledger.inHandAt calls) := by
    apply List.flatMap_congr
    intro index hindex
    simp [inHandAt, List.getElem?_append_left (List.mem_range.mp hindex)]
  simp only [issued, List.length_append, List.length_singleton, List.range_succ,
    List.flatMap_append, List.flatMap_cons, List.flatMap_nil, hlast, hothers, List.append_nil]

theorem Ledger.exists_issued_perm {ledger after : Ledger} {calls : List Call} {index : Nat}
    {call : Call} (next : Call) (hcall : calls[index]? = some call)
    (hupcoming : ∀ other, other ≠ index → after.upcoming other = ledger.upcoming other) :
    ∃ others,
      (ledger.issued calls).Perm
        (ledger.offers ++ (call.inHand (ledger.upcoming index) ++ others)) ∧
      (after.issued (calls.set index next)).Perm
        (after.offers ++ (next.inHand (after.upcoming index) ++ others)) := by
  have hindex := (List.getElem?_eq_some_iff.mp hcall).1
  obtain ⟨others, hrange, hne⟩ := exists_perm_range hindex
  have hbefore := hrange.flatMap_right (ledger.inHandAt calls)
  have hafter := hrange.flatMap_right (after.inHandAt (calls.set index next))
  have hself : ledger.inHandAt calls index = call.inHand (ledger.upcoming index) := by
    simp only [inHandAt, hcall, Option.map_some, Option.getD_some]
  have hselfAfter : after.inHandAt (calls.set index next) index =
      next.inHand (after.upcoming index) := by
    simp only [inHandAt, List.getElem?_set_self hindex, Option.map_some, Option.getD_some]
  have hothers : others.flatMap (after.inHandAt (calls.set index next)) =
      others.flatMap (ledger.inHandAt calls) := by
    apply List.flatMap_congr
    intro other hother
    simp only [inHandAt, List.getElem?_set_ne (hne other hother).symm,
      hupcoming other (hne other hother)]
  rw [List.flatMap_cons, hself] at hbefore
  rw [List.flatMap_cons, hselfAfter, hothers] at hafter
  refine ⟨others.flatMap (ledger.inHandAt calls), hbefore.append_left _, ?_⟩
  rw [issued, List.length_set]
  exact hafter.append_left _

def Ledger.offersTo (ledger : Ledger) (client : String) : List Offer :=
  ledger.offers.filter fun offer => offer.client = client

def Ledger.offeredTo (ledger : Ledger) (client : String) : List Decision :=
  (ledger.offersTo client).map Offer.decision

/-- What is issued was recorded under its number, lies behind its ring's
cursor, and comes once. -/
structure Offered (controller : Controller) (ledger : Ledger) (issued : List Offer) :
    Prop where
  recorded : ∀ offer ∈ issued,
    (ledger.recordedOf offer.client)[offer.number]? = some offer.decision
  read : ∀ offer ∈ issued, offer.number < (controller.ring offer.client).read
  nodup : (issued.map Offer.key).Nodup

namespace Offered

variable {controller : Controller} {ledger : Ledger} {issued : List Offer}

theorem perm {later : List Offer} (h : Offered controller ledger issued)
    (hperm : later.Perm issued) : Offered controller ledger later where
  recorded := fun offer hmem => h.recorded offer (hperm.mem_iff.mp hmem)
  read := fun offer hmem => h.read offer (hperm.mem_iff.mp hmem)
  nodup := (hperm.map Offer.key).nodup_iff.mpr h.nodup

theorem mono {other : Controller} {after : Ledger} (h : Offered controller ledger issued)
    (hread : ∀ client, (controller.ring client).read ≤ (other.ring client).read)
    (hrecorded : ∀ client, ledger.recordedOf client <+: after.recordedOf client) :
    Offered other after issued where
  recorded := fun offer hmem => by
    obtain ⟨rest, hrest⟩ := hrecorded offer.client
    have hoffer := h.recorded offer hmem
    rw [← hrest, List.getElem?_append_left (List.getElem?_eq_some_iff.mp hoffer).1]
    exact hoffer
  read := fun offer hmem => Nat.lt_of_lt_of_le (h.read offer hmem) (hread offer.client)
  nodup := h.nodup

theorem read_le_drain {client : String}
    (hring : (controller.ring client).Holds (ledger.recordedOf client)) (other : String) :
    (controller.ring other).read ≤ ((controller.drain client).2.ring other).read := by
  rcases Decidable.em (other = client) with rfl | hne
  · rw [Controller.ring_drain_self, hring.read_harvest]
    exact hring.read_le
  · rw [Controller.ring_drain_of_ne _ hne]

theorem drain {client : String} (h : Offered controller ledger issued)
    (hring : (controller.ring client).Holds (ledger.recordedOf client))
    (hfits : ∀ decision ∈ ledger.recordedOf client, decision.time ≤ Decision.maxTime) :
    Offered (controller.drain client).2 ledger
      (issued ++ Offer.numbered client
        ((ledger.recordedOf client).length - (controller.drain client).1.events.length)
        (controller.drain client).1.events) := by
  have hold := h.mono (read_le_drain hring) fun _ => List.prefix_rfl
  have hevents := hring.events_harvest hfits
  have hlength := hring.length_harvest
  have hread := hring.read_harvest
  rw [← Controller.ring_drain_self] at hread
  rw [← Controller.drain_fst] at hevents hlength
  simp only [Ring.unread, hring.published_eq] at hlength
  have hreadLe := hring.read_le
  have hnew : ∀ offer ∈ Offer.numbered client
      ((ledger.recordedOf client).length - (controller.drain client).1.events.length)
      (controller.drain client).1.events,
      offer.client = client ∧ (controller.ring client).read ≤ offer.number ∧
        (ledger.recordedOf client)[offer.number]? = some offer.decision := by
    intro offer hmem
    obtain ⟨hclient, hle, hdecision⟩ := Offer.mem_numbered.mp hmem
    have hplace := (congrArg (fun events => events[offer.number - _]?) hevents).symm.trans hdecision
    rw [List.getElem?_drop, Nat.add_sub_cancel' hle] at hplace
    exact ⟨hclient, by omega, hplace⟩
  exact {
    recorded := by
      intro offer hmem
      rcases List.mem_append.mp hmem with hbefore | hafter
      · exact h.recorded offer hbefore
      · obtain ⟨rfl, -, hdecision⟩ := hnew offer hafter
        exact hdecision
    read := by
      intro offer hmem
      rcases List.mem_append.mp hmem with hbefore | hafter
      · exact hold.read offer hbefore
      · obtain ⟨rfl, -, hdecision⟩ := hnew offer hafter
        rw [hread]
        exact (List.getElem?_eq_some_iff.mp hdecision).1
    nodup := by
      rw [List.map_append, List.nodup_append]
      refine ⟨h.nodup, Offer.nodup_numbered .., ?_⟩
      intro key hkey other hother hsame
      obtain ⟨earlier, hearlier, rfl⟩ := List.mem_map.mp hkey
      obtain ⟨later, hlater, rfl⟩ := List.mem_map.mp hother
      obtain ⟨hclient, hle, -⟩ := hnew later hlater
      have hlt := h.read earlier hearlier
      simp only [Offer.key, Prod.mk.injEq] at hsame
      rw [hsame.1, hclient] at hlt
      omega }

theorem nodup_offers {calls : List Call}
    (h : Offered controller ledger (ledger.issued calls)) :
    (ledger.offers.map Offer.key).Nodup := by
  have hnodup := h.nodup
  rw [Ledger.issued, List.map_append] at hnodup
  exact (List.nodup_append.mp hnodup).1

/-- Decisions offered under different numbers are different records. -/
theorem offeredTo_subperm {calls : List Call}
    (h : Offered controller ledger (ledger.issued calls)) (client : String) :
    (ledger.offeredTo client).Subperm (ledger.recordedOf client) := by
  have hmine : ∀ offer ∈ ledger.offersTo client,
      offer ∈ ledger.issued calls ∧ offer.client = client := by
    intro offer hmem
    obtain ⟨hoffer, hclient⟩ := List.mem_filter.mp hmem
    exact ⟨List.mem_append_left _ hoffer, of_decide_eq_true hclient⟩
  have hkeys : ((ledger.offersTo client).map Offer.key).Nodup :=
    h.nodup_offers.sublist (List.filter_sublist.map Offer.key)
  have hnodup : ((ledger.offersTo client).map fun offer =>
      (offer.decision, offer.number)).Nodup := by
    apply List.Nodup.of_map fun entry => (client, entry.2)
    rw [List.map_map]
    have hsame : (ledger.offersTo client).map _ = (ledger.offersTo client).map Offer.key :=
      List.map_congr_left fun offer hmem => congrArg (·, offer.number) (hmine offer hmem).2.symm
    exact hsame ▸ hkeys
  have hsubset : ((ledger.offersTo client).map fun offer =>
      (offer.decision, offer.number)) ⊆ (ledger.recordedOf client).zipIdx := by
    intro entry hentry
    obtain ⟨offer, hoffer, rfl⟩ := List.mem_map.mp hentry
    obtain ⟨hissued, rfl⟩ := hmine offer hoffer
    exact List.mem_zipIdx_iff_getElem?.mpr (h.recorded offer hissued)
  obtain ⟨entries, hperm, hsublist⟩ := hnodup.subperm hsubset
  refine ⟨entries.map Prod.fst, ?_, ?_⟩
  · have hoffered := hperm.map Prod.fst
    rw [List.map_map] at hoffered
    exact hoffered
  · have hrecorded := hsublist.map Prod.fst
    rw [List.zipIdx_map_fst] at hrecorded
    exact hrecorded

theorem nil (controller : Controller) (ledger : Ledger) : Offered controller ledger [] where
  recorded := fun _ hmem => absurd hmem List.not_mem_nil
  read := fun _ hmem => absurd hmem List.not_mem_nil
  nodup := .nil

end Offered

namespace System

/-- What is offered stays what was recorded, each decision once, in every state. -/
abbrev OffersOnce (system : System σ) (ledger : Ledger) : Prop :=
  Offered system.site.controller ledger (ledger.issued system.calls)

namespace OffersOnce

variable {system : System σ} {ledger after : Ledger} {index : Nat} {call next : Call}
  {site : Site σ}

theorem frame (h : system.OffersOnce ledger) (hcall : system.calls[index]? = some call)
    (hread : ∀ client, (system.site.controller.ring client).read ≤
      (site.controller.ring client).read)
    (hrecorded : ∀ client, ledger.recordedOf client <+: after.recordedOf client)
    (hoffers : after.offers = ledger.offers)
    (hupcoming : ∀ other, other ≠ index → after.upcoming other = ledger.upcoming other)
    (hbefore : call.inHand (ledger.upcoming index) = [])
    (hafter : next.inHand (after.upcoming index) = []) :
    Offered site.controller after (after.issued (system.calls.set index next)) := by
  obtain ⟨others, hissued, hlater⟩ := Ledger.exists_issued_perm next hcall hupcoming
  rw [hbefore] at hissued
  rw [hafter, hoffers] at hlater
  exact (h.mono hread hrecorded).perm (hlater.trans hissued.symm)

theorem offer {client : String} {dropped : Nat} {decision : Decision}
    {decisions : List Decision} {outcome later : Offering} {clients : List String}
    {report : FlushReport} (h : system.OffersOnce ledger)
    (hcall : system.calls[index]? =
      some (.offering client dropped (decision :: decisions) outcome clients report)) :
    Offered system.site.controller (ledger.offer index client decision)
      ((ledger.offer index client decision).issued
        (system.calls.set index (.offering client dropped decisions later clients report))) := by
  have hupcoming : ∀ other, other ≠ index →
      (ledger.offer index client decision).upcoming other = ledger.upcoming other :=
    fun other hne => if_neg hne
  obtain ⟨others, hissued, hlater⟩ := Ledger.exists_issued_perm
    (.offering client dropped decisions later clients report) hcall hupcoming
  have hself : (ledger.offer index client decision).upcoming index = ledger.upcoming index + 1 :=
    if_pos rfl
  have hmoved : (ledger.offer index client decision).offers ++
      (Call.inHand ((ledger.offer index client decision).upcoming index)
        (.offering client dropped decisions later clients report) ++ others) =
      ledger.offers ++ (Call.inHand (ledger.upcoming index)
        (.offering client dropped (decision :: decisions) outcome clients report) ++ others) := by
    rw [hself]
    simp [Ledger.offer, Ledger.setUpcoming, Call.inHand, Offer.numbered, List.zipIdx_cons]
  rw [hmoved] at hlater
  have hsame : Offered system.site.controller (ledger.offer index client decision)
      (ledger.issued system.calls) := { h with }
  exact hsame.perm (hlater.trans hissued.symm)

theorem drain {client : String} {clients : List String} {report : FlushReport}
    (h : system.OffersOnce ledger) (hbalanced : Balanced system ledger)
    (hcall : system.calls[index]? = some (.visiting (client :: clients) report)) :
    let drained := system.site.controller.drain client
    let after := ledger.add system.site index (.visiting (client :: clients) report)
    Offered drained.2 after
      (after.issued (system.calls.set index
        (.offering client drained.1.dropped drained.1.events {} clients report))) := by
  intro drained after
  have hupcoming : ∀ other, other ≠ index → after.upcoming other = ledger.upcoming other :=
    fun other hne => ledger.setUpcoming_of_ne _ hne
  obtain ⟨others, hissued, hlater⟩ := Ledger.exists_issued_perm
    (.offering client drained.1.dropped drained.1.events {} clients report) hcall hupcoming
  have hself : after.upcoming index =
      (ledger.recordedOf client).length - drained.1.events.length := ledger.setUpcoming_self ..
  have hdrained := Offered.drain h (hbalanced.rings client) (hbalanced.fits_recordedOf client)
  have hmoved := (List.perm_append_comm.append_left ledger.offers).trans
    (List.append_assoc .. ▸ hissued.symm.append_right
      (Offer.numbered client (after.upcoming index) drained.1.events))
  rw [← hself] at hdrained
  have hsame : Offered drained.2 after _ := { hdrained with }
  exact hsame.perm (hlater.trans hmoved)

theorem part {order : List String} (h : system.OffersOnce ledger)
    (hbalanced : Balanced system ledger) (hcall : system.calls[index]? = some call)
    (hpart : system.site.part? order call = some (next, site)) :
    OffersOnce { site, calls := system.calls.set index next }
      (ledger.add system.site index call) := by
  cases part_of_some hpart with
  | found hknows =>
      exact h.frame hcall (fun _ => Nat.le_refl _) (fun _ => List.prefix_rfl) rfl
        (fun _ _ => rfl) rfl rfl
  | missed hknows =>
      exact h.frame hcall (fun _ => Nat.le_refl _) (fun _ => List.prefix_rfl) rfl
        (fun _ _ => rfl) rfl rfl
  | @enter client =>
      obtain ⟨created, hadd⟩ := ledger.exists_add_entering system.site index client
      rw [hadd]
      exact h.frame hcall
        (fun _ => Nat.le_of_eq (congrArg Ring.read (Controller.ring_track ..).symm))
        (fun _ => List.prefix_rfl) rfl (fun _ _ => rfl) rfl rfl
  | judge =>
      exact h.frame hcall
        (fun _ => Nat.le_of_eq (congrArg Ring.read (Controller.ring_judge ..).symm))
        (fun _ => List.prefix_rfl) rfl (fun _ _ => rfl) rfl rfl
  | record =>
      refine h.frame hcall (fun _ => Nat.le_of_eq (Controller.read_record ..).symm)
        (fun other => ?_) rfl (fun _ _ => rfl) rfl rfl
      simp only [Ledger.add, Ledger.recordedOf_record]
      split
      · exact List.prefix_append ..
      · exact List.prefix_rfl
  | count =>
      exact h.frame hcall
        (fun _ => Nat.le_of_eq (congrArg Ring.read (Controller.ring_count ..).symm))
        (fun _ => List.prefix_rfl) rfl (fun _ _ => rfl) rfl rfl
  | list horder =>
      exact h.frame hcall (fun _ => Nat.le_refl _) (fun _ => List.prefix_rfl) rfl
        (fun _ _ => rfl) rfl rfl
  | @skip client _ _ hempty =>
      exact h.frame hcall (Offered.read_le_drain (hbalanced.rings client))
        (fun _ => List.prefix_rfl) rfl (fun _ hne => ledger.setUpcoming_of_ne _ hne) rfl rfl
  | drain hfull => exact h.drain hbalanced hcall
  | offer => exact h.offer hcall
  | account =>
      exact h.frame hcall (fun _ => Nat.le_refl _) (fun _ => List.prefix_rfl) rfl
        (fun _ _ => rfl) rfl rfl
  | report =>
      exact h.frame hcall
        (fun _ => Nat.le_of_eq (congrArg Ring.read (Controller.ring_countFlush ..).symm))
        (fun _ => List.prefix_rfl) rfl (fun _ _ => rfl) rfl rfl

theorem step {after : System σ} {move : Move} (h : system.OffersOnce ledger)
    (hbalanced : Balanced system ledger) (hstep : step? system move = some after) :
    OffersOnce after (note system move ledger) := by
  rcases step?_eq_some_iff.mp hstep with ⟨client, rfl, rfl⟩ | ⟨rfl, rfl⟩ | ⟨tick, rfl, rfl⟩ |
    ⟨index, order, call, next, site, rfl, hcall, hpart, rfl⟩
  · exact h.perm (.of_eq (ledger.issued_newCall system.calls (.finding client) rfl))
  · exact h.perm (.of_eq (ledger.issued_newCall system.calls .listing rfl))
  · exact h
  · rw [note_part hcall]
    exact h.part hbalanced hcall hpart

end OffersOnce

/-- The offers are all that the sink has been sent, in their order. -/
structure Sent (receive : Receiver σ) (sink : σ) (system : System σ) (ledger : Ledger) :
    Prop where
  receive_eq : system.site.receive = receive
  sink_eq : system.site.sink = ledger.offers.foldl
    (fun sink offer => (receive sink offer.client offer.decision).2) sink

namespace Sent

variable {receive : Receiver σ} {sink : σ} {system : System σ} {ledger : Ledger} {index : Nat}
  {call next : Call} {site : Site σ}

theorem offer {client : String} {decision : Decision} {calls : List Call}
    (h : Sent receive sink system ledger) :
    Sent receive sink
      { site := { system.site with
          sink := (system.site.receive system.site.sink client decision).2 }
        calls } (ledger.offer index client decision) where
  receive_eq := h.receive_eq
  sink_eq := by
    simp only [Ledger.offer, Ledger.setUpcoming, List.foldl_append, List.foldl_cons,
      List.foldl_nil, ← h.sink_eq, h.receive_eq]

theorem part {order : List String} (h : Sent receive sink system ledger)
    (hpart : system.site.part? order call = some (next, site)) :
    Sent receive sink { site, calls := system.calls.set index next }
      (ledger.add system.site index call) := by
  cases part_of_some hpart with
  | @enter client =>
      obtain ⟨created, hadd⟩ := ledger.exists_add_entering system.site index client
      rw [hadd]
      exact { h with }
  | offer => exact h.offer
  | found | missed | judge | record | count | list | skip | drain | account | report =>
      exact { h with }

theorem step {after : System σ} {move : Move} (h : Sent receive sink system ledger)
    (hstep : step? system move = some after) :
    Sent receive sink after (note system move ledger) := by
  rcases step?_eq_some_iff.mp hstep with ⟨client, rfl, rfl⟩ | ⟨rfl, rfl⟩ | ⟨tick, rfl, rfl⟩ |
    ⟨index, order, call, next, site, rfl, hcall, hpart, rfl⟩
  · exact { h with }
  · exact { h with }
  · exact { h with }
  · rw [note_part hcall]
    exact h.part hpart

end Sent

end System

end Turnstile.Site
