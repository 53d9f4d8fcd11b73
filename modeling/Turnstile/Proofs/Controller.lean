import Turnstile.Controller.Flush
import Turnstile.Lists
import Turnstile.Proofs.Ring.Harvest

/-! What each part of an operation changes in a controller, and what it leaves. -/

namespace Turnstile

namespace Index

theorem find?_eq_none_iff (index : Index α) (name : String) :
    index.find? name = none ↔ name ∉ index.names := by
  simp only [find?, names, List.lookup_eq_none_iff, List.mem_map, not_exists, not_and]
  constructor
  · intro h entry hentry hname
    have hne := h entry hentry
    simp [hname] at hne
  · intro h entry hentry
    have hne := h entry hentry
    simpa using fun hsame : name = entry.1 => hne hsame.symm

theorem contains_iff (index : Index α) (name : String) :
    index.contains name = true ↔ name ∈ index.names := by
  have hnone := index.find?_eq_none_iff name
  cases hfind : index.find? name <;> simp_all [contains]

theorem names_insertNew (index : Index α) (name : String) (value : α) :
    (index.insertNew name value).names =
      if index.contains name then index.names else index.names ++ [name] := by
  unfold insertNew
  split <;> simp [names]

/-! Changes of one value, one after the other. -/

theorem modifyEntries_modifyEntries (name : String) (first second : α → α)
    (entries : List (String × α)) :
    modifyEntries name second (modifyEntries name first entries) =
      modifyEntries name (fun value => second (first value)) entries := by
  induction entries with
  | nil => rfl
  | cons entry rest ih =>
      obtain ⟨key, value⟩ := entry
      simp only [modifyEntries]
      split
      · rename_i hkey
        simp only [modifyEntries, hkey, if_true]
      · rename_i hkey
        simp only [modifyEntries, hkey, if_false, ih]

theorem modify_modify (index : Index α) (name : String) (first second : α → α) :
    (index.modify name first).modify name second =
      index.modify name fun value => second (first value) := by
  simp only [modify, modifyEntries_modifyEntries]

theorem modifyEntries_congr {name : String} {first second : α → α} {entries : List (String × α)}
    (h : ∀ value, entries.lookup name = some value → first value = second value) :
    modifyEntries name first entries = modifyEntries name second entries := by
  induction entries with
  | nil => rfl
  | cons entry rest ih =>
      obtain ⟨key, value⟩ := entry
      simp only [modifyEntries]
      split
      · rename_i hkey
        rw [h value (by rw [List.lookup_cons, hkey, beq_self_eq_true])]
      · rename_i hkey
        have hskip : (name == key) = false := beq_false_of_ne (Ne.symm hkey)
        rw [ih fun other hother => h other (by rw [List.lookup_cons, hskip]; exact hother)]

theorem modify_congr {index : Index α} {name : String} {first second : α → α}
    (h : ∀ value, index.find? name = some value → first value = second value) :
    index.modify name first = index.modify name second := by
  simp only [modify, modifyEntries_congr h]

/-! Sums over the values of a table. -/

def total (size : α → Nat) (index : Index α) : Nat :=
  sumOf (fun entry => size entry.2) index.entries

theorem total_modify (size : α → Nat) {index : Index α} {name : String} {value : α}
    (hfound : index.find? name = some value) (change : α → α) :
    (index.modify name change).total size + size value =
      index.total size + size (change value) := by
  obtain ⟨entries⟩ := index
  simp only [find?, total, modify] at hfound ⊢
  induction entries with
  | nil => cases hfound
  | cons entry rest ih =>
      obtain ⟨key, old⟩ := entry
      simp only [modifyEntries]
      split
      · rename_i hkey
        simp only [List.lookup_cons, hkey, beq_self_eq_true, Option.some.injEq] at hfound
        subst hfound
        simp only [sumOf_cons]
        omega
      · rename_i hkey
        have hbeq : (name == key) = false := by
          simpa using fun hsame : name = key => hkey hsame.symm
        simp only [List.lookup_cons, hbeq] at hfound
        have hrest := ih hfound
        simp only [sumOf_cons]
        omega

theorem total_modify_of_same (size : α → Nat) (index : Index α) (name : String)
    {change : α → α} (hsame : ∀ value, size (change value) = size value) :
    (index.modify name change).total size = index.total size := by
  obtain ⟨entries⟩ := index
  simp only [total, modify]
  induction entries with
  | nil => rfl
  | cons entry rest ih =>
      obtain ⟨key, old⟩ := entry
      simp only [modifyEntries]
      split
      · simp only [sumOf_cons, hsame]
      · simp only [sumOf_cons, ih]

theorem total_insertNew (size : α → Nat) (index : Index α) (name : String) {value : α}
    (hzero : size value = 0) : (index.insertNew name value).total size = index.total size := by
  unfold insertNew
  split
  · rfl
  · simp [total, sumOf_append, hzero]

theorem find?_of_mem {index : Index α} (hnodup : index.names.Nodup) {name : String} {value : α}
    (hmem : (name, value) ∈ index.entries) : index.find? name = some value := by
  obtain ⟨entries⟩ := index
  simp only [names, find?] at hnodup hmem ⊢
  induction entries with
  | nil => cases hmem
  | cons entry rest ih =>
      obtain ⟨key, old⟩ := entry
      obtain ⟨hnew, hrest⟩ := List.nodup_cons.mp hnodup
      rcases List.mem_cons.mp hmem with hsame | hold
      · cases hsame
        simp
      · have hne : name ≠ key := by
          rintro rfl
          exact hnew (List.mem_map.mpr ⟨_, hold, rfl⟩)
        have hbeq : (name == key) = false := by simpa using hne
        simp only [List.lookup_cons, hbeq]
        exact ih hrest hold

theorem total_le {size : α → Nat} {bound : String → Nat} {index : Index α}
    (hnodup : index.names.Nodup)
    (h : ∀ name value, index.find? name = some value → size value ≤ bound name) :
    index.total size ≤ sumOf bound index.names := by
  have hentries : ∀ entry ∈ index.entries, size entry.2 ≤ bound entry.1 :=
    fun entry hmem => h entry.1 entry.2 (find?_of_mem hnodup hmem)
  have hnames : sumOf bound index.names = sumOf (fun entry => bound entry.1) index.entries := by
    simp only [names]
    induction index.entries with
    | nil => rfl
    | cons entry rest ih => rw [List.map_cons, sumOf_cons, sumOf_cons, ih]
  rw [hnames]
  exact sumOf_le_sumOf hentries

end Index

namespace Controller

variable (controller : Controller)

theorem knows_iff (name : String) :
    controller.knows name = true ↔ name ∈ controller.clients.names :=
  controller.clients.contains_iff name

theorem exists_client?_of_knows {name : String} (hknows : controller.knows name = true) :
    ∃ client, controller.client? name = some client :=
  Option.isSome_iff_exists.mp hknows

/-- The ring of a client; for one that is not known, the ring it would begin with. -/
def ring (name : String) : Ring :=
  ((controller.client? name).map Client.ring).getD controller.newClient.ring

def unread : Nat := controller.clients.total fun client => client.ring.unread

theorem unread_newClient : controller.newClient.ring.unread = 0 := rfl

theorem ring_of_some {name : String} {client : Client}
    (hclient : controller.client? name = some client) :
    controller.ring name = client.ring := by
  rw [ring, hclient, Option.map_some, Option.getD_some]

theorem ring_of_none {name : String} (hclient : controller.client? name = none) :
    controller.ring name = controller.newClient.ring := by
  rw [ring, hclient, Option.map_none, Option.getD_none]

theorem pending_eq (name : String) :
    controller.pending name = (controller.ring name).pending := by
  cases hclient : controller.client? name with
  | some client => simp only [pending, hclient, ring_of_some controller hclient,
      Option.map_some, Option.getD_some]
  | none =>
      rw [ring_of_none controller hclient, Ring.pending_eq_zero controller.unread_newClient]
      simp only [pending, hclient, Option.map_none, Option.getD_none]

/-! One client's entry. -/

theorem client?_modifyClient_self (name : String) (change : Client → Client) :
    (controller.modifyClient name change).client? name = (controller.client? name).map change :=
  Index.find?_modify_self ..

theorem client?_modifyClient_of_ne {name other : String} (hne : other ≠ name)
    (change : Client → Client) :
    (controller.modifyClient name change).client? other = controller.client? other :=
  Index.find?_modify_of_ne hne ..

@[simp] theorem names_modifyClient (name : String) (change : Client → Client) :
    (controller.modifyClient name change).clients.names = controller.clients.names :=
  Index.names_modify ..

theorem window_modifyClient_of_same (name other : String) {change : Client → Client}
    (hsame : ∀ client, (change client).window = client.window) :
    (controller.modifyClient name change).window other = controller.window other := by
  rcases Decidable.em (other = name) with rfl | hne
  · simp only [window, client?_modifyClient_self, Option.map_map]
    congr 2
    exact funext hsame
  · simp only [window, client?_modifyClient_of_ne controller hne]

theorem ring_modifyClient_of_same (name other : String) {change : Client → Client}
    (hsame : ∀ client, (change client).ring = client.ring) :
    (controller.modifyClient name change).ring other = controller.ring other := by
  rcases Decidable.em (other = name) with rfl | hne
  · simp only [ring, client?_modifyClient_self, Option.map_map]
    congr 2
    exact funext hsame
  · simp only [ring, client?_modifyClient_of_ne controller hne]
    rfl

theorem ring_modifyClient_of_ne {name other : String} (hne : other ≠ name)
    (change : Client → Client) :
    (controller.modifyClient name change).ring other = controller.ring other := by
  simp only [ring, client?_modifyClient_of_ne controller hne]
  rfl

theorem ring_modifyClient_self {name : String} {client : Client}
    (hclient : controller.client? name = some client) (change : Client → Client) :
    (controller.modifyClient name change).ring name = (change client).ring := by
  apply ring_of_some
  rw [client?_modifyClient_self, hclient, Option.map_some]

/-! Finding or entering a client. -/

theorem track_of_knows {name : String} (hknows : controller.knows name = true) :
    controller.track name = controller := by
  simp only [track, hknows, if_true]

theorem track_of_not_knows {name : String} (hknows : controller.knows name = false) :
    controller.track name =
      { controller with
        clients := controller.clients.insertNew name controller.newClient
        log := controller.log.push (.clientTracked name) } := by
  simp only [track, hknows, Bool.false_eq_true, if_false, emit]

@[simp] theorem config_track (name : String) :
    (controller.track name).config = controller.config := by
  unfold track
  split <;> rfl

theorem names_track (name : String) :
    (controller.track name).clients.names =
      if controller.knows name then controller.clients.names
      else controller.clients.names ++ [name] := by
  cases hknows : controller.knows name with
  | true => simp [track_of_knows controller hknows]
  | false =>
      have hnames := controller.clients.names_insertNew name controller.newClient
      rw [track_of_not_knows controller hknows, hnames]
      rw [show controller.clients.contains name = false from hknows]

theorem client?_track_self (name : String) :
    (controller.track name).client? name =
      some ((controller.client? name).getD controller.newClient) := by
  cases hknows : controller.knows name with
  | true =>
      obtain ⟨client, hclient⟩ := controller.exists_client?_of_knows hknows
      simp [track_of_knows controller hknows, hclient]
  | false =>
      rw [track_of_not_knows controller hknows]
      exact Index.find?_insertNew_self ..

theorem client?_track_of_ne {name other : String} (hne : other ≠ name) :
    (controller.track name).client? other = controller.client? other := by
  cases hknows : controller.knows name with
  | true => rw [track_of_knows controller hknows]
  | false =>
      rw [track_of_not_knows controller hknows]
      exact Index.find?_insertNew_of_ne hne ..

@[simp] theorem window_track (name other : String) :
    (controller.track name).window other = controller.window other := by
  rcases Decidable.em (other = name) with rfl | hne
  · simp only [window, client?_track_self]
    cases controller.client? other <;> rfl
  · simp only [window, client?_track_of_ne controller hne]

@[simp] theorem ring_track (name other : String) :
    (controller.track name).ring other = controller.ring other := by
  have hnew : (controller.track name).newClient = controller.newClient := by
    unfold track
    split <;> rfl
  rcases Decidable.em (other = name) with rfl | hne
  · simp only [ring, client?_track_self]
    cases controller.client? other <;> rfl
  · simp only [ring, client?_track_of_ne controller hne, hnew]

@[simp] theorem unread_track (name : String) :
    (controller.track name).unread = controller.unread := by
  unfold track
  split
  · rfl
  · exact Index.total_insertNew _ _ _ controller.unread_newClient

/-! Judging, recording and counting a request. -/

theorem judge_fst (reading : Nat) (name : String) :
    (controller.judge reading name).1 =
      ((controller.window name).allow reading controller.config.limit
        controller.config.span).1 := rfl

@[simp] theorem names_judge (reading : Nat) (name : String) :
    (controller.judge reading name).2.clients.names = controller.clients.names :=
  names_modifyClient ..

theorem window_judge_self {name : String} (hknows : controller.knows name = true)
    (reading : Nat) :
    (controller.judge reading name).2.window name =
      ((controller.window name).allow reading controller.config.limit
        controller.config.span).2 := by
  obtain ⟨client, hclient⟩ := controller.exists_client?_of_knows hknows
  simp [judge, window, client?_modifyClient_self, hclient]

theorem window_judge_of_ne {name other : String} (hne : other ≠ name) (reading : Nat) :
    (controller.judge reading name).2.window other = controller.window other := by
  simp [judge, window, client?_modifyClient_of_ne controller hne]

@[simp] theorem ring_judge (reading : Nat) (name other : String) :
    (controller.judge reading name).2.ring other = controller.ring other :=
  ring_modifyClient_of_same controller name other fun _ => rfl

@[simp] theorem unread_judge (reading : Nat) (name : String) :
    (controller.judge reading name).2.unread = controller.unread :=
  Index.total_modify_of_same _ _ _ fun _ => rfl

@[simp] theorem names_record (name : String) (decision : Decision) :
    (controller.record name decision).clients.names = controller.clients.names :=
  names_modifyClient ..

@[simp] theorem window_record (name other : String) (decision : Decision) :
    (controller.record name decision).window other = controller.window other :=
  window_modifyClient_of_same controller name other fun _ => rfl

theorem ring_record_self {name : String} (hknows : controller.knows name = true)
    (decision : Decision) :
    (controller.record name decision).ring name = (controller.ring name).record decision := by
  obtain ⟨client, hclient⟩ := controller.exists_client?_of_knows hknows
  rw [ring_of_some controller hclient]
  exact ring_modifyClient_self controller hclient _

theorem ring_record_of_ne {name other : String} (hne : other ≠ name) (decision : Decision) :
    (controller.record name decision).ring other = controller.ring other :=
  ring_modifyClient_of_ne controller hne _

theorem ring_record_of_not_knows {name : String} (hknows : controller.knows name = false)
    (decision : Decision) (other : String) :
    (controller.record name decision).ring other = controller.ring other := by
  rcases Decidable.em (other = name) with rfl | hne
  · have hnone : controller.client? other = none := by
      rw [← Option.not_isSome_iff_eq_none]
      exact Bool.eq_false_iff.mp hknows
    simp only [ring, record, client?_modifyClient_self, hnone, Option.map_none]
    rfl
  · exact ring_record_of_ne controller hne decision

theorem read_record (name other : String) (decision : Decision) :
    ((controller.record name decision).ring other).read = (controller.ring other).read := by
  rcases Decidable.em (other = name) with rfl | hne
  · simp only [ring, record, client?_modifyClient_self]
    cases controller.client? other <;> rfl
  · rw [ring_record_of_ne controller hne]

theorem unread_record {name : String} (hknows : controller.knows name = true)
    {recorded : List Decision} (hring : (controller.ring name).Holds recorded)
    (decision : Decision) :
    (controller.record name decision).unread = controller.unread + 1 := by
  obtain ⟨client, hclient⟩ := controller.exists_client?_of_knows hknows
  rw [ring_of_some controller hclient] at hring
  have htotal := Index.total_modify (fun client => client.ring.unread) hclient
    fun client => { client with ring := client.ring.record decision }
  have hrecord := hring.unread_record decision
  simp only [unread, record, modifyClient] at htotal ⊢
  omega

@[simp] theorem config_count (allowed : Bool) :
    (controller.count allowed).config = controller.config := by
  cases allowed <;> rfl

@[simp] theorem clients_count (allowed : Bool) :
    (controller.count allowed).clients = controller.clients := by
  cases allowed <;> rfl

@[simp] theorem ring_count (allowed : Bool) (name : String) :
    (controller.count allowed).ring name = controller.ring name := by
  cases allowed <;> rfl

@[simp] theorem unread_count (allowed : Bool) :
    (controller.count allowed).unread = controller.unread := by
  cases allowed <;> rfl

/-! A request in one piece. -/

theorem knows_track (name : String) : (controller.track name).knows name = true := by
  have hself := controller.client?_track_self name
  simp only [client?] at hself
  simp only [knows, Index.contains, hself, Option.isSome_some]

theorem knows_judge (reading : Nat) (name other : String) :
    (controller.judge reading name).2.knows other = controller.knows other := by
  rw [Bool.eq_iff_iff, knows_iff, knows_iff, names_judge]

theorem allow_fst (reading : Nat) (name : String) :
    (controller.allow reading name).1 =
      ((controller.window name).allow reading controller.config.limit
        controller.config.span).1 := by
  rw [← config_track controller name, ← window_track controller name name]
  rfl

@[simp] theorem config_allow (reading : Nat) (name : String) :
    (controller.allow reading name).2.config = controller.config := by
  simp only [allow, config_count]
  exact controller.config_track name

theorem names_allow (reading : Nat) (name : String) :
    (controller.allow reading name).2.clients.names =
      if controller.knows name then controller.clients.names
      else controller.clients.names ++ [name] := by
  simp only [allow, clients_count, names_record, names_judge]
  exact controller.names_track name

@[simp] theorem window_count (allowed : Bool) (name : String) :
    (controller.count allowed).window name = controller.window name := by
  cases allowed <;> rfl

theorem window_allow_self (reading : Nat) (name : String) :
    (controller.allow reading name).2.window name =
      ((controller.window name).allow reading controller.config.limit
        controller.config.span).2 := by
  simp only [allow, window_count, window_record]
  rw [window_judge_self _ (controller.knows_track name), window_track, config_track]

theorem window_allow_of_ne {name other : String} (hne : other ≠ name) (reading : Nat) :
    (controller.allow reading name).2.window other = controller.window other := by
  simp only [allow, window_count, window_record]
  rw [window_judge_of_ne _ hne, window_track]

theorem ring_allow_self (reading : Nat) (name : String) :
    (controller.allow reading name).2.ring name =
      (controller.ring name).record (.made reading (controller.allow reading name).1) := by
  have hknows : ((controller.track name).judge reading name).2.knows name = true := by
    rw [knows_judge, knows_track]
  simp only [allow, ring_count]
  rw [ring_record_self _ hknows, ring_judge, ring_track]

theorem ring_allow_of_ne {name other : String} (hne : other ≠ name) (reading : Nat) :
    (controller.allow reading name).2.ring other = controller.ring other := by
  simp only [allow, ring_count]
  rw [ring_record_of_ne _ hne, ring_judge, ring_track]

theorem nodup_names_track (hnodup : controller.clients.names.Nodup) (name : String) :
    (controller.track name).clients.names.Nodup := by
  rw [names_track]
  split
  · exact hnodup
  · rename_i hknows
    rw [knows_iff] at hknows
    rw [List.nodup_append]
    refine ⟨hnodup, List.pairwise_singleton .., ?_⟩
    intro first hfirst second hsecond hsame
    rw [List.mem_singleton.mp hsecond] at hsame
    exact hknows (hsame ▸ hfirst)

theorem nodup_names_allow (hnodup : controller.clients.names.Nodup) (reading : Nat)
    (name : String) : (controller.allow reading name).2.clients.names.Nodup := by
  rw [names_allow, ← names_track]
  exact controller.nodup_names_track hnodup name

/-! Draining a client, and closing a flush. -/

theorem drain_of_some {name : String} {client : Client}
    (hclient : controller.client? name = some client) :
    controller.drain name =
      (client.ring.harvest.1,
        controller.modifyClient name fun old => { old with ring := client.ring.harvest.2 }) := by
  simp only [drain, hclient]

theorem drain_of_none {name : String} (hclient : controller.client? name = none) :
    controller.drain name = ({}, controller) := by
  simp only [drain, hclient]

theorem harvest_newClient : controller.newClient.ring.harvest = ({}, controller.newClient.ring) :=
  if_pos rfl

@[simp] theorem config_drain (name : String) :
    (controller.drain name).2.config = controller.config := by
  unfold drain
  split <;> rfl

@[simp] theorem names_drain (name : String) :
    (controller.drain name).2.clients.names = controller.clients.names := by
  unfold drain
  split
  · rfl
  · exact names_modifyClient ..

@[simp] theorem window_drain (name other : String) :
    (controller.drain name).2.window other = controller.window other := by
  unfold drain
  split
  · rfl
  · exact window_modifyClient_of_same controller name other fun _ => rfl

theorem drain_fst (name : String) :
    (controller.drain name).1 = (controller.ring name).harvest.1 := by
  cases hclient : controller.client? name with
  | none =>
      rw [drain_of_none controller hclient, ring_of_none controller hclient, harvest_newClient]
  | some client =>
      rw [drain_of_some controller hclient, ring_of_some controller hclient]

theorem ring_drain_self (name : String) :
    (controller.drain name).2.ring name = (controller.ring name).harvest.2 := by
  cases hclient : controller.client? name with
  | none =>
      rw [drain_of_none controller hclient, ring_of_none controller hclient, harvest_newClient]
  | some client =>
      rw [drain_of_some controller hclient, ring_of_some controller hclient]
      exact ring_modifyClient_self controller hclient _

theorem ring_drain_of_ne {name other : String} (hne : other ≠ name) :
    (controller.drain name).2.ring other = controller.ring other := by
  unfold drain
  split
  · rfl
  · exact ring_modifyClient_of_ne controller hne _

theorem ring_drain_eq_or (name other : String) :
    (controller.drain name).2.ring other = controller.ring other ∨
      (controller.drain name).2.ring other = (controller.ring other).harvest.2 := by
  rcases Decidable.em (other = name) with rfl | hne
  · exact .inr (controller.ring_drain_self other)
  · exact .inl (controller.ring_drain_of_ne hne)

theorem unread_drain (name : String) :
    (controller.drain name).2.unread + (controller.ring name).unread = controller.unread := by
  cases hclient : controller.client? name with
  | none =>
      rw [drain_of_none controller hclient, ring_of_none controller hclient]
      rfl
  | some client =>
      have htotal := Index.total_modify (fun client => client.ring.unread) hclient
        fun old => { old with ring := client.ring.harvest.2 }
      have hharvest := client.ring.unread_harvest
      rw [drain_of_some controller hclient, ring_of_some controller hclient]
      simp only [unread, modifyClient] at htotal ⊢
      omega

theorem unread_eq_zero (hnodup : controller.clients.names.Nodup)
    (hread : ∀ name, (controller.ring name).unread = 0) : controller.unread = 0 := by
  apply sumOf_eq_zero
  rintro ⟨name, client⟩ hmem
  have hclient : controller.client? name = some client := Index.find?_of_mem hnodup hmem
  have hzero := hread name
  rw [ring_of_some controller hclient] at hzero
  exact hzero

@[simp] theorem config_countFlush (report : FlushReport) :
    (controller.countFlush report).config = controller.config := by
  unfold countFlush
  split <;> rfl

@[simp] theorem clients_countFlush (report : FlushReport) :
    (controller.countFlush report).clients = controller.clients := by
  unfold countFlush
  split <;> rfl

@[simp] theorem window_countFlush (report : FlushReport) (name : String) :
    (controller.countFlush report).window name = controller.window name := by
  unfold countFlush
  split <;> rfl

@[simp] theorem ring_countFlush (report : FlushReport) (name : String) :
    (controller.countFlush report).ring name = controller.ring name := by
  unfold countFlush
  split <;> rfl

@[simp] theorem unread_countFlush (report : FlushReport) :
    (controller.countFlush report).unread = controller.unread := by
  unfold countFlush
  split <;> rfl

end Controller

end Turnstile
