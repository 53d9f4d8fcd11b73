import Turnstile.Proofs.Ring.Events
import Turnstile.Proofs.Ring.Harvest

/-!
Harvests that no lock keeps apart from records. However the loads and stores
of both interleave, a harvest takes the decisions of one range of indices,
each as its own record stored it, and counts the ones before as dropped. What
carries the proof is the order of the three cursors, and that a copied word
can be wrong only if its slot had been claimed again before `reserved` was
loaded.
-/

namespace Turnstile.Ring

def Writer.carried : Writer → List Decision
  | .entered decision | .loaded decision _ | .claimed decision _ => [decision]
  | .idle | .stored _ => []

def Writer.Agrees (writer : Writer) (ring : Ring) (count : Nat) : Prop :=
  match writer with
  | .idle | .entered _ => ring.reserved = count ∧ ring.published = count
  | .loaded _ index => index = count ∧ ring.reserved = count ∧ ring.published = count
  | .claimed _ index => index = count ∧ ring.reserved = count + 1 ∧ ring.published = count
  | .stored index => index + 1 = count ∧ ring.reserved = count ∧ ring.published = index

theorem Writer.Agrees.bounds {writer : Writer} {ring : Ring} {count : Nat}
    (h : writer.Agrees ring count) :
    ring.published ≤ count ∧ count ≤ ring.reserved ∧ ring.reserved ≤ ring.published + 1 := by
  cases writer <;> simp only [Writer.Agrees] at h <;> omega

namespace System

/-- What a harvest has copied so far: a word whose slot was not claimed again
before the copy was checked is the one that was stored. -/
structure Copied (ring : Ring) (log : List Event) (read published reserved : Nat)
    (words : List UInt64) : Prop where
  read_eq : ring.read = read
  read_lt : read < published
  published_le : published ≤ ring.published
  opened : ∃ early, During log (.opened read published) early
  length_le : copyStart ring.capacity read published + words.length ≤ published
  intact : ∀ place word, words[place]? = some word →
    reserved ≤ copyStart ring.capacity read published + place + ring.capacity →
    (recorded log)[copyStart ring.capacity read published + place]?.map Decision.toWord =
      some word

def DrainerAgrees (drainer : Drainer) (ring : Ring) (log : List Event) : Prop :=
  match drainer with
  | .idle | .entered => True
  | .loadedRead read => ring.read = read
  | .copying read published words => Copied ring log read published ring.reserved words
  | .checked read published reserved words =>
      Copied ring log read published reserved words ∧
        copyStart ring.capacity read published + words.length = published ∧
        published ≤ reserved ∧
        ∃ early, During log .checked early ∧ ∀ index < reserved, .claimed index ∈ early
  | .counted published harvest =>
      published ≤ ring.published ∧
        ∃ first, Exact ring.capacity log ring.read first published harvest

structure Consistent (capacity : Nat) (system : System) (log : List Event) : Prop where
  capacity_eq : system.ring.capacity = capacity
  indices : (records log).map Prod.fst = List.range (records log).length
  calls_eq : calls log = recorded log ++ system.writer.carried
  writer : system.writer.Agrees system.ring (records log).length
  latest : system.ring.HoldsLatest (recorded log)
  claimed : ∀ index < system.ring.reserved, .claimed index ∈ log
  read_eq : system.ring.read = accounted log
  read_le : system.ring.read ≤ system.ring.published
  drainer : DrainerAgrees system.drainer system.ring log
  returned : ∀ past harvest, past ++ [.returned harvest] <+: log →
    ∃ read first stop, Exact capacity past read first stop harvest
  returns_eq : returns log = system.harvests

/-! What a harvest has seen stays true while writers go on. -/

theorem Copied.frame {ring other : Ring} {log late : List Event}
    {read published reserved : Nat} {words : List UInt64}
    (h : Copied ring log read published reserved words) (hread : other.read = ring.read)
    (hcapacity : other.capacity = ring.capacity)
    (hpublished : ring.published ≤ other.published) (hlate : returns late = []) :
    Copied other (log ++ late) read published reserved words where
  read_eq := hread.trans h.read_eq
  read_lt := h.read_lt
  published_le := Nat.le_trans h.published_le hpublished
  opened := h.opened.imp fun _ hopened => hopened.append hlate
  length_le := hcapacity ▸ h.length_le
  intact := by
    rw [hcapacity]
    intro place word hword hreserved
    have hsame := h.intact place word hword hreserved
    obtain ⟨decision, hdecision, -⟩ := Option.map_eq_some_iff.mp hsame
    obtain ⟨hbound, -⟩ := List.getElem?_eq_some_iff.mp hdecision
    rw [recorded_append, List.getElem?_append_left hbound]
    exact hsame

theorem Copied.mono {ring : Ring} {log : List Event} {read published reserved later : Nat}
    {words : List UInt64} (h : Copied ring log read published reserved words)
    (hle : reserved ≤ later) : Copied ring log read published later words :=
  { h with
    intact := fun place word hword hlater =>
      h.intact place word hword (Nat.le_trans hle hlater) }

theorem DrainerAgrees.frame {drainer : Drainer} {ring other : Ring} {log late : List Event}
    (h : DrainerAgrees drainer ring log) (hread : other.read = ring.read)
    (hcapacity : other.capacity = ring.capacity)
    (hpublished : ring.published ≤ other.published)
    (hreserved : ring.reserved ≤ other.reserved) (hlate : returns late = []) :
    DrainerAgrees drainer other (log ++ late) := by
  cases drainer with
  | idle => trivial
  | entered => trivial
  | loadedRead read => exact hread.trans h
  | copying read published words =>
      exact (Copied.frame h hread hcapacity hpublished hlate).mono hreserved
  | checked read published reserved words =>
      obtain ⟨hcopied, hlength, hle, early, hduring, hclaimed⟩ := h
      refine ⟨hcopied.frame hread hcapacity hpublished hlate, ?_, hle, early,
        hduring.append hlate, hclaimed⟩
      rw [hcapacity]
      exact hlength
  | counted published harvest =>
      obtain ⟨hle, first, hexact⟩ := h
      refine ⟨Nat.le_trans hle hpublished, first, ?_⟩
      rw [hcapacity, hread]
      exact hexact.append hlate

/-! Steps of the thread that writes. -/

theorem Consistent.of_writer {capacity : Nat} {system : System} {log late : List Event}
    {writer : Writer} (h : Consistent capacity system log) (ring : Ring)
    (hread : ring.read = system.ring.read) (hcapacity : ring.capacity = system.ring.capacity)
    (hpublished : system.ring.published ≤ ring.published)
    (hreserved : system.ring.reserved ≤ ring.reserved) (hlate : returns late = [])
    (hindices : (records (log ++ late)).map Prod.fst =
      List.range (records (log ++ late)).length)
    (hcalls : calls (log ++ late) = recorded (log ++ late) ++ writer.carried)
    (hwriter : writer.Agrees ring (records (log ++ late)).length)
    (hlatest : ring.HoldsLatest (recorded (log ++ late)))
    (hclaimed : ∀ index < ring.reserved, .claimed index ∈ log ++ late) :
    Consistent capacity { system with ring, writer } (log ++ late) where
  capacity_eq := hcapacity.trans h.capacity_eq
  indices := hindices
  calls_eq := hcalls
  writer := hwriter
  latest := hlatest
  claimed := hclaimed
  read_eq := by
    rw [accounted_append, accounted_of_returns_nil hlate, Nat.add_zero, ← h.read_eq]
    exact hread
  read_le := by
    have hle := h.read_le
    simp only
    omega
  drainer := h.drainer.frame hread hcapacity hpublished hreserved hlate
  returned := fun past harvest hpast =>
    h.returned past harvest (prefix_of_returns_nil hlate hpast)
  returns_eq := by
    rw [returns_append, hlate, List.append_nil]
    exact h.returns_eq

theorem Consistent.record {capacity : Nat} {system : System} {log : List Event}
    (h : Consistent capacity system log) (hidle : system.writer = .idle)
    (decision : Decision) :
    Consistent capacity { system with writer := .entered decision }
      (log ++ [.called decision]) := by
  have hwriter := h.writer
  have hcalls := h.calls_eq
  rw [hidle] at hwriter hcalls
  refine h.of_writer system.ring rfl rfl (Nat.le_refl _) (Nat.le_refl _) rfl
    ?_ ?_ ?_ ?_ ?_
  · simpa [records] using h.indices
  · simp only [calls_append, hcalls, recorded_append]
    simp [calls, recorded, records, Writer.carried]
  · simpa [records, Writer.Agrees] using hwriter
  · simpa [recorded, records] using h.latest
  · intro index hindex
    exact List.mem_append_left _ (h.claimed index hindex)

/-- The four steps of a record: load `reserved`, claim, store, publish. -/
theorem Consistent.write {capacity : Nat} {system after : System} {log : List Event}
    (h : Consistent capacity system log) (hstep : system.write? = some after) :
    Consistent capacity after (log ++ system.events .write) := by
  have hwriter := h.writer
  have hcalls := h.calls_eq
  cases hphase : system.writer with
  | idle => simp [write?, hphase] at hstep
  | entered decision =>
      simp only [write?, hphase, Option.some.injEq] at hstep
      subst hstep
      rw [hphase] at hwriter hcalls
      simp only [events, hphase]
      refine h.of_writer system.ring rfl rfl (Nat.le_refl _) (Nat.le_refl _) rfl
        ?_ ?_ ?_ ?_ ?_
      · simpa using h.indices
      · simpa [Writer.carried] using hcalls
      · simpa [Writer.Agrees] using hwriter
      · simpa using h.latest
      · simpa using h.claimed
  | loaded decision index =>
      simp only [write?, hphase, Option.some.injEq] at hstep
      subst hstep
      rw [hphase] at hwriter hcalls
      obtain ⟨hindex, hreserved, hpublished⟩ := hwriter
      simp only [events, hphase]
      refine h.of_writer _ rfl rfl (Nat.le_refl _) ?_ rfl ?_ ?_ ?_ ?_ ?_
      · simp only [claim]
        omega
      · simpa [records] using h.indices
      · simpa [calls, recorded, records, Writer.carried] using hcalls
      · simp only [Writer.Agrees, claim, records_append]
        simp [records] at hindex hpublished ⊢
        omega
      · simpa [recorded, records] using h.latest.of_slots (system.ring.claim index) rfl
      · intro place hplace
        simp only [claim] at hplace
        rcases Nat.lt_or_ge place index with hold | hnew
        · exact List.mem_append_left _ (h.claimed place (by omega))
        · have hsame : place = index := by omega
          simp [hsame]
  | claimed decision index =>
      simp only [write?, hphase, Option.some.injEq] at hstep
      subst hstep
      rw [hphase] at hwriter hcalls
      obtain ⟨hindex, hreserved, hpublished⟩ := hwriter
      simp only [events, hphase]
      refine h.of_writer _ rfl (capacity_store ..) (Nat.le_refl _) (Nat.le_refl _) rfl
        ?_ ?_ ?_ ?_ ?_
      · have hindices := h.indices
        simp only [records_append, List.map_append, hindices, List.length_append]
        simp [records, hindex, List.range_succ]
      · simpa [calls, recorded, records, Writer.carried] using hcalls
      · simp only [Writer.Agrees, store, records_append, List.length_append]
        simp [records] at hindex hpublished hreserved ⊢
        omega
      -- The only step that changes a slot; the word it replaces is a lap behind.
      · have hstored := h.latest.store decision
        rw [length_recorded, ← hindex] at hstored
        simpa [recorded, records] using hstored
      · intro place hplace
        exact List.mem_append_left _ (h.claimed place hplace)
  | stored index =>
      simp only [write?, hphase, Option.some.injEq] at hstep
      subst hstep
      rw [hphase] at hwriter hcalls
      obtain ⟨hindex, hreserved, hpublished⟩ := hwriter
      simp only [events, hphase]
      refine h.of_writer _ rfl rfl ?_ (Nat.le_refl _) rfl ?_ ?_ ?_ ?_ ?_
      · simp only [publish]
        omega
      · simpa using h.indices
      · simpa [Writer.carried] using hcalls
      · simp only [Writer.Agrees, publish, List.append_nil]
        omega
      · simpa using h.latest.of_slots (system.ring.publish index) rfl
      · simpa [publish] using h.claimed

/-! Steps of the thread that harvests. -/

theorem Consistent.of_drainer {capacity : Nat} {system : System} {log late : List Event}
    {drainer : Drainer} {harvests : List Harvest} (h : Consistent capacity system log)
    (ring : Ring) (hslots : ring.slots = system.ring.slots)
    (hreserved : ring.reserved = system.ring.reserved)
    (hpublished : ring.published = system.ring.published)
    (hrecords : records late = []) (hcalls : calls late = [])
    (hread : ring.read = accounted (log ++ late)) (hread_le : ring.read ≤ ring.published)
    (hdrainer : DrainerAgrees drainer ring (log ++ late))
    (hreturned : ∀ past harvest, past ++ [.returned harvest] <+: log ++ late →
      ∃ read first stop, Exact capacity past read first stop harvest)
    (hreturns : harvests = system.harvests ++ returns late) :
    Consistent capacity { system with ring, drainer, harvests } (log ++ late) where
  capacity_eq := by
    have hcapacity := h.capacity_eq
    simp only [Ring.capacity, hslots] at hcapacity ⊢
    exact hcapacity
  indices := by
    rw [records_append, hrecords, List.append_nil]
    exact h.indices
  calls_eq := by
    rw [calls_append, hcalls, List.append_nil, recorded_append]
    simpa [recorded, hrecords] using h.calls_eq
  writer := by
    have hwriter := h.writer
    rw [records_append, hrecords, List.append_nil]
    unfold Writer.Agrees at hwriter ⊢
    simp only [hreserved, hpublished]
    exact hwriter
  latest := by
    rw [recorded_append]
    simpa [recorded, hrecords] using h.latest.of_slots ring hslots
  claimed := fun index hindex =>
    List.mem_append_left _ (h.claimed index (by simp only at hindex; omega))
  read_eq := hread
  read_le := hread_le
  drainer := hdrainer
  returned := hreturned
  returns_eq := by rw [returns_append, h.returns_eq, hreturns]

theorem Consistent.of_silent {capacity : Nat} {system : System} {log late : List Event}
    {drainer : Drainer} (h : Consistent capacity system log) (ring : Ring)
    (hslots : ring.slots = system.ring.slots) (hreserved : ring.reserved = system.ring.reserved)
    (hpublished : ring.published = system.ring.published)
    (hread : ring.read = system.ring.read) (hrecords : records late = [])
    (hcalls : calls late = []) (hlate : returns late = [])
    (hdrainer : DrainerAgrees drainer ring (log ++ late)) :
    Consistent capacity { system with ring, drainer } (log ++ late) := by
  refine h.of_drainer ring hslots hreserved hpublished hrecords hcalls ?_ ?_ hdrainer ?_ ?_
  · rw [hread, h.read_eq, accounted_append, accounted_of_returns_nil hlate, Nat.add_zero]
  · rw [hread, hpublished]
    exact h.read_le
  · exact fun past harvest hpast => h.returned past harvest (prefix_of_returns_nil hlate hpast)
  · rw [hlate, List.append_nil]

theorem Consistent.exact_of_nothing_new {capacity read : Nat} {system : System}
    {log : List Event} (h : Consistent capacity system log) (hread : system.ring.read = read)
    (hnothing : system.ring.published = read) :
    Exact capacity (log ++ [.opened read read]) read read read {} where
  opened := ⟨log, .now log _⟩
  read_eq := by
    rw [accounted_append, ← h.read_eq, hread]
    rfl
  read_le := Nat.le_refl _
  first_le := Nat.le_refl _
  stop_le := by
    have hbounds := h.writer.bounds
    rw [records_append, List.length_append]
    omega
  events_eq := by simp
  dropped_eq := (Nat.sub_self read).symm
  overwritten := fun index hread hindex => absurd hindex (Nat.not_lt.mpr hread)

/-- The next word of a copy is the one stored, unless its slot has been claimed again. -/
theorem Copied.load {ring : Ring} {log : List Event} {read published : Nat}
    {words : List UInt64} (h : Copied ring log read published ring.reserved words)
    (hlatest : ring.HoldsLatest (recorded log))
    (hpublished : ring.published ≤ (recorded log).length)
    (hreserved : (recorded log).length ≤ ring.reserved)
    (hnext : copyStart ring.capacity read published + words.length < published) :
    Copied ring log read published ring.reserved
      (words ++ [ring.load (copyStart ring.capacity read published + words.length)]) where
  read_eq := h.read_eq
  read_lt := h.read_lt
  published_le := h.published_le
  opened := h.opened
  length_le := by
    simp only [List.length_append, List.length_singleton]
    omega
  intact := by
    intro place word hword hlap
    rcases Nat.lt_or_ge place words.length with hold | hnew
    · rw [List.getElem?_append_left hold] at hword
      exact h.intact place word hword hlap
    · obtain ⟨hbound, -⟩ := List.getElem?_eq_some_iff.mp hword
      simp only [List.length_append, List.length_singleton] at hbound
      have hplace : place = words.length := by omega
      subst hplace
      simp only [List.getElem?_concat_length, Option.some.injEq] at hword
      have hle := h.published_le
      have hstored := List.getElem?_eq_getElem (l := recorded log)
        (i := copyStart ring.capacity read published + words.length) (by omega)
      -- A slot is claimed before it is stored to: one not claimed again holds its word.
      rw [hstored, ← hword, hlatest _ _ hstored (by omega)]
      rfl

theorem Copied.exact {ring : Ring} {log : List Event} {read published reserved : Nat}
    {words : List UInt64} (h : Copied ring log read published reserved words)
    (hread : ring.read = accounted log) (hpublished : ring.published ≤ (records log).length)
    (hlength : copyStart ring.capacity read published + words.length = published)
    (hle : published ≤ reserved)
    (hchecked : ∃ early, During log .checked early ∧
      ∀ index < reserved, .claimed index ∈ early) :
    Exact ring.capacity log read
      (firstIntact ring.capacity reserved (copyStart ring.capacity read published) published)
      published (harvestOfCopy ring.capacity read published reserved words) where
  opened := h.opened
  read_eq := by rw [← h.read_eq, hread]
  read_le := Nat.le_trans (le_copyStart ..) (le_firstIntact ..)
  first_le := firstIntact_le _ _ (copyStart_le _ (Nat.le_of_lt h.read_lt))
  stop_le := Nat.le_trans h.published_le hpublished
  events_eq := events_harvestOfCopy hlength h.intact
  dropped_eq := by
    have hstart := le_copyStart ring.capacity read published
    have hfirst := le_firstIntact ring.capacity reserved
      (copyStart ring.capacity read published) published
    simp only [harvestOfCopy]
    omega
  overwritten := by
    intro index hread hindex
    obtain ⟨early, hduring, hclaimed⟩ := hchecked
    refine ⟨early, hduring, hclaimed _ ?_⟩
    simp only [firstIntact, copyStart] at hindex
    omega

/-- Every decision from the old read cursor up to the new one is returned or dropped. -/
theorem Exact.read_add {capacity read first stop : Nat} {past : List Event}
    {harvest : Harvest} (h : Exact capacity past read first stop harvest) :
    read + (harvest.events.length + harvest.dropped) = stop := by
  have hread := h.read_le
  have hfirst := h.first_le
  have hstop := h.stop_le
  rw [h.events_eq, h.dropped_eq]
  simp only [List.length_map, List.length_take, List.length_drop, length_recorded]
  omega

/-- A harvest that returns must be exact; those before it are so already. -/
theorem Consistent.returned_append {capacity read first stop : Nat} {system : System}
    {log : List Event} {harvest : Harvest} (h : Consistent capacity system log)
    (late : List Event) (hlate : returns late = [])
    (hexact : Exact capacity (log ++ late) read first stop harvest) :
    ∀ past other, past ++ [.returned other] <+: log ++ (late ++ [.returned harvest]) →
      ∃ read first stop, Exact capacity past read first stop other := by
  intro past other hpast
  rw [← List.append_assoc, List.prefix_concat_iff] at hpast
  rcases hpast with hnow | hold
  · obtain ⟨rfl, hsame⟩ := List.append_inj' hnow rfl
    simp only [List.cons.injEq, Event.returned.injEq, and_true] at hsame
    subst hsame
    exact ⟨read, first, stop, hexact⟩
  · exact h.returned past other (prefix_of_returns_nil hlate hold)

/-- The steps of a harvest: load `read` and `published`, copy, load `reserved`,
count what was dropped, and store `read`. -/
theorem Consistent.drain {capacity : Nat} {system after : System} {log : List Event}
    (h : Consistent capacity system log) (hstep : system.drain? = some after) :
    Consistent capacity after (log ++ system.events .drain) := by
  have hdrainer := h.drainer
  obtain ⟨hpublished, hcount, hreserved⟩ := h.writer.bounds
  cases hphase : system.drainer with
  | idle => simp [drain?, hphase] at hstep
  | entered =>
      simp only [drain?, hphase, Option.some.injEq] at hstep
      subst hstep
      simp only [events, hphase]
      exact h.of_silent system.ring rfl rfl rfl rfl rfl rfl rfl rfl
  | loadedRead read =>
      rw [hphase] at hdrainer
      simp only [drain?, hphase] at hstep
      simp only [events, hphase]
      split at hstep
      · rename_i hnothing
        simp only [Option.some.injEq] at hstep
        subst hstep
        rw [if_pos hnothing]
        have hexact := h.exact_of_nothing_new hdrainer hnothing
        refine h.of_drainer system.ring rfl rfl rfl rfl rfl ?_ h.read_le trivial
          (h.returned_append [.opened read read] rfl hexact) rfl
        rw [h.read_eq, accounted_append]
        rfl
      · rename_i hnew
        simp only [Option.some.injEq] at hstep
        subst hstep
        rw [if_neg hnew]
        refine h.of_silent system.ring rfl rfl rfl rfl rfl rfl rfl ?_
        exact {
          read_eq := hdrainer
          read_lt := by
            have hread : system.ring.read = read := hdrainer
            have hle := h.read_le
            omega
          published_le := Nat.le_refl _
          opened := ⟨log, .now log _⟩
          length_le := by
            have hread : system.ring.read = read := hdrainer
            exact copyStart_le _ (hread ▸ h.read_le)
          intact := fun place word hword _ => by simp at hword }
  | copying read published words =>
      rw [hphase] at hdrainer
      simp only [drain?, hphase] at hstep
      simp only [events, hphase]
      split at hstep
      · rename_i hnext
        simp only [Option.some.injEq] at hstep
        subst hstep
        rw [if_pos hnext]
        refine h.of_silent system.ring rfl rfl rfl rfl rfl rfl rfl ?_
        rw [List.append_nil]
        exact Copied.load hdrainer h.latest (by simpa using hpublished) (by simpa using hcount)
          hnext
      · rename_i hdone
        simp only [Option.some.injEq] at hstep
        subst hstep
        rw [if_neg hdone]
        have hcopied : Copied system.ring log read published system.ring.reserved words :=
          hdrainer
        refine h.of_silent system.ring rfl rfl rfl rfl rfl rfl rfl
          ⟨hcopied.frame rfl rfl (Nat.le_refl _) rfl, ?_, ?_, log, .now log _, h.claimed⟩
        · exact Nat.le_antisymm hcopied.length_le (Nat.not_lt.mp hdone)
        · have hle := hcopied.published_le
          omega
  | checked read published reserved words =>
      rw [hphase] at hdrainer
      obtain ⟨hcopied, hlength, hle, hchecked⟩ := hdrainer
      simp only [drain?, hphase, Option.some.injEq] at hstep
      subst hstep
      simp only [events, hphase]
      have hexact := hcopied.exact h.read_eq hpublished hlength hle hchecked
      rw [← hcopied.read_eq] at hexact ⊢
      rw [← List.append_nil log] at hexact
      exact h.of_silent _ rfl rfl rfl rfl rfl rfl rfl ⟨hcopied.published_le, _, hexact⟩
  | counted published harvest =>
      rw [hphase] at hdrainer
      obtain ⟨hle, first, hexact⟩ := hdrainer
      simp only [drain?, hphase, Option.some.injEq] at hstep
      subst hstep
      simp only [events, hphase]
      rw [h.capacity_eq] at hexact
      refine h.of_drainer _ rfl rfl rfl rfl rfl ?_ hle trivial
        (h.returned_append [] rfl (by simpa using hexact)) rfl
      have hsum := hexact.read_add
      rw [h.read_eq] at hsum
      simpa [accounted, returns, markRead] using hsum.symm

/-! Whole runs. -/

theorem consistent_start (capacity : Nat) (hpositive : 0 < capacity) :
    Consistent capacity (start capacity hpositive) [] where
  capacity_eq := capacity_ofCapacity capacity hpositive
  indices := rfl
  calls_eq := rfl
  writer := ⟨rfl, rfl⟩
  latest := .nil _
  claimed := fun index hindex => absurd hindex (Nat.not_lt_zero index)
  read_eq := rfl
  read_le := Nat.le_refl _
  drainer := trivial
  returned := fun past harvest hpast => by
    have hnil := List.prefix_nil.mp hpast
    simp at hnil
  returns_eq := rfl

theorem Consistent.step {capacity : Nat} {before after : System} {move : Move}
    {log : List Event} (h : Consistent capacity before log)
    (hstep : step? before move = some after) :
    Consistent capacity after (note before move log) := by
  cases move with
  | record decision =>
      simp only [step?] at hstep
      split at hstep
      · rename_i hidle
        cases hstep
        exact h.record hidle decision
      · cases hstep
  | write => exact h.write hstep
  | harvest =>
      simp only [step?] at hstep
      split at hstep
      · cases hstep
        exact h.of_silent before.ring rfl rfl rfl rfl rfl rfl rfl trivial
      · cases hstep
  | drain => exact h.drain hstep

theorem consistent_of_run {capacity : Nat} {hpositive : 0 < capacity} {moves : List Move}
    {last : System} (hrun : (start capacity hpositive).run? moves = some last) :
    Consistent capacity last (log (start capacity hpositive) moves) :=
  Steps.history_invariant hrun (consistent_start capacity hpositive)
    fun _ _ _ _ h hstep => h.step hstep

theorem Exact.events_eq_of_le {capacity read first stop : Nat} {past : List Event}
    {harvest : Harvest} (h : Exact capacity past read first stop harvest)
    (hfit : ∀ decision ∈ ((recorded past).drop first).take (stop - first),
      decision.time ≤ Decision.maxTime) :
    harvest.events = ((recorded past).drop first).take (stop - first) := by
  rw [h.events_eq,
    List.map_congr_left fun decision hmem => Decision.kept_of_le (hfit decision hmem),
    List.map_id']

/-- Records are given the indices 0, 1, 2, … in the order of their calls, and
every harvest that returns is exact: it has taken the decisions of one range of
indices, up to where `published` stood when it was loaded, and dropped those
between the old read cursor and that range, all of them overwritten. -/
theorem every_harvest_exact {capacity : Nat} (hpositive : 0 < capacity) {moves : List Move}
    {last : System} (hrun : (start capacity hpositive).run? moves = some last) :
    (records (log (start capacity hpositive) moves)).map Prod.fst =
        List.range (records (log (start capacity hpositive) moves)).length ∧
      recorded (log (start capacity hpositive) moves) <+:
        calls (log (start capacity hpositive) moves) ∧
      last.harvests = returns (log (start capacity hpositive) moves) ∧
      last.ring.read = accounted (log (start capacity hpositive) moves) ∧
      ∀ past harvest, past ++ [.returned harvest] <+: log (start capacity hpositive) moves →
        ∃ read first stop, Exact capacity past read first stop harvest ∧
          ((∀ decision ∈ ((recorded past).drop first).take (stop - first),
              decision.time ≤ Decision.maxTime) →
            harvest.events = ((recorded past).drop first).take (stop - first)) := by
  have h := consistent_of_run hrun
  refine ⟨h.indices, ?_, h.returns_eq.symm, h.read_eq, ?_⟩
  · rw [h.calls_eq]
    exact List.prefix_append ..
  · intro past harvest hpast
    obtain ⟨read, first, stop, hexact⟩ := h.returned past harvest hpast
    exact ⟨read, first, stop, hexact, hexact.events_eq_of_le⟩

def lappedMoves : List Move :=
  [.record ⟨1, true⟩, .write, .write, .write, .write,
    .record ⟨2, true⟩, .write, .write, .write, .write,
    .harvest, .drain, .drain, .drain,
    .record ⟨3, false⟩, .write, .write,
    .drain, .drain, .drain, .drain]

theorem every_harvest_exact_lappedMoves :
    ∃ last, (start 2 Nat.two_pos).run? lappedMoves = some last ∧
      last.harvests = [⟨[⟨2, true⟩], 1⟩] ∧
      ∀ past harvest,
        past ++ [.returned harvest] <+: log (start 2 Nat.two_pos) lappedMoves →
        ∃ read first stop, Exact 2 past read first stop harvest := by
  refine ⟨_, rfl, rfl, ?_⟩
  intro past harvest hpast
  have hrun : (start 2 Nat.two_pos).run? lappedMoves = some _ := rfl
  obtain ⟨-, -, -, -, hexact⟩ := every_harvest_exact Nat.two_pos hrun
  obtain ⟨read, first, stop, hrange, -⟩ := hexact past harvest hpast
  exact ⟨read, first, stop, hrange⟩

end System

end Turnstile.Ring
