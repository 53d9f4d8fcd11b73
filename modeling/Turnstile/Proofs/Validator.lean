import Turnstile.Validator

/-!
What the checks of a batch report. Batches of a wrong size are turned away unread. In all others
the metrics are read in their order, and the first that has a defect is reported with the first
defect it has; nothing after it is looked at.
-/

namespace Turnstile

def BatchDefect.isOfMetric : BatchDefect → Bool
  | .emptyName | .nameTooLong .. | .nonFiniteValue => true
  | .emptyBatch | .batchTooLarge .. | .invalidMetric .. => false

namespace Validator

structure Accepts (validator : Validator) (metric : Metric) : Prop where
  name_nonempty : 1 ≤ metric.name.utf8ByteSize
  name_le : metric.name.utf8ByteSize ≤ validator.maxNameLength
  isFinite : metric.value.isFinite = true

/-- A metric's first defect: its name comes before its value, and no name before too long a one. -/
inductive Flaw (validator : Validator) (metric : Metric) : BatchDefect → Prop
  | emptyName (hname : metric.name.utf8ByteSize = 0) : Flaw validator metric .emptyName
  | nameTooLong (hname : validator.maxNameLength < metric.name.utf8ByteSize)
      (hnonempty : 1 ≤ metric.name.utf8ByteSize) :
      Flaw validator metric
        (.nameTooLong metric.name.utf8ByteSize validator.maxNameLength)
  | nonFiniteValue (hvalue : metric.value.isFinite = false)
      (hnonempty : 1 ≤ metric.name.utf8ByteSize)
      (hname : metric.name.utf8ByteSize ≤ validator.maxNameLength) :
      Flaw validator metric .nonFiniteValue

/-- All metrics before a place are accepted, and the one there has the flaw. -/
structure FirstFlaw (validator : Validator) (metrics : List Metric) (place : Nat)
    (reason : BatchDefect) : Prop where
  flaw : ∃ metric, metrics[place]? = some metric ∧ validator.Flaw metric reason
  earlier : ∀ earlier < place, ∀ metric, metrics[earlier]? = some metric →
    validator.Accepts metric

variable {validator : Validator}

theorem Flaw.isOfMetric {metric : Metric} {reason : BatchDefect}
    (h : validator.Flaw metric reason) : reason.isOfMetric = true := by
  cases h <;> rfl

theorem Accepts.not_flaw {metric : Metric} {reason : BatchDefect}
    (h : validator.Accepts metric) : ¬ validator.Flaw metric reason := by
  obtain ⟨hnonempty, hle, hfinite⟩ := h
  intro hflaw
  cases hflaw with
  | emptyName hname => omega
  | nameTooLong hname _ => omega
  | nonFiniteValue hvalue _ _ =>
      rw [hfinite] at hvalue
      cases hvalue

theorem metricDefect?_eq_none_iff {metric : Metric} :
    validator.metricDefect? metric = none ↔ validator.Accepts metric := by
  simp only [metricDefect?]
  constructor
  · intro h
    split at h
    · cases h
    · split at h
      · cases h
      · split at h
        · rename_i hnonempty hle hfinite
          exact ⟨Nat.one_le_iff_ne_zero.mpr hnonempty, Nat.not_lt.mp hle, hfinite⟩
        · cases h
  · rintro ⟨hnonempty, hle, hfinite⟩
    rw [if_neg (by omega), if_neg (by omega), if_pos hfinite]

theorem metricDefect?_eq_some_iff {metric : Metric} {reason : BatchDefect} :
    validator.metricDefect? metric = some reason ↔ validator.Flaw metric reason := by
  simp only [metricDefect?]
  constructor
  · intro h
    split at h
    · rename_i hempty
      cases h
      exact .emptyName hempty
    · rename_i hnonempty
      have hpositive := Nat.one_le_iff_ne_zero.mpr hnonempty
      split at h
      · rename_i hlong
        cases h
        exact .nameTooLong hlong hpositive
      · rename_i hfits
        split at h
        · cases h
        · rename_i hvalue
          cases h
          exact .nonFiniteValue (Bool.eq_false_iff.mpr hvalue) hpositive (Nat.not_lt.mp hfits)
  · intro h
    cases h with
    | emptyName hname => rw [if_pos hname]
    | nameTooLong hname hnonempty => rw [if_neg (by omega), if_pos hname]
    | nonFiniteValue hvalue hnonempty hname =>
        rw [if_neg (by omega), if_neg (by omega), if_neg (Bool.eq_false_iff.mp hvalue)]

theorem firstDefect?_eq_none_iff {metrics : List Metric} {start : Nat} :
    validator.firstDefect? start metrics = none ↔
      ∀ metric ∈ metrics, validator.Accepts metric := by
  induction metrics generalizing start with
  | nil => exact ⟨fun _ _ hmem => absurd hmem List.not_mem_nil, fun _ => rfl⟩
  | cons metric rest ih =>
      rw [firstDefect?, List.forall_mem_cons]
      cases hmetric : validator.metricDefect? metric with
      | some reason =>
          have hflaw := metricDefect?_eq_some_iff.mp hmetric
          exact ⟨fun h => (nomatch h), fun h => absurd hflaw h.1.not_flaw⟩
      | none =>
          have haccepts := metricDefect?_eq_none_iff.mp hmetric
          exact ⟨fun h => ⟨haccepts, ih.mp h⟩, fun h => ih.mpr h.2⟩

namespace FirstFlaw

variable {metric : Metric} {metrics others : List Metric} {place : Nat} {reason : BatchDefect}

theorem head (h : validator.Flaw metric reason) :
    validator.FirstFlaw (metric :: metrics) 0 reason where
  flaw := ⟨metric, rfl, h⟩
  earlier := fun _ hearlier => absurd hearlier (Nat.not_lt_zero _)

theorem cons (h : validator.FirstFlaw metrics place reason) (haccepts : validator.Accepts metric) :
    validator.FirstFlaw (metric :: metrics) (place + 1) reason where
  flaw := h.flaw
  earlier := fun earlier hearlier other hother => by
    cases earlier with
    | zero =>
        cases hother
        exact haccepts
    | succ earlier => exact h.earlier earlier (by omega) other hother

theorem of_cons (h : validator.FirstFlaw (metric :: metrics) (place + 1) reason) :
    validator.FirstFlaw metrics place reason where
  flaw := h.flaw
  earlier := fun earlier hearlier other hother =>
    h.earlier (earlier + 1) (by omega) other hother

theorem isOfMetric (h : validator.FirstFlaw metrics place reason) : reason.isOfMetric = true := by
  obtain ⟨metric, -, hflaw⟩ := h.flaw
  exact hflaw.isOfMetric

/-- What comes after the first flaw has no part in it. -/
theorem congr (h : validator.FirstFlaw metrics place reason)
    (hsame : others.take (place + 1) = metrics.take (place + 1)) :
    validator.FirstFlaw others place reason := by
  have hget {index : Nat} (hindex : index < place + 1) : others[index]? = metrics[index]? := by
    rw [← List.getElem?_take_of_lt hindex, hsame, List.getElem?_take_of_lt hindex]
  obtain ⟨metric, hmetric, hflaw⟩ := h.flaw
  refine ⟨⟨metric, (hget (Nat.lt_succ_self place)).trans hmetric, hflaw⟩, ?_⟩
  intro earlier hearlier other hother
  exact h.earlier earlier hearlier other ((hget (by omega)).symm.trans hother)

end FirstFlaw

theorem firstDefect?_eq_some_iff {metrics : List Metric} {start : Nat} {defect : BatchDefect} :
    validator.firstDefect? start metrics = some defect ↔
      ∃ place reason, defect = .invalidMetric (start + place) reason ∧
        validator.FirstFlaw metrics place reason := by
  induction metrics generalizing start with
  | nil =>
      refine ⟨fun h => (nomatch h), ?_⟩
      rintro ⟨place, reason, -, ⟨metric, hmetric, -⟩, -⟩
      cases hmetric
  | cons metric rest ih =>
      rw [firstDefect?]
      cases hmetric : validator.metricDefect? metric with
      | some found =>
          have hfound := metricDefect?_eq_some_iff.mp hmetric
          constructor
          · intro h
            cases h
            exact ⟨0, found, rfl, .head hfound⟩
          · rintro ⟨place, reason, rfl, h⟩
            cases place with
            | zero =>
                obtain ⟨other, hother, hflaw⟩ := h.flaw
                cases hother
                have hsame := metricDefect?_eq_some_iff.mpr hflaw
                rw [hmetric, Option.some.injEq] at hsame
                rw [hsame]
                rfl
            | succ place =>
                exact absurd hfound (h.earlier 0 (Nat.succ_pos place) metric rfl).not_flaw
      | none =>
          have haccepts := metricDefect?_eq_none_iff.mp hmetric
          rw [ih]
          constructor
          · rintro ⟨place, reason, rfl, h⟩
            exact ⟨place + 1, reason, by rw [Nat.add_assoc, Nat.add_comm 1], h.cons haccepts⟩
          · rintro ⟨place, reason, rfl, h⟩
            cases place with
            | zero =>
                obtain ⟨other, hother, hflaw⟩ := h.flaw
                cases hother
                exact absurd hflaw haccepts.not_flaw
            | succ place =>
                exact ⟨place, reason, by rw [Nat.add_assoc, Nat.add_comm 1], h.of_cons⟩

/-! Batches by their size. -/

variable {batch : Batch}

theorem defect?_of_size_eq_zero (h : batch.size = 0) :
    validator.defect? batch = some .emptyBatch :=
  if_pos h

theorem defect?_of_lt_size (hsome : 1 ≤ batch.size) (h : validator.maxBatchSize < batch.size) :
    validator.defect? batch = some (.batchTooLarge batch.size validator.maxBatchSize) := by
  rw [defect?, if_neg (by omega), if_pos h]

theorem defect?_of_size_le (hsome : 1 ≤ batch.size) (h : batch.size ≤ validator.maxBatchSize) :
    validator.defect? batch = validator.firstDefect? 0 batch.metrics := by
  rw [defect?, if_neg (by omega), if_neg (by omega)]

theorem size_cases (validator : Validator) (batch : Batch) :
    batch.size = 0 ∨ (1 ≤ batch.size ∧ validator.maxBatchSize < batch.size) ∨
      (1 ≤ batch.size ∧ batch.size ≤ validator.maxBatchSize) := by
  omega

theorem defect?_eq_none_iff :
    validator.defect? batch = none ↔
      1 ≤ batch.size ∧ batch.size ≤ validator.maxBatchSize ∧
        ∀ metric ∈ batch.metrics, validator.Accepts metric := by
  rcases size_cases validator batch with hempty | ⟨hsome, hlarge⟩ | ⟨hsome, hfits⟩
  · rw [defect?_of_size_eq_zero hempty]
    exact ⟨fun h => (nomatch h), fun h => absurd h.1 (by omega)⟩
  · rw [defect?_of_lt_size hsome hlarge]
    exact ⟨fun h => (nomatch h), fun h => absurd h.2.1 (by omega)⟩
  · rw [defect?_of_size_le hsome hfits, firstDefect?_eq_none_iff]
    exact ⟨fun h => ⟨hsome, hfits, h⟩, fun h => h.2.2⟩

theorem defect?_eq_emptyBatch_iff :
    validator.defect? batch = some .emptyBatch ↔ batch.metrics = [] := by
  rw [← List.length_eq_zero_iff]
  rcases size_cases validator batch with hempty | ⟨hsome, hlarge⟩ | ⟨hsome, hfits⟩
  · exact ⟨fun _ => hempty, defect?_of_size_eq_zero⟩
  · rw [defect?_of_lt_size hsome hlarge]
    exact ⟨fun h => (nomatch h), fun h => absurd hsome (by simp [Batch.size, h])⟩
  · rw [defect?_of_size_le hsome hfits, firstDefect?_eq_some_iff]
    exact ⟨fun ⟨_, _, h, _⟩ => (nomatch h), fun h => absurd hsome (by simp [Batch.size, h])⟩

theorem defect?_eq_batchTooLarge_iff {size max : Nat} :
    validator.defect? batch = some (.batchTooLarge size max) ↔
      1 ≤ batch.size ∧ validator.maxBatchSize < batch.size ∧
        size = batch.size ∧ max = validator.maxBatchSize := by
  rcases size_cases validator batch with hempty | ⟨hsome, hlarge⟩ | ⟨hsome, hfits⟩
  · rw [defect?_of_size_eq_zero hempty]
    exact ⟨fun h => (nomatch h), fun h => absurd h.1 (by omega)⟩
  · rw [defect?_of_lt_size hsome hlarge]
    constructor
    · intro h
      cases h
      exact ⟨hsome, hlarge, rfl, rfl⟩
    · rintro ⟨-, -, rfl, rfl⟩
      rfl
  · rw [defect?_of_size_le hsome hfits, firstDefect?_eq_some_iff]
    exact ⟨fun ⟨_, _, h, _⟩ => (nomatch h), fun h => absurd h.2.1 (by omega)⟩

theorem defect?_eq_invalidMetric_iff {index : Nat} {reason : BatchDefect} :
    validator.defect? batch = some (.invalidMetric index reason) ↔
      1 ≤ batch.size ∧ batch.size ≤ validator.maxBatchSize ∧
        validator.FirstFlaw batch.metrics index reason := by
  rcases size_cases validator batch with hempty | ⟨hsome, hlarge⟩ | ⟨hsome, hfits⟩
  · rw [defect?_of_size_eq_zero hempty]
    exact ⟨fun h => (nomatch h), fun h => absurd h.1 (by omega)⟩
  · rw [defect?_of_lt_size hsome hlarge]
    exact ⟨fun h => (nomatch h), fun h => absurd h.2.1 (by omega)⟩
  · rw [defect?_of_size_le hsome hfits, firstDefect?_eq_some_iff]
    constructor
    · rintro ⟨place, found, h, hfirst⟩
      rw [Nat.zero_add] at h
      cases h
      exact ⟨hsome, hfits, hfirst⟩
    · rintro ⟨-, -, hfirst⟩
      exact ⟨index, reason, by rw [Nat.zero_add], hfirst⟩

/-- No defect of a metric is reported without saying which metric has it. -/
theorem isOfMetric_of_defect? {defect : BatchDefect}
    (h : validator.defect? batch = some defect) : defect.isOfMetric = false := by
  rcases size_cases validator batch with hempty | ⟨hsome, hlarge⟩ | ⟨hsome, hfits⟩
  · rw [defect?_of_size_eq_zero hempty] at h
    cases h
    rfl
  · rw [defect?_of_lt_size hsome hlarge] at h
    cases h
    rfl
  · rw [defect?_of_size_le hsome hfits, firstDefect?_eq_some_iff] at h
    obtain ⟨place, reason, rfl, -⟩ := h
    rfl

theorem defect?_of_same_take {other : Batch} {index : Nat} {reason : BatchDefect}
    (h : validator.defect? batch = some (.invalidMetric index reason))
    (hfits : other.size ≤ validator.maxBatchSize)
    (hsame : other.metrics.take (index + 1) = batch.metrics.take (index + 1)) :
    validator.defect? other = some (.invalidMetric index reason) := by
  obtain ⟨-, -, hfirst⟩ := defect?_eq_invalidMetric_iff.mp h
  have hother := hfirst.congr hsame
  obtain ⟨metric, hmetric, -⟩ := hother.flaw
  obtain ⟨hindex, -⟩ := List.getElem?_eq_some_iff.mp hmetric
  exact defect?_eq_invalidMetric_iff.mpr
    ⟨Nat.succ_le_of_lt (Nat.lt_of_le_of_lt (Nat.zero_le index) hindex), hfits, hother⟩

/-- What is reported of a batch is its first defect: that it is empty, else that it is too large,
else the first defect of the first metric that has one. Nothing is reported if there is none. The
reason given for a metric is always one of its own, and metrics after it have no part in it. -/
theorem first_defect_reported (validator : Validator) (batch : Batch) :
    (validator.defect? batch = none ↔
        1 ≤ batch.size ∧ batch.size ≤ validator.maxBatchSize ∧
          ∀ metric ∈ batch.metrics, validator.Accepts metric) ∧
      (validator.defect? batch = some .emptyBatch ↔ batch.metrics = []) ∧
      (∀ size max, validator.defect? batch = some (.batchTooLarge size max) ↔
        1 ≤ batch.size ∧ validator.maxBatchSize < batch.size ∧
          size = batch.size ∧ max = validator.maxBatchSize) ∧
      (∀ index reason, validator.defect? batch = some (.invalidMetric index reason) ↔
        1 ≤ batch.size ∧ batch.size ≤ validator.maxBatchSize ∧
          validator.FirstFlaw batch.metrics index reason) ∧
      (∀ defect, validator.defect? batch = some defect → defect.isOfMetric = false) ∧
      ∀ index reason, validator.defect? batch = some (.invalidMetric index reason) →
        reason.isOfMetric = true ∧
          ∀ other : Batch, other.size ≤ validator.maxBatchSize →
            other.metrics.take (index + 1) = batch.metrics.take (index + 1) →
            validator.defect? other = some (.invalidMetric index reason) := by
  refine ⟨defect?_eq_none_iff, defect?_eq_emptyBatch_iff, fun _ _ => defect?_eq_batchTooLarge_iff,
    fun _ _ => defect?_eq_invalidMetric_iff, fun _ => isOfMetric_of_defect?, ?_⟩
  intro index reason h
  obtain ⟨-, -, hfirst⟩ := defect?_eq_invalidMetric_iff.mp h
  exact ⟨hfirst.isOfMetric, fun _ => defect?_of_same_take h⟩

def flawedBatch : Batch where
  source := "host"
  metrics := [⟨"load", ⟨0⟩, .gauge, {}, none⟩, ⟨"débi", ⟨0x7ff0000000000000⟩, .gauge, {}, none⟩,
    ⟨"", ⟨0⟩, .gauge, {}, none⟩]

def shortNames : Validator := ⟨4, 3⟩

theorem first_defect_reported_flawedBatch :
    shortNames.defect? flawedBatch = some (.invalidMetric 1 (.nameTooLong 5 4)) ∧
      shortNames.FirstFlaw flawedBatch.metrics 1 (.nameTooLong 5 4) ∧
      shortNames.defect? ⟨"other", flawedBatch.metrics.take 2⟩ =
        some (.invalidMetric 1 (.nameTooLong 5 4)) := by
  have hdefect : shortNames.defect? flawedBatch =
      some (.invalidMetric 1 (.nameTooLong 5 4)) := by decide
  obtain ⟨-, -, -, hinvalid, -, hreason⟩ := first_defect_reported shortNames flawedBatch
  refine ⟨hdefect, ((hinvalid 1 _).mp hdefect).2.2, ?_⟩
  exact (hreason 1 _ hdefect).2 ⟨"other", flawedBatch.metrics.take 2⟩ (by decide) (by decide)

end Validator

end Turnstile
