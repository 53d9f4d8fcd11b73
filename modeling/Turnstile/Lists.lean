/-! Lists in which one element changes, and what that does to sums, counts and selections. -/

namespace Turnstile

def sumOf (size : α → Nat) : List α → Nat
  | [] => 0
  | item :: rest => size item + sumOf size rest

@[simp] theorem sumOf_nil (size : α → Nat) : sumOf size [] = 0 := rfl

@[simp] theorem sumOf_cons (size : α → Nat) (item : α) (rest : List α) :
    sumOf size (item :: rest) = size item + sumOf size rest := rfl

theorem sumOf_append (size : α → Nat) (before after : List α) :
    sumOf size (before ++ after) = sumOf size before + sumOf size after := by
  induction before with
  | nil => simp
  | cons item rest ih =>
      simp only [List.cons_append, sumOf_cons, ih]
      omega

theorem sumOf_perm (size : α → Nat) {items others : List α} (h : items.Perm others) :
    sumOf size items = sumOf size others := by
  induction h with
  | nil => rfl
  | cons item _ ih => rw [sumOf_cons, sumOf_cons, ih]
  | swap first second rest =>
      simp only [sumOf_cons]
      omega
  | trans _ _ hfirst hsecond => exact hfirst.trans hsecond

theorem sumOf_congr {size other : α → Nat} {items : List α}
    (h : ∀ item ∈ items, size item = other item) : sumOf size items = sumOf other items := by
  induction items with
  | nil => rfl
  | cons item rest ih =>
      rw [sumOf_cons, sumOf_cons, h item List.mem_cons_self]
      exact congrArg (other item + ·) (ih fun next hmem => h next (List.mem_cons_of_mem item hmem))

theorem sumOf_eq_zero {size : α → Nat} {items : List α} (h : ∀ item ∈ items, size item = 0) :
    sumOf size items = 0 := by
  induction items with
  | nil => rfl
  | cons item rest ih =>
      rw [sumOf_cons, h item List.mem_cons_self, Nat.zero_add]
      exact ih fun other hmem => h other (List.mem_cons_of_mem item hmem)

theorem sumOf_le_sumOf {size other : α → Nat} {items : List α}
    (h : ∀ item ∈ items, size item ≤ other item) : sumOf size items ≤ sumOf other items := by
  induction items with
  | nil => exact Nat.le_refl 0
  | cons item rest ih =>
      have hrest := ih fun next hmem => h next (List.mem_cons_of_mem item hmem)
      exact Nat.add_le_add (h item List.mem_cons_self) hrest

theorem le_sumOf_of_mem (size : α → Nat) {item : α} {items : List α} (h : item ∈ items) :
    size item ≤ sumOf size items := by
  obtain ⟨before, after, rfl⟩ := List.append_of_mem h
  rw [sumOf_append, sumOf_cons]
  omega

theorem sumOf_count_le [DecidableEq α] [DecidableEq β] {f : α → β} {p : β → Bool}
    (hf : ∀ item other, f item = f other → item = other) (hp : ∀ item, p (f item) = true)
    {items : List α} (hnodup : items.Nodup) (others : List β) :
    sumOf (fun item => others.count (f item)) items ≤ others.countP p := by
  induction items generalizing others with
  | nil => exact Nat.zero_le _
  | cons item rest ih =>
      obtain ⟨hnew, hrest⟩ := List.nodup_cons.mp hnodup
      let different := others.filter fun other => !decide (other = f item)
      have hsame : ∀ next ∈ rest, others.count (f next) = different.count (f next) := by
        intro next hmem
        have hne : f next ≠ f item := fun h => hnew (hf next item h ▸ hmem)
        exact (List.count_filter (by simpa using hne)).symm
      have hitem : others.count (f item) ≤ (others.filter (· = f item)).countP p := by
        rw [List.countP_filter]
        refine List.countP_mono_left fun other _ hother => ?_
        have hother : other = f item := eq_of_beq hother
        simp [hother, hp item]
      have hsplit := others.countP_eq_countP_filter_add p (· = f item)
      rw [sumOf_cons, sumOf_congr hsame, hsplit]
      exact Nat.add_le_add hitem (ih hrest different)

theorem sumOf_map {size : α → Nat} {change : α → α} (h : ∀ item, size (change item) = size item)
    (items : List α) : sumOf size (items.map change) = sumOf size items := by
  induction items with
  | nil => rfl
  | cons item rest ih => rw [List.map_cons, sumOf_cons, sumOf_cons, h, ih]

theorem sumOf_modify {size : α → Nat} {change : α → α}
    (h : ∀ item, size (change item) = size item) (items : List α) (index : Nat) :
    sumOf size (items.modify index change) = sumOf size items := by
  induction items generalizing index with
  | nil => simp
  | cons head tail ih =>
      cases index with
      | zero => simp [h]
      | succ index => simpa using ih index

theorem exists_perm_set {items : List α} {index : Nat} {old : α}
    (h : items[index]? = some old) :
    ∃ others, items.Perm (old :: others) ∧
      ∀ new, (items.set index new).Perm (new :: others) := by
  obtain ⟨hindex, rfl⟩ := List.getElem?_eq_some_iff.mp h
  refine ⟨items.take index ++ items.drop (index + 1), ?_, fun new => ?_⟩
  · apply List.Perm.trans _ List.perm_middle
    rw [List.getElem_cons_drop, List.take_append_drop]
  · rw [List.set_eq_take_append_cons_drop, if_pos hindex]
    exact List.perm_middle

theorem sumOf_set {items : List α} {index : Nat} {old : α} (size : α → Nat) (new : α)
    (h : items[index]? = some old) :
    sumOf size (items.set index new) + size old = sumOf size items + size new := by
  obtain ⟨others, hitems, hset⟩ := exists_perm_set h
  rw [sumOf_perm size hitems, sumOf_perm size (hset new), sumOf_cons, sumOf_cons]
  omega

theorem countP_set {items : List α} {index : Nat} {old : α} (p : α → Bool) (new : α)
    (h : items[index]? = some old) :
    (items.set index new).countP p + (p old).toNat = items.countP p + (p new).toNat := by
  obtain ⟨others, hitems, hset⟩ := exists_perm_set h
  rw [hitems.countP_eq, (hset new).countP_eq, List.countP_cons, List.countP_cons]
  cases p old <;> cases p new <;> simp

/-- An element that shows the same as before changes nothing in what all of them show. -/
theorem filterMap_set_of_eq {items : List α} {index : Nat} {old new : α} {show? : α → Option β}
    (h : items[index]? = some old) (hsame : show? new = show? old) :
    ((items.set index new).filterMap show?).Perm (items.filterMap show?) := by
  obtain ⟨others, hitems, hset⟩ := exists_perm_set h
  have hold := hitems.filterMap show?
  have hnew := (hset new).filterMap show?
  rw [List.filterMap_cons, hsame, ← List.filterMap_cons] at hnew
  exact hnew.trans hold.symm

theorem filterMap_set_of_none {items : List α} {index : Nat} {old new : α} {shown : β}
    {show? : α → Option β} (h : items[index]? = some old) (hold : show? old = none)
    (hnew : show? new = some shown) :
    ((items.set index new).filterMap show?).Perm (items.filterMap show? ++ [shown]) := by
  obtain ⟨others, hitems, hset⟩ := exists_perm_set h
  have hbefore := hitems.filterMap show?
  have hafter := (hset new).filterMap show?
  rw [List.filterMap_cons_none hold] at hbefore
  rw [List.filterMap_cons_some hnew] at hafter
  have hmoved : (shown :: items.filterMap show?).Perm (items.filterMap show? ++ [shown]) :=
    (List.perm_append_singleton shown _).symm
  exact hafter.trans ((hbefore.symm.cons shown).trans hmoved)

theorem filterMap_concat_of_none {show? : α → Option β} {item : α} (h : show? item = none)
    (items : List α) : (items ++ [item]).filterMap show? = items.filterMap show? := by
  rw [List.filterMap_append, List.filterMap_cons_none h, List.filterMap_nil, List.append_nil]

theorem sumOf_flatMap (size : β → Nat) (f : α → List β) (items : List α) :
    sumOf size (items.flatMap f) = sumOf (fun item => sumOf size (f item)) items := by
  induction items with
  | nil => rfl
  | cons item rest ih => rw [List.flatMap_cons, sumOf_append, sumOf_cons, ih]

theorem sumOf_filter (size : α → Nat) (p : α → Bool) (items : List α) :
    sumOf size (items.filter p) = sumOf (fun item => if p item then size item else 0) items := by
  induction items with
  | nil => rfl
  | cons item rest ih =>
      rw [List.filter_cons, sumOf_cons]
      split
      · rw [sumOf_cons, ih]
      · rw [ih, Nat.zero_add]

theorem countP_flatMap_eq {f : α → List β} {p : β → Bool} {q : α → Bool} {items : List α}
    (h : ∀ item ∈ items, (f item).countP p = (q item).toNat) :
    (items.flatMap f).countP p = items.countP q := by
  induction items with
  | nil => rfl
  | cons item rest ih =>
      have hrest := ih fun other hmem => h other (List.mem_cons_of_mem item hmem)
      rw [List.flatMap_cons, List.countP_append, h item List.mem_cons_self, hrest, List.countP_cons]
      cases q item <;> simp [Nat.add_comm]

theorem map_modify_of_same {f : α → β} {change : α → α} (h : ∀ item, f (change item) = f item)
    (items : List α) (index : Nat) : (items.modify index change).map f = items.map f := by
  induction items generalizing index with
  | nil => simp
  | cons head tail ih =>
      cases index with
      | zero => simp [h]
      | succ index => simpa using ih index

theorem flatMap_modify {f : α → List β} {change : α → α} (h : ∀ item, f (change item) = f item)
    (items : List α) (index : Nat) : (items.modify index change).flatMap f = items.flatMap f := by
  rw [List.flatMap_def, map_modify_of_same h, List.flatMap_def]

theorem flatMap_set {items : List α} {index : Nat} {old new : α} {f : α → List β}
    {added : List β} (h : items[index]? = some old) (hadded : f new = f old ++ added) :
    ((items.set index new).flatMap f).Perm (items.flatMap f ++ added) := by
  obtain ⟨others, hitems, hset⟩ := exists_perm_set h
  have hbefore := hitems.flatMap_right f
  have hafter := (hset new).flatMap_right f
  rw [List.flatMap_cons] at hbefore hafter
  rw [hadded, List.append_assoc] at hafter
  have hmoved := (List.perm_append_comm.append_left (f old)).trans
    (List.append_assoc .. ▸ hbefore.symm.append_right added)
  exact hafter.trans hmoved

theorem getElem?_concat_eq_some {items : List α} {index : Nat} {item other : α} :
    (items ++ [item])[index]? = some other ↔
      items[index]? = some other ∨ index = items.length ∧ item = other := by
  rw [List.getElem?_append]
  split
  · rename_i hindex
    constructor
    · exact .inl
    · rintro (hold | ⟨rfl, -⟩)
      · exact hold
      · exact absurd hindex (Nat.lt_irrefl _)
  · rename_i hindex
    rw [List.getElem?_eq_none (Nat.le_of_not_lt hindex), List.getElem?_singleton]
    simp only [reduceCtorEq, false_or, Option.ite_none_right_eq_some, Option.some.injEq]
    exact and_congr_left fun _ => by omega

/-! Values stored under keys. -/

theorem filter_fst_eq {β : Type v} {entries : List (Nat × β)} {number : Nat} {value : β}
    (hnodup : (entries.map Prod.fst).Nodup) (hmem : (number, value) ∈ entries) :
    (entries.filter fun entry => entry.1 = number) = [(number, value)] := by
  induction entries with
  | nil => cases hmem
  | cons entry rest ih =>
      rw [List.map_cons, List.nodup_cons] at hnodup
      rcases List.mem_cons.mp hmem with rfl | hrest
      · have hnone : (rest.filter fun entry => entry.1 = number) = [] := by
          apply List.filter_eq_nil_iff.mpr
          intro other hother hsame
          exact hnodup.1 (List.mem_map.mpr ⟨other, hother, of_decide_eq_true hsame⟩)
        simp [hnone]
      · have hne : entry.1 ≠ number := fun hsame =>
          hnodup.1 (List.mem_map.mpr ⟨_, hrest, hsame.symm⟩)
        simpa [hne] using ih hnodup.2 hrest

section Lookup

variable {α : Type u} {β : Type v} [DecidableEq α] {key : α} {entries : List (α × β)}

theorem lookup_concat (h : entries.lookup key = none) (value : β) (other : α) :
    (entries ++ [(key, value)]).lookup other =
      if other = key then some value else entries.lookup other := by
  rw [List.lookup_append]
  split
  · rename_i hsame
    subst hsame
    rw [h, Option.none_or, List.lookup_cons_self]
  · rename_i hne
    rw [List.lookup_cons, beq_false_of_ne hne, List.lookup_nil, Option.or_none]

theorem lookup_replace_self (h : (entries.lookup key).isSome = true) (value : β) :
    (entries.map fun entry => if entry.1 = key then (key, value) else entry).lookup key =
      some value := by
  induction entries with
  | nil => cases h
  | cons entry rest ih =>
      rw [List.map_cons]
      rcases Decidable.em (entry.1 = key) with hsame | hne
      · rw [if_pos hsame, List.lookup_cons_self]
      · have hskip : (key == entry.1) = false := beq_false_of_ne (Ne.symm hne)
        rw [List.lookup_cons, hskip] at h
        rw [if_neg hne, List.lookup_cons, hskip]
        exact ih h

theorem lookup_replace_of_ne {other : α} (hother : other ≠ key) (value : β) :
    (entries.map fun entry => if entry.1 = key then (key, value) else entry).lookup other =
      entries.lookup other := by
  induction entries with
  | nil => rfl
  | cons entry rest ih =>
      rw [List.map_cons, List.lookup_cons, List.lookup_cons, ih]
      rcases Decidable.em (entry.1 = key) with rfl | hne
      · rw [if_pos rfl, beq_false_of_ne hother]
      · rw [if_neg hne]

theorem lookup_filter_ne (entries : List (α × β)) (key other : α) :
    (entries.filter fun entry => entry.1 ≠ key).lookup other =
      if other = key then none else entries.lookup other := by
  induction entries with
  | nil => simp
  | cons entry rest ih =>
      rcases Decidable.em (entry.1 = key) with rfl | hne
      · rw [List.filter_cons_of_neg (by simp), ih, List.lookup_cons]
        split
        · rfl
        · rename_i hother
          rw [beq_false_of_ne hother]
      · rw [List.filter_cons_of_pos (by simpa using hne), List.lookup_cons, ih, List.lookup_cons]
        rcases Decidable.em (other = key) with rfl | hother
        · rw [if_pos rfl, beq_false_of_ne (Ne.symm hne), if_pos rfl]
        · rw [if_neg hother, if_neg hother]

end Lookup

theorem exists_perm_range {count index : Nat} (hindex : index < count) :
    ∃ others, (List.range count).Perm (index :: others) ∧ ∀ other ∈ others, other ≠ index :=
  ⟨(List.range count).erase index, List.perm_cons_erase (List.mem_range.mpr hindex),
    fun _ hother => (List.nodup_range.mem_erase_iff.mp hother).1⟩

end Turnstile
