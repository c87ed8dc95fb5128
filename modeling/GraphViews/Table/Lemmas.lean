import GraphViews.ItemSet.Lemmas
import GraphViews.Table
/-!
# What the changes to a table do

The view of a table is `find?`. Each change is described by what `find?` gives after it, and by the keys,
which stay written as they are.
-/

namespace GraphViews.Table

variable {κ α : Type} [BEq κ]

@[simp] theorem find?_empty (k : κ) : (empty : Table κ α).find? k = none := rfl

theorem contains_eq_isSome (t : Table κ α) (k : κ) : t.contains k = (t.find? k).isSome := by
  rw [Bool.eq_iff_iff]
  simp [contains, find?]

theorem contains_eq_elem_keys (t : Table κ α) (k : κ) : t.contains k = t.keys.contains k := by
  rw [keys, List.contains_eq_any_beq, List.any_map]
  rfl

/-! ## Keys -/

@[simp] theorem keys_modify (t : Table κ α) (k : κ) (f : α → α) : (t.modify k f).keys = t.keys := by
  simp only [keys, modify, List.map_map]
  refine List.map_congr_left fun e _ => ?_
  simp only [Function.comp]
  split <;> rfl

theorem keys_foldl_modify (ks : List κ) (f : α → α) (t : Table κ α) :
    (ks.foldl (fun t k => t.modify k f) t).keys = t.keys := by
  induction ks generalizing t with
  | nil => rfl
  | cons k ks ih => rw [List.foldl_cons, ih, keys_modify]

theorem entries_insertNew (t : Table κ α) (k : κ) (a : α) :
    (t.insertNew k a).entries = if t.contains k then t.entries else (k, a) :: t.entries := by
  unfold insertNew
  split <;> simp_all

/-- A table that has a key equal to `k` stays as it is when `k` is inserted, however `k` is written. -/
theorem insertNew_of_contains {t : Table κ α} {k : κ} (a : α) (h : t.contains k) : t.insertNew k a = t := by
  rw [insertNew, dif_pos h]

theorem keys_insertNew (t : Table κ α) (k : κ) (a : α) :
    (t.insertNew k a).keys = if t.contains k then t.keys else k :: t.keys := by
  simp only [keys, entries_insertNew]
  split <;> rfl

theorem keys_upsert (t : Table κ α) (k : κ) (a : α) (f : α → α) :
    (t.upsert k a f).keys = if t.contains k then t.keys else k :: t.keys := by
  by_cases h : t.contains k <;> simp [upsert, h, keys_insertNew]

theorem keys_erase (t : Table κ α) (k : κ) : (t.erase k).keys = t.keys.filter fun k' => !(k == k') := by
  simp only [keys, erase, List.filter_map]
  rfl

/-! ## Look-up -/

section
variable [PartialEquivBEq κ]

/-- Equal keys find the same value. -/
theorem find?_congr (t : Table κ α) {k k' : κ} (h : k == k') : t.find? k = t.find? k' := by
  have : (fun e : κ × α => k == e.1) = fun e => k' == e.1 := by
    funext e
    exact BEq.congr_left h
  rw [find?, this, find?]

theorem contains_congr (t : Table κ α) {k k' : κ} (h : k == k') : t.contains k = t.contains k' := by
  rw [contains_eq_isSome, contains_eq_isSome, t.find?_congr h]

/-- Two entries of a table with equal keys are the same. -/
theorem eq_of_beq_of_mem {t : Table κ α} {e e' : κ × α} (he : e ∈ t.entries) (he' : e' ∈ t.entries)
    (hk : e.1 == e'.1) : e = e' := by
  have hp : t.entries.Pairwise fun e e' => (e.1 == e'.1) = false := List.pairwise_map.1 t.distinct
  revert he he' hp
  induction t.entries with
  | nil => intro he; cases he
  | cons z zs ih =>
    intro he he' hp
    obtain ⟨hz, hzs⟩ := List.pairwise_cons.1 hp
    rcases List.mem_cons.1 he with rfl | hm <;> rcases List.mem_cons.1 he' with rfl | hm'
    · rfl
    · rw [hz _ hm'] at hk; cases hk
    · rw [BEq.comm, hz _ hm] at hk; cases hk
    · exact ih hm hm' hzs

/-- A look-up gives the value of the one entry whose key equals `k`. -/
theorem find?_eq_some_iff (t : Table κ α) (k : κ) (a : α) :
    t.find? k = some a ↔ ∃ k', (k', a) ∈ t.entries ∧ k == k' := by
  constructor
  · intro h
    obtain ⟨e, he, rfl⟩ := Option.map_eq_some_iff.1 h
    have hk := List.find?_some he
    exact ⟨e.1, List.mem_of_find?_eq_some he, hk⟩
  · rintro ⟨k', hm, hk⟩
    obtain ⟨e, he⟩ : ∃ e, t.entries.find? (k == ·.1) = some e := by
      rw [← Option.isSome_iff_exists, List.find?_isSome]
      exact ⟨_, hm, hk⟩
    have hem := List.mem_of_find?_eq_some he
    have hek := List.find?_some he
    have : e = (k', a) := eq_of_beq_of_mem hem hm (BEq.trans (BEq.symm hek) hk)
    rw [find?, he, this]
    rfl


theorem find?_modify (t : Table κ α) (k k' : κ) (f : α → α) :
    (t.modify k f).find? k' = if k == k' then (t.find? k').map f else t.find? k' := by
  simp only [find?, modify, List.find?_map]
  have : ((fun e : κ × α => k' == e.1) ∘ fun e => if k == e.1 then (e.1, f e.2) else e) = fun e => k' == e.1 := by
    funext e
    simp only [Function.comp]
    split <;> rfl
  rw [this]
  cases h : t.entries.find? fun e => k' == e.1 with
  | none => simp
  | some e =>
    have he := List.find?_some h
    by_cases hk : k == k'
    · simp [hk, BEq.trans hk he]
    · have : ¬(k == e.1) = true := fun hke => hk (BEq.trans hke (BEq.symm he))
      simp [hk, this]

theorem find?_erase (t : Table κ α) (k k' : κ) :
    (t.erase k).find? k' = if k == k' then none else t.find? k' := by
  simp only [find?, erase, List.find?_filter]
  by_cases hk : k == k'
  · rw [if_pos hk, Option.map_eq_none_iff, List.find?_eq_none]
    intro e _
    simp [← BEq.congr_left hk]
  · rw [if_neg hk]
    congr 2
    funext e
    by_cases he : k' == e.1
    · have : (k == e.1) = false := by
        rw [Bool.eq_false_iff]
        exact fun hke => hk (BEq.trans hke (BEq.symm he))
      simp [he, this]
    · simp [he]

end

section
variable [EquivBEq κ]

theorem find?_insertNew (t : Table κ α) (k k' : κ) (a : α) :
    (t.insertNew k a).find? k' = if k == k' then some ((t.find? k).getD a) else t.find? k' := by
  by_cases h : t.contains k
  · rw [insertNew_of_contains a h]
    rw [contains_eq_isSome, Option.isSome_iff_exists] at h
    obtain ⟨b, hb⟩ := h
    by_cases hk : k == k'
    · simp [hk, ← t.find?_congr hk, hb]
    · simp [hk]
  · have hn : t.find? k = none := by
      rw [contains_eq_isSome] at h
      simpa using h
    rw [find?, entries_insertNew, if_neg h, List.find?_cons, BEq.comm]
    by_cases hk : k == k'
    · simp [hk, hn]
    · simp [hk, find?]

theorem find?_upsert (t : Table κ α) (k k' : κ) (a : α) (f : α → α) :
    (t.upsert k a f).find? k' = if k == k' then some (f ((t.find? k).getD a)) else t.find? k' := by
  by_cases h : t.contains k
  · rw [upsert, if_pos h, find?_modify]
    rw [contains_eq_isSome, Option.isSome_iff_exists] at h
    obtain ⟨b, hb⟩ := h
    by_cases hk : k == k'
    · simp [hk, ← t.find?_congr hk, hb]
    · simp [hk]
  · have hn : t.find? k = none := by
      rw [contains_eq_isSome] at h
      simpa using h
    rw [upsert, if_neg h, find?_insertNew, hn]
    rfl

theorem find?_put (t : Table κ α) (k k' : κ) (a : α) :
    (t.put k a).find? k' = if k == k' then some a else t.find? k' := by
  rw [put, find?_insertNew, find?_erase, find?_erase]
  by_cases hk : k == k' <;> simp [hk]

end

end GraphViews.Table
