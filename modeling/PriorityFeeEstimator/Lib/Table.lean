import Mathlib.Data.List.AList
import Mathlib.Data.Finset.Dedup
import Mathlib.Data.List.Induction

/-!
# Finite tables

Maps with finitely many keys, on top of `AList`. The entry operations of a hash
map (`entry(k).and_modify(f).or_insert(v)` and relatives) are two functions
here, `upsert` and `modify`, each with one lemma that says what every key holds
afterwards. The order in which a traversal yields the entries is a parameter:
an `IterOrder` is any rearrangement.
-/

universe u v

/-- A finite map, as an association list without repeated keys. -/
abbrev Table (κ : Type u) (ν : Type v) := AList fun _ : κ => ν

namespace Table

variable {κ : Type u} {ν : Type v} [DecidableEq κ]

/-- Replace the value at `a` by `f` of the value found there, `none` when `a` is
    not a key. -/
def upsert (s : Table κ ν) (a : κ) (f : Option ν → ν) : Table κ ν :=
  s.insert a (f (s.lookup a))

/-- Replace the value at `a` by `f` of it; a table without `a` is unchanged. -/
def modify (s : Table κ ν) (a : κ) (f : ν → ν) : Table κ ν :=
  match s.lookup a with
  | none => s
  | some b => s.insert a (f b)

theorem lookup_insert_eq_ite (s : Table κ ν) (a k : κ) (b : ν) :
    (s.insert a b).lookup k = if k = a then some b else s.lookup k := by
  split
  · next h => rw [h, AList.lookup_insert]
  · next h => exact AList.lookup_insert_ne h

theorem lookup_erase_eq_ite (s : Table κ ν) (a k : κ) :
    (s.erase a).lookup k = if k = a then none else s.lookup k := by
  split
  · next h => rw [h, AList.lookup_erase]
  · next h => exact AList.lookup_erase_ne h

theorem lookup_upsert (s : Table κ ν) (a k : κ) (f : Option ν → ν) :
    (s.upsert a f).lookup k = if k = a then some (f (s.lookup a)) else s.lookup k :=
  lookup_insert_eq_ite s a k _

theorem lookup_modify (s : Table κ ν) (a k : κ) (f : ν → ν) :
    (s.modify a f).lookup k = if k = a then (s.lookup a).map f else s.lookup k := by
  unfold modify
  split
  · next h =>
    rw [h, Option.map_none]
    split
    · next hk => rw [hk, h]
    · rfl
  · next b h => rw [lookup_insert_eq_ite, h, Option.map_some]

theorem mem_iff_lookup_ne_none {s : Table κ ν} {k : κ} : k ∈ s ↔ s.lookup k ≠ none := by
  rw [Ne, AList.lookup_eq_none, not_not]

theorem mem_iff_exists_lookup {s : Table κ ν} {k : κ} : k ∈ s ↔ ∃ b, s.lookup k = some b := by
  rw [mem_iff_lookup_ne_none, Option.ne_none_iff_exists']

theorem mem_entries_iff {s : Table κ ν} {k : κ} {b : ν} :
    (⟨k, b⟩ : (_ : κ) × ν) ∈ s.entries ↔ s.lookup k = some b :=
  AList.mem_lookup_iff.symm

/-- A table filled with values under distinct keys has one entry for each. -/
theorem entries_foldl_insert {α : Type*} {f : α → κ} (g : α → ν) {l : List α}
    (h : (l.map f).Nodup) :
    (l.foldl (fun s x => s.insert (f x) (g x)) (∅ : Table κ ν)).entries.Perm
      (l.map fun x => ⟨f x, g x⟩) := by
  induction l using List.reverseRecOn with
  | nil => exact .refl _
  | append_singleton l x ih =>
    rw [List.map_append, List.nodup_append] at h
    have hentries := ih h.1
    have hnew : f x ∉ l.foldl (fun s x => s.insert (f x) (g x)) (∅ : Table κ ν) := by
      intro hmem
      obtain ⟨b, hb⟩ := mem_iff_exists_lookup.mp hmem
      have hin := hentries.mem_iff.mp (mem_entries_iff.mpr hb)
      obtain ⟨y, hy, he⟩ := List.mem_map.mp hin
      exact h.2.2 (f y) (List.mem_map_of_mem hy) (f x) (by simp) (congrArg Sigma.fst he)
    rw [List.foldl_concat, AList.entries_insert_of_notMem hnew, List.map_append]
    exact (hentries.cons _).trans (List.perm_append_singleton _ _).symm

/-- In a table filled value by value the last value under a key is found. -/
theorem lookup_foldl_insert {α : Type*} (f : α → κ) (g : α → ν) (l : List α) (k : κ) :
    (l.foldl (fun s x => s.insert (f x) (g x)) (∅ : Table κ ν)).lookup k =
      (l.reverse.find? fun x => f x = k).map g := by
  induction l using List.reverseRecOn with
  | nil => rfl
  | append_singleton l x ih =>
    rw [List.foldl_concat, lookup_insert_eq_ite, ih, List.reverse_concat, List.find?_cons]
    by_cases hk : f x = k
    · simp [hk]
    · simp [hk, Ne.symm hk]

/-- Two tables with the same keys hold their entries in the same order up to a
    rearrangement, compared through any two readings that agree at every key. -/
theorem map_entries_perm {ν' : Type*} {γ : Type*} {s : Table κ ν} {t : Table κ ν'}
    {f : ν → γ} {g : ν' → γ}
    (h : ∀ k, (s.lookup k).map f = (t.lookup k).map g) :
    (s.entries.map fun e => f e.2).Perm (t.entries.map fun e => g e.2) := by
  have hs : (s.entries.map fun e => (e.1, f e.2)).Nodup :=
    List.Nodup.of_map Prod.fst (by rw [List.map_map]; exact s.keys_nodup)
  have ht : (t.entries.map fun e => (e.1, g e.2)).Nodup :=
    List.Nodup.of_map Prod.fst (by rw [List.map_map]; exact t.keys_nodup)
  have hp : (s.entries.map fun e => (e.1, f e.2)).Perm (t.entries.map fun e => (e.1, g e.2)) := by
    refine (List.perm_ext_iff_of_nodup hs ht).mpr ?_
    rintro ⟨k, c⟩
    have hk := h k
    simp only [List.mem_map, Prod.mk.injEq, Sigma.exists, mem_entries_iff]
    constructor
    · rintro ⟨k', b, hb, rfl, rfl⟩
      rw [hb, Option.map_some, eq_comm, Option.map_eq_some_iff] at hk
      obtain ⟨b', hb', he⟩ := hk
      exact ⟨_, b', hb', rfl, he⟩
    · rintro ⟨k', b, hb, rfl, rfl⟩
      rw [hb, Option.map_some, Option.map_eq_some_iff] at hk
      obtain ⟨b', hb', he⟩ := hk
      exact ⟨_, b', hb', rfl, he⟩
  simpa [Function.comp_def] using hp.map Prod.snd

end Table

theorem optionRel_cases {α β : Type*} {r : α → β → Prop} {o : Option α} {o' : Option β}
    (h : Option.Rel r o o') :
    (o = none ∧ o' = none) ∨ ∃ x y, o = some x ∧ o' = some y ∧ r x y := by
  cases h with
  | none => exact .inl ⟨rfl, rfl⟩
  | some hr => exact .inr ⟨_, _, rfl, rfl, hr⟩

theorem optionRel_refl {α : Type*} {r : α → α → Prop} (hr : ∀ x, r x x) (o : Option α) :
    Option.Rel r o o := by
  cases o with
  | none => exact .none
  | some x => exact .some (hr x)

theorem optionRel_imp {α β : Type*} {r r' : α → β → Prop} (hr : ∀ x y, r x y → r' x y)
    {o : Option α} {o' : Option β} (h : Option.Rel r o o') : Option.Rel r' o o' := by
  cases h with
  | none => exact .none
  | some hxy => exact .some (hr _ _ hxy)

/-- Related values have the same readings, when the relation respects them. -/
theorem optionRel_map_eq {α β γ : Type*} {r : α → β → Prop} {f : α → γ} {g : β → γ}
    (hr : ∀ x y, r x y → f x = g y) {o : Option α} {o' : Option β} (h : Option.Rel r o o') :
    o.map f = o'.map g := by
  cases h with
  | none => rfl
  | some hxy => exact congrArg some (hr _ _ hxy)

/-- The order in which one traversal of a hash map yields its entries: some
    rearrangement of them, and nothing more is known about it. -/
structure IterOrder (α : Type u) where
  visit : List α → List α
  perm : ∀ l, (visit l).Perm l

namespace IterOrder

/-- The traversal that keeps the stored order. -/
def stored (α : Type u) : IterOrder α := ⟨id, fun _ => .refl _⟩

@[simp] theorem mem_visit {α : Type u} (o : IterOrder α) {l : List α} {x : α} :
    x ∈ o.visit l ↔ x ∈ l :=
  (o.perm l).mem_iff

end IterOrder
