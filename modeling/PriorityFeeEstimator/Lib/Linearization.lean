import Mathlib.Data.List.Nodup
import PriorityFeeEstimator.Lib.Interleaving

/-!
# Linearization points

Processes operate on one object, each with one operation, in atomic steps that
come in any order. The operations are as good as atomic when there is one order
of them that accounts for all that can be seen: every result is the one the
operation has in that order, and an operation that returned before another one
began comes before it.

Such an order is found by naming for each process the step at which its operation
seems to happen. `LinearizationPoints` lists what there is to show of these
steps, and `LinearizationPoints.explains` is the rule that it suffices.
-/

variable {π ι ρ σ χ : Type*}

/-- The state of an object after operations made one after another. -/
def applyAll (apply : σ → ι → ρ × σ) (s : σ) (ops : List ι) : σ :=
  ops.foldl (fun s i => (apply s i).2) s

theorem applyAll_concat (apply : σ → ι → ρ × σ) (s : σ) (ops : List ι) (i : ι) :
    applyAll apply s (ops ++ [i]) = (apply (applyAll apply s ops) i).2 := by
  simp [applyAll]

/-- The order accounts for the run `es`, where `result` gives the results returned
    in a run: no operation happens twice, or before its process has moved; what
    was returned is what the operation returns in this order; and an operation
    that had returned before another process moved comes before its operation. -/
structure Explains (apply : σ → ι → ρ × σ) (s₀ : σ) (op : π → ι)
    (result : List π → π → Option ρ) (es order : List π) : Prop where
  nodup : order.Nodup
  moved : ∀ p ∈ order, p ∈ es
  results : ∀ p r, result es p = some r → ∃ before after, order = before ++ p :: after ∧
    (apply (applyAll apply s₀ (before.map op)) (op p)).1 = r
  realTime : ∀ es₁ p q, es₁ <+: es → (result es₁ p).isSome → q ∉ es₁ → q ∈ order →
    [p, q].Sublist order

/-- The linearization points of a system in which `step x p` is the next step of
    process `p`: `commits` says whether that step is its point, `promised` is the
    result that is settled there, and `Represents x s` that the object seems to
    be in state `s`. -/
structure LinearizationPoints (step : χ → π → χ) (apply : σ → ι → ρ × σ) (op : π → ι) where
  commits : χ → π → Bool
  promised : χ → π → Option ρ
  Represents : χ → σ → Prop
  commit : ∀ {x s p}, Represents x s → commits x p = true → promised x p = none ∧
    Represents (step x p) (apply s (op p)).2 ∧
    promised (step x p) p = some (apply s (op p)).1
  silent : ∀ {x s p}, Represents x s → commits x p = false →
    Represents (step x p) s ∧ promised (step x p) p = promised x p
  others : ∀ {x p q}, q ≠ p → promised (step x p) q = promised x q

namespace LinearizationPoints

variable {step : χ → π → χ} {apply : σ → ι → ρ × σ} {op : π → ι}
  (L : LinearizationPoints step apply op)

/-- The processes in the order of their linearization points. -/
def order : χ → List π → List π
  | _, [] => []
  | x, p :: es => (if L.commits x p then [p] else []) ++ order (step x p) es

theorem order_append (x : χ) (es₁ es₂ : List π) :
    L.order x (es₁ ++ es₂) = L.order x es₁ ++ L.order (es₁.foldl step x) es₂ := by
  induction es₁ generalizing x with
  | nil => rfl
  | cons p es₁ ih => rw [List.cons_append, order, ih, order, List.append_assoc, List.foldl_cons]

theorem order_concat (x : χ) (es : List π) (p : π) :
    L.order x (es ++ [p]) =
      L.order x es ++ if L.commits (es.foldl step x) p then [p] else [] := by
  rw [order_append, order, order, List.append_nil]

theorem mem_of_mem_order {x : χ} {es : List π} {p : π} (h : p ∈ L.order x es) : p ∈ es := by
  induction es generalizing x with
  | nil => cases h
  | cons e es ih =>
    rw [order, List.mem_append] at h
    rcases h with he | hes
    · split at he
      · rw [List.mem_singleton] at he
        exact he ▸ List.mem_cons_self
      · cases he
    · exact List.mem_cons_of_mem _ (ih hes)

/-- What holds after every run: the object is as the operations made so far leave
    it, and the results promised so far are theirs. -/
structure Tracks (x₀ : χ) (s₀ : σ) (es : List π) : Prop where
  represents : L.Represents (es.foldl step x₀) (applyAll apply s₀ ((L.order x₀ es).map op))
  nodup : (L.order x₀ es).Nodup
  mem_iff : ∀ p, p ∈ L.order x₀ es ↔ (L.promised (es.foldl step x₀) p).isSome
  results : ∀ p r, L.promised (es.foldl step x₀) p = some r →
    ∃ before after, L.order x₀ es = before ++ p :: after ∧
      (apply (applyAll apply s₀ (before.map op)) (op p)).1 = r

variable {L} {x₀ : χ} {s₀ : σ} {es : List π}

/-- A step that is no linearization point. -/
theorem Tracks.silent_step (h : L.Tracks x₀ s₀ es) {p : π}
    (hp : L.commits (es.foldl step x₀) p = false) : L.Tracks x₀ s₀ (es ++ [p]) := by
  have horder : L.order x₀ (es ++ [p]) = L.order x₀ es := by
    rw [order_concat, hp]
    exact List.append_nil _
  obtain ⟨hrep, hself⟩ := L.silent h.represents hp
  have hpromised : ∀ q, L.promised ((es ++ [p]).foldl step x₀) q =
      L.promised (es.foldl step x₀) q := by
    intro q
    rw [List.foldl_concat]
    by_cases hq : q = p
    · rw [hq, hself]
    · exact L.others hq
  refine ⟨?_, ?_, fun q => ?_, fun q r hr => ?_⟩
  · rw [horder, List.foldl_concat]
    exact hrep
  · rw [horder]
    exact h.nodup
  · rw [horder, hpromised]
    exact h.mem_iff q
  · rw [hpromised] at hr
    rw [horder]
    exact h.results q r hr

/-- A step that is a linearization point. -/
theorem Tracks.commit_step (h : L.Tracks x₀ s₀ es) {p : π}
    (hp : L.commits (es.foldl step x₀) p = true) : L.Tracks x₀ s₀ (es ++ [p]) := by
  have horder : L.order x₀ (es ++ [p]) = L.order x₀ es ++ [p] := by
    rw [order_concat, hp]
    rfl
  obtain ⟨hnone, hrep, hself⟩ := L.commit h.represents hp
  have hnew : p ∉ L.order x₀ es := by
    rw [h.mem_iff, hnone]
    simp
  refine ⟨?_, ?_, fun q => ?_, fun q r hr => ?_⟩
  · rw [horder, List.foldl_concat, List.map_append, List.map_singleton, applyAll_concat]
    exact hrep
  · rw [horder, List.nodup_append]
    refine ⟨h.nodup, List.nodup_singleton p, ?_⟩
    rintro a ha b hb rfl
    exact hnew (List.mem_singleton.mp hb ▸ ha)
  · rw [horder, List.foldl_concat, List.mem_append, List.mem_singleton, h.mem_iff]
    by_cases hq : q = p
    · subst hq
      rw [hself]
      simp
    · rw [L.others hq]
      simp [hq]
  · rw [List.foldl_concat] at hr
    rw [horder]
    by_cases hq : q = p
    · subst hq
      rw [hself, Option.some.injEq] at hr
      exact ⟨L.order x₀ es, [], rfl, hr⟩
    · rw [L.others hq] at hr
      obtain ⟨before, after, he, hres⟩ := h.results q r hr
      exact ⟨before, after ++ [p], by rw [he, List.append_assoc, List.cons_append], hres⟩

theorem tracks_run (hrep : L.Represents x₀ s₀) (hnone : ∀ p, L.promised x₀ p = none)
    (es : List π) : L.Tracks x₀ s₀ es := by
  induction es using List.reverseRecOn with
  | nil =>
    refine ⟨hrep, List.nodup_nil, fun p => ?_, fun p r hr => ?_⟩
    · rw [List.foldl_nil, hnone]
      simp [order]
    · rw [List.foldl_nil, hnone] at hr
      cases hr
  | append_singleton es p ih =>
    cases hp : L.commits (es.foldl step x₀) p with
    | false => exact ih.silent_step hp
    | true => exact ih.commit_step hp

/-- When results are returned as they were promised, the order of the
    linearization points accounts for every run. -/
theorem explains {result : List π → π → Option ρ} (hrep : L.Represents x₀ s₀)
    (hnone : ∀ p, L.promised x₀ p = none)
    (hresult : ∀ es p r, result es p = some r → L.promised (es.foldl step x₀) p = some r)
    (es : List π) : Explains apply s₀ op result es (L.order x₀ es) := by
  have htracks := tracks_run hrep hnone es
  refine ⟨htracks.nodup, fun p => L.mem_of_mem_order,
    fun p r hr => htracks.results p r (hresult es p r hr), ?_⟩
  rintro es₁ p q ⟨es₂, rfl⟩ hp hq hmem
  obtain ⟨r, hr⟩ := Option.isSome_iff_exists.mp hp
  have hfirst : p ∈ L.order x₀ es₁ := by
    rw [(tracks_run hrep hnone es₁).mem_iff, hresult es₁ p r hr]
    rfl
  have hsecond : q ∈ L.order (es₁.foldl step x₀) es₂ := by
    rw [order_append, List.mem_append] at hmem
    exact hmem.resolve_left fun h => hq (L.mem_of_mem_order h)
  rw [order_append]
  exact (List.singleton_sublist.mpr hfirst).append (List.singleton_sublist.mpr hsecond)

end LinearizationPoints
