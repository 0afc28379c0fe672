import Mathlib.Data.List.Infix
import Mathlib.Data.Nat.Notation
import Mathlib.Logic.Function.Basic

/-!
# Interleaved steps

Systems whose parties take atomic steps in any order: invariants of a run, also of
a run whose steps all meet a guard; what is observed along a run; what a fair
schedule brings about in the end, and what a party brings about by steps of its
own; and readers of a map that changes while they read it. For the last, every key
of the map goes through versions, and a clock says which version each key is at.
-/

section Runs

variable {σ ε : Type*} {step : σ → ε → σ} {guard : σ → ε → Prop} (inv : σ → Prop)

/-- Every event of the run meets the guard in the state it happens in. -/
def Allowed (step : σ → ε → σ) (guard : σ → ε → Prop) : σ → List ε → Prop
  | _, [] => True
  | s, e :: es => guard s e ∧ Allowed step guard (step s e) es

instance [∀ s e, Decidable (guard s e)] (s : σ) (es : List ε) :
    Decidable (Allowed step guard s es) :=
  match es with
  | [] => inferInstanceAs (Decidable True)
  | e :: es =>
    have := instDecidableAllowed (step s e) es
    inferInstanceAs (Decidable (guard s e ∧ Allowed step guard (step s e) es))

/-- What every step preserves holds after every run. -/
theorem invariant_foldl (hstep : ∀ s e, inv s → inv (step s e)) {s : σ} (h : inv s)
    (es : List ε) : inv (es.foldl step s) := by
  induction es generalizing s with
  | nil => exact h
  | cons e es ih => exact ih (hstep s e h)

/-- What every step that meets the guard preserves holds after every run whose
    steps all meet it. -/
theorem Allowed.invariant_foldl (hstep : ∀ s e, inv s → guard s e → inv (step s e)) {s : σ}
    {es : List ε} (hes : Allowed step guard s es) (h : inv s) : inv (es.foldl step s) := by
  induction es generalizing s with
  | nil => exact h
  | cons e es ih => exact ih hes.2 (hstep s e h hes.1)

/-- Every step of a run meets the guard when each one does in the state its
    predecessors lead to. -/
theorem allowed_iff_forall_concat {s : σ} {es : List ε} :
    Allowed step guard s es ↔ ∀ es₁ e, es₁ ++ [e] <+: es → guard (es₁.foldl step s) e := by
  induction es generalizing s with
  | nil => simp [Allowed]
  | cons e es ih =>
    rw [Allowed, ih]
    constructor
    · rintro ⟨he, h⟩ es₁ e' hes₁
      cases es₁ with
      | nil =>
        obtain rfl : e' = e := by simpa using hes₁
        exact he
      | cons e₁ es₁ =>
        obtain ⟨rfl, hrest⟩ := List.cons_prefix_cons.mp hes₁
        exact h es₁ e' hrest
    · intro h
      refine ⟨h [] e (by simp), fun es₁ e' hes₁ => ?_⟩
      exact h (e :: es₁) e' (List.cons_prefix_cons.mpr ⟨rfl, hes₁⟩)

theorem Allowed.initial_part {s : σ} {es es₁ : List ε} (h : Allowed step guard s es)
    (hes₁ : es₁ <+: es) : Allowed step guard s es₁ := by
  rw [allowed_iff_forall_concat] at h ⊢
  intro es₂ e hes₂
  exact h es₂ e (hes₂.trans hes₁)

end Runs

section Observations

variable {σ ε α : Type*} {step : σ → ε → σ} {guard : σ → ε → Prop} {observe : σ → ε → Option α}
  (inv : σ → List α → Prop)

/-- What is observed along a run, in order: each event shows at most one thing of
    the state it happens in. -/
def observed (step : σ → ε → σ) (observe : σ → ε → Option α) : σ → List ε → List α
  | _, [] => []
  | s, e :: es => (observe s e).toList ++ observed step observe (step s e) es

/-- A property of the state and of what has been observed so far, kept by every
    step that meets the guard, holds after every run whose steps all meet it. -/
theorem Allowed.invariant_observed
    (hstep : ∀ s l e, inv s l → guard s e → inv (step s e) (l ++ (observe s e).toList)) {s : σ}
    {l : List α} {es : List ε} (hes : Allowed step guard s es) (h : inv s l) :
    inv (es.foldl step s) (l ++ observed step observe s es) := by
  induction es generalizing s l with
  | nil =>
    rw [observed, List.append_nil]
    exact h
  | cons e es ih =>
    rw [observed, ← List.append_assoc]
    exact ih hes.2 (hstep s l e h hes.1)

/-- Without a guard every run is allowed. -/
theorem allowed_true (s : σ) (es : List ε) : Allowed step (fun _ _ => True) s es := by
  induction es generalizing s with
  | nil => exact trivial
  | cons e es ih => exact ⟨trivial, ih (step s e)⟩

theorem invariant_observed
    (hstep : ∀ s l e, inv s l → inv (step s e) (l ++ (observe s e).toList)) {s : σ}
    (h : inv s []) (es : List ε) : inv (es.foldl step s) (observed step observe s es) :=
  (allowed_true s es).invariant_observed inv (fun s l e hs _ => hstep s l e hs) h

end Observations

section Fairness

variable {σ ε : Type*} {step : σ → ε → σ} {schedule : ℕ → ε} {s₀ : σ}

/-- On this schedule every event happens again and again. -/
def Fair (schedule : ℕ → ε) : Prop := ∀ e t, ∃ t', t ≤ t' ∧ schedule t' = e

/-- The state after the first `t` events of a schedule. -/
def stateAt (step : σ → ε → σ) (s₀ : σ) (schedule : ℕ → ε) : ℕ → σ
  | 0 => s₀
  | t + 1 => step (stateAt step s₀ schedule t) (schedule t)

/-- The states along a schedule are those after finite runs. -/
theorem stateAt_eq_foldl (t : ℕ) :
    stateAt step s₀ schedule t = ((List.range t).map schedule).foldl step s₀ := by
  induction t with
  | zero => rfl
  | succ t ih => rw [stateAt, ih, List.range_succ, List.map_append, List.foldl_append]; rfl

variable (inv : σ → Prop) (rank : σ → ℕ)

/-- Where every step that does anything lowers a rank, the state stays as it is
    until the rank has dropped. -/
theorem stateAt_add_eq_or_rank_lt (hinv : ∀ t, inv (stateAt step s₀ schedule t))
    (hrank : ∀ s e, inv s → step s e = s ∨ rank (step s e) < rank s) (t k : ℕ) :
    stateAt step s₀ schedule (t + k) = stateAt step s₀ schedule t ∨
      ∃ t', rank (stateAt step s₀ schedule t') < rank (stateAt step s₀ schedule t) := by
  induction k with
  | zero => exact .inl rfl
  | succ k ih =>
    rcases ih with heq | hlt
    · rw [← Nat.add_assoc]
      rcases hrank _ (schedule (t + k)) (hinv (t + k)) with hstay | hdrop
      · exact .inl (hstay.trans heq)
      · exact .inr ⟨t + k + 1, heq ▸ hdrop⟩
    · exact .inr hlt

/-- When every step that does anything lowers a rank, and before the end some
    event does something, then every fair schedule comes to the end. -/
theorem Fair.exists_done (hfair : Fair schedule) (done : σ → Prop) (hinv : inv s₀)
    (hstep : ∀ s e, inv s → inv (step s e))
    (hrank : ∀ s e, inv s → step s e = s ∨ rank (step s e) < rank s)
    (hmoves : ∀ s, inv s → ¬done s → ∃ e, step s e ≠ s)
    (hdone : ∀ s e, done s → done (step s e)) :
    ∃ t, ∀ t', t ≤ t' → done (stateAt step s₀ schedule t') := by
  have hinvAt : ∀ t, inv (stateAt step s₀ schedule t) := by
    intro t
    rw [stateAt_eq_foldl]
    exact invariant_foldl inv hstep hinv _
  suffices hreach : ∀ r t, rank (stateAt step s₀ schedule t) = r →
      ∃ t', done (stateAt step s₀ schedule t') by
    obtain ⟨t, ht⟩ := hreach _ 0 rfl
    refine ⟨t, fun t' hle => ?_⟩
    induction t', hle using Nat.le_induction with
    | base => exact ht
    | succ t' _ ih => exact hdone _ _ ih
  intro r
  induction r using Nat.strong_induction_on with
  | _ r ih =>
    intro t hr
    by_cases hend : done (stateAt step s₀ schedule t)
    · exact ⟨t, hend⟩
    · obtain ⟨e, he⟩ := hmoves _ (hinvAt t) hend
      obtain ⟨t', hle, ht'⟩ := hfair e t
      have hlower : ∃ t₁, rank (stateAt step s₀ schedule t₁) < r := by
        rcases stateAt_add_eq_or_rank_lt inv rank hinvAt hrank t (t' - t) with heq | ⟨t₁, hlt⟩
        · -- nothing has happened when the event comes that does something
          rw [show t + (t' - t) = t' by omega] at heq
          refine ⟨t' + 1, ?_⟩
          rw [stateAt, ht', heq, ← hr]
          exact (hrank _ e (hinvAt t)).resolve_left he
        · exact ⟨t₁, hr ▸ hlt⟩
      obtain ⟨t₁, hlt⟩ := hlower
      exact ih _ hlt t₁ rfl

end Fairness

section OwnSteps

variable {σ ε : Type*} {step : σ → ε → σ} (inv : σ → Prop) (mine : ε → Bool) (rank : σ → ℕ)
  (done : σ → Prop)

/-- A party that comes closer to its end by each step of its own, and that nobody
    else keeps from it, is done when it has taken as many steps as its rank says,
    whatever the others do in between. -/
theorem done_of_rank_le_countP (hinv : ∀ s e, inv s → inv (step s e))
    (hmine : ∀ s e, inv s → ¬done s → mine e = true → rank (step s e) < rank s)
    (hothers : ∀ s e, inv s → mine e = false → rank (step s e) ≤ rank s)
    (hdone : ∀ s e, done s → done (step s e)) (hzero : ∀ s, inv s → rank s = 0 → done s)
    {s : σ} (h : inv s) {es : List ε} (hcount : rank s ≤ es.countP mine) :
    done (es.foldl step s) := by
  induction es generalizing s with
  | nil => exact hzero s h (Nat.le_zero.mp hcount)
  | cons e es ih =>
    by_cases hend : done s
    · exact invariant_foldl done hdone (hdone s e hend) es
    · refine ih (hinv s e h) ?_
      rw [List.countP_cons] at hcount
      cases he : mine e with
      | true =>
        have hlt := hmine s e h hend he
        rw [if_pos he] at hcount
        omega
      | false =>
        have hle := hothers s e h he
        rw [if_neg (by rw [he]; exact Bool.false_ne_true)] at hcount
        omega

end OwnSteps

/-- Some process has a property before process `i` moves. Afterwards some process
    has it still, unless it was process `i`, which then left `q` behind. -/
theorem exists_update_or {ι π : Type*} [DecidableEq ι] (p : ι → π → Prop) {q : Prop}
    {f : ι → π} {i : ι} {x : π} (h : ∃ j, p j (f j))
    (hi : p i (f i) → q ∨ p i x) : q ∨ ∃ j, p j (Function.update f i x j) := by
  obtain ⟨j, hj⟩ := h
  by_cases hji : j = i
  · subst hji
    refine (hi hj).imp_right fun hx => ⟨j, ?_⟩
    rwa [Function.update_self]
  · refine .inr ⟨j, ?_⟩
    rwa [Function.update_of_ne hji]

section Reads

variable {κ ν : Type*} {version : ℕ → κ → Option ν} {clock clock' : κ → ℕ} {k : κ} {j : ℕ}

/-- The key was in the map at every version from `j` up to the current one. -/
def HeldSince (version : ℕ → κ → Option ν) (clock : κ → ℕ) (j : ℕ) (k : κ) : Prop :=
  ∀ i, j ≤ i → i ≤ clock k → version i k ≠ none

/-- The key was in the map at some version from `j` up to the current one. -/
def SeenSince (version : ℕ → κ → Option ν) (clock : κ → ℕ) (j : ℕ) (k : κ) : Prop :=
  ∃ i, j ≤ i ∧ i ≤ clock k ∧ version i k ≠ none

/-- The key was in the map at some version from `j` on, and was read at version
    `i`, which is no older than that one. -/
def ReadSince (version : ℕ → κ → Option ν) (clock : κ → ℕ) (j : ℕ) (k : κ) (i : ℕ) : Prop :=
  i ≤ clock k ∧ ∃ i₀ ≤ i, j ≤ i₀ ∧ version i₀ k ≠ none

/-- What holds up to a later time held before. -/
theorem HeldSince.anti (h : HeldSince version clock' j k) (hclock : ∀ k, clock k ≤ clock' k) :
    HeldSince version clock j k :=
  fun i hj hi => h i hj (Nat.le_trans hi (hclock k))

theorem HeldSince.now (h : HeldSince version clock j k) (hj : j ≤ clock k) :
    version (clock k) k ≠ none :=
  h (clock k) hj (Nat.le_refl _)

theorem SeenSince.mono (h : SeenSince version clock j k) (hclock : ∀ k, clock k ≤ clock' k) :
    SeenSince version clock' j k := by
  obtain ⟨i, hj, hi, hv⟩ := h
  exact ⟨i, hj, Nat.le_trans hi (hclock k), hv⟩

theorem ReadSince.mono {i : ℕ} (h : ReadSince version clock j k i)
    (hclock : ∀ k, clock k ≤ clock' k) : ReadSince version clock' j k i :=
  ⟨Nat.le_trans h.1 (hclock k), h.2⟩

/-- A key seen before is read now. -/
theorem SeenSince.read (h : SeenSince version clock j k) :
    ReadSince version clock j k (clock k) := by
  obtain ⟨i, hj, hi, hv⟩ := h
  exact ⟨Nat.le_refl _, i, hi, hj, hv⟩

end Reads
