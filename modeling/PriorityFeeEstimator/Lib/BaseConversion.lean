import Mathlib.Data.Nat.Digits.Lemmas
import Mathlib.Data.List.TakeWhile

/-!
# Base conversion with leading zeros

A list of digits, highest first, read in one base and written in another. The
leading zeros are kept one for one, so that the conversion can be undone. This
is how base58 texts stand for byte strings.
-/

/-- The digits `l` in base `b`, highest first, converted to base `c`. Leading
    zeros are kept. -/
def rebase (b c : ℕ) (l : List ℕ) : List ℕ :=
  l.takeWhile (· == 0) ++ (Nat.digits c (Nat.ofDigits b (l.dropWhile (· == 0)).reverse)).reverse

private theorem digits_ofDigits_dropWhile {b : ℕ} (hb : 1 < b) {l : List ℕ}
    (h : ∀ d ∈ l, d < b) :
    (Nat.digits b (Nat.ofDigits b (l.dropWhile (· == 0)).reverse)).reverse =
      l.dropWhile (· == 0) := by
  rw [Nat.digits_ofDigits b hb, List.reverse_reverse]
  · intro d hd
    rw [List.mem_reverse] at hd
    exact h d ((List.dropWhile_sublist _).subset hd)
  · intro hne
    rw [List.getLast_reverse]
    have hhead := List.head_dropWhile_not (· == 0) (l := l) (by simpa using hne)
    simpa using hhead

private theorem takeWhile_dropWhile_zeros_append (zeros : List ℕ) (h : ∀ d ∈ zeros, d = 0)
    {l : List ℕ} (hl : ∀ hne : l ≠ [], l.head hne ≠ 0) :
    (zeros ++ l).takeWhile (· == 0) = zeros ∧ (zeros ++ l).dropWhile (· == 0) = l := by
  have hz : ∀ d ∈ zeros, (d == 0) = true := fun d hd => by simp [h d hd]
  rw [List.takeWhile_append_of_pos hz, List.dropWhile_append_of_pos hz]
  cases l with
  | nil => simp
  | cons d l =>
    have hd : d ≠ 0 := hl (by simp)
    simp [hd]

private theorem head_reverse_digits_ne_zero (c n : ℕ)
    (hne : (Nat.digits c n).reverse ≠ []) : (Nat.digits c n).reverse.head hne ≠ 0 := by
  have hn : n ≠ 0 := by
    rintro rfl
    simp at hne
  rw [List.head_reverse]
  exact Nat.getLast_digit_ne_zero c hn

/-- Digits converted to another base and back. -/
theorem rebase_rebase {b c : ℕ} (hb : 1 < b) {l : List ℕ} (h : ∀ d ∈ l, d < b) :
    rebase c b (rebase b c l) = l := by
  have hzeros : ∀ d ∈ l.takeWhile (· == 0), d = 0 := fun d hd => by
    simpa using List.mem_takeWhile_imp hd
  obtain ⟨htake, hdrop⟩ := takeWhile_dropWhile_zeros_append _ hzeros
    (head_reverse_digits_ne_zero c (Nat.ofDigits b (l.dropWhile (· == 0)).reverse))
  rw [rebase, rebase, htake, hdrop, List.reverse_reverse, Nat.ofDigits_digits,
    digits_ofDigits_dropWhile hb h, List.takeWhile_append_dropWhile]

theorem rebase_lt {b c : ℕ} (hc : 1 < c) {l : List ℕ} : ∀ d ∈ rebase b c l, d < c := by
  intro d hd
  rw [rebase, List.mem_append, List.mem_reverse] at hd
  rcases hd with hd | hd
  · have hzero : d = 0 := by simpa using List.mem_takeWhile_imp hd
    omega
  · exact Nat.digits_lt_base hc hd

/-- A list gets at most `k` times as long in a base whose `k`-th power is as large
    as the base it is in. -/
theorem length_rebase_le {b c k : ℕ} (hb : 1 < b) (hc : 1 < c) (hk : 1 ≤ k) (hbc : b ≤ c ^ k)
    {l : List ℕ} (h : ∀ d ∈ l, d < b) : (rebase b c l).length ≤ k * l.length := by
  have hrest : (Nat.digits c (Nat.ofDigits b (l.dropWhile (· == 0)).reverse)).length ≤
      k * (l.dropWhile (· == 0)).length := by
    rw [Nat.digits_length_le_iff hc]
    calc Nat.ofDigits b (l.dropWhile (· == 0)).reverse
        < b ^ (l.dropWhile (· == 0)).reverse.length :=
          Nat.ofDigits_lt_base_pow_length hb fun d hd =>
            h d ((List.dropWhile_sublist _).subset (List.mem_reverse.mp hd))
      _ = b ^ (l.dropWhile (· == 0)).length := by rw [List.length_reverse]
      _ ≤ (c ^ k) ^ (l.dropWhile (· == 0)).length := Nat.pow_le_pow_left hbc _
      _ = c ^ (k * (l.dropWhile (· == 0)).length) := (pow_mul c k _).symm
  have hzeros : (l.takeWhile (· == 0)).length ≤ k * (l.takeWhile (· == 0)).length :=
    Nat.le_mul_of_pos_left _ hk
  have hsplit : l.length = (l.takeWhile (· == 0)).length + (l.dropWhile (· == 0)).length := by
    rw [← List.length_append, List.takeWhile_append_dropWhile]
  rw [rebase, List.length_append, List.length_reverse, hsplit, Nat.mul_add]
  exact Nat.add_le_add hzeros hrest

section Spelling

variable {χ : Type*} [DecidableEq χ] {alphabet : List χ}

/-- Digits as letters of an alphabet; digits without a letter are left out. -/
def spell (alphabet : List χ) (ds : List ℕ) : List χ := ds.filterMap fun d => alphabet[d]?

/-- The digits a text stands for, nothing when a letter is not in the alphabet. -/
def unspell (alphabet : List χ) (text : List χ) : Option (List ℕ) :=
  text.mapM fun x => alphabet.idxOf? x

theorem unspell_spell (hnd : alphabet.Nodup) {ds : List ℕ} (h : ∀ d ∈ ds, d < alphabet.length) :
    unspell alphabet (spell alphabet ds) = some ds := by
  induction ds with
  | nil => rfl
  | cons d ds ih =>
    have hd : d < alphabet.length := h d (by simp)
    have hidx : alphabet.idxOf? alphabet[d] = some d := by
      rw [List.idxOf?_eq_some_iff]
      refine ⟨hd, rfl, fun j hj he => ?_⟩
      have hjd := hnd.getElem_inj_iff.mp he
      omega
    have htail := ih fun x hx => h x (by simp [hx])
    rw [unspell] at htail ⊢
    rw [spell, List.filterMap_cons, List.getElem?_eq_getElem hd]
    change List.mapM _ (alphabet[d] :: spell alphabet ds) = _
    rw [List.mapM_cons, hidx, htail]
    rfl

omit [DecidableEq χ] in
theorem length_spell {ds : List ℕ} (h : ∀ d ∈ ds, d < alphabet.length) :
    (spell alphabet ds).length = ds.length := by
  rw [spell, List.length_filterMap_eq_countP, List.countP_eq_length]
  intro d hd
  rw [List.getElem?_eq_getElem (h d hd)]
  rfl

omit [DecidableEq χ] in
/-- A text is written in the letters of the alphabet. -/
theorem mem_alphabet_of_mem_spell {ds : List ℕ} {x : χ} (h : x ∈ spell alphabet ds) :
    x ∈ alphabet := by
  obtain ⟨d, -, hd⟩ := List.mem_filterMap.mp h
  exact List.mem_of_getElem? hd

end Spelling
