import Mathlib.Tactic.Ring
import Mathlib.Data.List.Basic

/-!
# Bytes as groups of sextets

Three bytes have the bits of four sextets. A list of bytes is cut into sextets
from its start, with zero bits in the place of what is missing of the last one;
bytes are put together again from sextets, and what is left over is dropped.
Texts of sextets are filled up to groups of four. This is how base64 texts stand
for byte strings.
-/

/-- Bytes cut into sextets. -/
def sextets : List ℕ → List ℕ
  | [] => []
  | [a] => [a / 4, a % 4 * 16]
  | [a, b] => [a / 4, a % 4 * 16 + b / 16, b % 16 * 4]
  | a :: b :: c :: l =>
    a / 4 :: (a % 4 * 16 + b / 16) :: (b % 16 * 4 + c / 64) :: c % 64 :: sextets l

/-- Bytes put together from sextets. -/
def octets : List ℕ → List ℕ
  | [] => []
  | [_] => []
  | [p, q] => [p * 4 + q / 16]
  | [p, q, r] => [p * 4 + q / 16, q % 16 * 16 + r / 4]
  | p :: q :: r :: s :: l =>
    (p * 4 + q / 16) :: (q % 16 * 16 + r / 4) :: (r % 4 * 64 + s) :: octets l

theorem length_sextets (l : List ℕ) : (sextets l).length = (4 * l.length + 2) / 3 := by
  induction l using sextets.induct with
  | case1 => rfl
  | case2 a => simp [sextets]
  | case3 a b => simp [sextets]
  | case4 a b c l ih =>
    simp only [sextets, List.length_cons, ih]
    omega

theorem sextets_lt {l : List ℕ} (h : ∀ d ∈ l, d < 256) : ∀ d ∈ sextets l, d < 64 := by
  induction l using sextets.induct with
  | case1 => simp [sextets]
  | case2 a =>
    have ha := h a (by simp)
    intro d hd
    simp only [sextets, List.mem_cons, List.not_mem_nil, or_false] at hd
    omega
  | case3 a b =>
    have ha := h a (by simp)
    have hb := h b (by simp)
    intro d hd
    simp only [sextets, List.mem_cons, List.not_mem_nil, or_false] at hd
    omega
  | case4 a b c l ih =>
    have ha := h a (by simp)
    have hb := h b (by simp)
    have hc := h c (by simp)
    intro d hd
    simp only [sextets, List.mem_cons] at hd
    rcases hd with hd | hd | hd | hd | hd
    · omega
    · omega
    · omega
    · omega
    · exact ih (fun x hx => h x (by simp [hx])) d hd

/-- Bytes cut into sextets and put together again. -/
theorem octets_sextets {l : List ℕ} (h : ∀ d ∈ l, d < 256) : octets (sextets l) = l := by
  induction l using sextets.induct with
  | case1 => rfl
  | case2 a =>
    have ha : a / 4 * 4 + a % 4 * 16 / 16 = a := by omega
    simp only [sextets, octets, ha]
  | case3 a b =>
    have hb := h b (by simp)
    have ha : a / 4 * 4 + (a % 4 * 16 + b / 16) / 16 = a := by omega
    have hb : (a % 4 * 16 + b / 16) % 16 * 16 + b % 16 * 4 / 4 = b := by omega
    simp only [sextets, octets, ha, hb]
  | case4 a b c l ih =>
    have hb := h b (by simp)
    have hc := h c (by simp)
    have ha : a / 4 * 4 + (a % 4 * 16 + b / 16) / 16 = a := by omega
    have hb : (a % 4 * 16 + b / 16) % 16 * 16 + (b % 16 * 4 + c / 64) / 4 = b := by omega
    have hc : (b % 16 * 4 + c / 64) % 4 * 64 + c % 64 = c := by omega
    simp only [sextets, octets, ha, hb, hc, ih fun x hx => h x (by simp [hx])]

section Padding

variable {χ : Type*} {pad : χ}

/-- A text filled up to groups of four letters. -/
def padded (pad : χ) (text : List χ) : List χ :=
  text ++ List.replicate ((4 - text.length % 4) % 4) pad

theorem length_padded (text : List χ) :
    (padded pad text).length = (text.length + 3) / 4 * 4 := by
  rw [padded, List.length_append, List.length_replicate]
  omega

/-- The text before the filling, which has no letter of it. -/
theorem takeWhile_padded [DecidableEq χ] {text : List χ} (h : pad ∉ text) :
    (padded pad text).takeWhile (· ≠ pad) = text := by
  have hne : ∀ x ∈ text, decide (x ≠ pad) = true := by
    rintro x hx
    rw [decide_eq_true_iff]
    rintro rfl
    exact h hx
  rw [padded, List.takeWhile_append_of_pos hne, List.takeWhile_replicate]
  simp

theorem mem_padded {text : List χ} {x : χ} (h : x ∈ padded pad text) : x ∈ text ∨ x = pad := by
  rw [padded, List.mem_append] at h
  exact h.imp_right List.eq_of_mem_replicate

end Padding
