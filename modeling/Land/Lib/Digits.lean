import Mathlib.Data.Nat.Digits.Lemmas
import Mathlib.Tactic

/-!
# Multiplying a vector of digits

`mulAdd` multiplies a number, given by its digits with the least significant first, by `m` and adds `c`, in one
pass with a carry.  The digits of the carry go behind the others.  From the minimal digits of a number it makes the
minimal digits of the result (`digits_mulAdd`).
-/

namespace Land.Digits

variable {b m : ℕ}

/-- The digits of `m * n + c` that stand where those of `n` stood, and the carry. -/
def mulAdd (b m : ℕ) : ℕ → List ℕ → List ℕ × ℕ
  | c, [] => ([], c)
  | c, d :: digits =>
      let r := mulAdd b m ((c + d * m) / b) digits
      ((c + d * m) % b :: r.1, r.2)

@[simp] theorem length_mulAdd (c : ℕ) (digits : List ℕ) : (mulAdd b m c digits).1.length = digits.length := by
  induction digits generalizing c with
  | nil => rfl
  | cons d digits ih => exact congrArg Nat.succ (ih _)

theorem mulAdd_lt (hb : 0 < b) (c : ℕ) (digits : List ℕ) : ∀ d ∈ (mulAdd b m c digits).1, d < b := by
  induction digits generalizing c with
  | nil => rintro _ ⟨⟩
  | cons d digits ih =>
    intro d' hd'
    rcases List.mem_cons.1 hd' with rfl | hmem
    · exact Nat.mod_lt _ hb
    · exact ih _ _ hmem

/-- A carry below the factor stays below it. -/
theorem carry_lt {c d : ℕ} (hc : c < m) (hd : d < b) : (c + d * m) / b < m := by
  apply Nat.div_lt_of_lt_mul
  calc c + d * m < m + d * m := Nat.add_lt_add_right hc _
    _ = (d + 1) * m := by ring
    _ ≤ b * m := Nat.mul_le_mul_right m hd

theorem ofDigits_mulAdd (c : ℕ) (digits : List ℕ) :
    Nat.ofDigits b (mulAdd b m c digits).1 + b ^ digits.length * (mulAdd b m c digits).2 =
      m * Nat.ofDigits b digits + c := by
  induction digits generalizing c with
  | nil => simp [mulAdd]
  | cons d digits ih =>
    have hdiv := Nat.mod_add_div (c + d * m) b
    simp only [mulAdd, Nat.ofDigits_cons, List.length_cons]
    calc (c + d * m) % b + b * Nat.ofDigits b (mulAdd b m ((c + d * m) / b) digits).1 +
          b ^ (digits.length + 1) * (mulAdd b m ((c + d * m) / b) digits).2
        = (c + d * m) % b + b * (Nat.ofDigits b (mulAdd b m ((c + d * m) / b) digits).1 +
            b ^ digits.length * (mulAdd b m ((c + d * m) / b) digits).2) := by ring
      _ = (c + d * m) % b + b * (m * Nat.ofDigits b digits + (c + d * m) / b) := by rw [ih]
      _ = ((c + d * m) % b + b * ((c + d * m) / b)) + b * m * Nat.ofDigits b digits := by ring
      _ = m * (d + b * Nat.ofDigits b digits) + c := by rw [hdiv]; ring

/-- Digits are minimal if the number has no fewer. -/
theorem eq_digits (hb : 1 < b) {digits : List ℕ} (hlt : ∀ d ∈ digits, d < b)
    (hsize : digits.length ≤ (b.digits (Nat.ofDigits b digits)).length) :
    digits = b.digits (Nat.ofDigits b digits) := by
  have hsize' := (Nat.digits_length_le_iff hb _).2 (Nat.ofDigits_lt_base_pow_length hb hlt)
  apply Nat.ofDigits_inj_of_len_eq hb (le_antisymm hsize hsize') hlt
  · exact fun d hd => Nat.digits_lt_base hb hd
  · rw [Nat.ofDigits_digits]

/-- The pass over the minimal digits of a number gives the minimal digits of the result. -/
theorem digits_mulAdd (hb : 1 < b) (hm : 0 < m) (n c : ℕ) :
    (mulAdd b m c (b.digits n)).1 ++ b.digits (mulAdd b m c (b.digits n)).2 = b.digits (m * n + c) := by
  have hvalue := ofDigits_mulAdd (b := b) (m := m) c (b.digits n)
  have hlen := length_mulAdd (b := b) (m := m) c (b.digits n)
  have hlt := mulAdd_lt (m := m) (Nat.zero_lt_of_lt hb) c (b.digits n)
  rw [Nat.ofDigits_digits] at hvalue
  generalize mulAdd b m c (b.digits n) = r at hvalue hlen hlt
  rcases Nat.eq_zero_or_pos r.2 with hzero | hpos
  · -- without a carry the number has not become smaller, so its digits have not become fewer
    rw [hzero, Nat.mul_zero, Nat.add_zero] at hvalue
    rw [hzero, Nat.digits_zero, List.append_nil, ← hvalue]
    apply eq_digits hb hlt
    rw [hlen, hvalue]
    exact Nat.le_length_digits_le b n _ (le_add_right (Nat.le_mul_of_pos_left n hm))
  · have hne : b.digits r.2 ≠ [] := Nat.digits_ne_nil_iff_ne_zero.2 hpos.ne'
    have happend : Nat.ofDigits b (r.1 ++ b.digits r.2) = m * n + c := by
      rw [Nat.ofDigits_append, Nat.ofDigits_digits, hlen, hvalue]
    rw [← happend]
    symm
    apply Nat.digits_ofDigits b hb
    · intro d hd
      rcases List.mem_append.1 hd with h | h
      · exact hlt d h
      · exact Nat.digits_lt_base hb h
    · intro h
      rw [List.getLast_append_of_right_ne_nil _ _ hne]
      exact Nat.getLast_digit_ne_zero b hpos.ne'

/-- A number of `k` digits in a smaller base has at most `k` digits. -/
theorem length_digits_le (hb : 1 < b) (hmb : m ≤ b) {n k : ℕ} (h : n < m ^ k) : (b.digits n).length ≤ k :=
  (Nat.digits_length_le_iff hb n).2 (h.trans_le (Nat.pow_le_pow_left hmb k))

end Land.Digits
