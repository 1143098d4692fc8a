/-
Binary64 rounding of non-negative numbers.  A double is counted in units of
the smallest positive one, and a fraction is rounded to the nearest double,
to the even one of two.
-/
import Mathlib.Tactic.Ring

namespace Binary64

/-- The binary places of a double below its point. -/
def places : Nat := 1074

/-- The units that make up one. -/
def one : Nat := 2 ^ places

/-- The integer nearest to a fraction, the even one of two. -/
def nearestEven (n d : Nat) : Nat :=
  if 2 * (n % d) < d then n / d
  else if d < 2 * (n % d) then n / d + 1
  else n / d + n / d % 2

/-- The place of the last of the 53 significant bits of a fraction. -/
def lastPlace (n d : Nat) : Nat := (n / d).log2 - 52

/-- The double nearest to `n / d` units. -/
def round (n d : Nat) : Nat :=
  nearestEven n (d * 2 ^ lastPlace n d) * 2 ^ lastPlace n d

/-- What makes an integer the nearest one to a fraction. -/
structure Nearest (n d m : Nat) : Prop where
  above : 2 * n ≤ 2 * (m * d) + d
  below : 2 * (m * d) ≤ 2 * n + d
  even : 2 * n = 2 * (m * d) + d ∨ 2 * (m * d) = 2 * n + d → m % 2 = 0

theorem nearestEven_nearest {d : Nat} (n : Nat) (hd : 0 < d) :
    Nearest n d (nearestEven n d) := by
  have hn : n = n / d * d + n % d := (Nat.div_add_mod' n d).symm
  have hr : n % d < d := Nat.mod_lt n hd
  have hnext : (n / d + 1) * d = n / d * d + d := Nat.succ_mul _ _
  unfold nearestEven
  split
  · constructor <;> omega
  · split
    · constructor <;> omega
    · rcases Nat.mod_two_eq_zero_or_one (n / d) with heven | hodd
      · rw [heven, Nat.add_zero]
        constructor <;> omega
      · rw [hodd]
        constructor <;> omega

theorem nearestEven_mono {n d n' d' : Nat} (hd : 0 < d) (hd' : 0 < d')
    (h : n * d' ≤ n' * d) : nearestEven n d ≤ nearestEven n' d' := by
  obtain ⟨_, hbelow, heven⟩ := nearestEven_nearest n hd
  obtain ⟨habove', _, heven'⟩ := nearestEven_nearest n' hd'
  generalize nearestEven n d = m at *
  generalize nearestEven n' d' = m' at *
  by_contra hlt
  have hnext : m' + 1 ≤ m := by omega
  have hpos : 0 < d * d' := Nat.mul_pos hd hd'
  have hlow : 2 * (m * (d * d')) ≤ 2 * (n * d') + d * d' := by
    calc 2 * (m * (d * d')) = 2 * (m * d) * d' := by ring
      _ ≤ (2 * n + d) * d' := Nat.mul_le_mul_right d' hbelow
      _ = 2 * (n * d') + d * d' := by ring
  have hhigh : 2 * (n' * d) ≤ 2 * (m' * (d * d')) + d * d' := by
    calc 2 * (n' * d) = 2 * n' * d := by ring
      _ ≤ (2 * (m' * d') + d') * d := Nat.mul_le_mul_right d habove'
      _ = 2 * (m' * (d * d')) + d * d' := by ring
  have hstep : m' * (d * d') + d * d' ≤ m * (d * d') := by
    calc m' * (d * d') + d * d' = (m' + 1) * (d * d') := by ring
      _ ≤ m * (d * d') := Nat.mul_le_mul_right _ hnext
  -- both fractions are halfway between the same two integers
  have htie : m = m' + 1 := by
    have hmul : m * (d * d') = (m' + 1) * (d * d') := by
      rw [Nat.add_mul, Nat.one_mul]
      omega
    exact Nat.eq_of_mul_eq_mul_right hpos hmul
  have heq : 2 * (m * d) = 2 * n + d := by
    apply Nat.eq_of_mul_eq_mul_right hd'
    calc 2 * (m * d) * d' = 2 * (m * (d * d')) := by ring
      _ = 2 * (n * d') + d * d' := by omega
      _ = (2 * n + d) * d' := by ring
  have heq' : 2 * n' = 2 * (m' * d') + d' := by
    apply Nat.eq_of_mul_eq_mul_right hd
    calc 2 * n' * d = 2 * (n' * d) := by ring
      _ = 2 * (m' * (d * d')) + d * d' := by omega
      _ = (2 * (m' * d') + d') * d := by ring
  have hm := heven (Or.inr heq)
  have hm' := heven' (Or.inl heq')
  omega

@[simp] theorem nearestEven_one (n : Nat) : nearestEven n 1 = n := by
  simp [nearestEven, Nat.mod_one]

theorem nearestEven_mul {d : Nat} (m : Nat) (hd : 0 < d) :
    nearestEven (m * d) d = m := by
  simp [nearestEven, hd]

theorem lastPlace_mono {n d n' d' : Nat} (hd : 0 < d) (hd' : 0 < d')
    (h : n * d' ≤ n' * d) : lastPlace n d ≤ lastPlace n' d' := by
  have hdiv : n / d ≤ n' / d' := by
    rw [Nat.le_div_iff_mul_le hd']
    apply Nat.le_of_mul_le_mul_right _ hd
    calc n / d * d' * d = n / d * d * d' := by ring
      _ ≤ n * d' := Nat.mul_le_mul_right d' (Nat.div_mul_le_self n d)
      _ ≤ n' * d := h
  apply Nat.sub_le_sub_right
  by_cases hzero : n / d = 0
  · simp [hzero]
  · have hpos : 0 < n' / d' :=
      lt_of_lt_of_le (Nat.pos_of_ne_zero hzero) hdiv
    exact (Nat.le_log2 hpos.ne').mpr ((Nat.log2_self_le hzero).trans hdiv)

/-- Rounding keeps the order of fractions. -/
theorem round_mono {n d n' d' : Nat} (hd : 0 < d) (hd' : 0 < d')
    (h : n * d' ≤ n' * d) : round n d ≤ round n' d' := by
  have hplace := lastPlace_mono hd hd' h
  unfold round
  generalize he : lastPlace n d = e at *
  generalize he' : lastPlace n' d' = e' at *
  have hpow : 0 < 2 ^ e := Nat.two_pow_pos e
  have hpow' : 0 < 2 ^ e' := Nat.two_pow_pos e'
  rcases Nat.eq_or_lt_of_le hplace with rfl | hlt
  · apply Nat.mul_le_mul_right
    apply nearestEven_mono (Nat.mul_pos hd hpow) (Nat.mul_pos hd' hpow)
    calc n * (d' * 2 ^ e) = n * d' * 2 ^ e := by ring
      _ ≤ n' * d * 2 ^ e := Nat.mul_le_mul_right _ h
      _ = n' * (d * 2 ^ e) := by ring
  · -- the fractions lie on either side of a power of two
    have hnarrow : n / d < 2 ^ (53 + e) := by
      unfold lastPlace at he
      exact lt_of_lt_of_le Nat.lt_log2_self
        (Nat.pow_le_pow_right (by decide) (by omega))
    have hwide : 2 ^ (52 + e') ≤ n' / d' := by
      unfold lastPlace at he'
      have hne : n' / d' ≠ 0 := by
        intro hzero
        simp [hzero] at he'
        omega
      apply (Nat.le_log2 hne).mp
      omega
    have hleft : nearestEven n (d * 2 ^ e) ≤ 2 ^ 53 := by
      rw [← nearestEven_one (2 ^ 53)]
      apply nearestEven_mono (Nat.mul_pos hd hpow) Nat.one_pos
      have hmul := (Nat.div_lt_iff_lt_mul hd).mp hnarrow
      calc n * 1 ≤ 2 ^ (53 + e) * d := by omega
        _ = 2 ^ 53 * (d * 2 ^ e) := by rw [Nat.pow_add]; ring
    have hright : 2 ^ 52 ≤ nearestEven n' (d' * 2 ^ e') := by
      rw [← nearestEven_one (2 ^ 52)]
      apply nearestEven_mono Nat.one_pos (Nat.mul_pos hd' hpow')
      have hmul := (Nat.le_div_iff_mul_le hd').mp hwide
      calc 2 ^ 52 * (d' * 2 ^ e') = 2 ^ (52 + e') * d' := by
            rw [Nat.pow_add]; ring
        _ ≤ n' * 1 := by omega
    calc nearestEven n (d * 2 ^ e) * 2 ^ e ≤ 2 ^ 53 * 2 ^ e :=
          Nat.mul_le_mul_right _ hleft
      _ = 2 ^ (53 + e) := (Nat.pow_add ..).symm
      _ ≤ 2 ^ (52 + e') := Nat.pow_le_pow_right (by decide) (by omega)
      _ = 2 ^ 52 * 2 ^ e' := Nat.pow_add ..
      _ ≤ nearestEven n' (d' * 2 ^ e') * 2 ^ e' :=
          Nat.mul_le_mul_right _ hright

/-- An integer of at most 53 bits is a double, and so are its multiples by
powers of two. -/
theorem round_exact {m : Nat} (hm : m < 2 ^ 53) (e : Nat) :
    round (m * 2 ^ e) 1 = m * 2 ^ e := by
  have hplace : lastPlace (m * 2 ^ e) 1 ≤ e := by
    unfold lastPlace
    rw [Nat.div_one]
    by_cases hzero : m * 2 ^ e = 0
    · simp [hzero]
    · have hlt : (m * 2 ^ e).log2 < 53 + e := by
        rw [Nat.log2_lt hzero, Nat.pow_add]
        exact Nat.mul_lt_mul_of_pos_right hm (Nat.two_pow_pos e)
      omega
  unfold round
  generalize lastPlace (m * 2 ^ e) 1 = k at *
  have hsplit : m * 2 ^ e = m * 2 ^ (e - k) * 2 ^ k := by
    rw [Nat.mul_assoc, ← Nat.pow_add, Nat.sub_add_cancel hplace]
  rw [Nat.one_mul, hsplit, nearestEven_mul _ (Nat.two_pow_pos k)]

/-- A fraction below `2 ^ (53 + k)` is rounded by half of `2 ^ k` at most. -/
theorem round_error {n d : Nat} (hd : 0 < d) {k : Nat}
    (hn : n < 2 ^ (53 + k) * d) :
    2 * n ≤ 2 * (round n d * d) + d * 2 ^ k ∧
      2 * (round n d * d) ≤ 2 * n + d * 2 ^ k := by
  have hplace : lastPlace n d ≤ k := by
    unfold lastPlace
    by_cases hzero : n / d = 0
    · simp [hzero]
    · have hlt := (Nat.log2_lt hzero).mpr ((Nat.div_lt_iff_lt_mul hd).mpr hn)
      omega
  have hpow : 2 ^ lastPlace n d ≤ 2 ^ k :=
    Nat.pow_le_pow_right (by decide) hplace
  obtain ⟨habove, hbelow, _⟩ := nearestEven_nearest n
    (Nat.mul_pos hd (Nat.two_pow_pos (lastPlace n d)))
  have hround : round n d * d =
      nearestEven n (d * 2 ^ lastPlace n d) * (d * 2 ^ lastPlace n d) := by
    unfold round
    ring
  have hwiden : d * 2 ^ lastPlace n d ≤ d * 2 ^ k :=
    Nat.mul_le_mul_left d hpow
  rw [hround]
  omega

end Binary64
