/-
What a stale window bound as a double makes of elapsed time.  The comparison
respects the order of times and of windows, and it tells a window of moderate
length from every time short of it.
-/
import ApalisPostgres.Schema
import Mathlib.Tactic.Linarith

namespace ApalisPostgres

theorem epochF64_mono {micros later : Nat} (h : micros ≤ later) :
    epochF64 micros ≤ epochF64 later := by
  unfold epochF64
  exact Binary64.round_mono (by decide) (by decide)
    (Nat.mul_le_mul_right _ (Nat.mul_le_mul_right _ h))

theorem round_seconds {seconds : Nat} (h : seconds < 2 ^ 53) :
    Binary64.round (seconds * Binary64.one) 1 = seconds * Binary64.one :=
  Binary64.round_exact h Binary64.places

theorem round_nanos_le {nanos : Nat} (h : nanos ≤ 1000000000) :
    Binary64.round (nanos * Binary64.one) 1000000000 ≤ Binary64.one := by
  have hmono : Binary64.round (nanos * Binary64.one) 1000000000 ≤
      Binary64.round (1 * Binary64.one) 1 := by
    apply Binary64.round_mono (by decide) Nat.one_pos
    calc nanos * Binary64.one * 1 ≤ 1000000000 * Binary64.one := by
          rw [Nat.mul_one]
          exact Nat.mul_le_mul_right _ h
      _ = 1 * Binary64.one * 1000000000 := by ring
  rwa [round_seconds (by decide), Nat.one_mul] at hmono

/-- A longer window is a larger double, as long as the seconds of the shorter
one are exact. -/
theorem asSecsF64_mono {gap window : Nat} (hgap : gap < 2 ^ 52 * 10 ^ 9)
    (h : gap ≤ window) : asSecsF64 gap ≤ asSecsF64 window := by
  have hseconds : gap / 1000000000 < 2 ^ 52 := by omega
  have hadd : ∀ {low high : Nat}, low ≤ high →
      Binary64.round low 1 ≤ Binary64.round high 1 := fun hle =>
    Binary64.round_mono Nat.one_pos Nat.one_pos (Nat.mul_le_mul_right 1 hle)
  rcases Nat.eq_or_lt_of_le (Nat.div_le_div_right (c := 1000000000) h) with
    hsame | hless
  · unfold asSecsF64
    rw [← hsame]
    apply hadd
    apply Nat.add_le_add_left
    apply Binary64.round_mono (by decide) (by decide)
    exact Nat.mul_le_mul_right _ (Nat.mul_le_mul_right _ (by omega))
  · have hnext : gap / 1000000000 + 1 < 2 ^ 53 := by omega
    have hlow : asSecsF64 gap ≤ (gap / 1000000000 + 1) * Binary64.one := by
      rw [← round_seconds hnext]
      unfold asSecsF64
      apply hadd
      rw [round_seconds (by omega), Nat.succ_mul]
      exact Nat.add_le_add_left (round_nanos_le (by omega)) _
    have hround : (gap / 1000000000 + 1) * Binary64.one ≤
        Binary64.round (window / 1000000000 * Binary64.one) 1 := by
      rw [← round_seconds hnext]
      exact hadd (Nat.mul_le_mul_right _ hless)
    have hhigh : (gap / 1000000000 + 1) * Binary64.one ≤ asSecsF64 window := by
      rw [← round_seconds hnext]
      unfold asSecsF64
      exact hadd (hround.trans (Nat.le_add_right _ _))
    exact hlow.trans hhigh

/-- A window that a double tells from every time short of it. -/
structure Resolved (gap : Nat) : Prop where
  bounded : gap < 2 ^ 52 * 10 ^ 9
  told : ∀ micros, micros * 1000 < gap → epochF64 micros < asSecsF64 gap

section

variable {gap micros places last : Nat}

/-- A window below `2 ^ places` seconds loses half of two last places. -/
theorem asSecsF64_error (hlast : Binary64.places = 53 + last)
    (hplaces : places < 53) (hgap : gap < 2 ^ places * 10 ^ 9) :
    2 * (gap * Binary64.one) ≤ 2 * (asSecsF64 gap * 10 ^ 9) +
      10 ^ 9 * (1 + 2 ^ places) * 2 ^ last := by
  have hone : Binary64.one = 2 ^ 53 * 2 ^ last := by
    rw [Binary64.one, hlast, Nat.pow_add]
  have hpos : 0 < 2 ^ last := Nat.two_pow_pos last
  have hexact : 2 ^ places ≤ 2 ^ 52 :=
    Nat.pow_le_pow_right (by decide) (by omega)
  unfold asSecsF64
  generalize hseconds : gap / 1000000000 = seconds
  generalize hnanos : gap % 1000000000 = nanos
  have hsplit : gap = seconds * 1000000000 + nanos := by omega
  have hbelow : seconds < 2 ^ places := by omega
  have hshort : nanos < 1000000000 := by omega
  rw [round_seconds (by omega), hone, hsplit]
  have hfraction := Binary64.round_error (n := nanos * (2 ^ 53 * 2 ^ last))
    (d := 1000000000) (by decide) (k := last) (by
      rw [Nat.pow_add, Nat.mul_comm]
      exact Nat.mul_lt_mul_of_pos_left hshort (by omega))
  generalize Binary64.round (nanos * (2 ^ 53 * 2 ^ last)) 1000000000 =
    fraction at *
  have hless : fraction < 2 ^ 53 * 2 ^ last := by
    have hnext : nanos * 2 ^ last + 2 ^ last ≤ 1000000000 * 2 ^ last := by
      rw [← Nat.succ_mul]
      exact Nat.mul_le_mul_right _ hshort
    rw [show nanos * (2 ^ 53 * 2 ^ last) = 2 ^ 53 * (nanos * 2 ^ last) by ring]
      at hfraction
    omega
  have hsum := Binary64.round_error (n := seconds * (2 ^ 53 * 2 ^ last) +
      fraction) (d := 1) Nat.one_pos (k := last + places) (by
    have hwhole : (seconds + 1) * (2 ^ 53 * 2 ^ last) ≤
        2 ^ places * (2 ^ 53 * 2 ^ last) := Nat.mul_le_mul_right _ hbelow
    rw [Nat.succ_mul] at hwhole
    rw [show 2 ^ (53 + (last + places)) = 2 ^ places * (2 ^ 53 * 2 ^ last) by
      rw [Nat.pow_add, Nat.pow_add]; ring]
    omega)
  rw [Nat.pow_add 2 last] at hsum
  generalize Binary64.round (seconds * (2 ^ 53 * 2 ^ last) + fraction) 1 =
    rounded at *
  linarith

/-- A time below `2 ^ places` seconds gains half of a last place. -/
theorem epochF64_error (hlast : Binary64.places = 53 + last)
    (hmicros : micros < 2 ^ places * 10 ^ 6) :
    2 * (epochF64 micros * 10 ^ 6) ≤ 2 * (micros * Binary64.one) +
      10 ^ 6 * 2 ^ places * 2 ^ last := by
  have hone : Binary64.one = 2 ^ 53 * 2 ^ last := by
    rw [Binary64.one, hlast, Nat.pow_add]
  have hround := Binary64.round_error (n := micros * Binary64.one)
    (d := 1000000) (by decide) (k := last + places) (by
      rw [show 2 ^ (53 + (last + places)) = 2 ^ places * Binary64.one by
        rw [hone, Nat.pow_add, Nat.pow_add]; ring]
      calc micros * Binary64.one < 2 ^ places * 10 ^ 6 * Binary64.one :=
            Nat.mul_lt_mul_of_pos_right hmicros
              (by rw [Binary64.one]; exact Nat.two_pow_pos _)
        _ = 2 ^ places * Binary64.one * 1000000 := by ring)
  rw [Nat.pow_add 2 last] at hround
  unfold epochF64
  linarith

/-- A time that falls short of a window by `grain` nanoseconds is a smaller
double, if the doubles up to the window are no further apart. -/
theorem epochF64_lt (hplaces : places < 53)
    (hgap : gap < 2 ^ places * 10 ^ 9) (grain : Nat)
    (hgrain : 10 ^ 9 * (1 + 2 * 2 ^ places) < 2 ^ 54 * grain)
    (hshort : micros * 1000 + grain ≤ gap) :
    epochF64 micros < asSecsF64 gap := by
  obtain ⟨last, hlast⟩ : ∃ last, Binary64.places = 53 + last := ⟨1021, rfl⟩
  have hone : Binary64.one = 2 ^ 53 * 2 ^ last := by
    rw [Binary64.one, hlast, Nat.pow_add]
  have hwindow := asSecsF64_error hlast hplaces hgap
  have htime : 2 * (epochF64 micros * 10 ^ 6) ≤ 2 * (micros * Binary64.one) +
      10 ^ 6 * 2 ^ places * 2 ^ last := epochF64_error hlast (by omega)
  have hscaled : 10 ^ 9 * (1 + 2 * 2 ^ places) * 2 ^ last <
      2 ^ 54 * grain * 2 ^ last :=
    Nat.mul_lt_mul_of_pos_right hgrain (Nat.two_pow_pos last)
  have hreached : (micros * 1000 + grain) * 2 ^ last ≤ gap * 2 ^ last :=
    Nat.mul_le_mul_right _ hshort
  rw [hone] at hwindow htime
  linarith

end

/-- Below 2^23 seconds every window is resolved. -/
theorem Resolved.of_short {gap : Nat} (h : gap < 2 ^ 23 * 10 ^ 9) :
    Resolved gap where
  bounded := by omega
  told _ hshort := epochF64_lt (by decide) h 1 (by decide) hshort

/-- Below 2^33 seconds those of whole microseconds are. -/
theorem Resolved.of_micros {gap : Nat} (h : gap < 2 ^ 33 * 10 ^ 9)
    (hwhole : gap % 1000 = 0) : Resolved gap where
  bounded := by omega
  told _ hshort := epochF64_lt (by decide) h 1000 (by decide) (by omega)

theorem elapsedAtLeast_iff {window : Duration} {now lastSeen : Int} :
    elapsedAtLeast window now lastSeen = true ↔ lastSeen ≤ now ∧
      asSecsF64 window ≤ epochF64 (now - lastSeen).toNat := by
  rw [elapsedAtLeast, Bool.and_eq_true, decide_eq_true_eq, decide_eq_true_eq]

theorem elapsedAtLeast_young {gap : Nat} (h : Resolved gap)
    {now renewed : Int} (hyoung : (now - renewed) * 1000 < gap) :
    elapsedAtLeast gap now renewed = false := by
  rw [Bool.eq_false_iff, ne_eq, elapsedAtLeast_iff, not_and, Nat.not_le]
  intro hle
  exact h.told _ (by omega)

/-- A window of whole seconds is compared exactly. -/
theorem elapsedAtLeast_seconds {seconds : Nat} (h : seconds < 2 ^ 33)
    (now lastSeen : Int) :
    elapsedAtLeast (seconds * 1000000000) now lastSeen = true ↔
      (seconds : Int) * 1000000 ≤ now - lastSeen := by
  have hwindow : asSecsF64 (seconds * 1000000000) =
      seconds * Binary64.one := by
    have hnone : Binary64.round (0 * Binary64.one) 1000000000 = 0 := by
      decide +kernel
    unfold asSecsF64
    rw [Nat.mul_div_cancel _ (by decide), Nat.mul_mod_left, hnone,
      round_seconds (by omega), Nat.add_zero, round_seconds (by omega)]
  have hresolved : Resolved (seconds * 1000000000) :=
    .of_micros (by omega) (by omega)
  rw [elapsedAtLeast_iff]
  constructor
  · rintro ⟨hle, hreached⟩
    by_contra hshort
    have hless : epochF64 (now - lastSeen).toNat <
        asSecsF64 (seconds * 1000000000) :=
      hresolved.told _ (by omega)
    omega
  · intro hreached
    refine ⟨by omega, ?_⟩
    rw [hwindow, ← round_seconds (by omega)]
    unfold epochF64
    apply Binary64.round_mono Nat.one_pos (by decide)
    have hmicros : seconds * 1000000 ≤ (now - lastSeen).toNat := by omega
    calc seconds * Binary64.one * 1000000 =
          seconds * 1000000 * Binary64.one := by ring
      _ ≤ (now - lastSeen).toNat * Binary64.one :=
          Nat.mul_le_mul_right _ hmicros
      _ = (now - lastSeen).toNat * Binary64.one * 1 := (Nat.mul_one _).symm

theorem elapsedAtLeast_mono {window : Duration}
    {now later lastSeen seen : Int}
    (h : elapsedAtLeast window now lastSeen = true) (hlater : now ≤ later)
    (hearlier : seen ≤ lastSeen) : elapsedAtLeast window later seen = true := by
  rw [elapsedAtLeast_iff] at h ⊢
  exact ⟨by omega, h.2.trans (epochF64_mono (by omega))⟩

theorem elapsedAtLeast_anti {gap window : Nat}
    {now lastSeen : Timestamp} (hgap : gap < 2 ^ 52 * 10 ^ 9)
    (h : elapsedAtLeast window now lastSeen = true) (hle : gap ≤ window) :
    elapsedAtLeast gap now lastSeen = true := by
  rw [elapsedAtLeast_iff] at h ⊢
  exact ⟨h.1, (asSecsF64_mono hgap hle).trans h.2⟩

end ApalisPostgres
