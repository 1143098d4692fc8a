/-
The cut of a persisted error text.  The column keeps the first 8 KiB of a
longer text; the cut walks back to a character boundary, so that it never
splits a character, and gives up three bytes at most.
-/
import ApalisPostgres.Errors
import Mathlib.Algebra.GroupWithZero.Nat

namespace ApalisPostgres

theorem utf8ByteSize_ofList (chars : List Char) :
    (String.ofList chars).utf8ByteSize = (chars.map Char.utf8Size).sum := by
  induction chars with
  | nil => rfl
  | cons c rest ih =>
      rw [String.ofList_cons, String.utf8ByteSize_append, ih]
      simp

/-- A boundary is where some prefix of the text ends. -/
theorem isCharBoundary_iff (text : List Char) (n : Nat) :
    isCharBoundary text n = true ↔ ∃ before after, text = before ++ after ∧
      (before.map Char.utf8Size).sum = n := by
  induction text generalizing n with
  | nil =>
      cases n with
      | zero => simp [isCharBoundary]
      | succ n => simp [isCharBoundary]
  | cons c rest ih =>
      have hpos : 0 < c.utf8Size := c.utf8Size_pos
      cases n with
      | zero => exact ⟨fun _ => ⟨[], c :: rest, rfl, rfl⟩, fun _ => rfl⟩
      | succ n =>
          simp only [isCharBoundary]
          constructor
          · intro h
            split at h
            · rename_i hfits
              obtain ⟨before, after, hrest, hsize⟩ := (ih _).mp h
              refine ⟨c :: before, after, by rw [hrest]; rfl, ?_⟩
              simp only [List.map_cons, List.sum_cons]
              omega
            · cases h
          · rintro ⟨before, after, htext, hsize⟩
            cases before with
            | nil => cases hsize
            | cons first before =>
                simp only [List.cons_append, List.cons.injEq] at htext
                obtain ⟨rfl, hrest⟩ := htext
                simp only [List.map_cons, List.sum_cons] at hsize
                rw [if_pos (by omega)]
                exact (ih _).mpr ⟨before, after, hrest, by omega⟩

theorem walkBackToBoundary_isCharBoundary (text : List Char) (cut : Nat) :
    isCharBoundary text (walkBackToBoundary text cut) = true := by
  induction cut with
  | zero => cases text <;> rfl
  | succ cut ih =>
      simp only [walkBackToBoundary]
      split
      · rename_i hboundary
        exact hboundary
      · exact ih

/-- A cut inside a character keeps what the cut before it keeps. -/
theorem truncateBytes_of_not_boundary (text : List Char) (n : Nat)
    (h : isCharBoundary text (n + 1) = false) :
    truncateBytes text (n + 1) = truncateBytes text n := by
  induction text generalizing n with
  | nil => cases n <;> rfl
  | cons c rest ih =>
      have hpos : 0 < c.utf8Size := c.utf8Size_pos
      simp only [isCharBoundary] at h
      split at h
      · rename_i hfits
        cases n with
        | zero =>
            have hone : c.utf8Size = 1 := by omega
            simp [hone, isCharBoundary] at h
        | succ n =>
            obtain ⟨left, hleft⟩ : ∃ left,
                n + 1 + 1 - c.utf8Size = left + 1 := by
              cases hsub : n + 1 + 1 - c.utf8Size with
              | zero => simp [hsub, isCharBoundary] at h
              | succ left => exact ⟨left, rfl⟩
            have hle : c.utf8Size ≤ n + 1 := by omega
            have hbefore : n + 1 - c.utf8Size = left := by omega
            rw [hleft] at h
            simp only [truncateBytes, if_pos hfits, if_pos hle, hleft, hbefore]
            rw [ih left h]
      · rename_i hlong
        cases n with
        | zero => simp [truncateBytes, hlong]
        | succ n =>
            have hlonger : ¬ c.utf8Size ≤ n + 1 := by omega
            simp [truncateBytes, hlong, hlonger]

/-- The walk back to a boundary does not change what is kept. -/
theorem truncateBytes_walkBackToBoundary (text : List Char) (cut : Nat) :
    truncateBytes text (walkBackToBoundary text cut) =
      truncateBytes text cut := by
  induction cut with
  | zero => rfl
  | succ cut ih =>
      simp only [walkBackToBoundary]
      split
      · rfl
      · rename_i hinside
        rw [ih, truncateBytes_of_not_boundary text cut
          (Bool.eq_false_iff.mpr hinside)]

theorem truncateBytes_isPrefix (text : List Char) (n : Nat) :
    ∃ after, text = truncateBytes text n ++ after := by
  induction text generalizing n with
  | nil => cases n <;> exact ⟨[], rfl⟩
  | cons c rest ih =>
      cases n with
      | zero => exact ⟨c :: rest, rfl⟩
      | succ n =>
          simp only [truncateBytes]
          split
          · obtain ⟨after, hafter⟩ := ih (n + 1 - c.utf8Size)
            exact ⟨after, congrArg (c :: ·) hafter⟩
          · exact ⟨c :: rest, rfl⟩

theorem truncateBytes_size_le (text : List Char) (n : Nat) :
    ((truncateBytes text n).map Char.utf8Size).sum ≤ n := by
  induction text generalizing n with
  | nil => cases n <;> exact Nat.zero_le _
  | cons c rest ih =>
      cases n with
      | zero => exact Nat.zero_le _
      | succ n =>
          simp only [truncateBytes]
          split
          · have hrest := ih (n + 1 - c.utf8Size)
            simp only [List.map_cons, List.sum_cons]
            omega
          · exact Nat.zero_le _

/-- Every prefix that fits is a prefix of what is kept. -/
theorem truncateBytes_longest {text before after : List Char} {n : Nat}
    (htext : text = before ++ after)
    (hfits : (before.map Char.utf8Size).sum ≤ n) :
    ∃ middle, truncateBytes text n = before ++ middle := by
  induction before generalizing text n with
  | nil => exact ⟨_, rfl⟩
  | cons c before ih =>
      have hpos : 0 < c.utf8Size := c.utf8Size_pos
      simp only [List.map_cons, List.sum_cons] at hfits
      obtain ⟨n, rfl⟩ : ∃ bytes, n = bytes + 1 := ⟨n - 1, by omega⟩
      obtain ⟨middle, hmiddle⟩ := ih rfl
        (show (before.map Char.utf8Size).sum ≤ n + 1 - c.utf8Size by omega)
      refine ⟨middle, ?_⟩
      rw [htext, List.cons_append, truncateBytes, if_pos (by omega), hmiddle]
      rfl

/-- A character has four bytes at most, so a cut gives up three. -/
theorem truncateBytes_size_ge (text : List Char) (n : Nat)
    (hlong : n ≤ (text.map Char.utf8Size).sum) :
    n ≤ ((truncateBytes text n).map Char.utf8Size).sum + 3 := by
  induction text generalizing n with
  | nil =>
      have hzero : n = 0 := Nat.le_zero.mp hlong
      omega
  | cons c rest ih =>
      have hfour : c.utf8Size ≤ 4 := c.utf8Size_le_four
      simp only [List.map_cons, List.sum_cons] at hlong
      cases n with
      | zero => exact Nat.zero_le _
      | succ n =>
          simp only [truncateBytes]
          split
          · have hrest := ih (n + 1 - c.utf8Size) (by omega)
            simp only [List.map_cons, List.sum_cons]
            omega
          · omega

/-- A cut at a boundary keeps exactly that many bytes. -/
theorem truncateBytes_size {text : List Char} {n : Nat}
    (h : isCharBoundary text n = true) :
    ((truncateBytes text n).map Char.utf8Size).sum = n := by
  obtain ⟨before, after, htext, hsize⟩ := (isCharBoundary_iff text n).mp h
  obtain ⟨middle, hmiddle⟩ := truncateBytes_longest htext hsize.le
  have hle := truncateBytes_size_le text n
  rw [hmiddle] at hle ⊢
  simp only [List.map_append, List.sum_append] at hle ⊢
  omega

/-- A text of up to 8192 bytes is stored as it is.  Of a longer one the
longest prefix within 8192 bytes is kept, followed by the marker; the walk
back ends on a character boundary, where `String::truncate` does not panic. -/
theorem error_payload_truncated (text : String) :
    (text.utf8ByteSize ≤ 8192 → truncateErrorPayload text = text) ∧
    (8192 < text.utf8ByteSize → ∃ kept rest : String,
      text = kept ++ rest ∧
      truncateErrorPayload text = kept ++ "…[truncated]" ∧
      8189 ≤ kept.utf8ByteSize ∧ kept.utf8ByteSize ≤ 8192 ∧
      (∀ other after : String, text = other ++ after →
        other.utf8ByteSize ≤ 8192 → ∃ middle, kept = other ++ middle) ∧
      walkBackToBoundary text.toList maxErrorPayloadLen =
        kept.utf8ByteSize ∧
      isCharBoundary text.toList
        (walkBackToBoundary text.toList maxErrorPayloadLen) = true) := by
  constructor
  · intro hshort
    exact if_neg (Nat.not_lt.mpr hshort)
  · intro hlong
    have hmax : maxErrorPayloadLen = 8192 := rfl
    have hboundary := walkBackToBoundary_isCharBoundary text.toList
      maxErrorPayloadLen
    have hkept := truncateBytes_walkBackToBoundary text.toList
      maxErrorPayloadLen
    obtain ⟨after, hafter⟩ := truncateBytes_isPrefix text.toList
      maxErrorPayloadLen
    have hsum : (text.toList.map Char.utf8Size).sum = text.utf8ByteSize := by
      rw [← utf8ByteSize_ofList, String.ofList_toList]
    refine ⟨String.ofList (truncateBytes text.toList maxErrorPayloadLen),
      String.ofList after, ?_, ?_, ?_, ?_, ?_, ?_, hboundary⟩
    · rw [← String.ofList_append, ← hafter, String.ofList_toList]
    · rw [← hkept]
      exact if_pos hlong
    · have hthree := truncateBytes_size_ge text.toList maxErrorPayloadLen
        (by rw [hsum]; exact hlong.le)
      rw [utf8ByteSize_ofList]
      rw [hmax] at hthree ⊢
      omega
    · rw [utf8ByteSize_ofList]
      exact truncateBytes_size_le text.toList maxErrorPayloadLen
    · intro other rest htext hfits
      have hlist : text.toList = other.toList ++ rest.toList := by
        rw [htext, String.toList_append]
      have hsize : (other.toList.map Char.utf8Size).sum ≤
          maxErrorPayloadLen := by
        rw [← utf8ByteSize_ofList, String.ofList_toList]
        exact hfits
      obtain ⟨middle, hmiddle⟩ := truncateBytes_longest hlist hsize
      refine ⟨String.ofList middle, ?_⟩
      rw [hmiddle, String.ofList_append, String.ofList_toList]
    · rw [utf8ByteSize_ofList, ← hkept]
      exact (truncateBytes_size hboundary).symm

end ApalisPostgres
