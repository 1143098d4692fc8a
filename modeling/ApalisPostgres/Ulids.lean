/-
ULIDs and their texts.  A ULID is written with 26 digits, and read with digits
of either case; what does not fit into its bits is dropped, so that many texts
are read as the same ULID.
-/
import Mathlib.Algebra.Group.Nat.Defs
import Mathlib.Data.List.Basic

namespace ApalisPostgres

/-- A ULID: 128 bits. -/
structure Ulid where
  bits : BitVec 128
deriving DecidableEq

/-- The digits of Crockford's base 32. -/
def crockfordDigits : List Char := "0123456789ABCDEFGHJKMNPQRSTVWXYZ".toList

/-- `Ulid::to_string`: 26 digits of five bits each, the highest first. -/
def Ulid.toText (id : Ulid) : String :=
  String.ofList ((List.range 26).map fun i =>
    crockfordDigits.getD (id.bits.toNat / 32 ^ (25 - i) % 32) (Char.ofNat 48))

/-- The value of a digit of either case. -/
def digitValue (c : Char) : Option Nat := crockfordDigits.idxOf? c.toUpper

/-- The number that base 32 digits stand for, the highest first. -/
def ofDigits32 (digits : List Nat) : Nat :=
  digits.foldl (fun value digit => 32 * value + digit) 0

/-- `Ulid::from_string`: 26 digits; the bits above the 128 are shifted out. -/
def Ulid.ofText? (text : String) : Option Ulid :=
  if text.length = 26 then
    (text.toList.mapM digitValue).map fun digits =>
      ⟨BitVec.ofNat 128 (ofDigits32 digits)⟩
  else none

/-- The text of the ULID that a text is read as. -/
def Ulid.spelled (text : String) : Option String :=
  (Ulid.ofText? text).map Ulid.toText

theorem mapM_of_pure {m : Type → Type} [Monad m] [LawfulMonad m] {α β : Type}
    {f : α → m β} {g : α → β} {items : List α}
    (h : ∀ item ∈ items, f item = pure (g item)) :
    items.mapM f = pure (items.map g) := by
  induction items with
  | nil => rfl
  | cons item items ih =>
      rw [List.mapM_cons, h item List.mem_cons_self,
        ih fun other hother => h other (List.mem_cons_of_mem _ hother)]
      simp

theorem ofDigits32_range (n count : Nat) :
    ofDigits32 ((List.range count).map fun i =>
      n / 32 ^ (count - 1 - i) % 32) = n % 32 ^ count := by
  induction count generalizing n with
  | zero => simp [ofDigits32, Nat.mod_one]
  | succ count ih =>
      -- All digits but the last are those of `n / 32`.
      have hinit : ((List.range count).map fun i =>
          n / 32 ^ (count + 1 - 1 - i) % 32) =
          (List.range count).map fun i =>
            n / 32 / 32 ^ (count - 1 - i) % 32 := by
        refine List.map_congr_left fun i hi => ?_
        have hlt := List.mem_range.mp hi
        rw [Nat.div_div_eq_div_mul, ← Nat.pow_succ',
          show count + 1 - 1 - i = (count - 1 - i).succ by omega]
      have hlast := ih (n / 32)
      rw [ofDigits32] at hlast ⊢
      rw [List.range_succ, List.map_append, hinit, List.foldl_append, hlast]
      simp only [List.map_cons, List.map_nil, List.foldl_cons,
        List.foldl_nil, Nat.add_sub_cancel, Nat.sub_self, Nat.pow_zero,
        Nat.div_one]
      rw [Nat.pow_succ', Nat.mod_mul, Nat.add_comm]

theorem Ulid.ofText?_toText (id : Ulid) : Ulid.ofText? id.toText = some id := by
  have hdigit : ∀ n < 32, digitValue
      (crockfordDigits.getD n (Char.ofNat 48)) = some n := by decide
  have hlength : id.toText.length = 26 := by
    simp [Ulid.toText]
  have hdigits : id.toText.toList.mapM digitValue =
      some ((List.range 26).map fun i =>
        id.bits.toNat / 32 ^ (26 - 1 - i) % 32) := by
    rw [Ulid.toText, String.toList_ofList, List.mapM_map]
    exact mapM_of_pure fun i _ => hdigit _ (Nat.mod_lt _ (by decide))
  have hvalue : id.bits.toNat % 32 ^ 26 = id.bits.toNat :=
    Nat.mod_eq_of_lt (Nat.lt_of_lt_of_le id.bits.isLt (by decide))
  rw [Ulid.ofText?, if_pos hlength, hdigits, Option.map_some,
    ofDigits32_range, hvalue, BitVec.ofNat_toNat]
  simp

theorem Ulid.spelled_toText (id : Ulid) :
    Ulid.spelled id.toText = some id.toText := by
  rw [Ulid.spelled, Ulid.ofText?_toText]
  rfl

end ApalisPostgres
