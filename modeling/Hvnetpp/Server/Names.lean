import Mathlib.Data.Nat.Digits.Lemmas

namespace Hvnetpp.Server

abbrev Bytes := List UInt8

/-- What `c_str()` shows of a string: the bytes before the first NUL. -/
def cString (text : Bytes) : Bytes := text.takeWhile (· ≠ 0)

/-- `%d` of a positive number. -/
def decimal (n : Nat) : Bytes := ((Nat.digits 10 n).map fun digit => UInt8.ofNat (48 + digit)).reverse

/-- What `snprintf` leaves in a buffer of `size` bytes, before the NUL it ends with. -/
def snprintf (size : Nat) (text : Bytes) : Bytes := text.take (size - 1)

def connName (name : Bytes) (nextConnId : Nat) : Bytes :=
  name ++ snprintf 64 ('-'.toUInt8 :: (cString name ++ '#'.toUInt8 :: decimal nextConnId))

theorem decimal_length (n : Nat) : (decimal n).length = (Nat.digits 10 n).length := by
  rw [decimal, List.length_reverse, List.length_map]

theorem decimal_values (n : Nat) :
    (decimal n).reverse.map (fun byte => byte.toNat - 48) = Nat.digits 10 n := by
  rw [decimal, List.reverse_reverse, List.map_map]
  apply List.map_congr_left (g := id) _ |>.trans (List.map_id _)
  intro digit member
  have bound : digit < 10 := Nat.digits_lt_base (by decide) member
  simp only [Function.comp_apply, UInt8.toNat_ofNat', id_eq]
  omega

theorem decimal_injective : Function.Injective decimal := by
  intro m n same
  apply Nat.digits.injective 10
  rw [← decimal_values m, ← decimal_values n, same]

theorem decimal_pow (exponent : Nat) : decimal (10 ^ exponent) = 49 :: List.replicate exponent 48 := by
  have digits : Nat.digits 10 (10 ^ exponent) = List.replicate exponent 0 ++ [1] := by
    have := Nat.digits_base_pow_mul (b := 10) (k := exponent) (m := 1) (by decide) (by decide)
    rwa [Nat.mul_one, Nat.digits_of_lt 10 1 (by decide) (by decide)] at this
  rw [decimal, digits]
  simp

/-- The numbers up to `accepts` all fit behind the name. -/
def Fits (name : Bytes) (accepts : Nat) : Prop :=
  (cString name).length + 2 + (Nat.digits 10 accepts).length ≤ 63

/-- What the buffer has room for behind the name decides which numbers it tells apart. -/
theorem connName_eq_iff (name : Bytes) (first second : Nat) :
    connName name first = connName name second ↔
      (decimal first).take (61 - (cString name).length) = (decimal second).take (61 - (cString name).length) := by
  have cut : ∀ n, snprintf 64 ('-'.toUInt8 :: (cString name ++ '#'.toUInt8 :: decimal n)) =
      ('-'.toUInt8 :: (cString name ++ ['#'.toUInt8])).take 63 ++
        (decimal n).take (61 - (cString name).length) := by
    intro n
    have split : '-'.toUInt8 :: (cString name ++ '#'.toUInt8 :: decimal n) =
        ('-'.toUInt8 :: (cString name ++ ['#'.toUInt8])) ++ decimal n := by simp
    have room : 63 - ('-'.toUInt8 :: (cString name ++ ['#'.toUInt8])).length = 61 - (cString name).length := by
      simp only [List.length_cons, List.length_append, List.length_nil]
      omega
    rw [snprintf, split, List.take_append, room]
  rw [connName, connName, cut, cut, List.append_cancel_left_eq, List.append_cancel_left_eq]

theorem Fits.injective {name : Bytes} {accepts first second : Nat} (fits : Fits name accepts)
    (le : first ≤ accepts) (le' : second ≤ accepts) (same : connName name first = connName name second) :
    first = second := by
  unfold Fits at fits
  have whole : ∀ n ≤ accepts, (decimal n).take (61 - (cString name).length) = decimal n := by
    intro n bound
    have shorter := Nat.le_length_digits_le 10 n accepts bound
    apply List.take_of_length_le
    rw [decimal_length]
    omega
  rw [connName_eq_iff, whole first le, whole second le'] at same
  exact decimal_injective same

/-- A power of ten and the next one begin with the same digits, up to the length of the smaller. -/
theorem connName_collides {name : Bytes} {accepts : Nat} (two : 2 ≤ accepts) (long : ¬ Fits name accepts) :
    ∃ first second, 0 < first ∧ first < second ∧ second ≤ accepts ∧
      connName name first = connName name second := by
  unfold Fits at long
  cases room : 61 - (cString name).length with
  | zero =>
    refine ⟨1, 2, by decide, by decide, two, ?_⟩
    rw [connName_eq_iff, room]
    rfl
  | succ digits =>
    have many : ¬ (Nat.digits 10 accepts).length ≤ digits + 1 := by omega
    rw [Nat.digits_length_le_iff (by decide), Nat.not_lt] at many
    have grows : 10 ^ digits < 10 ^ (digits + 1) := Nat.pow_lt_pow_succ (by decide)
    refine ⟨10 ^ digits, 10 ^ (digits + 1), Nat.pos_of_neZero _, grows, many, ?_⟩
    rw [connName_eq_iff, room, decimal_pow, decimal_pow]
    simp

end Hvnetpp.Server
