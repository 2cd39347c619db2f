import Hvnetpp.Machine.Spelling
import Hvnetpp.Address.Model

namespace Hvnetpp.Address

open Machine Server

/-- `inet_pton` accepts exactly the literals of its family among the C strings, and inverts `inet_ntop`. -/
structure Libc.Conforms (libc : Libc) (literal : Family → CString → Prop) : Prop where
  accepts : ∀ family text, (∃ host, libc.inet_pton family text = .converted host) ↔ literal family text
  inverts : ∀ family host, libc.inet_pton family (libc.inet_ntop family host) = .converted host

/-- A byte as `inet_ntop` writes it for `AF_INET`, without leading zeros. -/
def octet : Spelling UInt8 UInt8 where
  print byte := if byte = 0 then [48] else decimal byte.toNat
  value text := UInt8.ofNat (Nat.ofDigits 10 (text.reverse.map fun digit => digit.toNat - 48))
  value_print byte := by
    split
    · next zero =>
      rw [zero]
      rfl
    · rw [decimal_values, Nat.ofDigits_digits, UInt8.ofNat_toNat]

theorem octet_digit {byte digit : UInt8} (member : digit ∈ octet.print byte) : 48 ≤ digit.toNat ∧ digit.toNat < 58 := by
  simp only [octet] at member
  split at member
  · rw [List.mem_singleton.mp member]
    decide
  · rw [decimal, List.mem_reverse, List.mem_map] at member
    obtain ⟨value, among, rfl⟩ := member
    have bound : value < 10 := Nat.digits_lt_base (by decide) among
    rw [UInt8.toNat_ofNat']
    omega

theorem octet_apart (byte : UInt8) : 46 ∉ octet.print byte := by
  intro member
  exact absurd (octet_digit member).1 (by decide)

theorem octet_length (byte : UInt8) : (octet.print byte).length ≤ 3 := by
  have bound := byte.toNat_lt
  simp only [octet]
  split
  · decide
  · rw [decimal_length]
    exact (Nat.digits_length_le_iff (by decide) _).mpr (by omega)

def hexDigit (value : Nat) : UInt8 := UInt8.ofNat (if value < 10 then 48 + value else 87 + value)

def hexValue (digit : UInt8) : Nat := if digit.toNat < 58 then digit.toNat - 48 else digit.toNat - 87

theorem hexValue_hexDigit : ∀ value < 16, hexValue (hexDigit value) = value := by decide

theorem hexDigit_bound : ∀ value < 16, 48 ≤ (hexDigit value).toNat ∧ (hexDigit value).toNat ≠ 58 := by decide

/-- Two bytes in four digits. -/
def group : Spelling (UInt8 × UInt8) UInt8 where
  print bytes := [hexDigit (bytes.1.toNat / 16), hexDigit (bytes.1.toNat % 16),
    hexDigit (bytes.2.toNat / 16), hexDigit (bytes.2.toNat % 16)]
  value
    | [a, b, c, d] => (UInt8.ofNat (16 * hexValue a + hexValue b), UInt8.ofNat (16 * hexValue c + hexValue d))
    | _ => (0, 0)
  value_print bytes := by
    have whole : ∀ byte : UInt8,
        UInt8.ofNat (16 * hexValue (hexDigit (byte.toNat / 16)) + hexValue (hexDigit (byte.toNat % 16))) = byte := by
      intro byte
      have bound := byte.toNat_lt
      rw [hexValue_hexDigit _ (by omega), hexValue_hexDigit _ (by omega), Nat.div_add_mod, UInt8.ofNat_toNat]
    exact Prod.ext (whole bytes.1) (whole bytes.2)

theorem group_digit {bytes : UInt8 × UInt8} {digit : UInt8} (member : digit ∈ group.print bytes) :
    48 ≤ digit.toNat ∧ digit.toNat ≠ 58 := by
  have first := bytes.1.toNat_lt
  have second := bytes.2.toNat_lt
  simp only [group, List.mem_cons, List.not_mem_nil, or_false] at member
  obtain rfl | rfl | rfl | rfl := member
  all_goals exact hexDigit_bound _ (by omega)

theorem group_apart (bytes : UInt8 × UInt8) : 58 ∉ group.print bytes := by
  intro member
  exact (group_digit member).2 rfl

/-- Numbers between dots. -/
def dotted : Spelling (List.Vector UInt8 4) UInt8 :=
  octet.sequence 46 octet_apart 4 (by decide)

/-- Groups between colons, with none left out. -/
def grouped : Spelling (List.Vector UInt8 16) UInt8 :=
  (group.sequence 58 group_apart 8 (by decide)).comap (pairs (n := 8)) unpairs (unpairs_pairs (n := 8))

def spelling : (family : Family) → Spelling (List.Vector UInt8 family.width) UInt8
  | .inet => dotted
  | .inet6 => grouped

theorem spelling_plain (family : Family) (host : List.Vector UInt8 family.width) : 0 ∉ (spelling family).print host := by
  intro member
  cases family with
  | inet =>
    obtain separated | ⟨byte, inside⟩ := Spelling.mem_sequence octet_apart (n := 4) (by decide) member
    · cases separated
    · exact absurd (octet_digit inside).1 (by decide)
  | inet6 =>
    obtain separated | ⟨bytes, inside⟩ := Spelling.mem_sequence group_apart (n := 8) (by decide) member
    · cases separated
    · exact absurd (group_digit inside).1 (by decide)

theorem spelling_length (family : Family) (host : List.Vector UInt8 family.width) :
    ((spelling family).print host).length < family.addrStrLen := by
  cases family with
  | inet => exact Spelling.sequence_length octet_apart (by decide) octet_length host
  | inet6 =>
    have length : ((spelling .inet6).print host).length < 8 * (4 + 1) :=
      Spelling.sequence_length group_apart (by decide) (fun _ => Nat.le_refl 4) (pairs (n := 8) host)
    exact Nat.lt_trans length (by decide)

/-- A C library that writes and reads these forms alone. -/
def numeric (order : ByteOrder) : Libc where
  order := order
  inet_pton family text :=
    match (spelling family).parse text.val with
    | some host => .converted host
    | none => .invalid
  inet_ntop family host := ⟨(spelling family).print host, spelling_plain family host⟩
  inet_ntop_fits := spelling_length

theorem numeric_converted {order : ByteOrder} {family : Family} {text : CString}
    {host : List.Vector UInt8 family.width} :
    (numeric order).inet_pton family text = .converted host ↔ (spelling family).print host = text.val := by
  rw [← Spelling.parse_eq_some_iff]
  simp only [numeric]
  cases (spelling family).parse text.val with
  | none => simp
  | some found => simp

/-- The text is in the one form of some address. -/
def Numeric (family : Family) (text : CString) : Prop := ∃ host, (spelling family).print host = text.val

theorem numeric_conforms (order : ByteOrder) : (numeric order).Conforms Numeric where
  accepts _ _ := exists_congr fun _ => numeric_converted
  inverts _ _ := numeric_converted.mpr rfl

end Hvnetpp.Address
