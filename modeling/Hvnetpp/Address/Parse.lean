import Hvnetpp.Address.Text

namespace Hvnetpp.Address

open Machine Server

def Family.ofFlag : Bool → Family
  | false => .inet
  | true => .inet6

def Family.code : Family → UInt16
  | .inet => AF_INET
  | .inet6 => AF_INET6

/-- The size of a `sockaddr_in` or a `sockaddr_in6`. -/
def Family.sockaddrSize : Family → Nat
  | .inet => 16
  | .inet6 => 28

section Stored

variable (order : ByteOrder) (addr : SockaddrIn) (addr6 : SockaddrIn6)

@[simp] theorem SockaddrIn.stored_family : (addr.stored order).ss_family order = addr.sin_family := by
  have member : field (addr.bytes order) 0 2 (by decide) = order.store addr.sin_family := field_append_left _ _
  rw [Storage.ss_family, stored, field_copyTo _ _ _ (by decide), member, ByteOrder.load_store]

@[simp] theorem SockaddrIn.stored_port : (addr.stored order).sin_port order = addr.sin_port := by
  have member : field (addr.bytes order) 2 2 (by decide) = order.store addr.sin_port :=
    (field_append_right _ _ 0 2 (by decide)).trans (field_append_left _ _)
  rw [Storage.sin_port, stored, field_copyTo _ _ _ (by decide), member, ByteOrder.load_store]

@[simp] theorem SockaddrIn.stored_addr : (addr.stored order).sin_addr = addr.sin_addr := by
  have member : field (addr.bytes order) 4 4 (by decide) = addr.sin_addr :=
    calc field (addr.bytes order) 4 4 (by decide)
        = field (order.store addr.sin_port ++ (addr.sin_addr ++ addr.sin_zero)) 2 4 (by decide) :=
          field_append_right _ _ 2 4 (by decide)
      _ = field (addr.sin_addr ++ addr.sin_zero) 0 4 (by decide) := field_append_right _ _ 0 4 (by decide)
      _ = addr.sin_addr := field_append_left _ _
  rw [Storage.sin_addr, stored, field_copyTo _ _ _ (by decide), member]

@[simp] theorem SockaddrIn6.stored_family : (addr6.stored order).ss_family order = addr6.sin6_family := by
  have member : field (addr6.bytes order) 0 2 (by decide) = order.store addr6.sin6_family := field_append_left _ _
  rw [Storage.ss_family, stored, field_copyTo _ _ _ (by decide), member, ByteOrder.load_store]

@[simp] theorem SockaddrIn6.stored_port : (addr6.stored order).sin6_port order = addr6.sin6_port := by
  have member : field (addr6.bytes order) 2 2 (by decide) = order.store addr6.sin6_port :=
    (field_append_right _ _ 0 2 (by decide)).trans (field_append_left _ _)
  rw [Storage.sin6_port, stored, field_copyTo _ _ _ (by decide), member, ByteOrder.load_store]

@[simp] theorem SockaddrIn6.stored_addr : (addr6.stored order).sin6_addr = addr6.sin6_addr := by
  have member : field (addr6.bytes order) 8 16 (by decide) = addr6.sin6_addr :=
    calc field (addr6.bytes order) 8 16 (by decide)
        = field (order.store addr6.sin6_port ++
            (addr6.sin6_flowinfo ++ (addr6.sin6_addr ++ addr6.sin6_scope_id))) 6 16 (by decide) :=
          field_append_right _ _ 6 16 (by decide)
      _ = field (addr6.sin6_flowinfo ++ (addr6.sin6_addr ++ addr6.sin6_scope_id)) 4 16 (by decide) :=
          field_append_right _ _ 4 16 (by decide)
      _ = field (addr6.sin6_addr ++ addr6.sin6_scope_id) 0 16 (by decide) := field_append_right _ _ 0 16 (by decide)
      _ = addr6.sin6_addr := field_append_left _ _
  rw [Storage.sin6_addr, stored, field_copyTo _ _ _ (by decide), member]

end Stored

/-- What an address stands for. -/
structure Endpoint where
  family : Family
  host : List.Vector UInt8 family.width
  port : UInt16

/-- The address of an endpoint. The members that say nothing of it are zero. -/
def Endpoint.address (order : ByteOrder) : Endpoint → InetAddress
  | ⟨.inet, host, port⟩ =>
    { addr := { SockaddrIn.zero with
        sin_family := AF_INET, sin_port := order.htons port, sin_addr := host }.stored order
      length := 16 }
  | ⟨.inet6, host, port⟩ =>
    { addr := { SockaddrIn6.zero with
        sin6_family := AF_INET6, sin6_port := order.htons port, sin6_addr := host }.stored order
      length := 28 }

namespace Endpoint

variable (libc : Libc) (endpoint : Endpoint)

theorem address_family : (endpoint.address libc.order).family libc = endpoint.family.code := by
  obtain ⟨family, host, port⟩ := endpoint
  cases family with
  | inet => exact SockaddrIn.stored_family _ _
  | inet6 => exact SockaddrIn6.stored_family _ _

theorem address_length : (endpoint.address libc.order).length = endpoint.family.sockaddrSize := by
  obtain ⟨family, host, port⟩ := endpoint
  cases family with
  | inet => rfl
  | inet6 => rfl

theorem address_isIpv6 : (endpoint.address libc.order).isIpv6 libc = decide (endpoint.family = .inet6) := by
  rw [InetAddress.isIpv6, address_family]
  cases endpoint.family with
  | inet => rfl
  | inet6 => rfl

theorem address_isValid : (endpoint.address libc.order).isValid libc = true := by
  rw [InetAddress.isValid, InetAddress.isIpv4, InetAddress.isIpv6, address_family, address_length]
  cases endpoint.family with
  | inet => rfl
  | inet6 => rfl

theorem address_toPort : (endpoint.address libc.order).toPort libc = endpoint.port := by
  rw [InetAddress.toPort, InetAddress.portNetEndian, address_isIpv6]
  obtain ⟨family, host, port⟩ := endpoint
  cases family with
  | inet =>
    show libc.order.ntohs ((address libc.order ⟨.inet, host, port⟩).addr.sin_port libc.order) = port
    rw [address, SockaddrIn.stored_port, ByteOrder.ntohs_htons]
  | inet6 =>
    show libc.order.ntohs ((address libc.order ⟨.inet6, host, port⟩).addr.sin6_port libc.order) = port
    rw [address, SockaddrIn6.stored_port, ByteOrder.ntohs_htons]

/-- The buffer of `toIp` has room for either family. -/
theorem ntopInto_text (family : Family) (host : List.Vector UInt8 family.width) :
    libc.ntopInto 64 family host = (libc.inet_ntop family host).val := by
  have fits := libc.inet_ntop_fits family host
  have room : family.addrStrLen ≤ 64 := by
    cases family with
    | inet => decide
    | inet6 => decide
  rw [Libc.ntopInto, if_pos (by omega)]

theorem address_toIp :
    (endpoint.address libc.order).toIp libc = (libc.inet_ntop endpoint.family endpoint.host).val := by
  have code := address_family libc endpoint
  rw [← ntopInto_text, InetAddress.toIp, Address.toIp]
  rw [InetAddress.family] at code
  rw [code]
  obtain ⟨family, host, port⟩ := endpoint
  cases family with
  | inet =>
    show libc.ntopInto 64 .inet (address libc.order ⟨.inet, host, port⟩).addr.sin_addr = _
    rw [address, SockaddrIn.stored_addr]
  | inet6 =>
    show libc.ntopInto 64 .inet6 (address libc.order ⟨.inet6, host, port⟩).addr.sin6_addr = _
    rw [address, SockaddrIn6.stored_addr]

end Endpoint

/-- The address that the constructor leaves when the text is refused. -/
def InetAddress.refused : InetAddress := { addr := Storage.zero, length := 0 }

theorem InetAddress.refused_isValid (libc : Libc) : refused.isValid libc = false := rfl

/-- What the constructor makes of the result of `inet_pton`. -/
def Conversion.address (order : ByteOrder) (port : UInt16) {family : Family} : Conversion family → InetAddress
  | .converted host => Endpoint.address order ⟨family, host, port⟩
  | .invalid => .refused
  | .failed => .refused

variable {libc : Libc} {ip : Bytes} {port : UInt16} {ipv6 : Bool}

/-- The two branches of the constructor differ in the family alone. -/
theorem InetAddress.ofLiteral_eq :
    ofLiteral libc ip port ipv6 = (libc.inet_pton (.ofFlag ipv6) (c_str ip)).address libc.order port := by
  cases ipv6 with
  | false =>
    show ofLiteral libc ip port false = (libc.inet_pton .inet (c_str ip)).address libc.order port
    cases result : libc.inet_pton .inet (c_str ip)
    all_goals
      simp only [ofLiteral, fromIpPort, result]
      rfl
  | true =>
    show ofLiteral libc ip port true = (libc.inet_pton .inet6 (c_str ip)).address libc.order port
    cases result : libc.inet_pton .inet6 (c_str ip)
    all_goals
      simp only [ofLiteral, fromIpPort6, result]
      rfl

theorem tryParse_converted {host : List.Vector UInt8 (Family.ofFlag ipv6).width}
    (converted : libc.inet_pton (.ofFlag ipv6) (c_str ip) = .converted host) :
    tryParse libc ip port ipv6 = (true, Endpoint.address libc.order ⟨.ofFlag ipv6, host, port⟩) := by
  rw [tryParse, InetAddress.ofLiteral_eq, converted]
  exact congrArg (·, _) (Endpoint.address_isValid libc _)

theorem tryParse_refused (refused : ∀ host, libc.inet_pton (.ofFlag ipv6) (c_str ip) ≠ .converted host) :
    tryParse libc ip port ipv6 = (false, .refused) := by
  rw [tryParse, InetAddress.ofLiteral_eq]
  cases result : libc.inet_pton (.ofFlag ipv6) (c_str ip) with
  | converted host => exact absurd result (refused host)
  | invalid => rfl
  | failed => rfl

/-- The entire string is a literal. No literal has a NUL in it. -/
def IsLiteral (literal : Family → CString → Prop) (family : Family) (ip : Bytes) : Prop :=
  ∃ text : CString, text.val = ip ∧ literal family text

/-- The string is accepted exactly if all of it is a literal of the chosen family. The address then has that family,
    the port and the length of the family's structure, and its text gives the same address again. Otherwise it is
    an invalid one of length 0. -/
structure ParsesExactly (libc : Libc) (literal : Family → CString → Prop) (ip : Bytes) (port : UInt16)
    (ipv6 : Bool) : Prop where
  accepted : (tryParse libc ip port ipv6).1 = true ↔ IsLiteral literal (.ofFlag ipv6) ip
  family : (tryParse libc ip port ipv6).1 = true →
    (tryParse libc ip port ipv6).2.family libc = (Family.ofFlag ipv6).code
  toPort : (tryParse libc ip port ipv6).1 = true → (tryParse libc ip port ipv6).2.toPort libc = port
  length : (tryParse libc ip port ipv6).1 = true →
    (tryParse libc ip port ipv6).2.length = (Family.ofFlag ipv6).sockaddrSize
  again : (tryParse libc ip port ipv6).1 = true →
    tryParse libc ((tryParse libc ip port ipv6).2.toIp libc) port ipv6 = tryParse libc ip port ipv6
  invalid : (tryParse libc ip port ipv6).1 = false →
    (tryParse libc ip port ipv6).2.isValid libc = false ∧ (tryParse libc ip port ipv6).2.length = 0

theorem c_str_val (text : CString) : c_str text.val = text := by
  apply Subtype.ext
  apply List.takeWhile_eq_self_iff.mpr
  intro byte member
  have nonzero : byte ≠ 0 := by
    intro zero
    rw [zero] at member
    exact text.property member
  exact decide_eq_true nonzero

variable {literal : Family → CString → Prop} {family : Family}

/-- The entire string is a literal if the part that C sees is one and there is nothing else. -/
theorem isLiteral_iff : IsLiteral literal family ip ↔ 0 ∉ ip ∧ literal family (c_str ip) := by
  constructor
  · intro whole
    obtain ⟨text, rfl, valid⟩ := whole
    rw [c_str_val]
    exact ⟨text.property, valid⟩
  · intro whole
    obtain ⟨plain, valid⟩ := whole
    exact ⟨⟨ip, plain⟩, rfl, c_str_val ⟨ip, plain⟩ ▸ valid⟩

theorem tryParse_accepts (conforms : libc.Conforms literal) :
    (tryParse libc ip port ipv6).1 = true ↔ literal (.ofFlag ipv6) (c_str ip) := by
  rw [← conforms.accepts]
  constructor
  · intro accepted
    by_contra refused
    rw [tryParse_refused (not_exists.mp refused)] at accepted
    cases accepted
  · intro converted
    obtain ⟨host, converted⟩ := converted
    rw [tryParse_converted converted]

theorem tryParse_again (conforms : libc.Conforms literal) (host : List.Vector UInt8 (Family.ofFlag ipv6).width) :
    tryParse libc ((Endpoint.address libc.order ⟨.ofFlag ipv6, host, port⟩).toIp libc) port ipv6 =
      (true, Endpoint.address libc.order ⟨.ofFlag ipv6, host, port⟩) := by
  apply tryParse_converted
  rw [Endpoint.address_toIp, c_str_val]
  exact conforms.inverts _ host

/-- What is said of the address holds for every string. -/
theorem parsesExactly_iff (conforms : libc.Conforms literal) : ParsesExactly libc literal ip port ipv6 ↔
    ((tryParse libc ip port ipv6).1 = true ↔ IsLiteral literal (.ofFlag ipv6) ip) := by
  constructor
  · intro parses
    exact parses.accepted
  · intro accepted
    by_cases found : ∃ host, libc.inet_pton (.ofFlag ipv6) (c_str ip) = .converted host
    · obtain ⟨host, converted⟩ := found
      constructor
      · exact accepted
      all_goals
        rw [tryParse_converted converted]
        intro returned
      · exact Endpoint.address_family libc _
      · exact Endpoint.address_toPort libc _
      · exact Endpoint.address_length libc _
      · exact tryParse_again conforms host
      · cases returned
    · have refused : tryParse libc ip port ipv6 = (false, .refused) := tryParse_refused (not_exists.mp found)
      constructor
      · exact accepted
      all_goals
        rw [refused]
        intro returned
      case invalid => exact ⟨InetAddress.refused_isValid libc, rfl⟩
      all_goals cases returned

/-- A literal followed by a NUL and anything else is accepted as well: such strings apart, `tryParse` accepts
    exactly the literals. -/
theorem tryParse_exact (conforms : libc.Conforms literal) (ip : Bytes) (port : UInt16) (ipv6 : Bool) :
    ParsesExactly libc literal ip port ipv6 ↔ (0 ∈ ip → ¬ literal (.ofFlag ipv6) (c_str ip)) := by
  rw [parsesExactly_iff conforms, tryParse_accepts conforms, isLiteral_iff]
  constructor
  · intro whole zero valid
    exact (whole.mp valid).1 zero
  · intro unseen
    constructor
    · intro valid
      exact ⟨fun zero => unseen zero valid, valid⟩
    · intro whole
      exact whole.2

/-- 127.0.0.1 in digits. -/
def localhost : Bytes := [49, 50, 55, 46, 48, 46, 48, 46, 49]

theorem tryParse_exact_localhost : (tryParse (numeric .little) localhost 8080 false).1 = true ∧
    ParsesExactly (numeric .little) Numeric localhost 8080 false := by
  have plain : 0 ∉ localhost := by decide
  exact ⟨by decide,
    (tryParse_exact (numeric_conforms .little) localhost 8080 false).mpr fun zero => absurd zero plain⟩

/-- What stands behind a NUL is not looked at. -/
theorem tryParse_ignores_tail : (numeric .little).Conforms Numeric ∧
    (tryParse (numeric .little) (localhost ++ [0, 120]) 8080 false).1 = true ∧
    ¬ IsLiteral Numeric .inet (localhost ++ [0, 120]) := by
  refine ⟨numeric_conforms .little, by decide, ?_⟩
  intro whole
  exact (isLiteral_iff.mp whole).1 (by decide)

end Hvnetpp.Address
