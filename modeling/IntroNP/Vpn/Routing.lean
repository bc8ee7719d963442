import IntroNP.Vpn.Tunnel

/-!
# The VPN tunnel: routing

A client's number is the last octet of its address. For a packet from the tunnel device, the server reads the number of
the second client from the place in its text where the last octet of the first client starts in the text of the first:
this is right exactly when the two texts line up (`LinesUp`).

- `getEth0Addr_eq`, `tunnelAddr_eq`: the address of a client on the tunnel;
- `lastNumber2_eq_ok`: when the number of the second client is read;
- `delivers_iff`: when packets come to the client they are for.
-/

namespace IntroNP.Vpn

/-- Packets for the clients, whose addresses on the tunnel are `t1` and `t2`, come to them and to nobody else, and the
three comparisons agree. -/
structure Delivers (a1 a2 t1 t2 : Addr) : Prop where
  tun1 : ∀ buffer, sizeofIphdr ≤ buffer.length → daddr buffer = t1 →
    fromTun a1 a2 buffer = .ok [⟨.tun, .client1, buffer⟩]
  tun2 : ∀ buffer, sizeofIphdr ≤ buffer.length → daddr buffer = t2 →
    fromTun a1 a2 buffer = .ok [⟨.tun, .client2, buffer⟩]
  client1 : ∀ buffer, sizeofIphdr ≤ buffer.length → daddr buffer = t1 →
    fromClient2 a1 buffer = .ok [⟨.client2, .client1, buffer⟩]
  client2 : ∀ buffer, sizeofIphdr ≤ buffer.length → daddr buffer = t2 →
    fromClient1 a2 buffer = .ok [⟨.client1, .client2, buffer⟩]
  agree : ∀ buffer, sizeofIphdr ≤ buffer.length → ∃ copies copies1 copies2, fromTun a1 a2 buffer = .ok copies ∧
    fromClient1 a2 buffer = .ok copies1 ∧ fromClient2 a1 buffer = .ok copies2 ∧
    ((∃ c ∈ copies, c.target = .client1) ↔ ∃ c ∈ copies2, c.target = .client1) ∧
    ((∃ c ∈ copies, c.target = .client2) ↔ ∃ c ∈ copies1, c.target = .client2)

/-- The place of the last octet of `a1` in its text is that of the last octet of `a2`, or further left in the text of
`a2`, where a number starts that happens to be the same. -/
def LinesUp (a1 a2 : Addr) : Prop :=
  (front a1).length = (front a2).length ∨
    (front a1).length < (front a2).length ∧ StartsNumber ((front a2).drop ((front a1).length + 1)) a2.d.toNat

instance (a1 a2 : Addr) : Decidable (LinesUp a1 a2) := inferInstanceAs (Decidable (_ ∨ _))

/-- The first address of `eth0` is `addr`. -/
def Eth0 (ifaddr : List Ifaddrs) (addr : Addr) : Prop :=
  ∃ before after, ifaddr = before ++ ⟨"eth0", some (.inet addr)⟩ :: after ∧
    ∀ ifa ∈ before, ifa.name = ("eth0" : Text) → ifa.addr = none ∨ ifa.addr = some .other

variable {addr dest a1 a2 : Addr} {buffer : Packet} {ifaddr ifaddr1 ifaddr2 : List Ifaddrs}
  {getnameinfo : Sockaddr → Option Text}

/-! ## The address of a client on the tunnel -/

section Names

variable (hname : ∀ addr, getnameinfo (.inet addr) = some (inetNtoa addr))
include hname

theorem getEth0Addr_eq (h : Eth0 ifaddr addr) : getEth0Addr getnameinfo ifaddr = .ok (addr.d.toNat : Int) := by
  obtain ⟨before, after, rfl, hbefore⟩ := h
  induction before with
  | nil =>
    rw [List.nil_append]
    unfold getEth0Addr
    dsimp only
    rw [hname]
    dsimp only
    rw [if_pos rfl, substr_inetNtoa]
    exact stoi_toDecimal (octet_lt _)
  | cons ifa before ih =>
    have hrest := ih fun i hi => hbefore i (List.mem_cons_of_mem _ hi)
    have hifa := hbefore ifa List.mem_cons_self
    rw [List.cons_append]
    unfold getEth0Addr
    split
    · exact hrest
    · exact hrest
    · rename_i sockaddr hother hsome
      split
      · exact hrest
      · rw [if_neg, hrest]
        intro heth
        rcases hifa heth with hnone | hsome'
        · rw [hnone] at hsome
          cases hsome
        · rw [hsome'] at hsome
          cases hsome
          exact hother rfl

theorem tunnelAddr_eq (h : Eth0 ifaddr addr) (hd : addr.d.toNat + 10 ≤ 255) :
    tunnelAddr getnameinfo ifaddr = .ok ⟨10, 0, 0, .ofNat (addr.d.toNat + 10)⟩ := by
  unfold tunnelAddr
  rw [getEth0Addr_eq hname h]
  have hoctet : ∀ n < 246, Addr.htonl ((addrBase + (n : Int)) % 2 ^ 32).toNat = ⟨10, 0, 0, .ofNat (n + 10)⟩ := by
    decide +kernel
  exact congrArg Except.ok (hoctet _ (by omega))

end Names

/-! ## The number of the second client -/

/-- A text of digits and dots. -/
theorem inetNtoa_plain {c : Char} (hc : c ∈ inetNtoa addr) : isspace c = false ∧ c ≠ '-' ∧ c ≠ '+' := by
  have hdigit : ∀ {x : UInt8}, c ∈ toDecimal x.toNat → isspace c = false ∧ c ≠ '-' ∧ c ≠ '+' := by
    intro x hx
    have hd := isDigit_octet hx
    refine ⟨IStream.not_isspace_of_isDigit hd, ?_, ?_⟩
    · rintro rfl
      exact absurd hd (by decide)
    · rintro rfl
      exact absurd hd (by decide)
  unfold inetNtoa at hc
  simp only [List.mem_append, List.mem_cons] at hc
  rcases hc with hc | rfl | hc | rfl | hc | rfl | hc
  · exact hdigit hc
  · decide
  · exact hdigit hc
  · decide
  · exact hdigit hc
  · decide
  · exact hdigit hc

theorem startsNumber_append_dot {p t : Text} {n : Nat} : StartsNumber (p ++ '.' :: t) n ↔ StartsNumber p n := by
  have htake : (p ++ '.' :: t).takeWhile Char.isDigit = p.takeWhile Char.isDigit := by
    rw [List.takeWhile_append]
    split
    · rename_i hall
      rw [(List.takeWhile_prefix _).eq_of_length hall, List.takeWhile_cons_of_neg (by decide), List.append_nil]
    · rfl
  unfold StartsNumber
  rw [htake]

/-- **The second client's number** is read exactly if the texts line up. -/
theorem lastNumber2_eq_ok : lastNumber2 a1 a2 = .ok (a2.d.toNat : Int) ↔ LinesUp a1 a2 := by
  have hread : lastNumber2 a1 a2 = .ok (a2.d.toNat : Int) ↔
      (front a1).length + 1 ≤ (inetNtoa a2).length ∧
        StartsNumber ((inetNtoa a2).drop ((front a1).length + 1)) a2.d.toNat := by
    unfold lastNumber2 substr
    split
    · rename_i hle
      rw [← stoi_eq_ok (fun c hc => inetNtoa_plain (List.mem_of_mem_drop hc)) (octet_lt _)]
      exact ⟨fun h => ⟨hle, h⟩, And.right⟩
    · rename_i hgt
      exact iff_of_false (by simp [bind, Except.bind]) fun h => hgt h.1
  have hlen : (inetNtoa a2).length = (front a2).length + 1 + (toDecimal a2.d.toNat).length := by
    rw [inetNtoa_eq, List.length_append, List.length_cons]
    omega
  rw [hread, inetNtoa_eq]
  unfold LinesUp
  rcases Nat.lt_trichotomy (front a1).length (front a2).length with hlt | heq | hgt
  · rw [List.drop_append_of_le_length (by omega), startsNumber_append_dot]
    have hne : (front a1).length ≠ (front a2).length := by omega
    simp only [hne, hlt, false_or, true_and]
    refine ⟨And.right, fun h => ⟨?_, h⟩⟩
    rw [List.length_append, List.length_cons]
    omega
  · have hdrop : (front a2 ++ '.' :: toDecimal a2.d.toNat).drop ((front a1).length + 1) = toDecimal a2.d.toNat := by
      rw [← List.singleton_append, ← List.append_assoc, List.drop_left' (by simp [heq])]
    rw [hdrop]
    refine iff_of_true ⟨by simp [heq], ?_⟩ (.inl heq)
    have hplain : ∀ c ∈ toDecimal a2.d.toNat, isspace c = false ∧ c ≠ '-' ∧ c ≠ '+' := by
      intro c hc
      have hmem : c ∈ inetNtoa a2 := by
        rw [inetNtoa_eq]
        exact List.mem_append_right _ (List.mem_cons_of_mem _ hc)
      exact inetNtoa_plain hmem
    exact (stoi_eq_ok hplain (octet_lt _)).1 (stoi_toDecimal (octet_lt _))
  · have hdrop : (front a2 ++ '.' :: toDecimal a2.d.toNat).drop ((front a1).length + 1) =
        (Nat.toDigits 10 a2.d.toNat).drop ((front a1).length - (front a2).length) := by
      rw [List.drop_append, List.drop_eq_nil_of_le (by omega), List.nil_append,
        show (front a1).length + 1 - (front a2).length = (front a1).length - (front a2).length + 1 by omega]
      rfl
    rw [hdrop]
    exact iff_of_false (fun h => not_startsNumber_drop (by omega) h.2) (by omega)

/-! ## Delivery -/

/-- A packet for `addr`, of a header only. -/
def headerOnly (addr : Addr) : Packet := List.replicate 16 0 ++ [addr.a, addr.b, addr.c, addr.d]

theorem daddr_headerOnly : daddr (headerOnly addr) = addr := rfl

theorem headerOnly_length : sizeofIphdr ≤ (headerOnly addr).length := le_refl 20

/-- The second client gets its packets only if its number is read. -/
theorem lastNumber2_eq_of_fromTun (h : sizeofIphdr ≤ buffer.length) (hne : a1.d ≠ a2.d)
    (hd : (daddr buffer).d.toNat = a2.d.toNat + 10) (hf : fromTun a1 a2 buffer = .ok [⟨.tun, .client2, buffer⟩]) :
    lastNumber2 a1 a2 = .ok (a2.d.toNat : Int) := by
  have hne' : a1.d.toNat ≠ a2.d.toNat := fun e => hne (UInt8.toNat_inj.1 e)
  rw [fromTun_eq h] at hf
  cases hn : lastNumber2 a1 a2 with
  | error e =>
    rw [hn] at hf
    cases hf
  | ok n =>
    rw [hn] at hf
    dsimp only [Except.map] at hf
    rw [if_neg (by omega)] at hf
    split at hf
    · congr 1
      omega
    · simp at hf

/-- **Routing**: packets for the clients come to them, whatever their source, exactly if the texts of the addresses of
the clients line up. -/
theorem delivers_iff (hname : ∀ addr, getnameinfo (.inet addr) = some (inetNtoa addr))
    (h1 : Eth0 ifaddr1 a1) (h2 : Eth0 ifaddr2 a2) (hne : a1.d ≠ a2.d)
    (hd1 : a1.d.toNat + 10 ≤ 255) (hd2 : a2.d.toNat + 10 ≤ 255) :
    (∃ t1 t2, tunnelAddr getnameinfo ifaddr1 = .ok t1 ∧ tunnelAddr getnameinfo ifaddr2 = .ok t2 ∧
      Delivers a1 a2 t1 t2) ↔ LinesUp a1 a2 := by
  have hne' : a1.d.toNat ≠ a2.d.toNat := fun e => hne (UInt8.toNat_inj.1 e)
  have hlast : ∀ {a : Addr}, a.d.toNat + 10 ≤ 255 → (UInt8.ofNat (a.d.toNat + 10)).toNat = a.d.toNat + 10 := by
    intro a ha
    exact UInt8.toNat_ofNat_of_lt (Nat.lt_of_le_of_lt ha (by decide))
  rw [tunnelAddr_eq hname h1 hd1, tunnelAddr_eq hname h2 hd2, ← lastNumber2_eq_ok]
  constructor
  · rintro ⟨t1, t2, ht1, ht2, h⟩
    cases ht1
    cases ht2
    refine lastNumber2_eq_of_fromTun headerOnly_length hne ?_ (h.tun2 _ headerOnly_length daddr_headerOnly)
    rw [daddr_headerOnly]
    exact hlast hd2
  · intro hnumber
    have htun : ∀ {buffer}, sizeofIphdr ≤ buffer.length → fromTun a1 a2 buffer = .ok
        (if a1.d.toNat + 10 = (daddr buffer).d.toNat then [⟨.tun, .client1, buffer⟩]
        else if a2.d.toNat + 10 = (daddr buffer).d.toNat then [⟨.tun, .client2, buffer⟩]
        else []) := by
      intro buffer h
      rw [fromTun_eq h, hnumber]
      dsimp only [Except.map]
      norm_cast
    refine ⟨_, _, rfl, rfl, fun buffer h hd => ?_, fun buffer h hd => ?_, fun buffer h hd => ?_,
      fun buffer h hd => ?_, fun buffer h => ?_⟩
    · rw [htun h, if_pos (by rw [hd, hlast hd1])]
    · rw [htun h, if_neg (by rw [hd, hlast hd2]; omega), if_pos (by rw [hd, hlast hd2])]
    · unfold fromClient2
      rw [fromClient_eq h, if_pos (by rw [hd, hlast hd1])]
    · unfold fromClient1
      rw [fromClient_eq h, if_pos (by rw [hd, hlast hd2])]
    · refine ⟨_, _, _, htun h, fromClient_eq h, fromClient_eq h, ?_⟩
      by_cases h1 : a1.d.toNat + 10 = (daddr buffer).d.toNat
      · have h2 : a2.d.toNat + 10 ≠ (daddr buffer).d.toNat := by omega
        simp [h1, h2]
      · by_cases h2 : a2.d.toNat + 10 = (daddr buffer).d.toNat
        · simp [h1, h2]
        · simp [h1, h2]

/-- The names of IPv4 addresses; nothing else has one. -/
def numericHost : Sockaddr → Option Text
  | .inet addr => some (inetNtoa addr)
  | .inet6 _ | .other => none

/-- Two clients with texts of one length. -/
theorem delivers_iff_bridge : ∃ t1 t2,
    tunnelAddr numericHost [⟨"lo", some (.inet ⟨127, 0, 0, 1⟩)⟩, ⟨"eth0", some (.inet ⟨172, 17, 0, 3⟩)⟩] = .ok t1 ∧
    tunnelAddr numericHost [⟨"eth0", some .other⟩, ⟨"eth0", some (.inet ⟨172, 17, 0, 24⟩)⟩] = .ok t2 ∧
    Delivers ⟨172, 17, 0, 3⟩ ⟨172, 17, 0, 24⟩ t1 t2 :=
  (delivers_iff (fun _ => rfl)
    ⟨[⟨"lo", some (.inet ⟨127, 0, 0, 1⟩)⟩], [], rfl, by simp⟩
    ⟨[⟨"eth0", some .other⟩], [], rfl, by simp⟩ (by decide) (by decide) (by decide)).2 (by decide)

/-- A third octet of one digit, and one of two: what is read as the second number starts with a dot. -/
theorem fromTun_raises :
    tunnelAddr numericHost [⟨"eth0", some (.inet ⟨192, 168, 9, 5⟩)⟩] = .ok ⟨10, 0, 0, 15⟩ ∧
    tunnelAddr numericHost [⟨"eth0", some (.inet ⟨192, 168, 10, 20⟩)⟩] = .ok ⟨10, 0, 0, 30⟩ ∧
    fromTun ⟨192, 168, 9, 5⟩ ⟨192, 168, 10, 20⟩ (headerOnly ⟨10, 0, 0, 15⟩) = .error .invalidArgument ∧
    ¬ Delivers ⟨192, 168, 9, 5⟩ ⟨192, 168, 10, 20⟩ ⟨10, 0, 0, 15⟩ ⟨10, 0, 0, 30⟩ := by
  have hraise : fromTun ⟨192, 168, 9, 5⟩ ⟨192, 168, 10, 20⟩ (headerOnly ⟨10, 0, 0, 15⟩) = .error .invalidArgument := by
    decide +kernel
  refine ⟨by decide +kernel, by decide +kernel, hraise, fun h => ?_⟩
  rw [h.tun1 _ headerOnly_length daddr_headerOnly] at hraise
  cases hraise

end IntroNP.Vpn
