import Todero.IceChecklist
import Todero.Lib.Attributes
import Todero.Wire

/-! The STUN messages of v3-nat: the binding request, and the parser of the answer to it. A read
of the parser outside the packet is `none`. -/
namespace Todero.Stun
open Attributes Wire
open Ice (IpAddr)

structure SocketAddr where
  ip : IpAddr
  port : UInt16
  deriving DecidableEq, Repr

inductive NatError where
  | invalidStunPacket
  | unsupportedStunFamily
  deriving DecidableEq, Repr

abbrev TxId := Vector UInt8 12

def stunMagicCookie : UInt32 := 0x2112A442

/-- `u32::to_be_bytes`. -/
def toBeBytes (n : UInt32) : Vector UInt8 4 :=
  #v[(n >>> 24).toUInt8, (n >>> 16).toUInt8, (n >>> 8).toUInt8, n.toUInt8]

def u16FromBeBytes (a b : UInt8) : UInt16 := UInt16.ofNat (BigEndian.read [a, b])

def u32FromBeBytes (a b c d : UInt8) : UInt32 := UInt32.ofNat (BigEndian.read [a, b, c, d])

/-- `Ipv4Addr::new`. -/
def ipv4Addr (a b c d : UInt8) : IpAddr := .v4 (u32FromBeBytes a b c d)

/-- `copy_from_slice` of a part of the packet to an array. -/
def copyFromSlice (n : Nat) (slice : Bytes) : Option (Vector UInt8 n) :=
  if h : slice.toArray.size = n then some ⟨slice.toArray, h⟩ else none

def stunBuildBindingRequest (txId : TxId) : Bytes :=
  [0x00, 0x01, 0x00, 0x00] ++ (toBeBytes stunMagicCookie).toList ++ txId.toList

/-- The arm of the loop for an XOR-MAPPED-ADDRESS, whose value begins at `pos`. -/
def parseMapped (packet : Bytes) (txId : TxId) (attrLen : UInt16) (pos : Nat) :
    Option (Except NatError (SocketAddr × TxId)) := do
  if attrLen < 8 then
    return .error .invalidStunPacket
  let family ← packet[pos + 1]?
  if family ≠ 0x01 then
    return .error .unsupportedStunFamily
  let xPort := u16FromBeBytes (← packet[pos + 2]?) (← packet[pos + 3]?)
  let port := xPort ^^^ (stunMagicCookie >>> 16).toUInt16
  let cookieBytes := toBeBytes stunMagicCookie
  let ip := ipv4Addr ((← packet[pos + 4]?) ^^^ cookieBytes[0])
    ((← packet[pos + 5]?) ^^^ cookieBytes[1]) ((← packet[pos + 6]?) ^^^ cookieBytes[2])
    ((← packet[pos + 7]?) ^^^ cookieBytes[3])
  return .ok (⟨ip, port⟩, txId)

/-- The loop over the attributes, for at most the given number of turns, from a place in the
packet on. -/
def parseAttributes (packet : Bytes) (txId : TxId) :
    Nat → Nat → Option (Except NatError (SocketAddr × TxId))
  | 0, _ => none
  | turns + 1, pos =>
    if pos + 4 ≤ packet.length then do
      let attrType := u16FromBeBytes (← packet[pos]?) (← packet[pos + 1]?)
      let attrLen := u16FromBeBytes (← packet[pos + 2]?) (← packet[pos + 3]?)
      let pos := pos + 4
      if pos + attrLen.toNat > packet.length then
        return .error .invalidStunPacket
      if attrType = 0x0020 then
        parseMapped packet txId attrLen pos
      else
        -- `(attr_len + 3) & !3` on a `usize`
        let padded := (attrLen.toUInt64 + 3) &&& ~~~3
        parseAttributes packet txId turns (pos + padded.toNat)
    else
      some (.error .invalidStunPacket)

/-- Each turn of the loop takes at least four bytes, so it makes fewer than the packet has. -/
def stunParseBindingSuccess (packet : Bytes) : Option (Except NatError (SocketAddr × TxId)) := do
  if packet.length < 20 then
    return .error .invalidStunPacket
  if (← packet[0]?) ≠ 0x01 ∨ (← packet[1]?) ≠ 0x01 then
    return .error .invalidStunPacket
  let len := u16FromBeBytes (← packet[2]?) (← packet[3]?)
  if packet.length < 20 + len.toNat then
    return .error .invalidStunPacket
  let cookie := u32FromBeBytes (← packet[4]?) (← packet[5]?) (← packet[6]?) (← packet[7]?)
  if cookie ≠ stunMagicCookie then
    return .error .invalidStunPacket
  let txId ← copyFromSlice 12 ((packet.drop 8).take 12)
  parseAttributes packet txId packet.length 20

/-! ### What the parser computes -/

/-- The address in the value of an XOR-MAPPED-ADDRESS. -/
def mappedAddress : Bytes → Except NatError SocketAddr
  | _ :: family :: p₁ :: p₂ :: a :: b :: c :: d :: _ =>
    if family ≠ 0x01 then .error .unsupportedStunFamily
    else .ok ⟨ipv4Addr (a ^^^ 0x21) (b ^^^ 0x12) (c ^^^ 0xA4) (d ^^^ 0x42),
      u16FromBeBytes p₁ p₂ ^^^ 0x2112⟩
  | _ => .error .invalidStunPacket

/-- The first XOR-MAPPED-ADDRESS of the attributes decides. -/
def answer (txId : TxId) (attributes : Bytes) : Except NatError (SocketAddr × TxId) :=
  match find 4 0x0020 attributes with
  | none => .error .invalidStunPacket
  | some (_, value) => (mappedAddress value).map fun addr => (addr, txId)

theorem mappedAddress_short {value : Bytes} (h : value.length < 8) :
    mappedAddress value = .error .invalidStunPacket := by
  unfold mappedAddress
  split
  · simp at h
    omega
  · rfl

theorem and_mask {n : Nat} (h : n < 2 ^ 64) : n &&& 2 ^ 2 * (2 ^ 62 - 1) = n / 4 * 4 := by
  rw [Nat.mul_comm (n / 4)]
  refine Nat.eq_of_testBit_eq fun i => ?_
  rw [Nat.testBit_and, Nat.testBit_two_pow_mul, Nat.testBit_two_pow_sub_one,
    show 4 = 2 ^ 2 from rfl, Nat.testBit_two_pow_mul, Nat.testBit_div_two_pow]
  by_cases hi : 2 ≤ i
  · rw [Nat.sub_add_cancel hi]
    by_cases hlt : i < 64
    · simp [hi]
      omega
    · have hhigh : n.testBit i = false :=
        Nat.testBit_lt_two_pow (h.trans_le (Nat.pow_le_pow_right (by decide) (not_lt.mp hlt)))
      simp [hhigh]
  · simp [hi]

theorem padded_toNat (n : UInt16) :
    ((n.toUInt64 + 3) &&& ~~~3).toNat = padTo 4 n.toNat := by
  have hn := n.toNat_lt
  have hsum : (n.toUInt64 + 3).toNat = n.toNat + 3 := by
    rw [UInt64.toNat_add]
    simp
    omega
  have hmask : (~~~3 : UInt64).toNat = 2 ^ 2 * (2 ^ 62 - 1) := by decide
  rw [UInt64.toNat_and, hsum, hmask, and_mask (by omega), padTo]

theorem u16_toNat (a b : UInt8) : (u16FromBeBytes a b).toNat = BigEndian.read [a, b] :=
  UInt16.toNat_ofNat_of_lt' (read_two_lt a b)

theorem getElem?_of_drop {l m : Bytes} {pos : Nat} (h : l.drop pos = m) (i : Nat) :
    l[pos + i]? = m[i]? := by
  rw [← h, List.getElem?_drop]

theorem exists_eight {l : Bytes} (h : 8 ≤ l.length) :
    ∃ b₀ b₁ b₂ b₃ b₄ b₅ b₆ b₇ l',
      l = b₀ :: b₁ :: b₂ :: b₃ :: b₄ :: b₅ :: b₆ :: b₇ :: l' := by
  refine ⟨l[0], l[1], l[2], l[3], l[4], l[5], l[6], l[7], l.drop 8, ?_⟩
  simp only [List.getElem_cons_drop, List.drop_zero]

theorem parseMapped_eq {packet body : Bytes} {txId : TxId} {attrLen : UInt16} {pos : Nat}
    (hbody : packet.drop pos = body) (hlen : attrLen.toNat ≤ body.length) :
    parseMapped packet txId attrLen pos =
      some ((mappedAddress (body.take attrLen.toNat)).map fun addr => (addr, txId)) := by
  unfold parseMapped
  by_cases hshort : attrLen < 8
  · have hvalue : (body.take attrLen.toNat).length < 8 := by
      rw [List.length_take_of_le hlen]
      exact UInt16.lt_iff_toNat_lt.mp hshort
    rw [if_pos hshort, mappedAddress_short hvalue]
    rfl
  · have hlong : 8 ≤ attrLen.toNat := UInt16.le_iff_toNat_le.mp (UInt16.not_lt.mp hshort)
    obtain ⟨k, hk⟩ := Nat.exists_eq_add_of_le' hlong
    obtain ⟨b₀, b₁, b₂, b₃, b₄, b₅, b₆, b₇, l, rfl⟩ := exists_eight (hlong.trans hlen)
    have hread := getElem?_of_drop hbody
    rw [if_neg hshort, hk, hread 1, hread 2, hread 3, hread 4, hread 5, hread 6, hread 7]
    simp only [List.take_succ_cons, mappedAddress]
    show (if b₁ ≠ 1 then _ else _) = _
    split_ifs <;> rfl

/-- One turn looks at the attribute that stands at its place. -/
theorem parseAttributes_turn (packet : Bytes) (txId : TxId) (turns pos : Nat) :
    parseAttributes packet txId (turns + 1) pos =
      match first 4 (packet.drop pos) with
      | none => some (.error .invalidStunPacket)
      | some (typ, value, _) =>
        if typ = 0x0020 then some ((mappedAddress value).map fun addr => (addr, txId))
        else parseAttributes packet txId turns (pos + 4 + padTo 4 value.length) := by
  rw [parseAttributes]
  split_ifs with hpos
  · obtain ⟨a, b, c, d, hdrop⟩ : ∃ a b c d, packet.drop pos = a :: b :: c :: d ::
        packet.drop (pos + 4) := by
      refine ⟨packet[pos], packet[pos + 1], packet[pos + 2], packet[pos + 3], ?_⟩
      simp only [List.getElem_cons_drop]
    have ha : packet[pos]? = some a := getElem?_of_drop hdrop 0
    have hb : packet[pos + 1]? = some b := getElem?_of_drop hdrop 1
    have hc : packet[pos + 2]? = some c := getElem?_of_drop hdrop 2
    have hd : packet[pos + 3]? = some d := getElem?_of_drop hdrop 3
    simp only [hdrop, ha, hb, hc, hd, Option.bind_eq_bind, Option.bind_some, first, padded_toNat,
      ← u16_toNat]
    have hbody : (packet.drop (pos + 4)).length + (pos + 4) = packet.length := by
      rw [List.length_drop]
      omega
    by_cases hlong : (packet.drop (pos + 4)).length < (u16FromBeBytes c d).toNat
    · rw [if_pos (by omega), if_pos hlong]
      rfl
    · rw [if_neg (by omega), if_neg hlong, parseMapped_eq rfl (not_lt.mp hlong)]
      simp only [List.length_take_of_le (not_lt.mp hlong), UInt16.ofNat_toNat]
  · have hshort : (packet.drop pos).length < 4 := by
      rw [List.length_drop]
      omega
    rw [first_short hshort]

/-- What the loop finds from a place on is what stands there. -/
theorem parseAttributes_eq {packet : Bytes} (txId : TxId) {turns pos : Nat} (hturns : 0 < turns)
    (h : packet.length < pos + turns) :
    parseAttributes packet txId turns pos = some (answer txId (packet.drop pos)) := by
  induction turns generalizing pos with
  | zero => cases hturns
  | succ turns ih =>
    rw [parseAttributes_turn, answer]
    cases hfirst : first 4 (packet.drop pos) with
    | none => rw [find_of_none hfirst]
    | some x =>
      obtain ⟨typ, value, rest⟩ := x
      obtain ⟨-, tail, hdrop, -⟩ := first_eq_some.mp hfirst
      rw [find_of_first hfirst]
      dsimp only
      split_ifs with htyp
      · rfl
      · have hlen := congrArg List.length hdrop
        simp only [List.length_drop, List.length_append, header_length] at hlen
        have hnext : rest = packet.drop (pos + 4 + padTo 4 value.length) := by
          rw [first_rest hfirst, List.drop_drop, Nat.add_assoc]
        rw [ih (by omega) (by omega), answer, ← hnext]
        cases find 4 0x0020 rest <;> rfl

/-- The first twenty bytes are those of a binding success whose declared length the packet
has. -/
def declared (packet : Bytes) : Nat := BigEndian.read ((packet.drop 2).take 2)

def HeaderOk (packet : Bytes) : Prop :=
  20 ≤ packet.length ∧ packet.take 2 = [0x01, 0x01] ∧ 20 + declared packet ≤ packet.length ∧
    (packet.drop 4).take 4 = (toBeBytes stunMagicCookie).toList

instance (packet : Bytes) : Decidable (HeaderOk packet) := inferInstanceAs (Decidable (_ ∧ _))

theorem u32_eq_iff (a b c d : UInt8) (n : UInt32) :
    u32FromBeBytes a b c d = n ↔ [a, b, c, d] = BigEndian.write 4 n.toNat := by
  have hlt : BigEndian.read [a, b, c, d] < 4294967296 := by
    have hlt := BigEndian.read_lt [a, b, c, d]
    simpa using hlt
  constructor
  · rintro rfl
    rw [u32FromBeBytes, UInt32.toNat_ofNat_of_lt' hlt]
    exact (BigEndian.write_read [a, b, c, d]).symm
  · intro h
    rw [u32FromBeBytes, h, BigEndian.read_write]
    simp

theorem copyFromSlice_eq {n : Nat} {slice : Bytes} (h : slice.length = n) :
    ∃ v : Vector UInt8 n, v.toList = slice ∧ copyFromSlice n slice = some v := by
  refine ⟨⟨slice.toArray, h⟩, rfl, ?_⟩
  rw [copyFromSlice, dif_pos]

theorem headerOk_cons {b₀ b₁ b₂ b₃ b₄ b₅ b₆ b₇ : UInt8} {l packet : Bytes}
    (hpacket : packet = b₀ :: b₁ :: b₂ :: b₃ :: b₄ :: b₅ :: b₆ :: b₇ :: l)
    (hlen : 20 ≤ packet.length) :
    HeaderOk packet ↔
      ¬ (¬ b₀ = 1 ∨ ¬ b₁ = 1) ∧ ¬ packet.length < 20 + BigEndian.read [b₂, b₃] ∧
        ¬ ¬ [b₄, b₅, b₆, b₇] = BigEndian.write 4 stunMagicCookie.toNat := by
  have hcookie : (toBeBytes stunMagicCookie).toList =
      BigEndian.write 4 stunMagicCookie.toNat := by decide
  have hkind : packet.take 2 = [1, 1] ↔ b₀ = 1 ∧ b₁ = 1 := by simp [hpacket]
  have hdeclared : declared packet = BigEndian.read [b₂, b₃] := by
    rw [hpacket]
    rfl
  have hfour : (packet.drop 4).take 4 = [b₄, b₅, b₆, b₇] := by
    rw [hpacket]
    rfl
  unfold HeaderOk
  rw [and_iff_right hlen, hkind, hdeclared, hfour, hcookie, not_or, not_not, not_not, not_not,
    not_lt]

/-- Whatever the packet is, the parser comes to a result, and reads nothing outside it. -/
theorem parse_eq (packet : Bytes) :
    (¬ HeaderOk packet ∧ stunParseBindingSuccess packet = some (.error .invalidStunPacket)) ∨
      HeaderOk packet ∧ ∃ txId : TxId, txId.toList = (packet.drop 8).take 12 ∧
        stunParseBindingSuccess packet = some (answer txId (packet.drop 20)) := by
  unfold stunParseBindingSuccess
  by_cases hlen : packet.length < 20
  · rw [if_pos hlen]
    exact .inl ⟨fun hok => absurd hlen (not_lt.mpr hok.1), rfl⟩
  · have hlen' : 20 ≤ packet.length := not_lt.mp hlen
    have hslice : ((packet.drop 8).take 12).length = 12 := by
      rw [List.length_take, List.length_drop]
      omega
    obtain ⟨txId, htxId, hcopy⟩ := copyFromSlice_eq hslice
    have hloop : parseAttributes packet txId packet.length 20 =
        some (answer txId (packet.drop 20)) := parseAttributes_eq txId (by omega) (by omega)
    obtain ⟨b₀, b₁, b₂, b₃, b₄, b₅, b₆, b₇, l, hpacket⟩ :=
      exists_eight (le_trans (by decide) hlen')
    have hread : ∀ i : Nat, packet[i]? =
        (b₀ :: b₁ :: b₂ :: b₃ :: b₄ :: b₅ :: b₆ :: b₇ :: l)[i]? := fun i => by rw [hpacket]
    rw [if_neg hlen, headerOk_cons hpacket hlen']
    simp only [hread, List.getElem?_cons_zero, List.getElem?_cons_succ, Option.bind_eq_bind,
      Option.bind_some, u16_toNat, u32_eq_iff, ne_eq, hcopy, hloop]
    by_cases hkind : ¬ b₀ = 1 ∨ ¬ b₁ = 1
    · rw [if_pos hkind]
      exact .inl ⟨fun h => h.1 hkind, rfl⟩
    · rw [if_neg hkind]
      by_cases hshort : packet.length < 20 + BigEndian.read [b₂, b₃]
      · rw [if_pos hshort]
        exact .inl ⟨fun h => h.2.1 hshort, rfl⟩
      · rw [if_neg hshort]
        by_cases hcookie : ¬ [b₄, b₅, b₆, b₇] = BigEndian.write 4 stunMagicCookie.toNat
        · rw [if_pos hcookie]
          exact .inl ⟨fun h => h.2.2 hcookie, rfl⟩
        · rw [if_neg hcookie]
          exact .inr ⟨⟨hkind, hshort, hcookie⟩, txId, htxId, rfl⟩

theorem request_refused (txId : TxId) :
    stunParseBindingSuccess (stunBuildBindingRequest txId) = some (.error .invalidStunPacket) := by
  obtain ⟨-, hparse⟩ | ⟨hok, -⟩ := parse_eq (stunBuildBindingRequest txId)
  · exact hparse
  · have hkind : [0x00, 0x01] = [0x01, (0x01 : UInt8)] := hok.2.1
    exact absurd hkind (by decide)

/-! ### A response and its address -/

/-- The address of a peer as its server encodes it. -/
def xorMappedAddress (ip : UInt32) (port : UInt16) : Attribute 4 where
  typ := 0x0020
  value := [0x00, 0x01] ++ BigEndian.write 2 (port ^^^ 0x2112).toNat ++
    (BigEndian.write 4 ip.toNat).zipWith (· ^^^ ·) (toBeBytes stunMagicCookie).toList
  padding := []
  short := by simp
  padded := by simp [padTo]

def successResponse (txId : TxId) (attributes : List (Attribute 4)) : Bytes :=
  [0x01, 0x01] ++ BigEndian.write 2 (encodeAll attributes).length ++
    (toBeBytes stunMagicCookie).toList ++ txId.toList ++ encodeAll attributes

theorem mappedAddress_xor (ip : UInt32) (port : UInt16) :
    mappedAddress (xorMappedAddress ip port).value = .ok ⟨.v4 ip, port⟩ := by
  obtain ⟨a, b, c, d, hip⟩ : ∃ a b c d, BigEndian.write 4 ip.toNat = [a, b, c, d] :=
    ⟨_, _, _, _, rfl⟩
  obtain ⟨p, q, hport⟩ : ∃ p q, BigEndian.write 2 (port ^^^ 0x2112).toNat = [p, q] :=
    ⟨_, _, rfl⟩
  have hcookie : (toBeBytes stunMagicCookie).toList = [0x21, 0x12, 0xA4, 0x42] := by decide
  have hvalue : (xorMappedAddress ip port).value =
      [0x00, 0x01, p, q, a ^^^ 0x21, b ^^^ 0x12, c ^^^ 0xA4, d ^^^ 0x42] := by
    show [0x00, 0x01] ++ BigEndian.write 2 (port ^^^ 0x2112).toNat ++
      (BigEndian.write 4 ip.toNat).zipWith (· ^^^ ·) (toBeBytes stunMagicCookie).toList = _
    rw [hip, hport, hcookie]
    rfl
  have haddr : u32FromBeBytes a b c d = ip := (u32_eq_iff a b c d ip).mpr hip.symm
  have hxor : u16FromBeBytes p q = port ^^^ 0x2112 := by
    rw [← UInt16.toNat_inj, u16_toNat, ← hport, read_write_two (UInt16.toNat_lt _)]
  rw [hvalue, mappedAddress, if_neg (by decide), hxor]
  simp only [ipv4Addr, UInt8.xor_assoc, UInt8.xor_self, UInt8.xor_zero, UInt16.xor_assoc,
    UInt16.xor_self, UInt16.xor_zero, haddr]

theorem successResponse_ok (txId : TxId) (attributes : List (Attribute 4))
    (h : (encodeAll attributes).length < 65536) :
    HeaderOk (successResponse txId attributes) ∧
      ((successResponse txId attributes).drop 8).take 12 = txId.toList ∧
        (successResponse txId attributes).drop 20 = encodeAll attributes := by
  have hdeclared := read_write_two h
  obtain ⟨n₁, n₂, hwrite⟩ : ∃ n₁ n₂, BigEndian.write 2 (encodeAll attributes).length = [n₁, n₂] :=
    ⟨_, _, rfl⟩
  have hcookie : (toBeBytes stunMagicCookie).toList = [0x21, 0x12, 0xA4, 0x42] := by decide
  have hid : txId.toList.length = 12 := txId.length_toList
  have hbytes : successResponse txId attributes =
      [0x01, 0x01, n₁, n₂, 0x21, 0x12, 0xA4, 0x42] ++ (txId.toList ++ encodeAll attributes) := by
    rw [successResponse, hwrite, hcookie, List.append_assoc]
    rfl
  rw [hwrite] at hdeclared
  have hlen : (successResponse txId attributes).length = 20 + (encodeAll attributes).length := by
    rw [hbytes, List.length_append, List.length_append, hid]
    simp
    omega
  have hafter : (successResponse txId attributes).drop 8 = txId.toList ++ encodeAll attributes := by
    rw [hbytes]
    rfl
  refine ⟨⟨by omega, ?_, ?_, ?_⟩, ?_, ?_⟩
  · rw [hbytes]
    rfl
  · have hn : declared (successResponse txId attributes) = (encodeAll attributes).length := by
      rw [hbytes]
      exact hdeclared
    rw [hn, hlen]
  · rw [hbytes, hcookie]
    rfl
  · rw [hafter, List.take_left' hid]
  · rw [show 20 = 8 + 12 from rfl, ← List.drop_drop, hafter, List.drop_left' hid]

/-- The address of a well-formed response comes through all other attributes, and every packet
gets an answer. -/
theorem stun_parse_correct :
    (∀ (ip : UInt32) (port : UInt16) (txId : TxId) (others : List (Attribute 4)),
        (∀ a ∈ others, a.typ ≠ 0x0020) →
        (encodeAll (others ++ [xorMappedAddress ip port])).length < 65536 →
          stunParseBindingSuccess (successResponse txId (others ++ [xorMappedAddress ip port])) =
            some (.ok (⟨.v4 ip, port⟩, txId))) ∧
      ∀ packet, ∃ result, stunParseBindingSuccess packet = some result := by
  constructor
  · intro ip port txId others hothers hshort
    obtain ⟨hok, htxId, hattributes⟩ := successResponse_ok txId _ hshort
    obtain ⟨hnot, -⟩ | ⟨-, txId', htxId', hparse⟩ :=
      parse_eq (successResponse txId (others ++ [xorMappedAddress ip port]))
    · exact absurd hok hnot
    · obtain rfl : txId' = txId := Vector.toList_inj.mp (htxId'.trans htxId)
      have hfind : find 4 0x0020 (encodeAll (others ++ [xorMappedAddress ip port])) =
          some ((encodeAll others).length, (xorMappedAddress ip port).value) := by
        refine find_eq_some.mpr ⟨(xorMappedAddress ip port).short, others, [], hothers, rfl, ?_⟩
        simp [encodeAll, Attribute.encode, xorMappedAddress]
      rw [hparse, hattributes, answer, hfind]
      dsimp only
      rw [mappedAddress_xor]
      rfl
  · intro packet
    obtain ⟨-, hparse⟩ | ⟨-, txId, -, hparse⟩ := parse_eq packet
    · exact ⟨_, hparse⟩
    · exact ⟨_, hparse⟩

/-- A SOFTWARE attribute of three bytes before the address 1.2.3.4:3478. -/
theorem stun_parse_correct_software :
    stunParseBindingSuccess (successResponse (Vector.replicate 12 7)
        ([⟨0x8022, [0x61, 0x62, 0x63], [0x00], by decide, by decide⟩] ++
          [xorMappedAddress 0x01020304 3478])) =
      some (.ok (⟨.v4 0x01020304, 3478⟩, Vector.replicate 12 7)) :=
  stun_parse_correct.1 0x01020304 3478 _ _ (by simp) (by simp [encodeAll, padTo, xorMappedAddress])

/-! ### What follows the declared message -/

/-- Every XOR-MAPPED-ADDRESS that the other attributes lead to ends within the first `n` bytes,
unless it is too short to be one. -/
def Contained (attributes : Bytes) (n : Nat) : Prop :=
  ∀ (others : List (Attribute 4)) (value rest : Bytes),
    (∀ a ∈ others, a.typ ≠ 0x0020) → 8 ≤ value.length → value.length < 65536 →
      attributes = encodeAll others ++ (header 0x0020 value.length ++ (value ++ rest)) →
        (encodeAll others).length + 4 + value.length ≤ n

theorem answer_none {txId : TxId} {l : Bytes} (h : find 4 0x0020 l = none) :
    answer txId l = .error .invalidStunPacket := by
  rw [answer, h]

theorem answer_some {txId : TxId} {l value : Bytes} {k : Nat}
    (h : find 4 0x0020 l = some (k, value)) :
    answer txId l = .error .invalidStunPacket ↔ value.length < 8 := by
  rw [answer, h]
  dsimp only
  constructor
  · intro herr
    by_contra hlong
    obtain ⟨b₀, b₁, b₂, b₃, b₄, b₅, b₆, b₇, l', rfl⟩ := exists_eight (not_lt.mp hlong)
    rw [mappedAddress] at herr
    split_ifs at herr
    · cases herr
    · cases herr
  · intro hshort
    rw [mappedAddress_short hshort]
    rfl

theorem answer_take_iff (txId : TxId) (l : Bytes) (n : Nat) :
    answer txId l = answer txId (l.take n) ↔ Contained l n := by
  have hmore : ∀ {k v}, find 4 0x0020 (l.take n) = some (k, v) → find 4 0x0020 l = some (k, v) := by
    intro k v hpart
    have hwhole := find_append hpart (l.drop n)
    rwa [List.take_append_drop] at hwhole
  constructor
  · intro heq others value rest hothers hlong hshort hsplit
    have hfind := find_eq_some.mpr ⟨hshort, others, rest, hothers, rfl, hsplit⟩
    have hne : answer txId (l.take n) ≠ .error .invalidStunPacket := by
      rw [← heq, Ne, answer_some hfind]
      exact not_lt.mpr hlong
    cases hpart : find 4 0x0020 (l.take n) with
    | none => exact absurd (answer_none hpart) hne
    | some x =>
      obtain ⟨k, v⟩ := x
      obtain ⟨rfl, rfl⟩ := Prod.mk.inj (Option.some.inj (hfind.symm.trans (hmore hpart)))
      obtain ⟨-, others', rest', -, hk, htake⟩ := find_eq_some.mp hpart
      have hlen := congrArg List.length htake
      simp only [List.length_take, List.length_append, header_length] at hlen
      omega
  · intro hcontained
    cases hwhole : find 4 0x0020 l with
    | none =>
      cases hpart : find 4 0x0020 (l.take n) with
      | none => rw [answer_none hwhole, answer_none hpart]
      | some x =>
        rw [hmore hpart] at hwhole
        cases hwhole
    | some x =>
      obtain ⟨k, v⟩ := x
      by_cases hlong : 8 ≤ v.length
      · obtain ⟨hshort, others, rest, hothers, rfl, hsplit⟩ := find_eq_some.mp hwhole
        have hpart := find_take hwhole (hcontained others v rest hothers hlong hshort hsplit)
        rw [answer, answer, hwhole, hpart]
      · rw [(answer_some hwhole).mpr (not_le.mp hlong)]
        cases hpart : find 4 0x0020 (l.take n) with
        | none => exact (answer_none hpart).symm
        | some y =>
          obtain ⟨k', v'⟩ := y
          obtain ⟨rfl, rfl⟩ := Prod.mk.inj (Option.some.inj (hwhole.symm.trans (hmore hpart)))
          exact ((answer_some hpart).mpr (not_le.mp hlong)).symm

theorem headerOk_take {packet : Bytes} (h : 20 + declared packet ≤ packet.length) :
    declared (packet.take (20 + declared packet)) = declared packet ∧
      (HeaderOk (packet.take (20 + declared packet)) ↔ HeaderOk packet) := by
  have hlen : (packet.take (20 + declared packet)).length = 20 + declared packet :=
    List.length_take_of_le h
  have hsame : declared (packet.take (20 + declared packet)) = declared packet := by
    unfold declared
    rw [List.drop_take, List.take_take, min_eq_left (by omega)]
  refine ⟨hsame, ?_⟩
  unfold HeaderOk
  rw [hsame, hlen, List.take_take, List.drop_take, List.take_take, min_eq_left (by omega),
    min_eq_left (by omega)]
  constructor
  · rintro ⟨-, hkind, -, hcookie⟩
    exact ⟨by omega, hkind, h, hcookie⟩
  · rintro ⟨-, hkind, -, hcookie⟩
    exact ⟨by omega, hkind, le_rfl, hcookie⟩

/-- What follows the declared message has no influence on the result exactly if the address is
in that message. -/
theorem trailing_ignored_iff (packet : Bytes) (h : 20 + declared packet ≤ packet.length) :
    stunParseBindingSuccess packet =
        stunParseBindingSuccess (packet.take (20 + declared packet)) ↔
      (HeaderOk packet → Contained (packet.drop 20) (declared packet)) := by
  obtain ⟨-, hok⟩ := headerOk_take h
  obtain ⟨hnot, hwhole⟩ | ⟨hyes, txId, htxId, hwhole⟩ := parse_eq packet
  · obtain ⟨-, hpart⟩ | ⟨hyes, -⟩ := parse_eq (packet.take (20 + declared packet))
    · rw [hwhole, hpart]
      exact iff_of_true rfl fun hyes => absurd hyes hnot
    · exact absurd (hok.mp hyes) hnot
  · obtain ⟨hnot, -⟩ | ⟨-, txId', htxId', hpart⟩ := parse_eq (packet.take (20 + declared packet))
    · exact absurd (hok.mpr hyes) hnot
    · have hid : txId' = txId := by
        refine Vector.toList_inj.mp ?_
        rw [htxId, htxId', List.drop_take, List.take_take, min_eq_left (by omega)]
      have hdrop : (packet.take (20 + declared packet)).drop 20 =
          (packet.drop 20).take (declared packet) := by
        rw [List.drop_take, Nat.add_sub_cancel_left]
      rw [hwhole, hpart, hid, hdrop, Option.some.injEq, answer_take_iff]
      exact (imp_iff_right hyes).symm

/-- A response, and an address after it. -/
def trailed (attributes : List (Attribute 4)) : Bytes :=
  successResponse (Vector.replicate 12 7) attributes ++ (xorMappedAddress 0x01020304 3478).encode

/-- The response has an address of its own. -/
theorem trailed_ignored :
    stunParseBindingSuccess (trailed [xorMappedAddress 0x05060708 9]) =
        stunParseBindingSuccess ((trailed [xorMappedAddress 0x05060708 9]).take
          (20 + declared (trailed [xorMappedAddress 0x05060708 9]))) ↔
      (HeaderOk (trailed [xorMappedAddress 0x05060708 9]) →
        Contained ((trailed [xorMappedAddress 0x05060708 9]).drop 20)
          (declared (trailed [xorMappedAddress 0x05060708 9]))) :=
  trailing_ignored_iff _ (by decide +kernel)

/-- The declared message is empty, and the address after it is returned. -/
theorem trailed_mapped :
    ¬ ∀ packet, 20 + declared packet ≤ packet.length →
      stunParseBindingSuccess packet =
        stunParseBindingSuccess (packet.take (20 + declared packet)) := by
  intro hclaim
  have hsame := hclaim (trailed []) (by decide +kernel)
  have hwhole : (stunParseBindingSuccess (trailed [])).any Except.isOk = true := by
    decide +kernel
  have hpart : (stunParseBindingSuccess ((trailed []).take
      (20 + declared (trailed [])))).any Except.isOk = false := by decide +kernel
  rw [hsame, hpart] at hwhole
  cases hwhole

end Todero.Stun
