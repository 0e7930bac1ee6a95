import CourseNet.NetworkInterface

/-!
# Which byte strings `IPv4Datagram::parse` accepts

The result of the header's `parse` is dropped, and a byte string of at least twenty bytes never runs
the parser out of bytes.  What is left is the comparison of sizes: the bytes behind the header
against the 16-bit payload length.  It always succeeds when the header's fields agree with each
other, whatever the checksum; when they disagree, the bytes behind the first twenty are compared.
-/

namespace CourseNet

namespace IPv4Datagram

/-! ### The fields of a byte string -/

def versionField (b : Bytes) : ℕ := (b.getD 0 0).toNat / 16

def headerLengthField (b : Bytes) : ℕ := (b.getD 0 0).toNat % 16

def totalLengthField (b : Bytes) : ℕ := BigEndian.toNat ((b.drop 2).take 2)

/-- The Internet checksum over the bytes that the header length announces verifies. -/
def ChecksumVerifies (b : Bytes) : Prop :=
  ((InternetChecksum.new 0).add (b.take (4 * headerLengthField b))).value = 0

/-- Every check of the header's `parse` but the last one succeeds. -/
def FieldsAgree (b : Bytes) : Prop :=
  4 * headerLengthField b ≤ b.length ∧ versionField b = 4 ∧ 5 ≤ headerLengthField b ∧
    totalLengthField b = b.length

/-- A well-formed IPv4 datagram. -/
def WellFormed (b : Bytes) : Prop := 20 ≤ b.length ∧ FieldsAgree b ∧ ChecksumVerifies b

/-- The payload length that the two length fields announce, in 16 bits. -/
def announcedPayload (b : Bytes) : ℕ :=
  (totalLengthField b + 2 ^ 16 - 4 * headerLengthField b) % 2 ^ 16

/-- A flaw that goes unnoticed: only the checksum is wrong, or the fields disagree but the bytes
behind the first twenty are as many as the payload length announces. -/
def Unnoticed (b : Bytes) : Prop :=
  20 ≤ b.length ∧
    ((FieldsAgree b ∧ ¬ChecksumVerifies b) ∨
      (¬FieldsAgree b ∧ b.length - 20 = announcedPayload b))

instance : DecidablePred ChecksumVerifies := fun _ => inferInstanceAs (Decidable (_ = _))

instance : DecidablePred FieldsAgree := fun _ => inferInstanceAs (Decidable (_ ∧ _))

instance : DecidablePred WellFormed := fun _ => inferInstanceAs (Decidable (_ ∧ _))

instance : DecidablePred Unnoticed := fun _ => inferInstanceAs (Decidable (_ ∧ _))

/-! ### What the parser reads -/

variable {b : Bytes}

/-- The fields that decide what happens next. -/
theorem readFields_spec (h : 20 ≤ b.length) :
    ∃ header, IPv4Header.readFields ⟨b, .noError⟩ = (header, ⟨b.drop 20, .noError⟩) ∧
      header.ver.toNat = versionField b ∧ header.hlen.toNat = headerLengthField b ∧
      header.len.toNat = totalLengthField b := by
  have hlen : (UInt16.ofNat (BigEndian.toNat ((b.drop 2).take 2))).toNat = totalLengthField b := by
    have hlt := BigEndian.toNat_lt ((b.drop 2).take 2)
    rw [show ((b.drop 2).take 2).length = 2 from by simp; omega] at hlt
    rw [UInt16.toNat_ofNat']
    exact Nat.mod_eq_of_lt hlt
  have hfirst : (b.getD 0 0 >>> 4).toNat = versionField b := by
    rw [UInt8.toNat_shiftRight, Nat.shiftRight_eq_div_pow]
    rfl
  have hsecond : (b.getD 0 0 &&& 0x0f).toNat = headerLengthField b := by
    rw [UInt8.toNat_and]
    exact Nat.and_two_pow_sub_one_eq_mod _ 4
  rw [← List.drop_zero (l := b), IPv4Header.readFields]
  simp (disch := omega) only [NetParser.u8_drop, NetParser.u16_drop, NetParser.u32_drop]
  exact ⟨_, rfl, hfirst, hsecond, hlen⟩

/-- The payload length that the header's fields announce. -/
theorem payloadLength_toNat {header : IPv4Header} (hhlen : header.hlen.toNat = headerLengthField b)
    (hlen : header.len.toNat = totalLengthField b) :
    header.payloadLength.toNat = announcedPayload b := by
  rw [IPv4Header.payloadLength, UInt16.toNat_ofNat', hhlen, hlen, announcedPayload]

/-- The header parser's last two states: behind the whole header if the fields agree, behind the
first twenty bytes if not. -/
theorem header_parse_spec (h : 20 ≤ b.length) :
    ∃ header, header.ver.toNat = versionField b ∧ header.hlen.toNat = headerLengthField b ∧
      header.len.toNat = totalLengthField b ∧
      ∃ result, ({} : IPv4Header).parse ⟨b, .noError⟩ =
        (header, ⟨b.drop (if FieldsAgree b then 4 * headerLengthField b else 20), .noError⟩,
          result) := by
  obtain ⟨header, hfields, hver, hhlen, hlen⟩ := readFields_spec h
  refine ⟨header, hver, hhlen, hlen, ?_⟩
  have hver' : header.ver = 4 ↔ versionField b = 4 := by
    rw [← hver, ← UInt8.toNat_inj]
    rfl
  have hhlen' : header.hlen < 5 ↔ headerLengthField b < 5 := by
    rw [← hhlen, UInt8.lt_iff_toNat_lt]
    rfl
  unfold IPv4Header.parse IPv4Header.length
  simp only [if_neg (not_lt.mpr h), hfields, hhlen, hlen, hhlen']
  by_cases hagree : FieldsAgree b
  · rw [if_pos hagree]
    obtain ⟨hshort, hversion, hmin, htotal⟩ := hagree
    rw [if_neg (not_lt.mpr hshort), if_neg (not_not.mpr (hver'.mpr hversion)),
      if_neg (not_lt.mpr hmin), if_neg (not_not.mpr htotal.symm),
      NetParser.removePrefix_eq (by rw [List.length_drop]; omega), List.drop_drop,
      show 20 + (headerLengthField b * 4 - 20) = 4 * headerLengthField b from by omega]
    simp only [ne_eq, not_true_eq_false, if_false]
    split <;> exact ⟨_, rfl⟩
  · rw [if_neg hagree]
    by_cases hshort : b.length < 4 * headerLengthField b
    · exact ⟨_, if_pos hshort⟩
    · rw [if_neg hshort]
      by_cases hversion : header.ver = 4
      · rw [if_neg (not_not.mpr hversion)]
        by_cases hmin : headerLengthField b < 5
        · exact ⟨_, if_pos hmin⟩
        · rw [if_neg hmin]
          have htotal : b.length ≠ totalLengthField b := fun htotal =>
            hagree ⟨not_lt.mp hshort, hver'.mp hversion, not_lt.mp hmin, htotal.symm⟩
          exact ⟨_, if_pos htotal⟩
      · exact ⟨_, if_pos hversion⟩

/-! ### What is accepted -/

/-- The number of bytes that `parse` takes for the payload. -/
def payloadSize (b : Bytes) : ℕ :=
  b.length - if FieldsAgree b then 4 * headerLengthField b else 20

/-- `parse` compares two numbers and nothing else. -/
theorem parse_spec (h : 20 ≤ b.length) :
    ∃ d : IPv4Datagram, d.header.ver.toNat = versionField b ∧
      d.header.hlen.toNat = headerLengthField b ∧
      d.payload.size = payloadSize b ∧ d.header.payloadLength.toNat = announcedPayload b ∧
      ({} : IPv4Datagram).parse b =
        (d, if payloadSize b = announcedPayload b then .noError else .packetTooShort) := by
  obtain ⟨header, hver, hhlen, hlen, result, hparse⟩ := header_parse_spec h
  have hsize : BufferList.size
      [b.drop (if FieldsAgree b then 4 * headerLengthField b else 20)] = payloadSize b := by
    simp [BufferList.size, payloadSize]
  have hannounced := payloadLength_toNat hhlen hlen
  refine ⟨⟨header, _⟩, hver, hhlen, hsize, hannounced, ?_⟩
  unfold parse
  simp only [hparse, hsize, hannounced]
  by_cases heq : payloadSize b = announcedPayload b
  · rw [if_neg (not_not.mpr heq), if_pos heq]
  · rw [if_pos heq, if_neg heq]

/-- Fewer than twenty bytes are rejected. -/
theorem parse_short (h : b.length < 20) :
    (({} : IPv4Datagram).parse b).2 = .packetTooShort := by
  unfold parse IPv4Header.parse IPv4Header.length
  simp only [if_pos h]
  rw [if_pos]
  rw [show BufferList.size [b] = b.length from by simp [BufferList.size]]
  exact fun heq => absurd (heq ▸ h) (by decide)

/-- **What `parse` accepts.** -/
theorem parse_noError_iff :
    (({} : IPv4Datagram).parse b).2 = .noError ↔
      20 ≤ b.length ∧ (FieldsAgree b ∨ b.length - 20 = announcedPayload b) := by
  by_cases h : 20 ≤ b.length
  · obtain ⟨d, -, -, -, -, hparse⟩ := parse_spec h
    have hresult : (({} : IPv4Datagram).parse b).2 = .noError ↔
        payloadSize b = announcedPayload b := by
      rw [hparse]
      by_cases heq : payloadSize b = announcedPayload b
      · simp [heq]
      · simp [heq]
    rw [hresult, and_iff_right h, payloadSize]
    by_cases hagree : FieldsAgree b
    · rw [if_pos hagree]
      refine iff_of_true ?_ (Or.inl hagree)
      obtain ⟨hlong, -, -, htotal⟩ := hagree
      have htotal' : b.length < 2 ^ 16 := by
        have hlt := BigEndian.toNat_lt ((b.drop 2).take 2)
        rw [show ((b.drop 2).take 2).length = 2 from by simp; omega] at hlt
        rw [← htotal]
        exact hlt
      rw [announcedPayload, htotal]
      omega
    · rw [if_neg hagree]
      simp [hagree]
  · rw [parse_short (not_le.mp h)]
    exact iff_of_false (by decide) fun hand => h hand.1

/-- Every datagram that `recv_frame` hands to its caller, from a frame with this payload, can be
serialized again after the router has decremented its TTL. -/
def Reserializes (b : Bytes) : Prop :=
  ∀ (i : NetworkInterface) (frame : EthernetFrame) (d : IPv4Datagram),
    BufferList.toBuffer frame.payload = some b → (i.recvFrame frame).2 = .datagram d →
      d.decrementTtl.serialize.isSome

/-- What `recv_frame` hands over is what `parse` accepted. -/
theorem recvFrame_datagram {i : NetworkInterface} {frame : EthernetFrame} {d : IPv4Datagram}
    (hb : BufferList.toBuffer frame.payload = some b)
    (h : (i.recvFrame frame).2 = .datagram d) : ({} : IPv4Datagram).parse b = (d, .noError) := by
  unfold NetworkInterface.recvFrame at h
  rw [hb] at h
  by_cases hours : (!i.accepts frame) = true
  · rw [if_pos hours] at h
    exact absurd h (by simp)
  · rw [if_neg hours] at h
    by_cases htype : (frame.header.type == EthernetHeader.typeIPv4) = true
    · rw [if_pos htype] at h
      dsimp only at h
      split at h
      · rename_i d' hparse
        rw [hparse, RecvOutcome.datagram.inj h]
      · exact absurd h (by simp)
    · rw [if_neg htype] at h
      by_cases harp : (frame.header.type == EthernetHeader.typeARP) = true
      · rw [if_pos harp] at h
        dsimp only at h
        split at h
        · dsimp only at h
          split at h <;> exact absurd h (by simp)
        · exact absurd h (by simp)
      · rw [if_neg harp] at h
        exact absurd h (by simp)

theorem WellFormed.reserializes (h : WellFormed b) : Reserializes b := by
  obtain ⟨hlong, ⟨hshort, hversion, hmin, htotal⟩, -⟩ := h
  intro i frame d hb hrecv
  have hparse := recvFrame_datagram hb hrecv
  obtain ⟨d', hver, hhlen, hsize, hannounced, hspec⟩ := parse_spec hlong
  have heq := hspec.symm.trans hparse
  have hd : d' = d := congrArg Prod.fst heq
  have haccepted : payloadSize b = announcedPayload b := by
    by_contra hne
    have hresult := congrArg Prod.snd heq
    rw [if_neg hne] at hresult
    exact absurd (show ParseResult.packetTooShort = .noError from hresult) (by decide)
  rw [← hd, serialize_isSome_iff]
  refine ⟨?_, ?_, ?_⟩
  · show d'.payload.size = d'.header.payloadLength.toNat
    rw [hsize, hannounced, haccepted]
  · show d'.header.ver = 4
    rw [← UInt8.toNat_inj, hver, hversion]
    rfl
  · show 20 ≤ 4 * d'.header.hlen.toNat
    rw [hhlen]
    omega

/-- **Only well-formed datagrams, exactly when.**  For every byte string: `parse` accepts it just if
it is a well-formed datagram, and every datagram that `recv_frame` gets from it can be serialized
again, if and only if it has no flaw that goes unnoticed. -/
theorem parse_wellFormed_iff (b : Bytes) :
    (((({} : IPv4Datagram).parse b).2 = .noError ↔ WellFormed b) ∧ Reserializes b) ↔
      ¬Unnoticed b := by
  rw [parse_noError_iff]
  constructor
  · rintro ⟨hiff, -⟩ ⟨hlong, ⟨hagree, hsum⟩ | ⟨hdisagree, hsize⟩⟩
    · exact hsum (hiff.mp ⟨hlong, Or.inl hagree⟩).2.2
    · exact hdisagree (hiff.mp ⟨hlong, Or.inr hsize⟩).2.1
  · intro hnoticed
    have haccept : 20 ≤ b.length ∧ (FieldsAgree b ∨ b.length - 20 = announcedPayload b) →
        WellFormed b := by
      rintro ⟨hlong, hor⟩
      have hagree : FieldsAgree b := by
        by_contra hdisagree
        exact hnoticed ⟨hlong, Or.inr ⟨hdisagree, hor.resolve_left hdisagree⟩⟩
      refine ⟨hlong, hagree, ?_⟩
      by_contra hsum
      exact hnoticed ⟨hlong, Or.inl ⟨hagree, hsum⟩⟩
    refine ⟨⟨haccept, fun h => ⟨h.1, Or.inl h.2.1⟩⟩, ?_⟩
    by_cases hwell : WellFormed b
    · exact hwell.reserializes
    · intro i frame d hb hrecv
      have hparse := recvFrame_datagram hb hrecv
      have hnoError := congrArg Prod.snd hparse
      exact absurd (haccept (parse_noError_iff.mp hnoError)) hwell

/-- Twenty bytes of version 6 are accepted, handed over, and cannot be serialized again. -/
theorem parse_accepts_version_six :
    let b : Bytes := [0x65, 0, 0, 20] ++ List.replicate 16 0
    (({} : IPv4Datagram).parse b).2 = .noError ∧ ¬WellFormed b ∧ ¬Reserializes b := by
  refine ⟨by decide +kernel, by decide +kernel, fun h => ?_⟩
  let frame : EthernetFrame :=
    { header :=
        { dst := ethernetBroadcast, src := ethernetBroadcast, type := EthernetHeader.typeIPv4 }
      payload := [[0x65, 0, 0, 20] ++ List.replicate 16 0] }
  have hthrows := h (NetworkInterface.new ethernetBroadcast 0) frame
    (({} : IPv4Datagram).parse ([0x65, 0, 0, 20] ++ List.replicate 16 0)).1 rfl
    (by decide +kernel)
  exact absurd hthrows (by decide +kernel)

end IPv4Datagram

end CourseNet
