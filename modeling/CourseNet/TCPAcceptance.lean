import CourseNet.ChecksumPieces
import CourseNet.TCPWire

/-!
# Which byte strings `TCPSegment::parse` accepts

The checksum is verified first.  Then the header's `parse` runs, but what it returns is dropped and
only the error state of the parser is looked at: running out of bytes sets it, a data offset below
five does not.  So a segment with a verifying checksum is accepted although its data offset is too
small, and it cannot be serialized again.
-/

namespace CourseNet

namespace TCPSegment

/-! ### The fields of a byte string -/

/-- The data-offset field, in words of four bytes. -/
def dataOffset (b : Bytes) : ℕ := (b.getD 12 0).toNat / 16

/-- The Internet checksum over `b` with the initial sum `c` verifies: the one's-complement sum of
the words is all ones. -/
def Verifies (c : UInt32) (b : Bytes) : Prop :=
  InternetChecksum.onesSum (checksumWords c b) = 0xffff

/-- A well-formed TCP segment. -/
def WellFormed (c : UInt32) (b : Bytes) : Prop :=
  20 ≤ b.length ∧ (5 ≤ dataOffset b ∧ 4 * dataOffset b ≤ b.length) ∧ Verifies c b

/-- A verifying checksum over a data offset that is too small. -/
def Unnoticed (c : UInt32) (b : Bytes) : Prop :=
  20 ≤ b.length ∧ dataOffset b < 5 ∧ Verifies c b

instance (c : UInt32) : DecidablePred (Verifies c) := fun _ => inferInstanceAs (Decidable (_ = _))

instance (c : UInt32) : DecidablePred (WellFormed c) := fun _ =>
  inferInstanceAs (Decidable (_ ∧ _))

instance (c : UInt32) : DecidablePred (Unnoticed c) := fun _ => inferInstanceAs (Decidable (_ ∧ _))

variable {b : Bytes} {c : UInt32}

/-- What the code tests, as long as the running sum does not overflow. -/
theorem value_eq_zero_iff_verifies (hroom : c.toNat + (InternetChecksum.words b).sum < 2 ^ 32) :
    ((InternetChecksum.new c).add b).value = 0 ↔ Verifies c b := by
  have hvalue := ((InternetChecksum.new c).add b).value_toNat
  have hle := InternetChecksum.fold_le ((InternetChecksum.new c).add b).sum.toNat
  rw [fold_add_sum hroom] at hvalue hle
  rw [← UInt16.toNat_inj, hvalue, Verifies, show (0 : UInt16).toNat = 0 from rfl]
  omega

/-! ### What the parser reads -/

/-- The field that decides what happens next. -/
theorem readFields_spec (h : 20 ≤ b.length) :
    ∃ header, TCPHeader.readFields ⟨b, .noError⟩ = (header, ⟨b.drop 20, .noError⟩) ∧
      header.doff.toNat = dataOffset b := by
  have hdoff : (b.getD 12 0 >>> 4).toNat = dataOffset b := by
    rw [UInt8.toNat_shiftRight, Nat.shiftRight_eq_div_pow]
    rfl
  rw [← List.drop_zero (l := b), TCPHeader.readFields]
  simp (disch := omega) only [NetParser.u8_drop, NetParser.u16_drop, NetParser.u32_drop]
  exact ⟨_, rfl, hdoff⟩

/-- Fewer than twenty bytes run out. -/
theorem readFields_short (h : b.length < 20) :
    (TCPHeader.readFields ⟨b, .noError⟩).2.error ≠ .noError := by
  have hstart : NetParser.Starved 20 ⟨b, .noError⟩ := Or.inr h
  obtain ⟨sport, p₁, hsport, h₁⟩ := hstart.u16
  obtain ⟨dport, p₂, hdport, h₂⟩ := h₁.u16
  obtain ⟨seqno, p₃, hseqno, h₃⟩ := h₂.u32
  obtain ⟨ackno, p₄, hackno, h₄⟩ := h₃.u32
  obtain ⟨offsetByte, p₅, hoffset, h₅⟩ := h₄.u8
  obtain ⟨flags, p₆, hflags, h₆⟩ := h₅.u8
  obtain ⟨win, p₇, hwin, h₇⟩ := h₆.u16
  obtain ⟨cksum, p₈, hcksum, h₈⟩ := h₇.u16
  obtain ⟨uptr, p₉, huptr, h₉⟩ := h₈.u16
  simp only [TCPHeader.readFields, hsport, hdport, hseqno, hackno, hoffset, hflags, hwin, hcksum,
    huptr]
  exact h₉.resolve_right (Nat.not_lt_zero _)

/-- Where the header's `parse` leaves the parser. -/
def parserAfter (b : Bytes) : NetParser :=
  if dataOffset b < 5 then ⟨b.drop 20, .noError⟩
  else if 4 * dataOffset b ≤ b.length then ⟨b.drop (4 * dataOffset b), .noError⟩
  else ⟨b.drop 20, .packetTooShort⟩

theorem header_parse_spec (h : 20 ≤ b.length) :
    ∃ header result, TCPHeader.parse ⟨b, .noError⟩ = (header, parserAfter b, result) ∧
      header.doff.toNat = dataOffset b := by
  obtain ⟨header, hread, hdoff⟩ := readFields_spec h
  have hsmall : header.doff < 5 ↔ dataOffset b < 5 := by
    rw [← hdoff, UInt8.lt_iff_toNat_lt]
    rfl
  unfold TCPHeader.parse TCPHeader.length parserAfter
  simp only [hread, hsmall, hdoff]
  by_cases hoffset : dataOffset b < 5
  · rw [if_pos hoffset, if_pos hoffset]
    exact ⟨header, _, rfl, hdoff⟩
  · rw [if_neg hoffset, if_neg hoffset]
    by_cases hfits : 4 * dataOffset b ≤ b.length
    · have hremove : NetParser.removePrefix ⟨b.drop 20, .noError⟩ (dataOffset b * 4 - 20) =
          ⟨b.drop (4 * dataOffset b), .noError⟩ := by
        rw [NetParser.removePrefix_eq (by rw [List.length_drop]; omega), List.drop_drop,
          show 20 + (dataOffset b * 4 - 20) = 4 * dataOffset b from by omega]
      rw [if_pos hfits, hremove]
      exact ⟨header, _, rfl, hdoff⟩
    · have hremove : NetParser.removePrefix ⟨b.drop 20, .noError⟩ (dataOffset b * 4 - 20) =
          ⟨b.drop 20, .packetTooShort⟩ :=
        NetParser.removePrefix_short (by rw [List.length_drop]; omega)
      rw [if_neg hfits, hremove]
      exact ⟨header, _, rfl, hdoff⟩

theorem header_parse_short (h : b.length < 20) :
    (TCPHeader.parse ⟨b, .noError⟩).2.1.error ≠ .noError := by
  have hread := readFields_short h
  rcases hfields : TCPHeader.readFields ⟨b, .noError⟩ with ⟨header, p⟩
  rw [hfields] at hread
  simp only [TCPHeader.parse, hfields]
  by_cases hoffset : header.doff < 5
  · rw [if_pos hoffset]
    exact hread
  · rw [if_neg hoffset]
    exact NetParser.error_removePrefix hread _

/-! ### What is accepted -/

variable (seg : TCPSegment)

theorem parse_of_value (hvalue : ((InternetChecksum.new c).add b).value = 0) :
    seg.parse b c =
      (⟨(TCPHeader.parse ⟨b, .noError⟩).1, (TCPHeader.parse ⟨b, .noError⟩).2.1.buffer⟩,
        (TCPHeader.parse ⟨b, .noError⟩).2.1.error) := by
  unfold parse
  rw [if_neg (not_not.mpr hvalue)]

/-- **What `parse` accepts.** -/
theorem parse_noError_iff :
    (seg.parse b c).2 = .noError ↔
      ((InternetChecksum.new c).add b).value = 0 ∧ 20 ≤ b.length ∧
        (dataOffset b < 5 ∨ 4 * dataOffset b ≤ b.length) := by
  by_cases hvalue : ((InternetChecksum.new c).add b).value = 0
  · rw [seg.parse_of_value hvalue, and_iff_right hvalue]
    rcases Nat.lt_or_ge b.length 20 with hshort | hlong
    · exact iff_of_false (header_parse_short hshort) fun hand => absurd hand.1 (not_le.mpr hshort)
    · obtain ⟨header, result, hparse, -⟩ := header_parse_spec hlong
      rw [hparse, and_iff_right hlong]
      show (parserAfter b).error = .noError ↔ _
      unfold parserAfter
      split
      · rename_i hoffset
        exact iff_of_true rfl (Or.inl hoffset)
      · rename_i hoffset
        split
        · rename_i hfits
          exact iff_of_true rfl (Or.inr hfits)
        · rename_i hfits
          exact iff_of_false (fun heq => nomatch heq) (not_or.mpr ⟨hoffset, hfits⟩)
  · refine iff_of_false ?_ fun hand => hvalue hand.1
    unfold parse
    rw [if_pos hvalue]
    exact fun heq => nomatch heq

/-- What a header without a flaw leads to. -/
theorem parse_fields (hvalue : ((InternetChecksum.new c).add b).value = 0) (hlong : 20 ≤ b.length)
    (hoffset : 5 ≤ dataOffset b) (hfits : 4 * dataOffset b ≤ b.length) :
    (seg.parse b c).1.header.doff.toNat = dataOffset b ∧
      (seg.parse b c).1.payload = b.drop (4 * dataOffset b) := by
  obtain ⟨header, result, hparse, hdoff⟩ := header_parse_spec hlong
  have hafter : parserAfter b = ⟨b.drop (4 * dataOffset b), .noError⟩ := by
    rw [parserAfter, if_neg (not_lt.mpr hoffset), if_pos hfits]
  rw [seg.parse_of_value hvalue, hparse, hafter]
  exact ⟨hdoff, rfl⟩

/-- A data offset of five words or more is all that `serialize` asks for. -/
theorem serialize_isSome (hoffset : 5 ≤ seg.header.doff.toNat) (sum : UInt32) :
    (seg.serialize sum).isSome := by
  have hlarge : ¬seg.header.doff < 5 := fun hlt =>
    absurd (show seg.header.doff.toNat < 5 from UInt8.lt_iff_toNat_lt.mp hlt) (not_lt.mpr hoffset)
  have hheader : ∀ cksum, (seg.header.withCksum cksum).serialize.isSome := by
    intro cksum
    unfold TCPHeader.serialize TCPHeader.withCksum
    rw [if_neg hlarge]
    rfl
  obtain ⟨zeroed, hzeroed⟩ := Option.isSome_iff_exists.mp (hheader 0)
  obtain ⟨out, hout⟩ := Option.isSome_iff_exists.mp
    (hheader (((InternetChecksum.new sum).add zeroed).add seg.payload).value)
  unfold serialize
  rw [hzeroed]
  show ((seg.header.withCksum _).serialize.bind _).isSome
  rw [hout]
  rfl

/-- `parse` accepts the byte string just if it is a well-formed segment, and what it accepts has the
bytes behind the header as its payload and can be serialized. -/
def AcceptsExactly (b : Bytes) (c : UInt32) : Prop :=
  ((seg.parse b c).2 = .noError ↔ WellFormed c b) ∧
    ((seg.parse b c).2 = .noError →
      (seg.parse b c).1.payload = b.drop (4 * dataOffset b) ∧
        ∀ sum, ((seg.parse b c).1.serialize sum).isSome)

/-- **Only well-formed segments, exactly when.**  For every byte string and pseudo-header checksum
whose sum does not overflow, `parse` accepts just the well-formed segments, with the right payload
and so that they can be serialized again, if and only if the byte string is not one of twenty bytes
or more with a verifying checksum and a data offset below five. -/
theorem parse_accepts_iff (b : Bytes) (c : UInt32)
    (hroom : c.toNat + (InternetChecksum.words b).sum < 2 ^ 32) :
    seg.AcceptsExactly b c ↔ ¬Unnoticed c b := by
  have hverifies := value_eq_zero_iff_verifies hroom
  have haccepts := seg.parse_noError_iff (b := b) (c := c)
  rw [hverifies] at haccepts
  constructor
  · rintro ⟨hiff, -⟩ ⟨hlong, hoffset, hsum⟩
    have hwell := hiff.mp (haccepts.mpr ⟨hsum, hlong, Or.inl hoffset⟩)
    exact absurd hwell.2.1.1 (not_le.mpr hoffset)
  · intro hnoticed
    have hwell : (seg.parse b c).2 = .noError → WellFormed c b := by
      intro hparse
      obtain ⟨hsum, hlong, hor⟩ := haccepts.mp hparse
      have hoffset : 5 ≤ dataOffset b := by
        by_contra hsmall
        exact hnoticed ⟨hlong, not_le.mp hsmall, hsum⟩
      exact ⟨hlong, ⟨hoffset, hor.resolve_left (not_lt.mpr hoffset)⟩, hsum⟩
    refine ⟨⟨hwell, fun h => haccepts.mpr ⟨h.2.2, h.1, Or.inr h.2.1.2⟩⟩, fun hparse => ?_⟩
    obtain ⟨hlong, ⟨hoffset, hfits⟩, hsum⟩ := hwell hparse
    obtain ⟨hdoff, hpayload⟩ := seg.parse_fields (hverifies.mpr hsum) hlong hoffset hfits
    exact ⟨hpayload, fun sum => serialize_isSome _ (hdoff ▸ hoffset) sum⟩

/-- A header without options and without payload. -/
theorem parse_accepts_iff_bare :
    let b : Bytes := List.replicate 12 0 ++ [0x50, 0, 0, 0, 0xaf, 0xff, 0, 0]
    ({} : TCPSegment).AcceptsExactly b 0 ∧ WellFormed 0 b :=
  ⟨(parse_accepts_iff {} _ 0 (by decide)).mpr (by decide), by decide⟩

/-- Twenty bytes with a verifying checksum and the data offset zero are accepted, and what was
accepted cannot be serialized. -/
theorem parse_accepts_short_offset :
    let b : Bytes := List.replicate 16 0 ++ [0xff, 0xff, 0, 0]
    (({} : TCPSegment).parse b 0).2 = .noError ∧ ¬WellFormed 0 b ∧
      (({} : TCPSegment).parse b 0).1.serialize 0 = none ∧
      ¬({} : TCPSegment).AcceptsExactly b 0 := by
  have hparse : (({} : TCPSegment).parse (List.replicate 16 0 ++ [0xff, 0xff, 0, 0]) 0).2 =
      .noError := by decide +kernel
  have hill : ¬WellFormed 0 (List.replicate 16 0 ++ [0xff, 0xff, 0, 0]) := by decide
  exact ⟨hparse, hill, by decide +kernel, fun h => hill (h.1.mp hparse)⟩

end TCPSegment

end CourseNet
