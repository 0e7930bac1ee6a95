import CourseNet.Router

/-!
# The route of a datagram

What `route_one_datagram` chooses, against the longest prefix match: among the entries whose prefix
covers the destination, one with the longest prefix, and of these the one added last (`IsRoute`).
The search finds exactly that entry; what it keeps of it is the `int` of its index.
-/

namespace CourseNet

namespace RouteEntry

variable {e : RouteEntry} {n : ℕ}

theorem toNat_highBits (h : n < 32) :
    (~~~((1 : UInt32) <<< UInt32.ofNat n - 1)).toNat = 2 ^ 32 - 2 ^ n := by
  have hpow : 2 ^ n < 2 ^ 32 := Nat.pow_lt_pow_right (by decide) h
  have hshift : ((1 : UInt32) <<< UInt32.ofNat n).toNat = 2 ^ n := by
    have hn : (UInt32.ofNat n).toNat = n := UInt32.toNat_ofNat_of_lt' (h.trans (by decide))
    rw [UInt32.toNat_shiftLeft, hn, Nat.mod_eq_of_lt h, Nat.shiftLeft_eq]
    exact (congrArg (· % 2 ^ 32) (Nat.one_mul _)).trans (Nat.mod_eq_of_lt hpow)
  have hle : (1 : UInt32) ≤ 1 <<< UInt32.ofNat n := by
    rw [UInt32.le_iff_toNat_le, hshift]
    exact Nat.two_pow_pos n
  rw [UInt32.toNat_not, UInt32.toNat_sub_of_le _ _ hle, hshift]
  show 2 ^ 32 - 1 - (2 ^ n - 1) = _
  have := Nat.two_pow_pos n
  omega

/-- The mask without its cases. -/
theorem mask_toNat (hlen : e.prefixLength.toNat ≤ 32) :
    e.mask.toNat = 2 ^ 32 - 2 ^ (32 - e.prefixLength.toNat) := by
  unfold mask
  split_ifs with hpos hfull
  · have hpos : 0 < e.prefixLength.toNat := UInt8.lt_iff_toNat_lt.mp hpos
    rw [hfull]
    rfl
  · have hpos : 0 < e.prefixLength.toNat := UInt8.lt_iff_toNat_lt.mp hpos
    exact toNat_highBits (by omega)
  · have hzero : e.prefixLength.toNat = 0 :=
      Nat.eq_zero_of_not_pos fun h => hpos (UInt8.lt_iff_toNat_lt.mpr h)
    rw [hzero]
    rfl

/-- Under the mask a number keeps its first `prefixLength` bits. -/
theorem and_mask (hlen : e.prefixLength.toNat ≤ 32) (x : UInt32) :
    (x &&& e.mask).toNat =
      x.toNat / 2 ^ (32 - e.prefixLength.toNat) * 2 ^ (32 - e.prefixLength.toNat) := by
  have hpow : 2 ^ (32 - e.prefixLength.toNat) ≤ 2 ^ 32 :=
    Nat.pow_le_pow_right (by decide) (by omega)
  have hpos := Nat.two_pow_pos (32 - e.prefixLength.toNat)
  rw [UInt32.toNat_and, mask_toNat hlen]
  refine Nat.eq_of_testBit_eq fun i => ?_
  rw [Nat.testBit_and, Nat.testBit_mul_two_pow, Nat.testBit_div_two_pow,
    show 2 ^ 32 - 2 ^ (32 - e.prefixLength.toNat) =
      2 ^ 32 - ((2 ^ (32 - e.prefixLength.toNat) - 1) + 1) from by omega,
    Nat.testBit_two_pow_sub_succ (by omega), Nat.testBit_two_pow_sub_one]
  by_cases hi : 32 - e.prefixLength.toNat ≤ i
  · rw [decide_eq_true hi, decide_eq_false (not_lt.mpr hi), Nat.sub_add_cancel hi]
    rcases Nat.lt_or_ge i 32 with h | h
    · simp [h]
    · -- beyond the 32 bits there are none to keep
      have hx : x.toNat.testBit i = false :=
        Nat.testBit_lt_two_pow (x.toNat_lt.trans_le (Nat.pow_le_pow_right (by decide) h))
      simp [hx]
  · rw [decide_eq_false hi, decide_eq_true (not_le.mp hi)]
    simp

theorem matchesDst_iff {dstIp : UInt32} (hlen : e.prefixLength.toNat ≤ 32) :
    e.matchesDst dstIp = true ↔ e.Covers dstIp := by
  rw [matchesDst, beq_iff_eq, ← UInt32.toNat_inj, and_mask hlen, and_mask hlen, Covers]
  exact Nat.mul_left_inj (Nat.two_pow_pos _).ne'

end RouteEntry

namespace Router

variable {table : List RouteEntry} {dstIp : UInt32} {dgram : IPv4Datagram} {e : RouteEntry} {k : ℕ}

/-- The entry `e`, number `k` of the table, is the longest prefix match of the destination. -/
abbrev IsRoute (table : List RouteEntry) (dstIp : UInt32) (k : ℕ) (e : RouteEntry) : Prop :=
  IsLastBest (fun e => e.Covers dstIp) (fun e => e.prefixLength.toNat) table k e

/-- What longest prefix match makes of a datagram. -/
inductive Specified (table : List RouteEntry) (dgram : IPv4Datagram) : Decision → Prop
  | expired (httl : dgram.header.ttl ≤ 1) : Specified table dgram .discard
  | unreachable (hnone : ∀ e ∈ table, ¬e.Covers dgram.header.dst) :
      Specified table dgram .discard
  | forwarded (k : ℕ) (e : RouteEntry) (httl : 1 < dgram.header.ttl)
      (hroute : IsRoute table dgram.header.dst k e) :
      Specified table dgram
        (.send e.interfaceNum dgram.decrementTtl (e.nextHop.getD dgram.header.dst))

/-! ### The search -/

theorem search_snoc (table : List RouteEntry) (e : RouteEntry) (dstIp : UInt32) :
    search (table ++ [e]) dstIp = (search table dstIp).visit dstIp e table.length := by
  unfold search
  rw [List.zipIdx_append, List.foldl_append, Nat.zero_add]
  rfl

/-- After any stretch of the table the candidate is the best of that stretch. -/
theorem search_spec (dstIp : UInt32) (hlen : ∀ e ∈ table, e.prefixLength.toNat ≤ 32) :
    ((∀ e ∈ table, ¬e.Covers dstIp) ∧ search table dstIp = {}) ∨
    ∃ k e, IsRoute table dstIp k e ∧ search table dstIp = ⟨toInt k, e.prefixLength⟩ := by
  induction table using List.reverseRecOn with
  | nil => exact Or.inl ⟨nofun, rfl⟩
  | append_singleton table e ih =>
      have hlast := hlen e (by simp)
      have hcand := ih fun e he => hlen e (List.mem_append_left _ he)
      rw [search_snoc, Search.visit]
      by_cases hcovers : e.Covers dstIp
      · rw [if_pos ((RouteEntry.matchesDst_iff hlast).mpr hcovers)]
        rcases hcand with ⟨hnone, hsearch⟩ | ⟨k, b, hroute, hsearch⟩
        · rw [hsearch, if_pos (UInt8.zero_le)]
          exact Or.inr ⟨_, e, IsLastBest.snoc_new hcovers fun b hb h => absurd h (hnone b hb), rfl⟩
        · rw [hsearch]
          by_cases hge : e.prefixLength ≥ b.prefixLength
          · rw [if_pos hge]
            refine Or.inr ⟨_, e, IsLastBest.snoc_new hcovers fun c hc h => ?_, rfl⟩
            exact (hroute.best c hc h).trans (UInt8.le_iff_toNat_le.mp hge)
          · rw [if_neg hge]
            refine Or.inr ⟨k, b, hroute.snoc_old fun _ => ?_, rfl⟩
            exact not_le.mp fun h => hge (UInt8.le_iff_toNat_le.mpr h)
      · rw [if_neg (mt (RouteEntry.matchesDst_iff hlast).mp hcovers)]
        rcases hcand with ⟨hnone, hsearch⟩ | ⟨k, b, hroute, hsearch⟩
        · refine Or.inl ⟨fun c hc => ?_, hsearch⟩
          rcases List.mem_append.mp hc with hc | hc
          · exact hnone c hc
          · rwa [List.mem_singleton.mp hc]
        · exact Or.inr ⟨k, b, hroute.snoc_old fun h => absurd h hcovers, hsearch⟩

/-! ### The index as an `int` -/

/-- What the `int` of an index denotes sends the same way. -/
def KeepsRoute (table : List RouteEntry) (dstIp : UInt32) (k : ℕ) (e : RouteEntry) : Prop :=
  k % 2 ^ 32 < 2 ^ 31 ∧ ∃ e', table[k % 2 ^ 32]? = some e' ∧ e'.interfaceNum = e.interfaceNum ∧
    e'.nextHop.getD dstIp = e.nextHop.getD dstIp

theorem toInt_of_lt (h : k % 2 ^ 32 < 2 ^ 31) : toInt k = ((k % 2 ^ 32 : ℕ) : ℤ) := if_pos h

theorem toInt_of_ge (h : 2 ^ 31 ≤ k % 2 ^ 32) : toInt k < 0 := by
  rw [toInt, if_neg (Nat.not_lt.mpr h)]
  have := Nat.mod_lt k (show 0 < 2 ^ 32 from by decide)
  omega

/-- Nothing happens to an index that an `int` holds. -/
theorem KeepsRoute.of_lt (h : k < 2 ^ 31) (hget : table[k]? = some e) :
    KeepsRoute table dstIp k e := by
  have hk : k % 2 ^ 32 = k := Nat.mod_eq_of_lt (h.trans (by decide))
  unfold KeepsRoute
  rw [hk]
  exact ⟨h, e, hget, rfl, rfl⟩

theorem decisionFor_eq (httl : 1 < dgram.header.ttl) {s : Search}
    (hsearch : search table dgram.header.dst = s) :
    decisionFor table dgram =
      if s.bestMatchIdx = -1 then .discard else sendBy table s.bestMatchIdx dgram.decrementTtl := by
  rw [decisionFor, if_neg (UInt8.not_le.mpr httl), ← hsearch]
  rfl

/-- A datagram with a route is sent by that route. -/
theorem specified_send_iff (httl : 1 < dgram.header.ttl)
    (hroute : IsRoute table dgram.header.dst k e) {n : ℕ} {d : IPv4Datagram} {nextHop : UInt32} :
    Specified table dgram (.send n d nextHop) ↔
      n = e.interfaceNum ∧ d = dgram.decrementTtl ∧
        nextHop = e.nextHop.getD dgram.header.dst := by
  constructor
  · intro hspec
    cases hspec with
    | forwarded j b _ hbest =>
        obtain ⟨rfl, rfl⟩ := hroute.unique hbest
        exact ⟨rfl, rfl, rfl⟩
  · rintro ⟨rfl, rfl, rfl⟩
    exact .forwarded k e httl hroute

/-- An index that became negative is lost. -/
theorem not_specified_of_ge (httl : 1 < dgram.header.ttl)
    (hroute : IsRoute table dgram.header.dst k e) (hge : 2 ^ 31 ≤ k % 2 ^ 32) :
    ¬Specified table dgram
      (if toInt k = -1 then .discard else sendBy table (toInt k) dgram.decrementTtl) := by
  rw [sendBy, if_pos (toInt_of_ge hge)]
  split
  · rintro (hexpired | hnone | _)
    · exact UInt8.not_le.mpr httl hexpired
    · exact hnone e hroute.mem hroute.sat
  · exact nofun

/-- Another index stands for the entry that it denotes. -/
theorem specified_iff_of_lt (httl : 1 < dgram.header.ttl)
    (hroute : IsRoute table dgram.header.dst k e) (hlt : k % 2 ^ 32 < 2 ^ 31) :
    Specified table dgram
        (if toInt k = -1 then .discard else sendBy table (toInt k) dgram.decrementTtl) ↔
      ∃ e', table[k % 2 ^ 32]? = some e' ∧ e'.interfaceNum = e.interfaceNum ∧
        e'.nextHop.getD dgram.header.dst = e.nextHop.getD dgram.header.dst := by
  have hin : k % 2 ^ 32 < table.length := (Nat.mod_le _ _).trans_lt hroute.lt_length
  obtain ⟨e', hget⟩ : ∃ e', table[k % 2 ^ 32]? = some e' := ⟨_, List.getElem?_eq_getElem hin⟩
  rw [toInt_of_lt hlt, if_neg (by omega), sendBy, if_neg (by omega), Int.toNat_natCast, hget]
  refine (specified_send_iff httl hroute).trans ⟨fun ⟨hnum, _, hhop⟩ => ⟨e', rfl, hnum, hhop⟩, ?_⟩
  rintro ⟨_, ⟨⟩, hnum, hhop⟩
  exact ⟨hnum, rfl, hhop⟩

/-- The decision is right if and only if the `int` did not lose the route. -/
theorem decisionFor_specified_iff (hlen : ∀ e ∈ table, e.prefixLength.toNat ≤ 32) :
    Specified table dgram (decisionFor table dgram) ↔
      (1 < dgram.header.ttl → ∀ k e, IsRoute table dgram.header.dst k e →
        KeepsRoute table dgram.header.dst k e) := by
  by_cases hexpired : dgram.header.ttl ≤ 1
  · rw [decisionFor, if_pos hexpired]
    exact iff_of_true (.expired hexpired) fun httl => absurd hexpired (UInt8.not_le.mpr httl)
  have httl : 1 < dgram.header.ttl := UInt8.not_le.mp hexpired
  rcases search_spec dgram.header.dst hlen with ⟨hnone, hsearch⟩ | ⟨k, e, hroute, hsearch⟩
  · rw [decisionFor_eq httl hsearch]
    exact iff_of_true (.unreachable hnone) fun _ k e h => absurd h.sat (hnone e h.mem)
  · rw [decisionFor_eq httl hsearch]
    constructor
    · intro hspec _ j b hbest
      obtain ⟨rfl, rfl⟩ := hroute.unique hbest
      have hlt : k % 2 ^ 32 < 2 ^ 31 :=
        Nat.lt_of_not_ge fun hge => not_specified_of_ge httl hroute hge hspec
      exact ⟨hlt, (specified_iff_of_lt httl hroute hlt).mp hspec⟩
    · intro hkeeps
      obtain ⟨hlt, hsame⟩ := hkeeps httl k e hroute
      exact (specified_iff_of_lt httl hroute hlt).mpr hsame

end Router

end CourseNet
