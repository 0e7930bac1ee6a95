import CourseNet.ConnectionSender

/-!
# The advertised outbound capacity

`remaining_outbound_capacity` looks at the room in the outbound stream only; `write` also needs an
active connection and a stream that has neither ended nor failed.
-/

namespace CourseNet

namespace TCPConnection

/-- What `write` accepts. -/
theorem write_accepted (c : TCPConnection) (d : Bytes) :
    (c.write d).2 = if c.isActive then (c.sender.stream.write d).2 else 0 := by
  unfold write
  rcases Bool.eq_false_or_eq_true c.isActive with h | h
  · rw [h]
    rfl
  · rw [h]
    rfl

/-- **When the advertised capacity is honoured.**  A string that fits the advertised capacity is
accepted whole if and only if it is empty or the connection is active and its outbound stream has
neither ended nor failed. -/
theorem write_full_iff (c : TCPConnection) (d : Bytes)
    (hd : d.length ≤ c.remainingOutboundCapacity) :
    (c.write d).2 = d.length ↔
      d = [] ∨ (c.isActive = true ∧ c.sender.stream.inputEnded = false ∧
        c.sender.stream.error = false) := by
  have hroom : min d.length c.sender.stream.remainingCapacity = d.length := min_eq_left hd
  rw [write_accepted, ByteStream.write_snd, hroom, ← List.length_eq_zero_iff]
  rcases Bool.eq_false_or_eq_true c.isActive with ha | ha <;>
    rcases Bool.eq_false_or_eq_true c.sender.stream.inputEnded with he | he <;>
    rcases Bool.eq_false_or_eq_true c.sender.stream.error with hr | hr <;>
    simp [ha, he, hr, eq_comm]

/-- Three bytes on a fresh connection. -/
theorem write_full_fresh :
    let c := StepSystem.run step (new {} 0) [.connect]
    (c.write [1, 2, 3]).2 = 3 :=
  (write_full_iff (StepSystem.run step (new {} 0) [.connect]) [1, 2, 3] (by decide +kernel)).mpr
    (Or.inr (by decide +kernel))

/-- After a reset the capacity is still advertised, and a write accepts nothing. -/
theorem write_short_after_reset :
    let c := StepSystem.run step (new {} 0)
      [.connect, .segmentReceived { header := { rst := true } }]
    [1].length ≤ c.remainingOutboundCapacity ∧ (c.write [1]).2 ≠ [1].length := by
  decide +kernel

end TCPConnection

end CourseNet
