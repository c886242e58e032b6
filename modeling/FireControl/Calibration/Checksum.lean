import FireControl.Bytes

/-!
# CRC-32

The reflected CRC of polynomial `0x04C11DB7` with the register all ones at the start and inverted at
the end. A byte enters the register eight bits at a time, least significant bit first; between
inputs the register is a linear function of what entered it (`advance_xor`).
-/

namespace FireControl.Calibration

/-- The register of a running checksum. -/
abbrev Register := BitVec 32

namespace Register

/-- The polynomial with its coefficients in reflected order. -/
def polynomial : Register := 0xEDB88320

/-- What is added when a bit leaves the register: the polynomial for a one, nothing for a zero. -/
def feedback (r : Register) : Register := if r.getLsbD 0 then polynomial else 0

/-- The register after one bit has left it. -/
def shift (r : Register) : Register := r >>> 1 ^^^ r.feedback

/-- The register after eight bits have left it. -/
def advance (r : Register) : Register :=
  shift (shift (shift (shift (shift (shift (shift (shift r)))))))

/-- Takes in one byte. -/
def feed (r : Register) (b : UInt8) : Register := advance (r ^^^ b.toBitVec.zeroExtend 32)

theorem feedback_xor (a b : Register) : (a ^^^ b).feedback = a.feedback ^^^ b.feedback := by
  unfold feedback
  rw [BitVec.getLsbD_xor]
  cases a.getLsbD 0 <;> cases b.getLsbD 0 <;> simp

theorem shift_xor (a b : Register) : shift (a ^^^ b) = shift a ^^^ shift b := by
  unfold shift
  rw [feedback_xor, BitVec.ushiftRight_xor_distrib]
  ac_rfl

/-- Shifting is linear, so the register is a linear function of all that entered it. -/
theorem advance_xor (a b : Register) : advance (a ^^^ b) = advance a ^^^ advance b := by
  simp only [advance, shift_xor]

end Register

def checksum (bytes : Bytes) : UInt32 :=
  UInt32.ofBitVec (~~~(bytes.foldl Register.feed (BitVec.allOnes 32)))

/-- The check value by which this CRC is told from its relatives. -/
example : checksum "123456789".toUTF8.toList = 0xCBF43926 := by decide +kernel

end FireControl.Calibration
