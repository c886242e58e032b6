import FireControl.Proofs.Calibration.Corruption

/-!
# The format of a calibration file

A payload of fifty bytes is what its values are written as, so that the table it holds is written as
this payload again (`payload_ofPayload`). With `decode_encode` this settles reading in both
directions: the file that is read as a table is the one that the table is written as
(`decode_eq_ok_iff`), and it is the file with the layout of `FileOf`, place by place.

Main statement: `file_codec_is_exact`.
-/

namespace FireControl.Calibration.Table

variable {t : Table} {bytes payload : Bytes}

/-! ## A payload and its values -/

theorem valueAt_succ (payload : Bytes) (i : Nat) :
    valueAt payload (i + 1) = valueAt (payload.drop 2) i := by
  rw [valueAt, valueAt, List.drop_drop, Nat.mul_succ, Nat.add_comm]

/-- Bytes are what the values in them are written as, if there is an even number of them. -/
theorem flatMap_valueAt {n : Nat} (h : payload.length = 2 * n) :
    ((List.range n).map (valueAt payload)).flatMap Bytes.ofInt16 = payload := by
  induction n generalizing payload with
  | zero =>
    obtain rfl := List.eq_nil_of_length_eq_zero h
    rfl
  | succ n ih =>
    have hrest : (payload.drop 2).length = 2 * n := by
      rw [List.length_drop]
      omega
    have hfirst : Bytes.ofInt16 (valueAt payload 0) = payload.take 2 :=
      Bytes.ofInt16_toInt16 (by rw [List.length_take, List.length_drop]; omega)
    have hlater : (List.range n).map (valueAt payload ∘ Nat.succ) =
        (List.range n).map (valueAt (payload.drop 2)) :=
      List.map_congr_left fun i _ => valueAt_succ payload i
    rw [List.range_succ_eq_map, List.map_cons, List.flatMap_cons, List.map_map, hlater, ih hrest,
      hfirst, List.take_append_drop]

theorem drop_ofPayload (payload : Bytes) {d : Nat} (hd : d < 5) :
    (ofPayload payload).drop[d] = valueAt payload d := by
  simp [ofPayload]

theorem lead_ofPayload (payload : Bytes) {d v : Nat} (hd : d < 5) (hv : v < 4) :
    (ofPayload payload).lead[d][v] = valueAt payload (5 + 4 * d + v) := by
  simp [ofPayload]

/-- The values of a payload stand in the order of their places. -/
theorem values_ofPayload (payload : Bytes) :
    (ofPayload payload).values = (List.range 25).map (valueAt payload) := by
  apply List.ext_getElem?
  intro i
  rcases Nat.lt_or_ge i 5 with hdrop | hrest
  · rw [values_drop _ hdrop, drop_ofPayload payload hdrop]
    simp [show i < 25 by omega]
  rcases Nat.lt_or_ge i 25 with hlead | hend
  · have hplace : 5 + 4 * ((i - 5) / 4) + (i - 5) % 4 = i := by omega
    have hd : (i - 5) / 4 < 5 := by omega
    have hv : (i - 5) % 4 < 4 := by omega
    have hvalue := values_lead (ofPayload payload) hd hv
    rw [lead_ofPayload payload hd hv, hplace] at hvalue
    rw [hvalue]
    simp [hlead]
  · rw [List.getElem?_eq_none (by rw [length_values]; exact hend)]
    simp [hend]

/-- The table in a payload is written as this payload. -/
theorem payload_ofPayload (h : payload.length = 50) : (ofPayload payload).payload = payload := by
  rw [Table.payload, values_ofPayload]
  exact flatMap_valueAt h

/-! ## Whole files -/

theorem encode_ofPayload (hlength : bytes.length = fileLength) (hpasses : Passes bytes) :
    (ofPayload (bytes.drop 4)).encode = bytes := by
  have hpayload : (ofPayload (bytes.drop 4)).payload = bytes.drop 4 :=
    payload_ofPayload (by rw [List.length_drop, hlength, fileLength])
  have hstored : Bytes.ofWord (Bytes.toWord (bytes.take 4)) = bytes.take 4 :=
    Bytes.ofWord_toWord (by rw [List.length_take, hlength, fileLength]; rfl)
  rw [encode, checksum, hpayload, ← hpasses, hstored, List.take_append_drop]

theorem decode_of_passes (hlength : bytes.length = fileLength) (hpasses : Passes bytes) :
    decode bytes = .ok (ofPayload (bytes.drop 4)) := by
  rw [decode, if_neg (not_not.mpr hlength)]
  exact if_neg (not_not.mpr hpasses)

theorem decode_of_length_ne (h : bytes.length ≠ fileLength) :
    decode bytes = .error (.badLength bytes.length fileLength) := if_pos h

theorem decode_eq_ok_iff : decode bytes = .ok t ↔ bytes = t.encode := by
  constructor
  · intro hread
    by_cases hlength : bytes.length = fileLength
    · by_cases hpasses : Passes bytes
      · rw [decode_of_passes hlength hpasses] at hread
        cases hread
        exact (encode_ofPayload hlength hpasses).symm
      · rw [decode_of_not_passes hlength hpasses] at hread
        cases hread
    · rw [decode_of_length_ne hlength] at hread
      cases hread
  · rintro rfl
    exact t.decode_encode

theorem decode_eq_error_iff {fault : Fault} : decode bytes = .error fault ↔
    bytes.length ≠ fileLength ∧ fault = .badLength bytes.length fileLength ∨
      bytes.length = fileLength ∧ ¬ Passes bytes ∧ fault = mismatch bytes := by
  by_cases hlength : bytes.length = fileLength
  · by_cases hpasses : Passes bytes
    · simp [decode_of_passes hlength hpasses, hlength, hpasses]
    · simp [decode_of_not_passes hlength hpasses, hlength, hpasses, eq_comm]
  · simp [decode_of_length_ne hlength, hlength, eq_comm]

/-- The value in the two bytes at a place of a file. -/
def int16At (place : Nat) (bytes : Bytes) : Int16 := Bytes.toInt16 ((bytes.drop place).take 2)

/-- The layout of the file of a table: the checksum of all that follows it, the drops, and the leads
distance by distance. -/
structure FileOf (t : Table) (bytes : Bytes) : Prop where
  length : bytes.length = 54
  passes : Passes bytes
  drops : ∀ (d : Nat) (_ : d < 5), int16At (4 + 2 * d) bytes = t.drop[d]
  leads : ∀ (d v : Nat) (_ : d < 5) (_ : v < 4), int16At (14 + 8 * d + 2 * v) bytes = t.lead[d][v]

theorem valueAt_drop (bytes : Bytes) (i : Nat) :
    valueAt (bytes.drop 4) i = int16At (4 + 2 * i) bytes := by
  rw [valueAt, int16At, List.drop_drop]

theorem fileOf_iff : FileOf t bytes ↔ decode bytes = .ok t := by
  have hplace : ∀ d v, 14 + 8 * d + 2 * v = 4 + 2 * (5 + 4 * d + v) := by omega
  constructor
  · intro h
    rw [decode_of_passes h.length h.passes]
    have hdrop : (ofPayload (bytes.drop 4)).drop = t.drop := by
      apply Vector.ext
      intro d hd
      rw [drop_ofPayload _ hd, valueAt_drop, h.drops d hd]
    have hlead : (ofPayload (bytes.drop 4)).lead = t.lead := by
      apply Vector.ext
      intro d hd
      apply Vector.ext
      intro v hv
      rw [lead_ofPayload _ hd hv, valueAt_drop, ← hplace, h.leads d v hd hv]
    congr 1
    calc ofPayload (bytes.drop 4)
        = ⟨(ofPayload (bytes.drop 4)).drop, (ofPayload (bytes.drop 4)).lead⟩ := rfl
      _ = t := by rw [hdrop, hlead]
  · intro hread
    obtain rfl := decode_eq_ok_iff.mp hread
    have htable : ofPayload (t.encode.drop 4) = t := by
      rw [decode_of_passes t.length_encode (passes_encode t)] at hread
      exact Except.ok.inj hread
    refine ⟨t.length_encode, passes_encode t, ?_, ?_⟩
    · intro d hd
      rw [← valueAt_drop, ← drop_ofPayload _ hd]
      simp only [htable]
    · intro d v hd hv
      rw [hplace, ← valueAt_drop, ← lead_ofPayload _ hd hv]
      simp only [htable]

/-- A file is read as a table exactly if it is what the table is written as, and that is the file with
the table's layout. A file of another length is refused for its length, and a file of the right
length for its checksum exactly if the first four bytes, the lowest first, are not the checksum of
the rest; nothing else is refused. So every file that is read is written again as it was, and
different tables have different files. -/
theorem file_codec_is_exact :
    (∀ bytes t, decode bytes = .ok t ↔ bytes = t.encode) ∧
    (∀ bytes t, bytes = t.encode ↔ FileOf t bytes) ∧
    (∀ bytes fault, decode bytes = .error fault ↔
      bytes.length ≠ 54 ∧ fault = .badLength bytes.length 54 ∨
      bytes.length = 54 ∧ Bytes.toWord (bytes.take 4) ≠ Calibration.checksum (bytes.drop 4) ∧
        fault = .checksumMismatch (Bytes.toWord (bytes.take 4))
          (Calibration.checksum (bytes.drop 4))) ∧
    (∀ bytes, (∃ t, decode bytes = .ok t) ↔ (decode bytes).map encode = .ok bytes) ∧
    (∀ t t' : Table, t.encode = t'.encode ↔ t = t') := by
  refine ⟨fun bytes t => decode_eq_ok_iff, fun bytes t => ?_, fun bytes fault => decode_eq_error_iff,
    fun bytes => ?_, fun t t' => ?_⟩
  · rw [fileOf_iff, decode_eq_ok_iff]
  · constructor
    · rintro ⟨t, hread⟩
      rw [hread, decode_eq_ok_iff.mp hread]
      rfl
    · intro hmap
      cases hread : decode bytes with
      | ok t => exact ⟨t, rfl⟩
      | error fault =>
        rw [hread] at hmap
        cases hmap
  · constructor
    · intro hsame
      have hread := t.decode_encode
      rw [hsame, t'.decode_encode] at hread
      exact (Except.ok.inj hread).symm
    · rintro rfl
      rfl

end FireControl.Calibration.Table
