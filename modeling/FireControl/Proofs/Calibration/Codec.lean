import FireControl.Calibration.File

/-!
# Reading a calibration file back

A file holds its values two bytes each, so that the value at a place of the payload is the value that
was written there (`valueAt_flatMap`). The drops and the rows of leads are pieces of that one list,
and `decode_encode` follows: every table is read back from its own file.
-/

namespace FireControl.Calibration.Table

theorem length_flatMap_ofInt16 (values : List Int16) :
    (values.flatMap Bytes.ofInt16).length = 2 * values.length :=
  Bytes.length_flatMap Bytes.length_ofInt16 values

theorem valueAt_flatMap {values : List Int16} {i : Nat} (h : i < values.length) :
    valueAt (values.flatMap Bytes.ofInt16) i = values[i] := by
  induction values generalizing i with
  | nil => cases h
  | cons v rest ih =>
    rw [List.flatMap_cons]
    cases i with
    | zero => simp [valueAt]
    | succ i =>
      have hdrop : (Bytes.ofInt16 v ++ rest.flatMap Bytes.ofInt16).drop (2 * (i + 1)) =
          (rest.flatMap Bytes.ofInt16).drop (2 * i) := by
        rw [show 2 * (i + 1) = (Bytes.ofInt16 v).length + 2 * i by simp; omega, List.drop_append]
        simp
      rw [valueAt, hdrop]
      exact ih (Nat.lt_of_succ_lt_succ h)

theorem getElem_flatMap_rows {rows : List (Vector Int16 4)} {i j : Nat} (hi : i < rows.length)
    (hj : j < 4) :
    (rows.flatMap Vector.toList)[4 * i + j]? = some rows[i][j] := by
  induction rows generalizing i with
  | nil => cases hi
  | cons row rest ih =>
    rw [List.flatMap_cons]
    cases i with
    | zero => simp [List.getElem?_append_left, hj]
    | succ i =>
      rw [List.getElem?_append_right (by simp; omega)]
      rw [show 4 * (i + 1) + j - row.toList.length = 4 * i + j by simp; omega]
      exact ih (Nat.lt_of_succ_lt_succ hi)

variable (t : Table)

theorem length_values : t.values.length = 25 := by
  simp [values, List.length_flatMap, List.map_const']

theorem values_drop {i : Nat} (hi : i < 5) : t.values[i]? = some t.drop[i] := by
  rw [values, List.getElem?_append_left (by simpa using hi)]
  simp [hi]

theorem values_lead {i j : Nat} (hi : i < 5) (hj : j < 4) :
    t.values[5 + 4 * i + j]? = some t.lead[i][j] := by
  rw [values, List.getElem?_append_right (by simp; omega)]
  rw [show 5 + 4 * i + j - t.drop.toList.length = 4 * i + j by simp; omega]
  rw [getElem_flatMap_rows (by simpa using hi) hj]
  simp

@[simp] theorem length_payload : t.payload.length = 50 := by
  rw [payload, length_flatMap_ofInt16, length_values]

@[simp] theorem length_encode : t.encode.length = fileLength := by
  simp [encode, fileLength]

theorem ofPayload_payload : ofPayload t.payload = t := by
  have hvalue : ∀ {i v}, t.values[i]? = some v → valueAt t.payload i = v := by
    intro i v h
    obtain ⟨hi, hv⟩ := List.getElem?_eq_some_iff.mp h
    rw [← hv]
    exact valueAt_flatMap hi
  have hdrop : (ofPayload t.payload).drop = t.drop := by
    apply Vector.ext
    intro i hi
    simpa [ofPayload] using hvalue (t.values_drop hi)
  have hlead : (ofPayload t.payload).lead = t.lead := by
    apply Vector.ext
    intro i hi
    apply Vector.ext
    intro j hj
    simpa [ofPayload] using hvalue (t.values_lead hi hj)
  calc ofPayload t.payload
      = ⟨(ofPayload t.payload).drop, (ofPayload t.payload).lead⟩ := rfl
    _ = t := by rw [hdrop, hlead]

/-- A table is read back from its own file. -/
theorem decode_encode : decode t.encode = .ok t := by
  have hchecksum : t.encode.take 4 = Bytes.ofWord t.checksum := by simp [encode]
  have hpayload : t.encode.drop 4 = t.payload := by simp [encode]
  rw [decode, if_neg (by simp), hchecksum, hpayload]
  simp [checksum, ofPayload_payload]

end FireControl.Calibration.Table
