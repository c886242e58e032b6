import FireControl.Proofs.Wire.Hunt
import FireControl.Proofs.Wire.Layout

/-!
# Receiving is parsing

`parse` reads the frames of a byte string that is all there: from magic word to magic word, with the
frames decoded from the whole string. `parse_eq_scan` says that the byte-at-a-time run finds the
same frames with the same tallies. It rests on the closed forms of collecting a header and a body
(`scan_inHeader`, `scan_inBody`).
-/

namespace FireControl.Wire

/-- The frames of a byte string, each with the tally at its end, and the tally at the end of the
bytes. A header whose stated length is out of range is dropped and the search goes on behind it. -/
def parse (limit : Nat) (tally : Tally) (bytes : Bytes) : List (Frame × Tally) × Tally :=
  match _hlocate : locate bytes with
  | none => ([], tally.skip (bytes.length - undecided bytes))
  | some (before, found) =>
    let tally := tally.skip before
    let stated := (wordAt 12 found).toNat
    if found.length < 40 then ([], tally)
    else if stated < 40 ∨ limit < stated then parse limit tally.reject (found.drop 40)
    else if found.length < stated then ([], tally)
    else
      match Frame.decode found limit with
      | .error _ => ([], tally)
      | .ok frame =>
        let later := parse limit tally.accept (found.drop stated)
        ((frame, tally.accept) :: later.1, later.2)
termination_by bytes.length
decreasing_by
  all_goals
    have hlength := (locate_spec _hlocate).1
    rw [List.length_drop]
    omega

/-! ## Collecting headers and bodies -/

theorem scan_inHeader (limit : Nat) (tally : Tally) {missing : Nat} (hpos : 0 < missing)
    (collected bytes : Bytes) :
    scan limit (.inHeader missing collected) tally bytes =
      if bytes.length < missing then .starved tally
      else resume limit tally (bytes.drop missing)
        (Phase.ofHeader limit (collected.reverse ++ bytes.take missing)) := by
  induction bytes generalizing missing collected with
  | nil => rw [List.length_nil, if_pos hpos, scan]
  | cons byte rest ih =>
    rw [scan_cons]
    simp only [Phase.accept]
    by_cases hlast : missing ≤ 1
    · obtain rfl : missing = 1 := by omega
      rw [if_pos hlast, if_neg (by simp)]
      simp
    · obtain ⟨n, rfl⟩ : ∃ n, missing = n + 1 := ⟨missing - 1, by omega⟩
      rw [if_neg hlast]
      show scan limit (.inHeader (n + 1 - 1) (byte :: collected)) (tally.skip 0) rest = _
      rw [Tally.skip_zero, Nat.add_sub_cancel, ih (by omega)]
      simp

theorem scan_inBody (limit : Nat) (tally : Tally) (header : Header) {missing : Nat}
    (hpos : 0 < missing) (collected bytes : Bytes) :
    scan limit (.inBody header missing collected) tally bytes =
      if bytes.length < missing then .starved tally
      else .frame ⟨header, collected.reverse ++ bytes.take missing⟩ tally.accept
        (bytes.drop missing) := by
  induction bytes generalizing missing collected with
  | nil => rw [List.length_nil, if_pos hpos, scan]
  | cons byte rest ih =>
    rw [scan_cons]
    simp only [Phase.accept]
    by_cases hlast : missing ≤ 1
    · obtain rfl : missing = 1 := by omega
      rw [if_pos hlast, if_neg (by simp)]
      simp [resume]
    · obtain ⟨n, rfl⟩ : ∃ n, missing = n + 1 := ⟨missing - 1, by omega⟩
      rw [if_neg hlast]
      show scan limit (.inBody header (n + 1 - 1) (byte :: collected)) (tally.skip 0) rest = _
      rw [Tally.skip_zero, Nat.add_sub_cancel, ih (by omega)]
      simp

/-- What a complete header leads to, with the bytes behind it. -/
theorem resume_ofHeader (limit : Nat) (tally : Tally) {fields : Bytes} (rest : Bytes)
    (hfields : fields.length = 32) {stated : Nat}
    (hstated : (Header.ofFields fields).totalLength.toNat = stated) :
    resume limit tally rest (Phase.ofHeader limit fields) =
      if stated < 40 ∨ limit < stated then scan limit (.hunting 0) tally.reject rest
      else if rest.length + 40 < stated then .starved tally
      else .frame ⟨Header.ofFields fields, rest.take (stated - 40)⟩ tally.accept
        (rest.drop (stated - 40)) := by
  unfold Phase.ofHeader
  rw [Header.readFields_eq (Nat.le_of_eq hfields.symm)]
  dsimp only
  cases hbody : (Header.ofFields fields).bodyLength limit with
  | error e =>
    have hrange := Header.bodyLength_eq_error hbody
    rw [hstated] at hrange
    rw [if_pos hrange]
    rfl
  | ok n =>
    obtain ⟨hlow, hhigh, hn⟩ := Header.bodyLength_eq_ok.mp hbody
    rw [hstated] at hlow hhigh hn
    subst hn
    have hrange : ¬ (n + 40 < 40 ∨ limit < n + 40) := by omega
    rw [if_neg hrange, Nat.add_sub_cancel]
    cases n with
    | zero =>
      rw [if_neg (by omega)]
      rfl
    | succ n =>
      show scan limit (.inBody _ (n + 1) []) (tally.skip 0) rest = _
      rw [Tally.skip_zero, scan_inBody limit tally _ (Nat.succ_pos n)]
      simp only [Nat.add_lt_add_iff_right, List.reverse_nil, List.nil_append]

/-- What a receiver does behind a magic word. -/
theorem scan_header (limit : Nat) (tally : Tally) (fields rest : Bytes)
    (hfields : fields.length = 32) {stated : Nat}
    (hstated : (Header.ofFields fields).totalLength.toNat = stated) :
    scan limit (.inHeader Phase.fieldBytes []) tally (fields ++ rest) =
      if stated < 40 ∨ limit < stated then scan limit (.hunting 0) tally.reject rest
      else if rest.length + 40 < stated then .starved tally
      else .frame ⟨Header.ofFields fields, rest.take (stated - 40)⟩ tally.accept
        (rest.drop (stated - 40)) := by
  have hmissing : Phase.fieldBytes = fields.length := hfields.symm
  rw [hmissing, scan_inHeader limit tally (by omega), List.length_append,
    if_neg (Nat.not_lt_of_le (Nat.le_add_right _ _)), List.take_left, List.drop_left,
    List.reverse_nil, List.nil_append, resume_ofHeader limit tally rest hfields hstated]

/-! ## The two runs agree -/

/-- Splits off the fields of a header. -/
theorem exists_fields {rest : Bytes} (h : 32 ≤ rest.length) :
    ∃ fields body, rest = fields ++ body ∧ fields.length = 32 :=
  ⟨rest.take 32, rest.drop 32, (List.take_append_drop 32 rest).symm, List.length_take_of_le h⟩

theorem drop_header {fields : Bytes} (body : Bytes) (hfields : fields.length = 32) (n : Nat) :
    (magic ++ (fields ++ body)).drop (40 + n) = body.drop n := by
  have hfront : (magic ++ fields).length = 40 := by
    rw [List.length_append, hfields]
    rfl
  rw [← List.append_assoc, ← hfront, ← List.drop_drop, List.drop_left]

/-- What parsing does at a header. A frame that is all there is always decoded. -/
theorem parse_header {limit before : Nat} (tally : Tally) {bytes fields body : Bytes}
    (hlocate : locate bytes = some (before, magic ++ (fields ++ body)))
    (hfields : fields.length = 32) {stated : Nat}
    (hstated : (Header.ofFields fields).totalLength.toNat = stated) :
    parse limit tally bytes =
      if stated < 40 ∨ limit < stated then parse limit (tally.skip before).reject body
      else if body.length + 40 < stated then ([], tally.skip before)
      else
        let later := parse limit (tally.skip before).accept (body.drop (stated - 40))
        ((⟨Header.ofFields fields, body.take (stated - 40)⟩, (tally.skip before).accept) :: later.1,
          later.2) := by
  have hword : (wordAt 12 (magic ++ (fields ++ body))).toNat = stated := by
    have hfour : wordAt 4 (fields ++ body) = wordAt 4 fields := wordAt_append body (by omega)
    rw [← hstated]
    exact congrArg UInt32.toNat hfour
  have hlength : (magic ++ (fields ++ body)).length = body.length + 40 := by
    rw [List.length_append, List.length_append, hfields, show magic.length = 8 from rfl]
    omega
  rw [parse]
  split
  · next hnone =>
    rw [hlocate] at hnone
    cases hnone
  · next before' found hfound =>
    rw [hlocate] at hfound
    cases hfound
    dsimp only
    rw [hword, hlength, if_neg (by omega)]
    by_cases hrange : stated < 40 ∨ limit < stated
    · have hbody := drop_header body hfields 0
      rw [List.drop_zero, Nat.add_zero] at hbody
      rw [if_pos hrange, if_pos hrange, hbody]
    · rw [if_neg hrange, if_neg hrange]
      by_cases hpartial : body.length + 40 < stated
      · rw [if_pos hpartial, if_pos hpartial]
      · obtain ⟨n, rfl⟩ : ∃ n, stated = 40 + n := ⟨stated - 40, by omega⟩
        have hbody : (Header.ofFields fields).bodyLength limit = .ok n :=
          Header.bodyLength_eq_ok.mpr (by rw [hstated]; omega)
        have hdecode := Frame.decode_eq_ok hfields hbody (show n ≤ body.length by omega)
        rw [List.append_assoc] at hdecode
        rw [if_neg hpartial, if_neg hpartial, hdecode, drop_header body hfields,
          Nat.add_sub_cancel_left]

/-- Parsing goes on behind the frame that the byte-at-a-time run finds next. -/
theorem parse_eq_scan (limit : Nat) (tally : Tally) (bytes : Bytes) :
    parse limit tally bytes =
      match scan limit (.hunting 0) tally bytes with
      | .starved tally => ([], tally)
      | .frame frame tally rest =>
        ((frame, tally) :: (parse limit tally rest).1, (parse limit tally rest).2) := by
  -- Only a dropped header keeps both runs going: the induction is on the bytes behind it.
  induction hn : bytes.length using Nat.strongRecOn generalizing tally bytes with
  | ind n ih =>
    rw [scan_hunting limit (by decide), List.take_zero, List.nil_append, huntResult]
    cases hlocate : locate bytes with
    | none =>
      rw [parse, hlocate]
    | some pair =>
      obtain ⟨before, found⟩ := pair
      obtain ⟨hlength, rest, rfl⟩ := locate_spec hlocate
      rw [List.length_append, show magic.length = 8 from rfl] at hlength
      dsimp only
      rw [List.drop_left]
      by_cases hshort : rest.length < 32
      · have hmissing : rest.length < Phase.fieldBytes := hshort
        have hpartial : (magic ++ rest).length < 40 := by
          rw [List.length_append, show magic.length = 8 from rfl]
          omega
        rw [scan_inHeader limit _ (by decide), if_pos hmissing, parse, hlocate]
        exact if_pos hpartial
      · obtain ⟨fields, body, rfl, hfields⟩ := exists_fields (Nat.le_of_not_lt hshort)
        rw [parse_header tally hlocate hfields rfl, scan_header limit _ fields body hfields rfl]
        by_cases hrange : (Header.ofFields fields).totalLength.toNat < 40 ∨
            limit < (Header.ofFields fields).totalLength.toNat
        · rw [if_pos hrange, if_pos hrange]
          refine ih _ ?_ _ _ rfl
          rw [List.length_append] at hlength
          omega
        · rw [if_neg hrange, if_neg hrange]
          split <;> rfl

end FireControl.Wire
