import FireControl.Proofs.Wire.CloudGrammar
import FireControl.Proofs.Wire.Format

/-!
# Clouds on the wire

Detections are numbers of four and of two bytes, and writing such a number undoes reading it
(`ofWord_wordAt`, `ofInt16_int16At`) as reading undoes writing. So the entries read from two payloads
are written as the bytes they were read from (`points_of_entries`, `side_of_entries`), and the entries
read from encoded detections are the detections (`entries_encoded`). `clouds_survive_the_wire` says
this of whole frames.
-/

namespace FireControl.Wire

/-- Two pieces in a row are one piece. -/
theorem take_drop_append (bytes : Bytes) (offset width width' : Nat) :
    (bytes.drop offset).take width ++ (bytes.drop (offset + width)).take width' =
      (bytes.drop offset).take (width + width') := by
  rw [List.take_add, List.drop_drop]

theorem length_piece {offset width : Nat} {bytes : Bytes} (h : offset + width ≤ bytes.length) :
    ((bytes.drop offset).take width).length = width := by
  apply List.length_take_of_le
  rw [List.length_drop]
  omega

theorem ofWord_wordAt {offset : Nat} {bytes : Bytes} (h : offset + 4 ≤ bytes.length) :
    Bytes.ofWord (wordAt offset bytes) = (bytes.drop offset).take 4 :=
  Bytes.ofWord_toWord (length_piece h)

theorem ofInt16_int16At {offset : Nat} {bytes : Bytes} (h : offset + 2 ≤ bytes.length) :
    Bytes.ofInt16 (int16At offset bytes) = (bytes.drop offset).take 2 :=
  Bytes.ofInt16_toInt16 (length_piece h)

namespace PointCloud

/-! ## Writing what was read -/

variable {points side : Bytes}

theorem pointBytes_entryAt {i : Nat} (h : 16 * i + 16 ≤ points.length) :
    pointBytes (entryAt points side i) = (points.drop (16 * i)).take 16 := by
  unfold pointBytes entryAt
  simp only [ofWord_wordAt (show 16 * i + 4 ≤ points.length by omega),
    ofWord_wordAt (show 16 * i + 4 + 4 ≤ points.length by omega),
    ofWord_wordAt (show 16 * i + 8 + 4 ≤ points.length by omega),
    ofWord_wordAt (show 16 * i + 12 + 4 ≤ points.length by omega), take_drop_append]

theorem sideBytes_entryAt {i : Nat} (h : 4 * i + 4 ≤ side.length) :
    sideBytes (entryAt points side i) = (side.drop (4 * i)).take 4 := by
  unfold sideBytes entryAt
  simp only [ofInt16_int16At (show 4 * i + 2 ≤ side.length by omega),
    ofInt16_int16At (show 4 * i + 2 + 2 ≤ side.length by omega), take_drop_append]

/-- Pieces of one width, one after the other, are the bytes in front of where they end. -/
theorem pieces_flatMap {α : Type} {write : α → Bytes} {entry : Nat → α} {bytes : Bytes}
    {width : Nat} (count : Nat)
    (h : ∀ i < count, write (entry i) = (bytes.drop (width * i)).take width) :
    ((List.range count).map entry).flatMap write = bytes.take (width * count) := by
  induction count with
  | zero => rfl
  | succ count ih =>
    have hfront := ih fun i hi => h i (by omega)
    calc ((List.range (count + 1)).map entry).flatMap write
      _ = ((List.range count).map entry).flatMap write ++ write (entry count) := by
        simp [List.range_succ]
      _ = bytes.take (width * count) ++ (bytes.drop (width * count)).take width := by
        rw [hfront, h count (by omega)]
      _ = bytes.take (width * (count + 1)) := by
        rw [Nat.mul_succ, List.take_add]

theorem points_of_entries {count : Nat} (h : 16 * count ≤ points.length) :
    ((List.range count).map (entryAt points side)).flatMap pointBytes = points.take (16 * count) := by
  apply pieces_flatMap
  intro i hi
  apply pointBytes_entryAt
  omega

theorem side_of_entries {count : Nat} (h : 4 * count ≤ side.length) :
    ((List.range count).map (entryAt points side)).flatMap sideBytes = side.take (4 * count) := by
  apply pieces_flatMap
  intro i hi
  apply sideBytes_entryAt
  omega

/-- Beyond its end a payload is all there is of it, so that clipping the count clips the bytes. -/
theorem take_clipped {bytes : Bytes} {width count : Nat} (h : bytes.length = width * count)
    (most : Nat) : bytes.take (width * min most count) = bytes.take (width * most) := by
  rw [List.take_eq_take_iff, h, ← Nat.mul_min_mul_left, Nat.min_assoc, Nat.min_self]

/-- The detections of a cloud are written as the records they were read from, up to the capacity. -/
theorem encode_of_matched {points side : Record} (hkind : points.kind = pointsKind)
    (h : Matched points side) :
    encode ((List.range (min 325 (points.payload.length / 16))).map
        (entryAt points.payload side.payload)) =
      [⟨points.kind, points.payload.take (16 * 325)⟩, ⟨side.kind, side.payload.take (4 * 325)⟩] := by
  obtain ⟨n, hpoints⟩ := h.wholePoints
  obtain ⟨m, hside⟩ := h.wholeSide
  obtain rfl : n = m := by
    have hcount := h.count
    omega
  have hentries : points.payload.length / 16 = n := by omega
  unfold encode
  rw [hentries, hkind, h.kind, points_of_entries (by omega), side_of_entries (by omega),
    take_clipped hpoints, take_clipped hside]

/-! ## Reading what was written -/

theorem length_pointBytes (d : Detection) : (pointBytes d).length = 16 := rfl

theorem length_sideBytes (d : Detection) : (sideBytes d).length = 4 := rfl

theorem length_points (detections : List Detection) :
    (detections.flatMap pointBytes).length = 16 * detections.length :=
  Bytes.length_flatMap length_pointBytes detections

theorem length_side (detections : List Detection) :
    (detections.flatMap sideBytes).length = 4 * detections.length :=
  Bytes.length_flatMap length_sideBytes detections

theorem detection_encoded (d : Detection) : detection (pointBytes d) (sideBytes d) = d := by
  have hrange : (pointBytes d).take 4 = Bytes.ofWord d.range := rfl
  have hazimuth : ((pointBytes d).drop 4).take 4 = Bytes.ofWord d.azimuth := rfl
  have helevation : ((pointBytes d).drop 8).take 4 = Bytes.ofWord d.elevation := rfl
  have hvelocity : ((pointBytes d).drop 12).take 4 = Bytes.ofWord d.velocity := rfl
  have hsnr : (sideBytes d).take 2 = Bytes.ofInt16 d.snr := rfl
  have hnoise : ((sideBytes d).drop 2).take 2 = Bytes.ofInt16 d.noise := rfl
  simp only [detection, hrange, hazimuth, helevation, hvelocity, hsnr, hnoise, Bytes.toWord_ofWord,
    Bytes.toInt16_ofInt16]

theorem pair_encoded (detections : List Detection) :
    pair detections.length (detections.flatMap pointBytes) (detections.flatMap sideBytes) =
      detections := by
  induction detections with
  | nil => rfl
  | cons d detections ih =>
    -- The bytes of the first detection are the first chunks.
    have hpoint : (pointBytes d).length = pointLength := length_pointBytes d
    have hside : (sideBytes d).length = sideLength := length_sideBytes d
    unfold pair at ih ⊢
    rw [List.flatMap_cons, List.flatMap_cons, List.length_cons, Bytes.chunks, Bytes.chunks, ← hpoint,
      ← hside, List.take_left, List.drop_left, List.take_left, List.drop_left, List.zipWith_cons_cons,
      detection_encoded, hpoint, hside, ih]

theorem matched_encoded (detections : List Detection) :
    Matched ⟨pointsKind, detections.flatMap pointBytes⟩ ⟨sideKind, detections.flatMap sideBytes⟩ := by
  have hpoints := length_points detections
  have hside := length_side detections
  refine ⟨rfl, ⟨_, hpoints⟩, ⟨_, hside⟩, ?_⟩
  show (detections.flatMap pointBytes).length / 16 = (detections.flatMap sideBytes).length / 4
  omega

theorem entries_encoded (detections : List Detection) :
    (List.range (min 325 ((detections.flatMap pointBytes).length / 16))).map
        (entryAt (detections.flatMap pointBytes) (detections.flatMap sideBytes)) =
      detections.take 325 := by
  have hcount : (detections.flatMap pointBytes).length / 16 = detections.length := by
    have hlength := length_points detections
    omega
  rw [hcount, ← List.take_range, List.map_take, ← pair_eq, pair_encoded]

/-- Frames whose first records are encoded detections carry them. -/
theorem ofFrame_encoded {f : Frame} {detections : List Detection} {more : List Record}
    (h : f.records = (encode detections ++ more).map .ok) :
    ofFrame f = .ok (some ⟨f.header.frameNumber, f.header.cycles, detections.take 325⟩) := by
  have hcloud := ofRecords_of_matched (matched_encoded detections) (more.map .ok)
  rw [entries_encoded] at hcloud
  unfold ofFrame
  rw [h]
  show (ofRecords (detections.flatMap pointBytes)
    (.ok ⟨sideKind, detections.flatMap sideBytes⟩ :: more.map .ok)).map _ = _
  rw [hcloud]
  rfl

theorem records_of_cloud {f : Frame} {cloud : PointCloud} (h : ofFrame f = .ok (some cloud)) :
    ∃ points side later, f.records = .ok points :: .ok side :: later ∧
      points.kind = pointsKind ∧ Matched points side ∧
      cloud.detections = (List.range (min 325 (points.payload.length / 16))).map
        (entryAt points.payload side.payload) := by
  obtain ⟨points, behind, side, rest, hopens, hsecond, hmatched, rfl⟩ := ofFrame_eq_some.mp h
  refine ⟨points, side, f.walkFrom 2 rest, ?_, hopens.kind, hmatched, rfl⟩
  rw [f.records_eq_walkFrom, Frame.walkFrom_has hopens.first, Frame.walkFrom_has hsecond]

end PointCloud

open PointCloud in
/-- Detections that are sent in front of other records come back with every bit, up to the capacity,
in a cloud with the number and the time of the frame. The detections of any cloud, encoded again, are
the first two records of its frame as far as the capacity goes, and so the whole of them where they
hold no more. -/
theorem clouds_survive_the_wire :
    (∀ (detections : List Detection) (more : List Record) (frameNumber cycles : UInt32)
        (limit : Nat), 40 + ((encode detections ++ more).map fun r => 8 + r.payload.length).sum ≤
          min limit 4294967295 → ∀ extra,
      ∃ f, Frame.decode
          (Frame.encode frameNumber cycles (encode detections ++ more) ++ extra) limit = .ok f ∧
        ofFrame f = .ok (some ⟨frameNumber, cycles, detections.take 325⟩)) ∧
    ∀ f cloud, ofFrame f = .ok (some cloud) →
      ∃ points side later, f.records = .ok points :: .ok side :: later ∧
        encode cloud.detections = [⟨points.kind, points.payload.take (16 * 325)⟩,
          ⟨side.kind, side.payload.take (4 * 325)⟩] ∧
        (points.payload.length ≤ 16 * 325 → encode cloud.detections = [points, side]) := by
  constructor
  · intro detections more frameNumber cycles limit hfits extra
    rw [← Frame.length_body_eq, ← Frame.length_encode frameNumber cycles] at hfits
    obtain ⟨hlimit, hmost⟩ := Nat.le_min.mp hfits
    have hword : (Frame.encode frameNumber cycles (encode detections ++ more)).length < 2 ^ 32 := by
      omega
    exact ⟨_, Frame.decode_sent hword hlimit extra, ofFrame_encoded (Frame.records_sent hword)⟩
  · intro f cloud hcloud
    obtain ⟨points, side, later, hrecords, hkind, hmatched, hdetections⟩ := records_of_cloud hcloud
    have hencode := encode_of_matched hkind hmatched
    rw [← hdetections] at hencode
    refine ⟨points, side, later, hrecords, hencode, ?_⟩
    intro hlength
    have hside : side.payload.length ≤ 4 * 325 := by
      obtain ⟨n, hpoints⟩ := hmatched.wholePoints
      obtain ⟨m, hentries⟩ := hmatched.wholeSide
      have hcount := hmatched.count
      omega
    rw [hencode, List.take_of_length_le hlength, List.take_of_length_le hside]

open PointCloud in
/-- Two patterns that are no numbers and a negative zero, in front of another record and a magic
word. -/
theorem clouds_survive_the_wire_bits :
    let d : Detection := ⟨0x7FC00001, 0x80000000, 0xFF800001, 0, -32768, 32767⟩
    let records := encode [d] ++ [⟨9, [1]⟩]
    40 + (records.map fun r => 8 + r.payload.length).sum ≤ min 1024 4294967295 ∧
      ∃ f points side later, Frame.decode (Frame.encode 7 9 records ++ magic) 1024 = .ok f ∧
        ofFrame f = .ok (some ⟨7, 9, [d]⟩) ∧ f.records = .ok points :: .ok side :: later ∧
        points.payload.length ≤ 16 * 325 ∧ encode [d] = [points, side] := by
  intro d records
  have hfits : 40 + (records.map fun r => 8 + r.payload.length).sum ≤ min 1024 4294967295 := by
    decide
  obtain ⟨hsent, hencoded⟩ := clouds_survive_the_wire
  obtain ⟨f, hread, hcloud⟩ := hsent [d] [⟨9, [1]⟩] 7 9 1024 hfits magic
  obtain ⟨points, side, later, hrecords, hclipped, hwhole⟩ := hencoded f _ hcloud
  have hlength : points.payload.length ≤ 16 * 325 := by
    have htake : (pointBytes d).length = (points.payload.take (16 * 325)).length :=
      congrArg (fun r => r.payload.length) (List.cons.inj hclipped).1
    rw [show (pointBytes d).length = 16 from rfl, List.length_take] at htake
    omega
  exact ⟨hfits, f, points, side, later, hread, hcloud, hrecords, hlength, hwhole hlength⟩

end FireControl.Wire
