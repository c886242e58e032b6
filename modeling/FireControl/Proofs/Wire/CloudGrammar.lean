import FireControl.Proofs.Wire.FirstRecords
import FireControl.Wire.PointCloud

/-!
# The grammar of a point cloud

A frame carries no points (`Bare`), or its first two records are a cloud (`Carries`), or there is a
first fault in the order of the wire (`FirstFault`). One of the three is the case (`judged`), and each
determines what is made of the frame: `clouds_follow_the_grammar`. The detections of a cloud are read
entry by entry (`entryAt`) although the two payloads are cut into pieces one after the other
(`pair_eq`), and bytes behind the two records are not looked at.
-/

namespace FireControl.Wire

/-- The signed number that starts `offset` bytes into `bytes`. -/
def int16At (offset : Nat) (bytes : Bytes) : Int16 := Bytes.toInt16 ((bytes.drop offset).take 2)

theorem chunks_eq (stride count : Nat) (bytes : Bytes) :
    Bytes.chunks stride count bytes =
      (List.range count).map fun i => (bytes.drop (stride * i)).take stride := by
  induction count generalizing bytes with
  | zero => rfl
  | succ count ih =>
    rw [Bytes.chunks, ih, List.range_succ_eq_map, List.map_cons, List.map_map]
    simp only [Function.comp_def, List.drop_drop, Nat.mul_zero, List.drop_zero, Nat.mul_succ,
      Nat.add_comm stride]

/-- A piece of a piece is a piece. -/
theorem take_drop_take {offset inner width stride : Nat} (bytes : Bytes)
    (h : inner + width ≤ stride) :
    (((bytes.drop offset).take stride).drop inner).take width =
      (bytes.drop (offset + inner)).take width := by
  rw [List.drop_take, List.take_take, List.drop_drop, Nat.min_eq_left (by omega)]

namespace PointCloud

/-- The detection at an index of two payloads. -/
def entryAt (points side : Bytes) (i : Nat) : Detection :=
  { range := wordAt (16 * i) points
    azimuth := wordAt (16 * i + 4) points
    elevation := wordAt (16 * i + 8) points
    velocity := wordAt (16 * i + 12) points
    snr := int16At (4 * i) side
    noise := int16At (4 * i + 2) side }

theorem detection_piece (points side : Bytes) (i : Nat) :
    detection ((points.drop (16 * i)).take 16) ((side.drop (4 * i)).take 4) =
      entryAt points side i := by
  have hfirst : ((points.drop (16 * i)).take 16).take 4 = (points.drop (16 * i)).take 4 :=
    @take_drop_take (16 * i) 0 4 16 points (by decide)
  have hsnr : ((side.drop (4 * i)).take 4).take 2 = (side.drop (4 * i)).take 2 :=
    @take_drop_take (4 * i) 0 2 4 side (by decide)
  simp only [detection, entryAt, wordAt, int16At, hfirst, hsnr, take_drop_take, Nat.reduceAdd,
    Nat.reduceLeDiff]

theorem pair_eq (count : Nat) (points side : Bytes) :
    pair count points side = (List.range count).map (entryAt points side) := by
  unfold pair
  rw [chunks_eq, chunks_eq, List.zipWith_map, List.zipWith_self]
  exact List.map_congr_left fun i _ => detection_piece points side i

/-! ## Frames with and without a cloud -/

/-- Nothing in the frame asks for points: there is no record, or the first one is of another type. -/
def Bare (f : Frame) : Prop :=
  f.Over 0 f.body ∨ ∃ first behind, f.Has 0 f.body first behind ∧ first.kind ≠ pointsKind

/-- The first record holds spherical points, in front of `behind`. -/
structure Opens (f : Frame) (points : Record) (behind : Bytes) : Prop where
  first : f.Has 0 f.body points behind
  kind : points.kind = pointsKind

/-- The side information belongs to the points: both hold whole entries, and as many. -/
structure Matched (points side : Record) : Prop where
  kind : side.kind = sideKind
  wholePoints : 16 ∣ points.payload.length
  wholeSide : 4 ∣ side.payload.length
  count : points.payload.length / 16 = side.payload.length / 4

/-- The first two records are the cloud, whose later detections are dropped. -/
def Carries (f : Frame) (cloud : PointCloud) : Prop :=
  ∃ points behind side rest, Opens f points behind ∧ f.Has 1 behind side rest ∧
    Matched points side ∧ cloud =
      { frameNumber := f.header.frameNumber
        cycles := f.header.cycles
        detections := (List.range (min 325 (points.payload.length / 16))).map
          (entryAt points.payload side.payload) }

/-- The faults of a frame, each with the conditions in front of it that are met. -/
inductive FirstFault (f : Frame) : CloudError → Prop
  | cut : f.Cut 0 f.body → FirstFault f (.frame (Frame.cutFault 0 f.body))
  | raggedPoints {points behind} : Opens f points behind → ¬ 16 ∣ points.payload.length →
      FirstFault f (.badPayloadLength pointsKind points.payload.length 16)
  | alone {points behind} : Opens f points behind → 16 ∣ points.payload.length →
      f.Over 1 behind → FirstFault f (.unexpectedRecord sideKind none)
  | cutSide {points behind} : Opens f points behind → 16 ∣ points.payload.length →
      f.Cut 1 behind → FirstFault f (.frame (Frame.cutFault 1 behind))
  | otherSide {points behind side rest} : Opens f points behind → 16 ∣ points.payload.length →
      f.Has 1 behind side rest → side.kind ≠ sideKind →
      FirstFault f (.unexpectedRecord sideKind (some side.kind))
  | raggedSide {points behind side rest} : Opens f points behind → 16 ∣ points.payload.length →
      f.Has 1 behind side rest → side.kind = sideKind → ¬ 4 ∣ side.payload.length →
      FirstFault f (.badPayloadLength sideKind side.payload.length 4)
  | unequal {points behind side rest} : Opens f points behind → 16 ∣ points.payload.length →
      f.Has 1 behind side rest → side.kind = sideKind → 4 ∣ side.payload.length →
      points.payload.length / 16 ≠ side.payload.length / 4 →
      FirstFault f
        (.pointCountMismatch (points.payload.length / 16) (side.payload.length / 4))

theorem judged (f : Frame) : Bare f ∨ (∃ cloud, Carries f cloud) ∨ ∃ e, FirstFault f e := by
  rcases f.over_or_cut_or_has 0 f.body with hover | hcut | ⟨points, behind, hfirst⟩
  · exact Or.inl (Or.inl hover)
  · exact Or.inr (Or.inr ⟨_, .cut hcut⟩)
  -- The conditions in the order of the wire: where one fails, those behind it do not matter.
  by_cases hkind : points.kind = pointsKind
  case neg => exact Or.inl (Or.inr ⟨points, behind, hfirst, hkind⟩)
  have hopens : Opens f points behind := ⟨hfirst, hkind⟩
  right
  by_cases hpoints : 16 ∣ points.payload.length
  case neg => exact Or.inr ⟨_, .raggedPoints hopens hpoints⟩
  rcases f.over_or_cut_or_has 1 behind with hover | hcut | ⟨side, rest, hsecond⟩
  · exact Or.inr ⟨_, .alone hopens hpoints hover⟩
  · exact Or.inr ⟨_, .cutSide hopens hpoints hcut⟩
  by_cases hother : side.kind = sideKind
  case neg => exact Or.inr ⟨_, .otherSide hopens hpoints hsecond hother⟩
  by_cases hside : 4 ∣ side.payload.length
  case neg => exact Or.inr ⟨_, .raggedSide hopens hpoints hsecond hother hside⟩
  by_cases hcount : points.payload.length / 16 = side.payload.length / 4
  case neg => exact Or.inr ⟨_, .unequal hopens hpoints hsecond hother hside hcount⟩
  exact Or.inl ⟨_, points, behind, side, rest, hopens, hsecond,
    ⟨hother, hpoints, hside, hcount⟩, rfl⟩

/-! ## What is made of them -/

variable {f : Frame} {first second points side : Record} {behind rest : Bytes}

theorem entryCount_of_dvd {kind : UInt32} {stride : Nat} {payload : Bytes}
    (h : stride ∣ payload.length) :
    entryCount kind stride payload = .ok (payload.length / stride) := by
  unfold entryCount
  rw [if_pos (Nat.mod_eq_zero_of_dvd h)]

theorem entryCount_of_not_dvd {kind : UInt32} {stride : Nat} {payload : Bytes}
    (h : ¬ stride ∣ payload.length) :
    entryCount kind stride payload = .error (.badPayloadLength kind payload.length stride) := by
  unfold entryCount
  rw [if_neg (mt Nat.dvd_of_mod_eq_zero h)]

theorem ofRecords_of_matched (h : Matched points side) (later : List (Except FrameError Record)) :
    ofRecords points.payload (.ok side :: later) =
      .ok ((List.range (min 325 (points.payload.length / 16))).map
        (entryAt points.payload side.payload)) := by
  have hpair : (pair (points.payload.length / 16) points.payload side.payload).take capacity =
      (List.range (min 325 (points.payload.length / 16))).map
        (entryAt points.payload side.payload) := by
    rw [pair_eq, ← List.map_take, List.take_range]
    rfl
  rw [← hpair]
  unfold ofRecords
  simp only [pointLength, sideLength, entryCount_of_dvd h.wholePoints, entryCount_of_dvd h.wholeSide,
    if_neg (not_not_intro h.kind), if_neg (not_not_intro h.count), bind, Except.bind, pure,
    Except.pure]

/-- A frame with a first record is judged by that record and the walk from there on. -/
theorem ofFrame_of_first (h : f.Has 0 f.body first behind) : ofFrame f =
    if first.kind ≠ pointsKind then .ok none
    else (ofRecords first.payload (f.walkFrom 1 behind)).map fun detections =>
      some ⟨f.header.frameNumber, f.header.cycles, detections⟩ := by
  unfold ofFrame
  rw [f.records_eq_walkFrom, Frame.walkFrom_has h]

theorem ofFrame_of_opens (h : Opens f points behind) : ofFrame f =
    (ofRecords points.payload (f.walkFrom 1 behind)).map fun detections =>
      some ⟨f.header.frameNumber, f.header.cycles, detections⟩ := by
  rw [ofFrame_of_first h.first, if_neg (not_not_intro h.kind)]

theorem ofFrame_of_bare (h : Bare f) : ofFrame f = .ok none := by
  rcases h with hover | ⟨first, behind, hfirst, hkind⟩
  · unfold ofFrame
    rw [f.records_eq_walkFrom, Frame.walkFrom_over hover]
  · rw [ofFrame_of_first hfirst, if_pos hkind]

theorem ofFrame_of_carries {cloud : PointCloud} (h : Carries f cloud) :
    ofFrame f = .ok (some cloud) := by
  obtain ⟨points, behind, side, rest, hopens, hsecond, hmatched, rfl⟩ := h
  rw [ofFrame_of_opens hopens, Frame.walkFrom_has hsecond, ofRecords_of_matched hmatched]
  rfl

theorem ofFrame_of_fault {e : CloudError} (h : FirstFault f e) : ofFrame f = .error e := by
  cases h with
  | cut hcut =>
    unfold ofFrame
    rw [f.records_eq_walkFrom, Frame.walkFrom_cut hcut]
  | raggedPoints hopens hpoints =>
    rw [ofFrame_of_opens hopens]
    simp only [ofRecords, pointLength, entryCount_of_not_dvd hpoints]
    rfl
  | alone hopens hpoints hover =>
    rw [ofFrame_of_opens hopens, Frame.walkFrom_over hover]
    simp only [ofRecords, pointLength, entryCount_of_dvd hpoints]
    rfl
  | cutSide hopens hpoints hcut =>
    rw [ofFrame_of_opens hopens, Frame.walkFrom_cut hcut]
    simp only [ofRecords, pointLength, entryCount_of_dvd hpoints]
    rfl
  | otherSide hopens hpoints hsecond hother =>
    rw [ofFrame_of_opens hopens, Frame.walkFrom_has hsecond]
    simp only [ofRecords, pointLength, entryCount_of_dvd hpoints, if_pos hother]
    rfl
  | raggedSide hopens hpoints hsecond hkind hside =>
    rw [ofFrame_of_opens hopens, Frame.walkFrom_has hsecond]
    simp only [ofRecords, pointLength, sideLength, entryCount_of_dvd hpoints,
      entryCount_of_not_dvd hside, if_neg (not_not_intro hkind)]
    rfl
  | unequal hopens hpoints hsecond hkind hside hcount =>
    rw [ofFrame_of_opens hopens, Frame.walkFrom_has hsecond]
    simp only [ofRecords, pointLength, sideLength, entryCount_of_dvd hpoints,
      entryCount_of_dvd hside, if_neg (not_not_intro hkind), bind, Except.bind, if_pos hcount]
    rfl

theorem ofFrame_eq_none : ofFrame f = .ok none ↔ Bare f := by
  refine ⟨?_, ofFrame_of_bare⟩
  intro hnone
  rcases judged f with h | ⟨cloud, h⟩ | ⟨e, h⟩
  · exact h
  · cases hnone.symm.trans (ofFrame_of_carries h)
  · cases hnone.symm.trans (ofFrame_of_fault h)

theorem ofFrame_eq_some {cloud : PointCloud} : ofFrame f = .ok (some cloud) ↔ Carries f cloud := by
  refine ⟨?_, ofFrame_of_carries⟩
  intro hsome
  rcases judged f with h | ⟨cloud', h⟩ | ⟨e, h⟩
  · cases hsome.symm.trans (ofFrame_of_bare h)
  · cases hsome.symm.trans (ofFrame_of_carries h)
    exact h
  · cases hsome.symm.trans (ofFrame_of_fault h)

theorem ofFrame_eq_error {e : CloudError} : ofFrame f = .error e ↔ FirstFault f e := by
  refine ⟨?_, ofFrame_of_fault⟩
  intro herror
  rcases judged f with h | ⟨cloud, h⟩ | ⟨e', h⟩
  · cases herror.symm.trans (ofFrame_of_bare h)
  · cases herror.symm.trans (ofFrame_of_carries h)
  · cases herror.symm.trans (ofFrame_of_fault h)
    exact h

/-- Two records that can be read decide. -/
theorem ofFrame_of_two (hfirst : f.Has 0 f.body first behind) (hsecond : f.Has 1 behind second rest) :
    ofFrame f =
      if first.kind ≠ pointsKind then .ok none
      else (ofRecords first.payload [.ok second]).map fun detections =>
        some ⟨f.header.frameNumber, f.header.cycles, detections⟩ := by
  rw [ofFrame_of_first hfirst, Frame.walkFrom_has hsecond]
  rfl

end PointCloud

open PointCloud in
/-- A frame carries no cloud exactly where it is bare, it carries a cloud exactly where its first two
records are one, and it fails with the first fault in the order of the wire exactly where there is
one. Behind two records that can be read, the length of the frame and its bytes play no part. -/
theorem clouds_follow_the_grammar (f : Frame) :
    (ofFrame f = .ok none ↔ Bare f) ∧
    (∀ cloud, ofFrame f = .ok (some cloud) ↔ Carries f cloud) ∧
    (∀ e, ofFrame f = .error e ↔ FirstFault f e) ∧
    ∀ first behind second rest, f.Has 0 f.body first behind → f.Has 1 behind second rest →
      ∀ length rest', ofFrame ⟨{ f.header with totalLength := length },
        first.encode ++ (second.encode ++ rest')⟩ = ofFrame f := by
  refine ⟨ofFrame_eq_none, fun _ => ofFrame_eq_some, fun _ => ofFrame_eq_error, ?_⟩
  intro first behind second rest hfirst hsecond length rest'
  let g : Frame :=
    ⟨{ f.header with totalLength := length }, first.encode ++ (second.encode ++ rest')⟩
  have hfirst' := hfirst.before (second.encode ++ rest')
  have hsecond' := hsecond.before rest'
  -- Whether a record is due depends on the count alone, which both frames state.
  have hg : g.Has 0 g.body first (second.encode ++ rest') :=
    ⟨hfirst'.due, hfirst'.bytes, hfirst'.length⟩
  have hg' : g.Has 1 (second.encode ++ rest') second rest' :=
    ⟨hsecond'.due, hsecond'.bytes, hsecond'.length⟩
  rw [ofFrame_of_two hfirst hsecond]
  exact ofFrame_of_two hg hg'

open PointCloud in
/-- A cloud of one detection, behind which a third record is due and cut. Without a byte of that
record the cloud stays what it is. -/
theorem clouds_follow_the_grammar_cut_behind :
    let d : Detection := ⟨0x3F800000, 0, 0, 0x80000000, 100, -2⟩
    let points : Record := ⟨1000, pointBytes d⟩
    let side : Record := ⟨7, sideBytes d⟩
    let f : Frame := ⟨⟨0, 77, 0, 5, 9, 0, 3, 0⟩, points.encode ++ (side.encode ++ [8])⟩
    f.Has 0 f.body points (side.encode ++ [8]) ∧ f.Has 1 (side.encode ++ [8]) side [8] ∧
      Carries f ⟨5, 9, [d]⟩ ∧
      ofFrame ⟨{ f.header with totalLength := 76 }, points.encode ++ (side.encode ++ [])⟩ =
        .ok (some ⟨5, 9, [d]⟩) := by
  intro d points side f
  have hfirst : f.Has 0 f.body points (side.encode ++ [8]) :=
    ⟨by unfold Frame.Over; decide, rfl, by decide⟩
  have hsecond : f.Has 1 (side.encode ++ [8]) side [8] :=
    ⟨by unfold Frame.Over; decide, rfl, by decide⟩
  have hcarries : Carries f ⟨5, 9, [d]⟩ :=
    ⟨points, _, side, _, ⟨hfirst, rfl⟩, hsecond, ⟨rfl, by decide, by decide, by decide⟩, by decide⟩
  obtain ⟨-, hcloud, -, hbehind⟩ := clouds_follow_the_grammar f
  refine ⟨hfirst, hsecond, hcarries, ?_⟩
  rw [hbehind points _ side _ hfirst hsecond 76 []]
  exact (hcloud _).mpr hcarries

end FireControl.Wire
