import FireControl.Proofs.Wire.Format
import FireControl.Wire.SensorMessage

/-!
# The grammar of sensor-board messages

What a record means (`Means`) depends on its type and on the first bytes of its payload, and what a
frame says (`Says`) on whether a first record is due, cut or there. Both relations have exactly one
result for everything they are asked about, and it is the one that is computed
(`ofRecord_eq_iff`, `ofFrame_eq_iff`). `messages_follow_the_first_record` adds that every message
survives the wire and which bytes of a frame play no part.
-/

namespace FireControl

theorem OperatorInput.ofCode?_eq_none {code : UInt32} : ofCode? code = none ↔ 4 < code.toNat := by
  constructor
  · intro hnone
    unfold ofCode? at hnone
    split at hnone
    case h_6 h0 h1 h2 h3 h4 =>
      simp only [imp_false, ← UInt32.toNat_inj, UInt32.reduceToNat] at h0 h1 h2 h3 h4
      omega
    all_goals cases hnone
  · intro habove
    cases hsome : ofCode? code with
    | none => rfl
    | some i =>
      obtain rfl := ofCode?_eq_some.mp hsome
      cases i <;> exact absurd habove (by decide)

namespace Wire

namespace SensorMessage

/-! ## Records -/

/-- The sample in the first 28 bytes of a payload. -/
def sampleIn (payload : Bytes) : MotionSample :=
  { ax := wordAt 0 payload
    ay := wordAt 4 payload
    az := wordAt 8 payload
    pitchRate := wordAt 12 payload
    rollRate := wordAt 16 payload
    yawRate := wordAt 20 payload
    cycles := wordAt 24 payload }

/-- The payload reaches as far as its record's type asks for. -/
def Long (r : Record) : Prop :=
  (r.kind = motionKind → 28 ≤ r.payload.length) ∧ (r.kind = inputKind → 4 ≤ r.payload.length)

/-- What a record means. -/
inductive Means (r : Record) : Except FrameError (Option SensorMessage) → Prop
  | sample : r.kind = motionKind → 28 ≤ r.payload.length →
      Means r (.ok (some (.motion (sampleIn r.payload))))
  | shortSample : r.kind = motionKind → r.payload.length < 28 →
      Means r (.error (.truncated 4 (r.payload.length % 4)))
  | input {i : OperatorInput} : r.kind = inputKind → 4 ≤ r.payload.length →
      wordAt 0 r.payload = i.code → Means r (.ok (some (.input i)))
  | unknownInput : r.kind = inputKind → 4 ≤ r.payload.length → 4 < (wordAt 0 r.payload).toNat →
      Means r (.ok none)
  | shortInput : r.kind = inputKind → r.payload.length < 4 →
      Means r (.error (.truncated 4 r.payload.length))
  | other : r.kind ≠ motionKind → r.kind ≠ inputKind → Means r (.ok none)

section Reading
variable {payload : Bytes}

theorem readMotion_of_long (h : 28 ≤ payload.length) :
    readMotion payload = .ok (sampleIn payload) := by
  have hword : ∀ offset, offset + 4 ≤ 28 → readWord (payload.drop offset) =
      .ok (wordAt offset payload, payload.drop (offset + 4)) := by
    intro offset hoffset
    rw [readWord_of_le (by rw [List.length_drop]; omega), List.drop_drop]
    rfl
  have hfirst : readWord payload = .ok (wordAt 0 payload, payload.drop 4) := hword 0 (by decide)
  unfold readMotion
  simp only [hfirst, hword, bind, Except.bind, Nat.reduceAdd, Nat.reduceLeDiff]
  rfl

/-- Too few bytes for a number of words run out in one of them: the first, or a later one. -/
theorem bind_readWord_of_short {α : Type} {bytes : Bytes} {n left : Nat}
    {f : UInt32 × Bytes → Except FrameError α} (hbytes : bytes.length < 4 * (n + 1))
    (hleft : bytes.length % 4 = left)
    (hf : ∀ w rest, rest.length < 4 * n → rest.length % 4 = left →
      f (w, rest) = .error (.truncated 4 left)) :
    (readWord bytes >>= f) = .error (.truncated 4 left) := by
  by_cases hshort : bytes.length < 4
  · have hall : bytes.length = left := by omega
    rw [readWord_of_short hshort, hall]
    rfl
  · rw [readWord_of_le (Nat.le_of_not_lt hshort)]
    have hrest : (bytes.drop 4).length = bytes.length - 4 := List.length_drop
    apply hf
    · omega
    · omega

theorem readMotion_of_short (h : payload.length < 28) :
    readMotion payload = .error (.truncated 4 (payload.length % 4)) := by
  unfold readMotion
  -- Seven words are asked for, and one fewer after each that is there.
  refine bind_readWord_of_short (n := 6) h rfl fun _ _ h hleft => ?_
  refine bind_readWord_of_short (n := 5) h hleft fun _ _ h hleft => ?_
  refine bind_readWord_of_short (n := 4) h hleft fun _ _ h hleft => ?_
  refine bind_readWord_of_short (n := 3) h hleft fun _ _ h hleft => ?_
  refine bind_readWord_of_short (n := 2) h hleft fun _ _ h hleft => ?_
  refine bind_readWord_of_short (n := 1) h hleft fun _ _ h hleft => ?_
  refine bind_readWord_of_short (n := 0) h hleft fun _ _ h _ => ?_
  exact absurd h (Nat.not_lt_zero _)

end Reading

variable {r : Record} {result : Except FrameError (Option SensorMessage)}

theorem ofRecord_of_motion (h : r.kind = motionKind) :
    ofRecord r = (readMotion r.payload).map (some ∘ .motion) := if_pos h

theorem ofRecord_of_input (h : r.kind = inputKind) : ofRecord r =
    (readWord r.payload).map fun (code, _) => (OperatorInput.ofCode? code).map .input := by
  have hother : r.kind ≠ motionKind := by
    rw [h]
    decide
  unfold ofRecord
  rw [if_neg hother, if_pos h]

theorem ofRecord_of_means (h : Means r result) : ofRecord r = result := by
  cases h with
  | sample hkind hlong => rw [ofRecord_of_motion hkind, readMotion_of_long hlong]; rfl
  | shortSample hkind hshort => rw [ofRecord_of_motion hkind, readMotion_of_short hshort]; rfl
  | input hkind hlong hcode =>
    have hinput := OperatorInput.ofCode?_eq_some.mpr hcode
    rw [ofRecord_of_input hkind, readWord_of_le hlong]
    exact congrArg (fun i => Except.ok (Option.map SensorMessage.input i)) hinput
  | unknownInput hkind hlong hcode =>
    have hnone := OperatorInput.ofCode?_eq_none.mpr hcode
    rw [ofRecord_of_input hkind, readWord_of_le hlong]
    exact congrArg (fun i => Except.ok (Option.map SensorMessage.input i)) hnone
  | shortInput hkind hshort => rw [ofRecord_of_input hkind, readWord_of_short hshort]; rfl
  | other hmotion hinput =>
    unfold ofRecord
    rw [if_neg hmotion, if_neg hinput]

theorem exists_means (r : Record) : ∃ result, Means r result := by
  by_cases hmotion : r.kind = motionKind
  · rcases Nat.lt_or_ge r.payload.length 28 with hshort | hlong
    · exact ⟨_, .shortSample hmotion hshort⟩
    · exact ⟨_, .sample hmotion hlong⟩
  by_cases hinput : r.kind = inputKind
  case neg => exact ⟨_, .other hmotion hinput⟩
  rcases Nat.lt_or_ge r.payload.length 4 with hshort | hlong
  · exact ⟨_, .shortInput hinput hshort⟩
  cases hcode : OperatorInput.ofCode? (wordAt 0 r.payload) with
  | none => exact ⟨_, .unknownInput hinput hlong (OperatorInput.ofCode?_eq_none.mp hcode)⟩
  | some i => exact ⟨_, .input hinput hlong (OperatorInput.ofCode?_eq_some.mp hcode)⟩

theorem ofRecord_eq_iff : ofRecord r = result ↔ Means r result := by
  refine ⟨?_, ofRecord_of_means⟩
  rintro rfl
  obtain ⟨result, hmeans⟩ := exists_means r
  rwa [ofRecord_of_means hmeans]

-- A code that no input has is passed over, three bytes of a code are a fault.
example : ofRecord ⟨inputKind, [5, 0, 0, 0]⟩ = .ok none ∧
    ofRecord ⟨inputKind, [5, 0, 0]⟩ = .error (.truncated 4 3) := by decide

/-- Bytes behind those that a record's type asks for do not change what the record means. -/
theorem ofRecord_append (h : Long r) (extra : Bytes) :
    ofRecord ⟨r.kind, r.payload ++ extra⟩ = ofRecord r := by
  have hlength : r.payload.length ≤ (r.payload ++ extra).length := by simp
  have hword : ∀ offset, offset + 4 ≤ r.payload.length →
      wordAt offset (r.payload ++ extra) = wordAt offset r.payload :=
    fun _ hoffset => wordAt_append extra hoffset
  obtain ⟨result, hmeans⟩ := exists_means r
  rw [ofRecord_of_means hmeans]
  apply ofRecord_of_means
  cases hmeans with
  | sample hkind hlong =>
    have hsample : sampleIn (r.payload ++ extra) = sampleIn r.payload := by
      unfold sampleIn
      simp (disch := omega) only [hword]
    rw [← hsample]
    exact .sample hkind (Nat.le_trans hlong hlength)
  | shortSample hkind hshort => exact absurd (h.1 hkind) (Nat.not_le_of_lt hshort)
  | input hkind hlong hcode =>
    exact .input hkind (Nat.le_trans hlong hlength) ((hword 0 hlong).trans hcode)
  | unknownInput hkind hlong hcode =>
    rw [← hword 0 hlong] at hcode
    exact .unknownInput hkind (Nat.le_trans hlong hlength) hcode
  | shortInput hkind hshort => exact absurd (h.2 hkind) (Nat.not_le_of_lt hshort)
  | other hmotion hinput => exact .other hmotion hinput

/-! ## Frames -/

/-- What a frame says: nothing without a record, a fault where the first record is cut, and otherwise
what its first record means. -/
inductive Says (f : Frame) : Except FrameError (Option SensorMessage) → Prop
  | nothing : f.Over 0 f.body → Says f (.ok none)
  | cut : f.Cut 0 f.body → Says f (.error (.truncatedRecord 0 (Record.shortfall f.body).1
      (Record.shortfall f.body).2))
  | first {r behind result} : f.Has 0 f.body r behind → Means r result → Says f result

variable {f g : Frame}

theorem ofFrame_of_has {behind : Bytes} (h : f.Has 0 f.body r behind) :
    ofFrame f = ofRecord r := by
  unfold ofFrame
  rw [f.records_eq_walkFrom, Frame.walkFrom_has h]

theorem ofFrame_of_verdict (h : Says f result) : ofFrame f = result := by
  cases h with
  | nothing hover =>
    unfold ofFrame
    rw [f.records_eq_walkFrom, Frame.walkFrom_over hover]
  | cut hcut =>
    unfold ofFrame
    rw [f.records_eq_walkFrom, Frame.walkFrom_cut hcut]
    rfl
  | first hfirst hmeans => rw [ofFrame_of_has hfirst, ofRecord_of_means hmeans]

theorem ofFrame_eq_iff : ofFrame f = result ↔ Says f result := by
  refine ⟨?_, ofFrame_of_verdict⟩
  rintro rfl
  have hfound : ∃ result, Says f result := by
    rcases f.over_or_cut_or_has 0 f.body with hover | hcut | ⟨r, behind, hfirst⟩
    · exact ⟨_, .nothing hover⟩
    · exact ⟨_, .cut hcut⟩
    · obtain ⟨result, hmeans⟩ := exists_means r
      exact ⟨result, .first hfirst hmeans⟩
  obtain ⟨result, hfound⟩ := hfound
  rwa [ofFrame_of_verdict hfound]

theorem ofFrame_eq_head (f : Frame) : ofFrame f =
    match f.records.head? with
    | none => .ok none
    | some (.error cause) => .error cause
    | some (.ok first) => ofRecord first := by
  unfold ofFrame
  cases f.records with
  | nil => rfl
  | cons first later => cases first <;> rfl

/-! ## Messages on the wire -/

theorem sampleIn_toRecord (s : MotionSample) :
    sampleIn (SensorMessage.motion s).toRecord.payload = s := by
  have hwords : sampleIn (SensorMessage.motion s).toRecord.payload =
      ⟨Bytes.toWord (Bytes.ofWord s.ax), Bytes.toWord (Bytes.ofWord s.ay),
        Bytes.toWord (Bytes.ofWord s.az), Bytes.toWord (Bytes.ofWord s.pitchRate),
        Bytes.toWord (Bytes.ofWord s.rollRate), Bytes.toWord (Bytes.ofWord s.yawRate),
        Bytes.toWord (Bytes.ofWord s.cycles)⟩ := rfl
  simp only [hwords, Bytes.toWord_ofWord]

theorem means_toRecord (m : SensorMessage) : Means m.toRecord (.ok (some m)) := by
  cases m with
  | motion s =>
    have hsample := Means.sample (r := (SensorMessage.motion s).toRecord) rfl (Nat.le_refl 28)
    rwa [sampleIn_toRecord] at hsample
  | input i =>
    have hcode : wordAt 0 (SensorMessage.input i).toRecord.payload = i.code :=
      Bytes.toWord_ofWord i.code
    exact .input rfl (Nat.le_refl 4) hcode

theorem length_encode_le (m : SensorMessage) (frameNumber cycles : UInt32) :
    (m.encode frameNumber cycles).length ≤ 76 := by
  unfold encode
  rw [Frame.length_encode, Frame.length_body_eq]
  cases m with
  | motion s => exact Nat.le_refl 76
  | input i => exact Nat.le_of_ble_eq_true rfl

/-- A message that is sent is the message of the frame that arrives. -/
theorem ofFrame_sent (m : SensorMessage) (frameNumber cycles : UInt32) (extra : Bytes) :
    ∃ f, Frame.decode (m.encode frameNumber cycles ++ extra) 124 = .ok f ∧
      ofFrame f = .ok (some m) := by
  have hlength := m.length_encode_le frameNumber cycles
  have hword : (m.encode frameNumber cycles).length < 2 ^ 32 := by omega
  have hlimit : (m.encode frameNumber cycles).length ≤ 124 := by omega
  refine ⟨_, Frame.decode_sent hword hlimit extra, ?_⟩
  rw [ofFrame_eq_head, Frame.records_sent hword]
  exact ofRecord_of_means m.means_toRecord

end SensorMessage

open SensorMessage in
/-- Every message survives the wire with every bit of it, whatever follows its frame. What a frame says
is decided by its first record alone: no other result is computed than the one that `Says` gives, frames
with the same first record say the same, and the bytes of a payload behind those that the record's
type asks for play no part. -/
theorem messages_follow_the_first_record :
    (∀ (m : SensorMessage) (frameNumber cycles : UInt32) (extra : Bytes),
      ∃ f, Frame.decode (m.encode frameNumber cycles ++ extra) 124 = .ok f ∧
        ofFrame f = .ok (some m)) ∧
    (∀ f result, ofFrame f = result ↔ Says f result) ∧
    (∀ f g : Frame, f.records.head? = g.records.head? → ofFrame f = ofFrame g) ∧
    ∀ (f g : Frame) (r : Record) (extra behind behind' : Bytes), f.Has 0 f.body r behind → Long r →
      g.Has 0 g.body ⟨r.kind, r.payload ++ extra⟩ behind' → ofFrame g = ofFrame f := by
  refine ⟨ofFrame_sent, fun _ _ => ofFrame_eq_iff, ?_, ?_⟩
  · intro f g hfirst
    rw [ofFrame_eq_head, ofFrame_eq_head, hfirst]
  · intro f g r extra behind behind' hf hlong hg
    rw [ofFrame_of_has hf, ofFrame_of_has hg, ofRecord_append hlong]

open SensorMessage in
/-- A sample with patterns that are no numbers, with a byte behind it in its payload and a record that
is cut behind that, says what the sample alone says. -/
theorem messages_follow_the_first_record_behind :
    let m : SensorMessage := .motion ⟨0x7FC00001, 0x80000000, 0xFF800001, 0, 1, 2, 3⟩
    let longer : Record := ⟨m.toRecord.kind, m.toRecord.payload ++ [9]⟩
    let f : Frame := ⟨⟨0, 76, 0, 5, 9, 0, 1, 0⟩, m.toRecord.encode ++ []⟩
    let g : Frame := ⟨⟨0, 80, 0, 6, 9, 0, 2, 0⟩, longer.encode ++ [1, 2, 3]⟩
    f.records.head? = (Frame.sent 7 0 [m.toRecord]).records.head? ∧ f.Has 0 f.body m.toRecord [] ∧
      Long m.toRecord ∧ g.Has 0 g.body longer [1, 2, 3] ∧ ofFrame f = .ok (some m) ∧
      ofFrame (Frame.sent 7 0 [m.toRecord]) = .ok (some m) ∧ ofFrame g = .ok (some m) := by
  intro m longer f g
  have hhead : f.records.head? = (Frame.sent 7 0 [m.toRecord]).records.head? := rfl
  have hf : f.Has 0 f.body m.toRecord [] := ⟨by unfold Frame.Over; decide, rfl, by decide⟩
  have hg : g.Has 0 g.body longer [1, 2, 3] := ⟨by unfold Frame.Over; decide, rfl, by decide⟩
  have hlong : Long m.toRecord := ⟨fun _ => by decide, fun hkind => absurd hkind (by decide)⟩
  obtain ⟨-, hfound, hfirst, hbehind⟩ := messages_follow_the_first_record
  have hm : ofFrame f = .ok (some m) := (hfound f _).mpr (.first hf m.means_toRecord)
  refine ⟨hhead, hf, hlong, hg, hm, ?_, ?_⟩
  · rw [← hfirst f _ hhead, hm]
  · rw [hbehind f g _ _ _ _ hf hlong hg, hm]

end Wire

end FireControl
