import FireControl.Proofs.Wire.Delivery

/-!
# Recovering what was sent

A stream is a sequence of encoded frames and of headers that announce a length out of range, each
with noise before it. The noise may end in the beginning of a magic word, and payloads and header
fields may contain whole ones: the receiver looks for a magic word only where a segment may begin,
and noise that contains none hides none (`locate_noise`). `receives_what_was_sent` says that the
calls return the frames that were sent.
-/

namespace FireControl.Wire

/-! ## Streams -/

/-- What a sender puts on the wire. -/
inductive Segment where
  | frame (frameNumber cycles : UInt32) (records : List Record)
  /-- A header that no frame follows. -/
  | stray (header : Header)

namespace Segment

/-- The bytes of a segment. -/
def encode : Segment → Bytes
  | .frame frameNumber cycles records => Frame.encode frameNumber cycles records
  | .stray header => header.encode

/-- Frames are not too long, and stray headers announce a length out of range. -/
def Fits (limit : Nat) : Segment → Prop
  | .frame frameNumber cycles records =>
    (Frame.encode frameNumber cycles records).length ≤ min limit 4294967295
  | .stray header => header.totalLength.toNat < 40 ∨ limit < header.totalLength.toNat

/-- Whether a segment is a frame. -/
def isFrame : Segment → Bool
  | .frame _ _ _ => true
  | .stray _ => false

end Segment

/-- A segment with the noise before it. -/
structure Piece where
  noise : Bytes
  segment : Segment

/-- The noise contains no magic word, and the segment is within the limit. -/
structure Piece.Valid (limit : Nat) (p : Piece) : Prop where
  noise : ¬ magic <:+: p.noise
  fits : p.segment.Fits limit

/-- The bytes on the wire. -/
def stream (pieces : List Piece) : Bytes := pieces.flatMap fun p => p.noise ++ p.segment.encode

/-- The number of frames in a stream. -/
def frameCount (pieces : List Piece) : Nat := pieces.countP (·.segment.isFrame)

/-- The number of stray headers in a stream. -/
def strayCount (pieces : List Piece) : Nat := pieces.countP (!·.segment.isFrame)

/-- The length of all noise in a stream. -/
def noiseLength (pieces : List Piece) : Nat := (pieces.map (·.noise.length)).sum

/-- The frames in a stream, each with the tally at its end. -/
def framesSent : Tally → List Piece → List (Frame × Tally)
  | _, [] => []
  | tally, ⟨noise, .stray _⟩ :: later => framesSent (tally.skip noise.length).reject later
  | tally, ⟨noise, .frame frameNumber cycles records⟩ :: later =>
    (Frame.sent frameNumber cycles records, (tally.skip noise.length).accept) ::
      framesSent (tally.skip noise.length).accept later

/-! ## Noise -/

/-- No occurrence of the magic word begins in noise that contains none. -/
theorem not_begins_noise {noise rest : Bytes} {i : Nat} (hnoise : ¬ magic <:+: noise)
    (hi : i < noise.length) : ¬ Begins (noise.drop i ++ (magic ++ rest)) := by
  intro hbegins
  have hlength : (noise.drop i).length = noise.length - i := List.length_drop
  by_cases hlong : 8 ≤ noise.length - i
  · rcases hbegins with hprefix | hprefix
    · have hinside : magic <+: noise.drop i :=
        List.prefix_of_prefix_length_le hprefix (List.prefix_append _ _) (by rwa [hlength])
      exact hnoise (hinside.isInfix.trans (List.drop_suffix i noise).isInfix)
    · have hle := hprefix.length_le
      rw [List.length_append, List.length_append, hlength] at hle
      omega
  · have hword := hbegins.getElem? (show noise.length - i < 8 by omega) (by
      rw [List.length_append, List.length_append, hlength]
      have : magic.length = 8 := rfl
      omega)
    rw [List.getElem?_append_right (Nat.le_of_eq hlength), hlength, Nat.sub_self,
      List.getElem?_append_left (by decide)] at hword
    exact magic_head (by omega) (by omega) hword.symm

/-- The leftmost magic word after such noise is the one that follows it. -/
theorem locate_noise {noise : Bytes} (hnoise : ¬ magic <:+: noise) (rest : Bytes) :
    locate (noise ++ (magic ++ rest)) = some (noise.length, magic ++ rest) := by
  rw [(locate_pass fun i hi => not_begins_noise hnoise hi).1,
    locate_at_front (List.prefix_append magic rest), Option.map_some]
  dsimp only
  rw [Nat.zero_add]

/-- The run up to the end of a header that stands behind noise. -/
theorem scan_noise (limit : Nat) (tally : Tally) {noise : Bytes} (hnoise : ¬ magic <:+: noise)
    (h : Header) (rest : Bytes) :
    scan limit (.hunting 0) tally (noise ++ (h.encode ++ rest)) =
      if h.totalLength.toNat < 40 ∨ limit < h.totalLength.toNat then
        scan limit (.hunting 0) (tally.skip noise.length).reject rest
      else if rest.length + 40 < h.totalLength.toNat then .starved (tally.skip noise.length)
      else .frame ⟨h, rest.take (h.totalLength.toNat - 40)⟩ (tally.skip noise.length).accept
        (rest.drop (h.totalLength.toNat - 40)) := by
  have hfields : (Header.ofFields (h.fields.flatMap Bytes.ofWord)).totalLength.toNat =
      h.totalLength.toNat := by
    rw [Header.ofFields_encode]
  rw [scan_hunting limit (by decide), List.take_zero, List.nil_append]
  unfold huntResult Header.encode
  rw [List.append_assoc, locate_noise hnoise]
  dsimp only
  rw [List.drop_left, scan_header limit _ _ rest h.length_encodeFields hfields,
    Header.ofFields_encode]

/-! ## Parsing a stream -/

/-- A stray header is dropped, and nothing behind it. -/
theorem parse_stray {limit : Nat} (tally : Tally) {noise : Bytes} (hnoise : ¬ magic <:+: noise)
    {h : Header} (hrange : (Segment.stray h).Fits limit) (rest : Bytes) :
    parse limit tally (noise ++ (h.encode ++ rest)) =
      parse limit (tally.skip noise.length).reject rest := by
  have hdropped : h.totalLength.toNat < 40 ∨ limit < h.totalLength.toNat := hrange
  rw [parse_eq_scan, scan_noise limit tally hnoise, if_pos hdropped, ← parse_eq_scan]

theorem length_of_fits {limit : Nat} {frameNumber cycles : UInt32} {records : List Record}
    (hfits : (Segment.frame frameNumber cycles records).Fits limit) :
    (Frame.headerOf frameNumber cycles records).totalLength.toNat =
        40 + (records.flatMap Record.encode).length ∧
      40 + (records.flatMap Record.encode).length ≤ limit ∧
      (Frame.encode frameNumber cycles records).length < 2 ^ 32 := by
  obtain ⟨hlimit, hword⟩ := Nat.le_min.mp hfits
  have hlt : (Frame.encode frameNumber cycles records).length < 2 ^ 32 := by omega
  rw [Frame.length_encode] at hlimit
  exact ⟨Frame.totalLength_headerOf hlt, hlimit, hlt⟩

/-- An encoded frame is found behind its noise, and what follows it is parsed on. -/
theorem parse_frame {limit : Nat} (tally : Tally) {noise : Bytes} (hnoise : ¬ magic <:+: noise)
    {frameNumber cycles : UInt32} {records : List Record}
    (hfits : (Segment.frame frameNumber cycles records).Fits limit) (rest : Bytes) :
    let later := parse limit (tally.skip noise.length).accept rest
    parse limit tally (noise ++ (Frame.encode frameNumber cycles records ++ rest)) =
      ((Frame.sent frameNumber cycles records, (tally.skip noise.length).accept) :: later.1,
        later.2) := by
  obtain ⟨htotal, hlimit, -⟩ := length_of_fits hfits
  intro later
  rw [parse_eq_scan, Frame.encode_eq, List.append_assoc, scan_noise limit tally hnoise, htotal,
    if_neg (by omega), if_neg (by rw [List.length_append]; omega), Nat.add_sub_cancel_left,
    List.take_left, List.drop_left]
  rfl

/-- The parse of a stream finds the frames in it. -/
theorem parse_stream {limit : Nat} {pieces : List Piece} (h : ∀ p ∈ pieces, p.Valid limit)
    (tally : Tally) :
    (parse limit tally (stream pieces)).1 = framesSent tally pieces := by
  induction pieces generalizing tally with
  | nil =>
    rw [parse_eq_scan]
    rfl
  | cons p later ih =>
    have hp := h p List.mem_cons_self
    have hlater : ∀ q ∈ later, q.Valid limit := fun q hq => h q (List.mem_cons_of_mem _ hq)
    obtain ⟨noise, segment⟩ := p
    unfold stream
    rw [List.flatMap_cons, List.append_assoc]
    cases segment with
    | stray header =>
      exact (congrArg Prod.fst (parse_stray tally hp.noise hp.fits _)).trans (ih hlater _)
    | frame frameNumber cycles records =>
      refine (congrArg Prod.fst (parse_frame tally hp.noise hp.fits _)).trans ?_
      exact congrArg (List.cons _) (ih hlater _)

/-! ## The frames received -/

theorem length_framesSent (tally : Tally) (pieces : List Piece) :
    (framesSent tally pieces).length = frameCount pieces := by
  induction pieces generalizing tally with
  | nil => rfl
  | cons p later ih =>
    obtain ⟨noise, segment⟩ := p
    unfold frameCount
    rw [List.countP_cons]
    cases segment with
    | stray header => exact ih _
    | frame frameNumber cycles records => exact congrArg Nat.succ (ih _)

/-- The place of a frame in the stream is its place among the frames, and its tally counts what
stands before it. -/
theorem framesSent_at (tally : Tally) {pieces before after : List Piece} {noise : Bytes}
    {frameNumber cycles : UInt32} {records : List Record}
    (h : pieces = before ++ ⟨noise, .frame frameNumber cycles records⟩ :: after) :
    (framesSent tally pieces)[frameCount before]? =
      some (Frame.sent frameNumber cycles records,
        ⟨tally.frames + (frameCount before + 1), tally.rejected + strayCount before,
          tally.skipped + (noiseLength before + noise.length)⟩) := by
  subst h
  induction before generalizing tally with
  | nil =>
    show some _ = some _
    simp [frameCount, strayCount, noiseLength, Tally.skip, Tally.accept]
  | cons q before ih =>
    obtain ⟨first, segment⟩ := q
    have hnoise : noiseLength (⟨first, segment⟩ :: before) =
        first.length + noiseLength before := rfl
    cases segment with
    | stray header =>
      have hcount : frameCount (⟨first, .stray header⟩ :: before) = frameCount before := rfl
      have hstray : strayCount (⟨first, .stray header⟩ :: before) = strayCount before + 1 :=
        List.countP_cons_of_pos rfl
      rw [hcount, List.cons_append, framesSent, ih, hstray, hnoise]
      simp only [Tally.skip, Tally.reject, Option.some.injEq, Prod.mk.injEq, Tally.mk.injEq,
        true_and]
      omega
    | frame firstNumber firstCycles firstRecords =>
      have hcount : frameCount (⟨first, .frame firstNumber firstCycles firstRecords⟩ :: before) =
          frameCount before + 1 := List.countP_cons_of_pos rfl
      have hstray : strayCount (⟨first, .frame firstNumber firstCycles firstRecords⟩ :: before) =
          strayCount before := rfl
      rw [hcount, List.cons_append, framesSent, List.getElem?_cons_succ, ih, hstray, hnoise]
      simp only [Tally.skip, Tally.accept, Option.some.injEq, Prod.mk.injEq, Tally.mk.injEq,
        true_and]
      omega

/-- Chunks that are not empty deliver their bytes. -/
theorem delivers_chunks {chunks : List Bytes} (h : ∀ chunk ∈ chunks, chunk ≠ []) (idle : Nat) :
    Delivers 0 idle chunks.flatten (chunks.map .data) := by
  induction chunks generalizing idle with
  | nil => exact .finished fun d hd => by cases hd
  | cons chunk later ih =>
    exact .chunk (h chunk List.mem_cons_self) (ih (fun c hc => h c (List.mem_cons_of_mem _ hc)) 0)

/-- However a stream is cut into chunks, the call after those for the frames before it returns a
frame that was sent: its bytes are the bytes that were encoded, its records are the records that
were encoded, and the tally counts the frames, the stray headers and the noise up to it. The calls
after the last frame return no frame. -/
theorem receives_what_was_sent {config : Receiver.Config} {pieces : List Piece}
    {chunks : List Bytes} (hpieces : ∀ p ∈ pieces, p.Valid config.maxFrameLength)
    (hchunks : ∀ chunk ∈ chunks, chunk ≠ []) (hstream : chunks.flatten = stream pieces)
    (count : Nat) :
    let returned :=
      Receiver.calls config (frameCount pieces + count) {} { pending := chunks.map .data }
    (∀ before noise frameNumber cycles records after,
      pieces = before ++ ⟨noise, .frame frameNumber cycles records⟩ :: after →
        ∃ frame : Frame,
          returned[frameCount before]? = some (.ok frame,
            ⟨frameCount before + 1, strayCount before, noiseLength before + noise.length⟩) ∧
          frame.header.encode ++ frame.body = Frame.encode frameNumber cycles records ∧
          frame.records = records.map .ok) ∧
      ∀ k, frameCount pieces ≤ k → ∀ result ∈ returned[k]?, ∃ fault, result.1 = .error fault := by
  intro returned
  have hdelivers := delivers_chunks hchunks 0
  rw [hstream] at hdelivers
  have hframes : (parse config.maxFrameLength {} (stream pieces)).1 = framesSent {} pieces :=
    parse_stream hpieces {}
  have hlength := length_framesSent {} pieces
  obtain ⟨faults, -, -, hcalls⟩ := @Receiver.calls_of_parse config 0 {}
    { pending := chunks.map .data } (stream pieces) (framesSent {} pieces) _ (Nat.zero_le _)
    (by decide) (Nat.zero_le _) hdelivers (Prod.ext hframes rfl) count
  rw [hlength] at hcalls
  have hreturned : returned = _ := hcalls
  rw [hreturned]
  constructor
  · intro before noise frameNumber cycles records after hsplit
    have hat := framesSent_at {} hsplit
    have hfits := (hpieces ⟨noise, .frame frameNumber cycles records⟩ (by rw [hsplit]; simp)).fits
    refine ⟨Frame.sent frameNumber cycles records, ?_,
      (Frame.encode_eq frameNumber cycles records).symm,
      Frame.records_sent (length_of_fits hfits).2.2⟩
    have hbound := (List.getElem?_eq_some_iff.mp hat).1
    rw [List.getElem?_append_left (by rwa [List.length_map]), List.getElem?_map, hat]
    simp only [Option.map_some, Nat.zero_add]
  · -- Past the frames there are only the faults.
    intro k hk result hresult
    rw [List.getElem?_append_right (by rwa [List.length_map, hlength]),
      List.getElem?_map] at hresult
    obtain ⟨fault, -, rfl⟩ := Option.map_eq_some_iff.mp hresult
    exact ⟨fault, rfl⟩

/-- A frame whose payload is a magic word, behind a stray header, with noise that runs into the
magic words, cut in the middle of the frame. -/
theorem receives_what_was_sent_cut :
    let strayHeader : Header := ⟨0, 39, 0, 0, 0, 0, 0, 0⟩
    let pieces : List Piece := [⟨[2, 1], .stray strayHeader⟩, ⟨[2], .frame 7 0 [⟨1, magic⟩]⟩]
    let chunks := [(stream pieces).take 60, (stream pieces).drop 60]
    ((∀ p ∈ pieces, p.Valid 124) ∧ (∀ chunk ∈ chunks, chunk ≠ []) ∧
        chunks.flatten = stream pieces) ∧
      ∃ frame : Frame,
        (Receiver.calls .sensorBoard 1 {} { pending := chunks.map .data })[0]? =
          some (.ok frame, ⟨1, 1, 3⟩) ∧
        frame.records = [.ok ⟨1, magic⟩] := by
  intro strayHeader pieces chunks
  have hpieces : ∀ p ∈ pieces, p.Valid 124 := by
    intro p hp
    rcases List.mem_cons.mp hp with rfl | hp
    · exact ⟨by decide, Or.inl (by decide)⟩
    · obtain rfl := List.mem_singleton.mp hp
      exact ⟨by decide, show (Frame.encode 7 0 [⟨1, magic⟩]).length ≤ _ by decide⟩
  have hchunks : ∀ chunk ∈ chunks, chunk ≠ [] := by decide
  have hstream : chunks.flatten = stream pieces := by decide
  have hreceived := (@receives_what_was_sent .sensorBoard pieces chunks hpieces hchunks hstream 0).1
  obtain ⟨frame, hat, -, hrecords⟩ :=
    hreceived [⟨[2, 1], .stray strayHeader⟩] [2] 7 0 [⟨1, magic⟩] [] rfl
  exact ⟨⟨hpieces, hchunks, hstream⟩, frame, hat, hrecords⟩

end FireControl.Wire
