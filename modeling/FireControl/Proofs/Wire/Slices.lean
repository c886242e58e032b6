import FireControl.Proofs.Wire.Delivery

/-!
# What a call uses up

Whatever a source does, a call uses up bytes from the front of what is still to come, and what it
returns is what a run over exactly these bytes comes to (`advance_uses`). So a fault in the middle
of a magic word, a header or a body leaves nothing behind: a frame is a slice of the bytes that its
own call used up, with nothing after it (`slice_of_scan`). `frames_are_slices` says it of any number
of calls.
-/

namespace FireControl.Wire

/-! ## The bytes of a source -/

def Delivery.bytes : Delivery → Bytes
  | .data bytes => bytes
  | _ => []

/-- All bytes that the source will still deliver, in order. -/
def Source.content (s : Source) : Bytes := s.pending.flatMap Delivery.bytes

def Receiver.ReadOutcome.chunk : ReadOutcome → Bytes
  | .bytes chunk => chunk
  | _ => []

theorem chunk_of_error (fault : IoFault) :
    (Receiver.ReadOutcome.of (.error fault)).chunk = [] := by
  simp only [Receiver.ReadOutcome.of]
  split <;> rfl

theorem chunk_of_ok (chunk : Bytes) : (Receiver.ReadOutcome.of (.ok chunk)).chunk = chunk := by
  cases chunk <;> rfl

theorem readPending_content (size : Nat) (pending : List Delivery) :
    (Receiver.ReadOutcome.of (Source.readPending size pending).1).chunk ++
      (Source.readPending size pending).2.1.flatMap Delivery.bytes =
        pending.flatMap Delivery.bytes := by
  induction pending with
  | nil => rfl
  | cons d later ih =>
    cases d with
    | failure fault =>
      rw [List.flatMap_cons]
      exact congrArg (· ++ _) (chunk_of_error fault)
    | shutdown => exact ih
    | data bytes =>
      unfold Source.readPending
      cases hrest : bytes.drop (max size 1) with
      | nil => simp [chunk_of_ok, Delivery.bytes]
      | cons b rest =>
        rw [chunk_of_ok]
        simp only [List.flatMap_cons, Delivery.bytes]
        rw [← hrest, ← List.append_assoc, List.take_append_drop]

theorem read_content {size : Nat} {source source' : Source} {result : Except IoFault Bytes}
    (h : source.read size = (result, source')) :
    source.content = (Receiver.ReadOutcome.of result).chunk ++ source'.content := by
  cases h
  exact (readPending_content size source.pending).symm

/-! ## One call -/

namespace Receiver

variable {config : Config} {r r' : Receiver} {source source' : Source}

/-- The bytes that a receiver has not looked at. -/
def unread (r : Receiver) (source : Source) : Bytes := r.buffered ++ source.content

theorem noteEmpty_tally : (noteEmpty config r).2.tally = r.tally := by
  unfold noteEmpty
  split
  · rfl
  · split <;> rfl

theorem noteEmpty_keeps {result : Except LinkFault Unit} (h : noteEmpty config r = (result, r')) :
    r'.buffered = r.buffered ∧ r'.tally = r.tally := by
  have hbuffered := @noteEmpty_buffered config r
  have htally := @noteEmpty_tally config r
  rw [h] at hbuffered htally
  exact ⟨hbuffered, htally⟩

/-- The run over some bytes comes to the result of a call, at their very end. -/
def Comes (scanned : Scan) (tally : Tally) : Except LinkFault Frame → Prop
  | .ok frame => scanned = .frame frame tally []
  | .error _ => scanned = .starved tally

/-- A call runs over exactly the bytes that it uses up. -/
theorem advance_uses (config : Config) (phase : Phase) (r : Receiver) (source : Source) :
    let out := r.advance config phase source
    ∃ used, r.unread source = used ++ out.2.1.unread out.2.2 ∧
      Comes (scan config.maxFrameLength phase r.tally used) out.2.1.tally out.1 := by
  -- A byte of the buffer is used up by the step that looks at it, and a read only moves bytes.
  fun_induction advance config phase r source with
  | case1 phase r source byte rest hb next skipped ha ih =>
    obtain ⟨used, hunread, hscan⟩ := ih
    refine ⟨byte :: used, ?_, ?_⟩
    · rw [List.cons_append, ← hunread]
      simp [unread, hb]
    · rw [scan_cons, ha]
      exact hscan
  | case2 phase r source byte rest hb ha ih =>
    obtain ⟨used, hunread, hscan⟩ := ih
    refine ⟨byte :: used, ?_, ?_⟩
    · rw [List.cons_append, ← hunread]
      simp [unread, hb]
    · rw [scan_cons, ha]
      exact hscan
  | case3 phase r source byte rest hb frame ha =>
    refine ⟨[byte], ?_, ?_⟩
    · simp [unread, hb]
    · rw [scan_cons, ha]
      rfl
  | case4 phase r source hb result source' hr chunk ho ih =>
    obtain ⟨used, hunread, hscan⟩ := ih
    refine ⟨used, ?_, hscan⟩
    rw [← hunread, unread, hb, read_content hr, ho]
    rfl
  | case5 phase r source hb result source' hr ho ih =>
    obtain ⟨used, hunread, hscan⟩ := ih
    refine ⟨used, ?_, hscan⟩
    rw [← hunread, unread, unread, read_content hr, ho]
    rfl
  | case6 phase r source hb result source' hr fault ho =>
    refine ⟨[], ?_, by simp [Comes, scan]⟩
    rw [unread, read_content hr, ho]
    rfl
  | case7 phase r source hb result source' hr ho fault r' hn =>
    obtain ⟨hbuffered, htally⟩ := noteEmpty_keeps hn
    refine ⟨[], ?_, by simp [Comes, scan, htally]⟩
    rw [unread, unread, read_content hr, ho, hbuffered]
    rfl
  | case8 phase r source hb result source' hr ho r' hn ih =>
    obtain ⟨hbuffered, htally⟩ := noteEmpty_keeps hn
    obtain ⟨used, hunread, hscan⟩ := ih
    rw [htally] at hscan
    refine ⟨used, ?_, hscan⟩
    rw [← hunread, unread, unread, read_content hr, ho, hbuffered]
    rfl

end Receiver

/-! ## One slice -/

/-- The frame is decoded from exactly these bytes, whose number its header states. -/
structure SliceOf (limit : Nat) (slice : Bytes) (frame : Frame) : Prop where
  decode : Frame.decode slice limit = .ok frame
  length : slice.length = frame.header.totalLength.toNat
  low : 40 ≤ frame.header.totalLength.toNat
  high : frame.header.totalLength.toNat ≤ limit
  body : frame.body.length = frame.header.totalLength.toNat - 40

theorem sliceOf_take {limit stated : Nat} {fields body : Bytes} (hfields : fields.length = 32)
    (hstated : (Header.ofFields fields).totalLength.toNat = stated)
    (hrange : ¬ (stated < 40 ∨ limit < stated)) (hbody : stated ≤ body.length + 40) :
    SliceOf limit (magic ++ fields ++ body.take (stated - 40))
      ⟨Header.ofFields fields, body.take (stated - 40)⟩ := by
  have hlength : (body.take (stated - 40)).length = stated - 40 :=
    List.length_take_of_le (by omega)
  have hok : (Header.ofFields fields).bodyLength limit = .ok (stated - 40) := by
    rw [Header.bodyLength_eq_ok, hstated]
    omega
  have hdecode := Frame.decode_eq_ok hfields hok (Nat.le_of_eq hlength.symm)
  rw [List.take_take, Nat.min_self] at hdecode
  refine ⟨hdecode, ?_, ?_, ?_, ?_⟩
  · rw [List.length_append, List.length_append, hfields, hlength, hstated,
      show magic.length = 8 from rfl]
    omega
  · rw [hstated]
    omega
  · rw [hstated]
    omega
  · rw [hlength, hstated]

/-- The frame that a run comes to is a slice of its bytes, right before those not looked at. All
bytes before the slice are counted: they belong to dropped headers or were skipped. -/
theorem slice_of_scan {limit : Nat} {tally tally' : Tally} {bytes rest : Bytes} {frame : Frame}
    (h : scan limit (.hunting 0) tally bytes = .frame frame tally' rest) :
    ∃ before slice, bytes = before ++ (slice ++ rest) ∧ SliceOf limit slice frame ∧
      before.length + (40 * tally.rejected + tally.skipped) =
        40 * tally'.rejected + tally'.skipped := by
  -- As for parsing, the induction is on the bytes behind a dropped header.
  induction hn : bytes.length using Nat.strongRecOn generalizing tally bytes with
  | ind n ih =>
    rw [scan_hunting limit (by decide), List.take_zero, List.nil_append, huntResult] at h
    cases hlocate : locate bytes with
    | none =>
      rw [hlocate] at h
      cases h
    | some pair =>
      obtain ⟨skipped, found⟩ := pair
      obtain ⟨hlength, behind, rfl⟩ := locate_spec hlocate
      have hsplit : bytes = bytes.take skipped ++ (magic ++ behind) := by
        rw [(locate_leftmost hlocate).1, List.take_append_drop]
      have htake : (bytes.take skipped).length = skipped := List.length_take_of_le (by omega)
      rw [hlocate] at h
      dsimp only at h
      rw [List.drop_left] at h
      by_cases hshort : behind.length < 32
      · have hmissing : behind.length < Phase.fieldBytes := hshort
        rw [scan_inHeader limit _ (by decide), if_pos hmissing] at h
        cases h
      · obtain ⟨fields, body, rfl, hfields⟩ := exists_fields (Nat.le_of_not_lt hshort)
        rw [scan_header limit _ fields body hfields rfl] at h
        by_cases hrange : (Header.ofFields fields).totalLength.toNat < 40 ∨
            limit < (Header.ofFields fields).totalLength.toNat
        · rw [if_pos hrange] at h
          have hheader : (magic ++ fields).length = 40 := by
            rw [List.length_append, hfields]
            rfl
          have hfewer : body.length < n := by
            rw [hsplit, List.length_append, ← List.append_assoc, List.length_append] at hn
            omega
          obtain ⟨before, slice, hbody, hslice, hcount⟩ := ih _ hfewer h rfl
          refine ⟨bytes.take skipped ++ (magic ++ fields) ++ before, slice, ?_, hslice, ?_⟩
          · rw [List.append_assoc, ← hbody, List.append_assoc, List.append_assoc]
            exact hsplit
          · simp only [Tally.reject, Tally.skip] at hcount
            rw [List.length_append, List.length_append, htake, hheader]
            omega
        · rw [if_neg hrange] at h
          split at h
          · cases h
          · next hwhole =>
            cases h
            refine ⟨bytes.take skipped, _, ?_,
              sliceOf_take hfields rfl hrange (Nat.le_of_not_lt hwhole), ?_⟩
            · rw [List.append_assoc, List.append_assoc, List.take_append_drop]
              exact hsplit
            · rw [htake]
              simp only [Tally.accept, Tally.skip]
              omega

/-! ## Successive calls -/

namespace Receiver

/-- One call: what it returned, and the bytes that it used up. -/
structure Call where
  result : Except LinkFault Frame
  used : Bytes

/-- Successive calls, with the receiver and the source behind them. A call uses up what was still to
come before it and no longer is behind it. -/
def trace (config : Config) : Nat → Receiver → Source → List Call × Receiver × Source
  | 0, r, source => ([], r, source)
  | count + 1, r, source =>
    match r.next config source with
    | (result, r', source') =>
      let used :=
        (r.unread source).take ((r.unread source).length - (r'.unread source').length)
      let later := trace config count r' source'
      (⟨result, used⟩ :: later.1, later.2)

def framesOf (calls : List Call) : List Frame :=
  calls.filterMap fun call => call.result.toOption

/-- The lengths that the headers of frames state, together. -/
def statedLength (frames : List Frame) : Nat :=
  (frames.map (·.header.totalLength.toNat)).sum

theorem statedLength_ok (frame : Frame) (used : Bytes) (later : List Call) :
    statedLength (framesOf (⟨.ok frame, used⟩ :: later)) =
      frame.header.totalLength.toNat + statedLength (framesOf later) := rfl

variable {config : Config} {r r' : Receiver} {source source' : Source}
  {result : Except LinkFault Frame}

/-- A call uses up bytes from the front, and what it returns depends on them only. -/
theorem next_uses (h : r.next config source = (result, r', source')) :
    ∃ used,
      (r.unread source).take ((r.unread source).length - (r'.unread source').length) = used ∧
        r.unread source = used ++ r'.unread source' ∧
        Comes (scan config.maxFrameLength (.hunting 0) r.tally used) r'.tally result := by
  obtain ⟨used, hunread, hcomes⟩ := advance_uses config (.hunting 0) r source
  rw [show r.advance config (.hunting 0) source = (result, r', source') from h] at hunread hcomes
  refine ⟨used, ?_, hunread, hcomes⟩
  rw [hunread, List.length_append, Nat.add_sub_cancel, List.take_left]

theorem trace_slices (config : Config) (count : Nat) (r : Receiver) (source : Source) :
    let out := trace config count r source
    r.unread source = out.1.flatMap Call.used ++ out.2.1.unread out.2.2 ∧
      (∀ call ∈ out.1, ∀ frame, call.result = .ok frame →
        ∃ before slice, call.used = before ++ slice ∧
          SliceOf config.maxFrameLength slice frame) ∧
      ((∀ call ∈ out.1, ∃ frame, call.result = .ok frame) →
        (out.1.flatMap Call.used).length + (40 * r.tally.rejected + r.tally.skipped) =
          statedLength (framesOf out.1) +
            (40 * out.2.1.tally.rejected + out.2.1.tally.skipped)) := by
  induction count generalizing r source with
  | zero => exact ⟨rfl, nofun, fun _ => rfl⟩
  | succ count ih =>
    unfold trace
    generalize hnext : r.next config source = answer
    obtain ⟨result, r', source'⟩ := answer
    obtain ⟨used, hused, hunread, hcomes⟩ := next_uses hnext
    obtain ⟨hlater, hslices, hcount⟩ := ih r' source'
    dsimp only at hlater hslices hcount ⊢
    rw [hused]
    refine ⟨?_, ?_, ?_⟩
    · rw [hunread, hlater, List.flatMap_cons, List.append_assoc]
    · intro call hcall frame hframe
      rcases List.mem_cons.mp hcall with rfl | hcall
      · obtain rfl : result = .ok frame := hframe
        obtain ⟨before, slice, hbytes, hslice, -⟩ := slice_of_scan hcomes
        rw [List.append_nil] at hbytes
        exact ⟨before, slice, hbytes, hslice⟩
      · exact hslices call hcall frame hframe
    · intro hall
      obtain ⟨frame, hframe⟩ := hall _ List.mem_cons_self
      obtain rfl : result = .ok frame := hframe
      obtain ⟨before, slice, hbytes, hslice, hfirst⟩ := slice_of_scan hcomes
      have hrest := hcount fun call hcall => hall call (List.mem_cons_of_mem _ hcall)
      have hlength := congrArg List.length hbytes
      rw [List.append_nil, List.length_append, hslice.length] at hlength
      rw [List.flatMap_cons, List.length_append, statedLength_ok]
      dsimp only
      omega

/-- Whatever the source does and whichever calls have failed, the bytes that the calls of a new
receiver used up stand one after the other in what the source delivers. Each returned frame is a
slice of the bytes of its own call, the last of them. As long as no call has failed, all bytes used
up belong to frames or dropped headers or were skipped. -/
theorem frames_are_slices (config : Config) (source : Source) (count : Nat) :
    let out := trace config count {} source
    source.content = out.1.flatMap Call.used ++ out.2.1.unread out.2.2 ∧
      (∀ call ∈ out.1, ∀ frame, call.result = .ok frame →
        ∃ before slice, call.used = before ++ slice ∧
          SliceOf config.maxFrameLength slice frame) ∧
      ((∀ call ∈ out.1, ∃ frame, call.result = .ok frame) →
        (out.1.flatMap Call.used).length =
          statedLength (framesOf out.1) +
            (40 * out.2.1.tally.rejected + out.2.1.tally.skipped)) :=
  trace_slices config count {} source

/-- The first part of a magic word before a fault and the rest of it behind the fault do not make a
frame: the frame is the one that is sent whole after them. -/
theorem frames_are_slices_after_fault :
    let fault : IoFault := ⟨.brokenPipe, ""⟩
    let frame : Frame := ⟨Frame.headerOf 7 0 [⟨1, [5]⟩], [1, 0, 0, 0, 1, 0, 0, 0, 5]⟩
    let bytes := magic.drop 2 ++ Frame.encode 7 0 [⟨1, [5]⟩]
    let source : Source := { pending := [.data (magic.take 2), .failure fault, .data bytes] }
    ∃ failed passed, (trace .sensorBoard 2 {} source).1 = [failed, passed] ∧
      failed.result = .error (.failed fault) ∧ passed.result = .ok frame ∧
      ∃ before slice, passed.used = before ++ slice ∧ SliceOf 124 slice frame := by
  intro fault frame bytes source
  have hfirst : next .sensorBoard {} source =
      (.error (.failed fault), {}, { pending := [.data bytes] }) := by
    unfold next
    rw [advance]
    change advance .sensorBoard (.hunting 0) { buffered := magic.take 2 }
      { pending := [.failure fault, .data bytes] } = _
    rw [advance]
    change advance .sensorBoard (.hunting 1) { buffered := (magic.take 2).drop 1 }
      { pending := [.failure fault, .data bytes] } = _
    rw [advance]
    change advance .sensorBoard (.hunting 2) {} { pending := [.failure fault, .data bytes] } = _
    rw [advance]
    rfl
  obtain ⟨r', source', hsecond⟩ : ∃ r' source',
      next .sensorBoard {} { pending := [.data bytes] } = (.ok frame, r', source') := by
    have hdelivers : Delivers 255 0 bytes [.data bytes] := by
      rw [← List.append_nil bytes]
      exact .chunk (by decide) (.finished nofun)
    have hanswers := @advance_scan .sensorBoard 255 (.hunting 0) {} { pending := [.data bytes] }
      bytes (Nat.le_refl 255) (by decide) (Nat.zero_le _) hdelivers
    have hscan : scan 124 (.hunting 0) {} bytes = .frame frame ⟨1, 0, 6⟩ [] := by decide +kernel
    change Answers .sensorBoard 255 (scan 124 (.hunting 0) {} bytes)
      (next .sensorBoard {} { pending := [.data bytes] }) at hanswers
    generalize next .sensorBoard {} { pending := [.data bytes] } = answer at hanswers ⊢
    generalize hfound : scan 124 (.hunting 0) {} bytes = found at hanswers
    rw [hscan] at hfound
    cases hanswers with
    | frame =>
      obtain ⟨rfl, -, -⟩ := Scan.frame.inj hfound
      exact ⟨_, _, rfl⟩
    | starved => cases hfound
  have htrace : ∃ failed passed, (trace .sensorBoard 2 {} source).1 = [failed, passed] ∧
      failed.result = .error (.failed fault) ∧ passed.result = .ok frame := by
    unfold trace trace trace
    rw [hfirst]
    dsimp only
    rw [hsecond]
    exact ⟨_, _, rfl, rfl, rfl⟩
  obtain ⟨failed, passed, hcalls, hfailed, hpassed⟩ := htrace
  refine ⟨failed, passed, hcalls, hfailed, hpassed, ?_⟩
  refine (frames_are_slices .sensorBoard source 2).2.1 passed ?_ frame hpassed
  rw [hcalls]
  simp

end Receiver

end FireControl.Wire
