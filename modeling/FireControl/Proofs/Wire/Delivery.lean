import FireControl.Proofs.Wire.Parse

/-!
# Receiving does not depend on the delivery

A source may deliver the same bytes in pieces of any sizes, with interruptions and with pauses that
are not long enough for a stall (`Delivers`). Whatever the pieces are, a receiver runs as on the
byte string that is all there (`advance_scan`), so that its calls return the frames of the parsed
string and then report stalls (`calls_parse`).
-/

namespace FireControl.Wire

/-- A delivery without bytes and without a failure of the link. -/
def Idle : Delivery → Prop
  | .data bytes => bytes = []
  | .failure fault => fault.kind = .interrupted ∨ fault.kind = .wouldBlock ∨ fault.kind = .timedOut
  | .shutdown => True

/-- The deliveries bring exactly the given bytes in order, in reads that are not empty, with at most
`patience` empty reads before each of them, `idle` of which have been made already; then nothing
more comes. Interrupted reads do not count. -/
inductive Delivers (patience : Nat) : Nat → Bytes → List Delivery → Prop
  | finished {idle pending} : (∀ d ∈ pending, Idle d) → Delivers patience idle [] pending
  | chunk {idle chunk bytes later} : chunk ≠ [] → Delivers patience 0 bytes later →
      Delivers patience idle (chunk ++ bytes) (.data chunk :: later)
  | empty {idle bytes later} : idle < patience → Delivers patience (idle + 1) bytes later →
      Delivers patience idle bytes (.data [] :: later)
  | wait {idle bytes fault later} : fault.kind = .wouldBlock ∨ fault.kind = .timedOut →
      idle < patience → Delivers patience (idle + 1) bytes later →
      Delivers patience idle bytes (.failure fault :: later)
  | again {idle bytes fault later} : fault.kind = .interrupted →
      Delivers patience idle bytes later → Delivers patience idle bytes (.failure fault :: later)
  | shutdown {idle bytes later} : Delivers patience idle bytes later →
      Delivers patience idle bytes (.shutdown :: later)

/-! ## One read -/

section Reads
variable {patience idle size : Nat} {bytes : Bytes} {pending : List Delivery}

/-- What one read of such a source means to a receiver. -/
inductive Reads (patience idle : Nat) (bytes : Bytes) : Receiver.ReadOutcome → List Delivery → Prop
  | chunk {chunk rest later} : bytes = chunk ++ rest → Delivers patience 0 rest later →
      Reads patience idle bytes (.bytes chunk) later
  | empty {later} : idle < patience → Delivers patience (idle + 1) bytes later →
      Reads patience idle bytes .empty later
  | again {later} : Delivers patience idle bytes later → Reads patience idle bytes .again later
  | finished {later} : bytes = [] → (∀ d ∈ later, Idle d) → Reads patience idle bytes .empty later

theorem of_interrupted {fault : IoFault} (h : fault.kind = .interrupted) :
    Receiver.ReadOutcome.of (.error fault) = .again := by
  simp only [Receiver.ReadOutcome.of, h]

theorem of_waiting {fault : IoFault} (h : fault.kind = .wouldBlock ∨ fault.kind = .timedOut) :
    Receiver.ReadOutcome.of (.error fault) = .empty := by
  rcases h with h | h <;> simp only [Receiver.ReadOutcome.of, h]

theorem of_bytes {chunk : Bytes} (h : chunk ≠ []) :
    Receiver.ReadOutcome.of (.ok chunk) = .bytes chunk := by
  cases chunk with
  | nil => exact absurd rfl h
  | cons b rest => rfl

theorem readPending_empty (size : Nat) (later : List Delivery) :
    Source.readPending size (.data [] :: later) = (.ok [], later, false) := by
  rw [Source.readPending, List.drop_nil]

/-- After the last bytes nothing but pauses and interruptions is read. -/
theorem reads_over (h : ∀ d ∈ pending, Idle d) :
    Reads patience idle [] (.of (Source.readPending size pending).1)
      (Source.readPending size pending).2.1 := by
  induction pending with
  | nil => exact .finished rfl h
  | cons d later ih =>
    have hd := h d List.mem_cons_self
    have hlater : ∀ d ∈ later, Idle d := fun x hx => h x (List.mem_cons_of_mem _ hx)
    cases d with
    | data chunk =>
      obtain rfl : chunk = [] := hd
      rw [readPending_empty]
      exact .finished rfl hlater
    | failure fault =>
      show Reads patience idle [] (.of (.error fault)) later
      rcases hd with hkind | hkind
      · rw [of_interrupted hkind]
        exact .again (.finished hlater)
      · rw [of_waiting hkind]
        exact .finished rfl hlater
    | shutdown => exact ih hlater

/-- A buffer takes a part of a chunk and leaves the rest for the next read. -/
theorem reads_chunk {chunk : Bytes} {later : List Delivery} (hchunk : chunk ≠ [])
    (h : Delivers patience 0 bytes later) :
    Reads patience idle (chunk ++ bytes) (.of (Source.readPending size (.data chunk :: later)).1)
      (Source.readPending size (.data chunk :: later)).2.1 := by
  unfold Source.readPending
  cases hrest : chunk.drop (max size 1) with
  | nil =>
    rw [of_bytes hchunk]
    exact .chunk rfl h
  | cons b rest =>
    have hfront : chunk.take (max size 1) ≠ [] := by
      intro hempty
      rcases List.take_eq_nil_iff.mp hempty with hsize | hnil
      · omega
      · exact hchunk hnil
    have hlater : Delivers patience 0 ((b :: rest) ++ bytes) (.data (b :: rest) :: later) :=
      .chunk (List.cons_ne_nil b rest) h
    rw [of_bytes hfront]
    refine .chunk ?_ hlater
    rw [← hrest, ← List.append_assoc, List.take_append_drop]

theorem Delivers.reads (h : Delivers patience idle bytes pending) :
    Reads patience idle bytes (.of (Source.readPending size pending).1)
      (Source.readPending size pending).2.1 := by
  induction h with
  | finished hidle => exact reads_over hidle
  | chunk hchunk hlater => exact reads_chunk hchunk hlater
  | empty hidle hlater =>
    rw [readPending_empty]
    exact .empty hidle hlater
  | @wait idle bytes fault later hkind hidle hlater =>
    show Reads patience idle bytes (.of (.error fault)) later
    rw [of_waiting hkind]
    exact .empty hidle hlater
  | @again idle bytes fault later hkind hlater =>
    show Reads patience idle bytes (.of (.error fault)) later
    rw [of_interrupted hkind]
    exact .again hlater
  | shutdown hlater ih => exact ih

theorem Delivers.read {source source' : Source} {result : Except IoFault Bytes}
    (h : Delivers patience idle bytes source.pending)
    (hread : source.read size = (result, source')) :
    Reads patience idle bytes (.of result) source'.pending := by
  cases hread
  exact h.reads

end Reads

/-! ## One call -/

namespace Receiver

variable {config : Config} {patience : Nat}

/-- An empty read that is tolerated is counted. -/
theorem noteEmpty_eq_ok {r r' : Receiver} :
    noteEmpty config r = (.ok (), r') ↔ r.emptyReads + 1 < 2 ^ 32 ∧
      r.emptyReads + 1 ≤ config.maxEmptyReads ∧ r' = { r with emptyReads := r.emptyReads + 1 } := by
  unfold noteEmpty Checked.nat32
  split
  · next cause hnat =>
    split at hnat
    · cases hnat
    · next hwide => exact ⟨nofun, fun h => absurd h.1 hwide⟩
  · next n hnat =>
    split at hnat
    · next hnarrow =>
      cases hnat
      split
      · next hmany => exact ⟨nofun, fun h => absurd h.2.1 (Nat.not_le_of_lt hmany)⟩
      · next hfew =>
        constructor
        · intro h
          cases h
          exact ⟨hnarrow, Nat.le_of_not_lt hfew, rfl⟩
        · rintro ⟨-, -, rfl⟩
          rfl
    · cases hnat

/-- One empty read too many is a stall, unless the count has left its width. -/
theorem noteEmpty_eq_error {r r' : Receiver} {fault : LinkFault}
    (h : noteEmpty config r = (.error fault, r')) (hr : r.emptyReads ≤ config.maxEmptyReads) :
    r'.buffered = r.buffered ∧ r'.tally = r.tally ∧ r'.emptyReads ≤ config.maxEmptyReads ∧
      (config.maxEmptyReads + 1 < 2 ^ 32 → fault = .stalled (config.maxEmptyReads + 1)) := by
  unfold noteEmpty Checked.nat32 at h
  split at h
  · next cause hnat =>
    cases h
    split at hnat
    · cases hnat
    · next hwide => exact ⟨rfl, rfl, hr, fun hmax => absurd hwide (by omega)⟩
  · next n hnat =>
    split at hnat
    · cases hnat
      split at h
      · next hmany =>
        cases h
        have hexact : r.emptyReads + 1 = config.maxEmptyReads + 1 := by omega
        exact ⟨rfl, rfl, Nat.zero_le _, fun _ => congrArg LinkFault.stalled hexact⟩
      · cases h
    · cases hnat

/-- What a call returns and leaves behind, given how far the bytes take it. -/
inductive Answers (config : Config) (patience : Nat) :
    Scan → Except LinkFault Frame × Receiver × Source → Prop
  | frame {f r source bytes} : r.emptyReads ≤ config.maxEmptyReads →
      Delivers patience r.emptyReads bytes source.pending →
      Answers config patience (.frame f r.tally (r.buffered ++ bytes)) (.ok f, r, source)
  | starved {fault r source} : r.emptyReads ≤ config.maxEmptyReads → r.buffered = [] →
      (∀ d ∈ source.pending, Idle d) →
      (config.maxEmptyReads + 1 < 2 ^ 32 → fault = .stalled (config.maxEmptyReads + 1)) →
      Answers config patience (.starved r.tally) (.error fault, r, source)

/-- A receiver runs on the deliveries as on the bytes they bring. -/
theorem advance_scan (phase : Phase) {r : Receiver} {source : Source} {bytes : Bytes}
    (hpatience : patience ≤ config.maxEmptyReads) (hwidth : patience < 2 ^ 32)
    (hr : r.emptyReads ≤ config.maxEmptyReads)
    (h : Delivers patience r.emptyReads bytes source.pending) :
    Answers config patience (scan config.maxFrameLength phase r.tally (r.buffered ++ bytes))
      (r.advance config phase source) := by
  -- Each way through the loop either consumes a byte as the scan does or reads once more.
  fun_induction advance config phase r source generalizing bytes with
  | case1 phase r source byte rest hb next skipped ha ih =>
    rw [hb, List.cons_append, scan_cons, ha]
    exact ih hr h
  | case2 phase r source byte rest hb ha ih =>
    rw [hb, List.cons_append, scan_cons, ha]
    exact ih hr h
  | case3 phase r source byte rest hb frame ha =>
    rw [hb, List.cons_append, scan_cons, ha]
    exact @Answers.frame config patience frame
      { r with buffered := rest, tally := r.tally.accept } source bytes hr h
  | case4 phase r source hb result source' hread chunk ho ih =>
    have hreads := h.read hread
    rw [ho] at hreads
    cases hreads with
    | chunk hbytes hlater =>
      rw [hb, List.nil_append, hbytes]
      exact ih (Nat.zero_le _) hlater
  | case5 phase r source hb result source' hread ho ih =>
    have hreads := h.read hread
    rw [ho] at hreads
    cases hreads with
    | again hlater => exact ih hr hlater
  | case6 phase r source hb result source' hread fault ho =>
    have hreads := h.read hread
    rw [ho] at hreads
    cases hreads
  | case7 phase r source hb result source' hread ho fault r' hn =>
    have hreads := h.read hread
    rw [ho] at hreads
    obtain ⟨hbuffered, htally, hr', hfault⟩ := noteEmpty_eq_error hn hr
    cases hreads with
    | empty hidle hlater =>
      -- The source is not idle for longer than the receiver is patient.
      have hok := (@noteEmpty_eq_ok config r _).mpr ⟨by omega, by omega, rfl⟩
      rw [hok] at hn
      cases hn
    | finished hbytes hidle =>
      rw [hb, hbytes, ← htally]
      exact .starved hr' (hbuffered.trans hb) hidle hfault
  | case8 phase r source hb result source' hread ho r' hn ih =>
    have hreads := h.read hread
    rw [ho] at hreads
    obtain ⟨-, hmost, rfl⟩ := noteEmpty_eq_ok.mp hn
    cases hreads with
    | empty hidle hlater => exact ih hmost hlater
    | finished hbytes hidle =>
      rw [hbytes]
      exact ih hmost (.finished hidle)

/-! ## Successive calls -/

/-- What successive calls return, with the tally at every return. -/
def calls (config : Config) : Nat → Receiver → Source → List (Except LinkFault Frame × Tally)
  | 0, _, _ => []
  | count + 1, r, source =>
    match r.next config source with
    | (result, r', source') => (result, r'.tally) :: calls config count r' source'

section Calls
variable {r : Receiver} {source : Source} {bytes : Bytes}

/-- Link faults, which are stalls as long as the count of empty reads fits its width. -/
def Stalls (config : Config) (faults : List LinkFault) : Prop :=
  config.maxEmptyReads + 1 < 2 ^ 32 →
    faults = List.replicate faults.length (.stalled (config.maxEmptyReads + 1))

theorem Stalls.cons {fault : LinkFault} {faults : List LinkFault} (h : Stalls config faults)
    (hfault : config.maxEmptyReads + 1 < 2 ^ 32 → fault = .stalled (config.maxEmptyReads + 1)) :
    Stalls config (fault :: faults) := by
  intro hmax
  rw [List.length_cons, List.replicate_succ, ← h hmax, ← hfault hmax]

/-- When the bytes take a receiver to no further frame, every call reports a fault. -/
theorem calls_starved {final : Tally} (hpatience : patience ≤ config.maxEmptyReads)
    (hwidth : patience < 2 ^ 32) (hr : r.emptyReads ≤ config.maxEmptyReads)
    (h : Delivers patience r.emptyReads bytes source.pending)
    (hscan : scan config.maxFrameLength (.hunting 0) r.tally (r.buffered ++ bytes) = .starved final)
    (count : Nat) :
    ∃ faults, faults.length = count ∧ Stalls config faults ∧
      calls config count r source = faults.map fun fault => (.error fault, final) := by
  induction count generalizing r source bytes with
  | zero => exact ⟨[], rfl, fun _ => rfl, rfl⟩
  | succ count ih =>
    have hanswers := advance_scan (.hunting 0) hpatience hwidth hr h
    rw [hscan] at hanswers
    unfold calls next
    generalize r.advance config (.hunting 0) source = answer at hanswers ⊢
    cases hanswers with
    | @starved fault r' source' hr' hbuffered hidle hfault =>
      have hscan' : scan config.maxFrameLength (.hunting 0) r'.tally (r'.buffered ++ []) =
          .starved r'.tally := by
        rw [hbuffered]
        rfl
      obtain ⟨faults, hcount, hstalls, hcalls⟩ := ih hr' (.finished hidle) hscan'
      refine ⟨fault :: faults, congrArg Nat.succ hcount, hstalls.cons hfault, ?_⟩
      dsimp only
      rw [hcalls]
      rfl

/-- Successive calls return the frames of the parsed bytes, with their tallies, and then faults. -/
theorem calls_of_parse {frames : List (Frame × Tally)} {final : Tally}
    (hpatience : patience ≤ config.maxEmptyReads) (hwidth : patience < 2 ^ 32)
    (hr : r.emptyReads ≤ config.maxEmptyReads)
    (h : Delivers patience r.emptyReads bytes source.pending)
    (hparse : parse config.maxFrameLength r.tally (r.buffered ++ bytes) = (frames, final))
    (count : Nat) :
    ∃ faults, faults.length = count ∧ Stalls config faults ∧
      calls config (frames.length + count) r source =
        frames.map (fun (frame, tally) => (.ok frame, tally)) ++
          faults.map fun fault => (.error fault, final) := by
  induction frames generalizing r source bytes with
  | nil =>
    rw [parse_eq_scan] at hparse
    cases hscan : scan config.maxFrameLength (.hunting 0) r.tally (r.buffered ++ bytes) with
    | frame frame tally rest =>
      rw [hscan] at hparse
      cases hparse
    | starved tally =>
      rw [hscan] at hparse
      cases hparse
      rw [List.length_nil, Nat.zero_add]
      exact calls_starved hpatience hwidth hr h hscan count
  | cons first frames ih =>
    have hanswers := advance_scan (.hunting 0) hpatience hwidth hr h
    rw [parse_eq_scan] at hparse
    rw [List.length_cons, Nat.add_right_comm]
    unfold calls next
    generalize r.advance config (.hunting 0) source = answer at hanswers ⊢
    generalize scan config.maxFrameLength (.hunting 0) r.tally (r.buffered ++ bytes) = found
      at hanswers hparse
    cases hanswers with
    | starved => cases hparse
    | @frame f r' source' bytes' hr' hdelivers =>
      dsimp only at hparse ⊢
      obtain ⟨hcons, rfl⟩ := Prod.mk.inj hparse
      obtain ⟨rfl, rfl⟩ := List.cons.inj hcons
      obtain ⟨faults, hcount, hstalls, hcalls⟩ := ih hr' hdelivers rfl
      refine ⟨faults, hcount, hstalls, ?_⟩
      rw [hcalls]
      rfl

end Calls

/-- From a new receiver on, whatever the pieces of the delivery and the size of the buffer are, the
calls return the frames of the parsed bytes and then report stalls, and the tallies at every return
are those of the parse. -/
theorem calls_parse {source : Source} {bytes : Bytes} (hmax : config.maxEmptyReads < 4294967295)
    (h : Delivers config.maxEmptyReads 0 bytes source.pending) (count : Nat) :
    calls config ((parse config.maxFrameLength {} bytes).1.length + count) {} source =
      (parse config.maxFrameLength {} bytes).1.map (fun (frame, tally) => (.ok frame, tally)) ++
        List.replicate count (.error (.stalled (config.maxEmptyReads + 1)),
          (parse config.maxFrameLength {} bytes).2) := by
  obtain ⟨faults, rfl, hstalls, hcalls⟩ :=
    @calls_of_parse config config.maxEmptyReads {} source bytes _ _ (Nat.le_refl _) (by omega)
      (Nat.zero_le _) h rfl count
  refine hcalls.trans (congrArg _ ?_)
  rw [hstalls (by omega), List.map_replicate, List.length_replicate]
  rfl

/-- A short frame with a byte before it and a byte after it, delivered in two pieces with pauses. -/
theorem calls_parse_in_pieces :
    let frame : Frame := ⟨Frame.headerOf 7 0 [⟨1, [5]⟩], [1, 0, 0, 0, 1, 0, 0, 0, 5]⟩
    let bytes := 2 :: Frame.encode 7 0 [⟨1, [5]⟩] ++ [9]
    let pending : List Delivery := [.data [], .data (bytes.take 5), .failure ⟨.interrupted, ""⟩,
      .failure ⟨.timedOut, ""⟩, .data (bytes.drop 5)]
    (255 < 4294967295 ∧ Delivers 255 0 bytes pending) ∧
      calls .sensorBoard 2 {} { pending } =
        [(.ok frame, ⟨1, 0, 1⟩), (.error (.stalled 256), ⟨1, 0, 2⟩)] := by
  intro frame bytes pending
  have hdelivers : Delivers 255 0 bytes pending := by
    refine .empty (by decide) ?_
    have hsplit : bytes = bytes.take 5 ++ (bytes.drop 5 ++ []) := by decide
    rw [hsplit]
    refine .chunk (by decide) (.again rfl (.wait (Or.inr rfl) (by decide) ?_))
    exact .chunk (by decide) (.finished fun d hd => by cases hd)
  have hscan : scan 124 (.hunting 0) {} bytes = .frame frame ⟨1, 0, 1⟩ [9] := by decide +kernel
  have hrest : scan 124 (.hunting 0) ⟨1, 0, 1⟩ [9] = .starved ⟨1, 0, 2⟩ := by decide +kernel
  have hparse : parse 124 {} bytes = ([(frame, ⟨1, 0, 1⟩)], ⟨1, 0, 2⟩) := by
    rw [parse_eq_scan, hscan]
    dsimp only
    rw [parse_eq_scan, hrest]
  have hcalls := @calls_parse .sensorBoard { pending } bytes (by decide) hdelivers 1
  change calls .sensorBoard ((parse 124 {} bytes).1.length + 1) {} { pending } =
    (parse 124 {} bytes).1.map _ ++ List.replicate 1 (_, (parse 124 {} bytes).2) at hcalls
  rw [hparse] at hcalls
  exact ⟨⟨by decide, hdelivers⟩, hcalls⟩

end Receiver

end FireControl.Wire
