import FireControl.Proofs.Wire.Delivery

/-!
# When a link is stalled

A log of a link notes every read with its result and every call with its answer. `Logged` holds of
the logs that a new receiver leaves, also in the middle of a call, and every number of calls leaves
one (`calls_logged`). What the receiver counts is what the log says: the empty reads since the last
bytes or the last stall (`emptySince`), whatever else was read or answered in between. So a link
fault is answered exactly where one is due (`Due`): at the read with which this number exceeds what
is tolerated, or at a read that failed. `stalls_are_counted_exactly` puts it together, with a bound on
the reads: at the end of the source a call gives up.
-/

namespace FireControl.Wire.Receiver

/-- One entry in the log of a link. -/
inductive Entry where
  | read (result : Except IoFault Bytes)
  | answer (result : Except LinkFault Frame)

namespace Entry

/-- A read that found nothing yet. -/
def isEmpty : Entry → Bool
  | .read (.ok []) => true
  | .read (.error fault) => fault.kind == .wouldBlock || fault.kind == .timedOut
  | _ => false

/-- Bytes were read, or a stall was answered. -/
def restarts : Entry → Bool
  | .read (.ok (_ :: _)) => true
  | .answer (.error (.stalled _)) => true
  | _ => false

def read? : Entry → Option (Except IoFault Bytes)
  | .read result => some result
  | .answer _ => none

def answer? : Entry → Option (Except LinkFault Frame)
  | .read _ => none
  | .answer result => some result

end Entry

/-! Logs have their latest entry first. -/

/-- The empty reads since the last bytes or the last stall. -/
def emptySince (log : List Entry) : Nat :=
  (log.takeWhile fun e => !e.restarts).countP Entry.isEmpty

def reads (log : List Entry) : List (Except IoFault Bytes) := log.filterMap Entry.read?

def answers (log : List Entry) : List (Except LinkFault Frame) := log.filterMap Entry.answer?

/-- A failure of the link itself: not an interruption, and not that nothing is there yet. -/
def Breaks (fault : IoFault) : Prop :=
  fault.kind ≠ .interrupted ∧ fault.kind ≠ .wouldBlock ∧ fault.kind ≠ .timedOut

/-- The link fault that is to be answered right after the log. -/
inductive Due (config : Config) : List Entry → LinkFault → Prop
  | stalled {result log} : (Entry.read result).isEmpty = true →
      emptySince (.read result :: log) = config.maxEmptyReads + 1 →
      Due config (.read result :: log) (.stalled (config.maxEmptyReads + 1))
  | failed {fault log} : Breaks fault → Due config (.read (.error fault) :: log) (.failed fault)

/-- The log of a new receiver, which stands between two calls or, in one of them, at a phase. -/
inductive Logged (config : Config) (first : Source) :
    List Entry → Option Phase → Receiver → Source → Prop
  | start : Logged config first [] none {} first
  | call {log r source} : Logged config first log none r source →
      Logged config first log (some (.hunting 0)) r source
  | more {log phase phase' byte rest skipped r source} : r.buffered = byte :: rest →
      phase.accept config.maxFrameLength byte = .more phase' skipped →
      Logged config first log (some phase) r source →
      Logged config first log (some phase')
        { r with buffered := rest, tally := { r.tally with skipped := r.tally.skipped + skipped } }
        source
  | rejected {log phase byte rest r source} : r.buffered = byte :: rest →
      phase.accept config.maxFrameLength byte = .rejected →
      Logged config first log (some phase) r source →
      Logged config first log (some (.hunting 0))
        { r with buffered := rest, tally := { r.tally with rejected := r.tally.rejected + 1 } }
        source
  | complete {log phase byte rest frame r source} : r.buffered = byte :: rest →
      phase.accept config.maxFrameLength byte = .complete frame →
      Logged config first log (some phase) r source →
      Logged config first (.answer (.ok frame) :: log) none
        { r with buffered := rest, tally := { r.tally with frames := r.tally.frames + 1 } } source
  | bytes {log phase result chunk r source source'} : r.buffered = [] →
      source.read config.readSize = (result, source') → ReadOutcome.of result = .bytes chunk →
      Logged config first log (some phase) r source →
      Logged config first (.read result :: log) (some phase)
        { r with buffered := chunk, emptyReads := 0 } source'
  | again {log phase result r source source'} : r.buffered = [] →
      source.read config.readSize = (result, source') → ReadOutcome.of result = .again →
      Logged config first log (some phase) r source →
      Logged config first (.read result :: log) (some phase) r source'
  | failed {log phase result fault r source source'} : r.buffered = [] →
      source.read config.readSize = (result, source') → ReadOutcome.of result = .failed fault →
      Logged config first log (some phase) r source →
      Logged config first (.answer (.error (.failed fault)) :: .read result :: log) none r source'
  | stalled {log phase result fault r r' source source'} : r.buffered = [] →
      source.read config.readSize = (result, source') → ReadOutcome.of result = .empty →
      noteEmpty config r = (.error fault, r') →
      Logged config first log (some phase) r source →
      Logged config first (.answer (.error fault) :: .read result :: log) none r' source'
  | empty {log phase result r r' source source'} : r.buffered = [] →
      source.read config.readSize = (result, source') → ReadOutcome.of result = .empty →
      noteEmpty config r = (.ok (), r') →
      Logged config first log (some phase) r source →
      Logged config first (.read result :: log) (some phase) r' source'

variable {config : Config} {first source source' : Source} {r r' : Receiver}
  {log earlier : List Entry} {stage : Option Phase} {result : Except IoFault Bytes}
  {fault : LinkFault}

/-! ## Every call leaves a log -/

theorem advance_logged {phase : Phase} (h : Logged config first log (some phase) r source) :
    let out := r.advance config phase source
    ∃ log', Logged config first log' none out.2.1 out.2.2 ∧ answers log' = out.1 :: answers log := by
  fun_induction advance config phase r source generalizing log with
  | case1 phase r source byte rest hb phase' skipped ha ih => exact ih (.more hb ha h)
  | case2 phase r source byte rest hb ha ih => exact ih (.rejected hb ha h)
  | case3 phase r source byte rest hb frame ha => exact ⟨_, .complete hb ha h, rfl⟩
  -- A read is no answer: the log behind it has the answers of the log before it.
  | case4 phase r source hb result source' hr chunk ho ih =>
    exact @ih (.read result :: log) (.bytes hb hr ho h)
  | case5 phase r source hb result source' hr ho ih =>
    exact @ih (.read result :: log) (.again hb hr ho h)
  | case6 phase r source hb result source' hr fault ho => exact ⟨_, .failed hb hr ho h, rfl⟩
  | case7 phase r source hb result source' hr ho fault r' hn =>
    exact ⟨_, .stalled hb hr ho hn h, rfl⟩
  | case8 phase r source hb result source' hr ho r' hn ih =>
    exact @ih (.read result :: log) (.empty hb hr ho hn h)

/-- Any number of calls leaves a log with their answers. -/
theorem calls_logged (h : Logged config first log none r source) (count : Nat) :
    ∃ log' r' source', Logged config first log' none r' source' ∧
      (answers log').reverse =
        (answers log).reverse ++ (calls config count r source).map Prod.fst := by
  induction count generalizing log r source with
  | zero => exact ⟨log, r, source, h, (List.append_nil _).symm⟩
  | succ count ih =>
    obtain ⟨log', hlogged, hanswers⟩ := advance_logged h.call
    obtain ⟨log'', r'', source'', hlater, hall⟩ := ih hlogged
    refine ⟨log'', r'', source'', hlater, ?_⟩
    rw [hall, hanswers, List.reverse_cons, List.append_assoc]
    rfl

/-! ## One entry more -/

theorem emptySince_cons (e : Entry) (log : List Entry) :
    emptySince (e :: log) =
      if e.restarts then 0 else emptySince log + if e.isEmpty then 1 else 0 := by
  unfold emptySince
  rw [List.takeWhile_cons]
  cases e.restarts with
  | true => rfl
  | false => exact List.countP_cons

theorem restarts_of_isEmpty {e : Entry} (h : e.isEmpty = true) : e.restarts = false := by
  cases e with
  | answer => simp [Entry.isEmpty] at h
  | read result =>
    cases result with
    | error => rfl
    | ok chunk =>
      cases chunk with
      | nil => rfl
      | cons => simp [Entry.isEmpty] at h

/-! What a read means to a receiver is what its entry says. -/

theorem restarts_of_bytes {chunk : Bytes} (h : ReadOutcome.of result = .bytes chunk) :
    (Entry.read result).restarts = true := by
  obtain rfl := ReadOutcome.of_eq_bytes h
  cases chunk with
  | nil => cases h
  | cons => rfl

theorem isEmpty_of_empty (h : ReadOutcome.of result = .empty) :
    (Entry.read result).isEmpty = true := by
  unfold ReadOutcome.of at h
  split at h
  · rfl
  · cases h
  · split at h
    · cases h
    · next hkind => simp [Entry.isEmpty, hkind]
    · next hkind => simp [Entry.isEmpty, hkind]
    · cases h

theorem interrupted_of_again (h : ReadOutcome.of result = .again) :
    ∃ fault, result = .error fault ∧ fault.kind = .interrupted := by
  unfold ReadOutcome.of at h
  split at h
  · cases h
  · cases h
  · next fault =>
    split at h
    · next hkind => exact ⟨fault, rfl, hkind⟩
    · cases h
    · cases h
    · cases h

theorem breaks_of_failed {fault : IoFault} (h : ReadOutcome.of result = .failed fault) :
    result = .error fault ∧ Breaks fault := by
  unfold ReadOutcome.of at h
  split at h
  · cases h
  · cases h
  · split at h
    · cases h
    · cases h
    · cases h
    · next hinterrupted hblock htime =>
      cases h
      exact ⟨rfl, hinterrupted, hblock, htime⟩

theorem not_isEmpty_of_interrupted {fault : IoFault} (h : fault.kind = .interrupted) :
    (Entry.read (.error fault)).isEmpty = false := by
  simp [Entry.isEmpty, h]

theorem Breaks.not_isEmpty {fault : IoFault} (h : Breaks fault) :
    (Entry.read (.error fault)).isEmpty = false := by
  simp [Entry.isEmpty, h.2.1, h.2.2]

/-! ## The count -/

/-- In the log, a link fault is answered where one is due, and nowhere else. -/
def Faithful (config : Config) (log : List Entry) : Prop :=
  ∀ later e earlier, log = later ++ e :: earlier →
    ∀ fault, e = .answer (.error fault) ↔ Due config earlier fault

theorem Faithful.cons {e : Entry} (h : Faithful config log)
    (he : ∀ fault, e = .answer (.error fault) ↔ Due config log fault) :
    Faithful config (e :: log) := by
  intro later e' earlier hlog
  cases later with
  | nil =>
    obtain ⟨rfl, rfl⟩ := List.cons.inj hlog
    exact he
  | cons e'' later => exact h later e' earlier (List.cons.inj hlog).2

/-- The receiver counts what the log says and tolerates it, and every fault that was due has been
answered. -/
structure Counted (config : Config) (log : List Entry) (r : Receiver) : Prop where
  count : r.emptyReads = emptySince log
  tolerated : r.emptyReads ≤ config.maxEmptyReads
  settled : ∀ fault, ¬ Due config log fault
  faithful : Faithful config log

theorem Due.unique {fault' : LinkFault} (h : Due config log fault) (h' : Due config log fault') :
    fault = fault' := by
  cases h with
  | stalled hempty =>
    cases h' with
    | stalled => rfl
    | failed hbreaks =>
      rw [hbreaks.not_isEmpty] at hempty
      cases hempty
  | failed hbreaks =>
    cases h' with
    | stalled hempty =>
      rw [hbreaks.not_isEmpty] at hempty
      cases hempty
    | failed => rfl

/-- Nothing is due after a read within what is tolerated that is no failure of the link. -/
theorem not_due_read (hcount : emptySince (.read result :: log) ≤ config.maxEmptyReads)
    (hbreaks : ∀ cause, result = .error cause → ¬ Breaks cause) :
    ¬ Due config (.read result :: log) fault := by
  intro hdue
  cases hdue with
  | stalled hempty hlimit => omega
  | failed h => exact hbreaks _ rfl h

/-- With every fault answered, an entry that answers none is right. -/
theorem Counted.quiet {e : Entry} (h : Counted config log r)
    (he : ∀ fault, e ≠ .answer (.error fault)) : Faithful config (e :: log) := by
  apply h.faithful.cons
  intro fault
  exact ⟨fun hanswer => absurd hanswer (he fault), fun hdue => absurd hdue (h.settled fault)⟩

theorem Counted.complete (h : Counted config log r) (frame : Frame) :
    Counted config (.answer (.ok frame) :: log) r := by
  refine ⟨?_, h.tolerated, fun _ => nofun, h.quiet nofun⟩
  rw [emptySince_cons, h.count]
  rfl

theorem Counted.read (h : Counted config log r)
    (hcount : r'.emptyReads = emptySince (.read result :: log))
    (htolerated : r'.emptyReads ≤ config.maxEmptyReads)
    (hbreaks : ∀ cause, result = .error cause → ¬ Breaks cause) :
    Counted config (.read result :: log) r' :=
  ⟨hcount, htolerated, fun _ => not_due_read (hcount ▸ htolerated) hbreaks, h.quiet nofun⟩

/-- A fault that a read makes due is answered at once. -/
theorem Counted.report (h : Counted config log r) (hdue : Due config (.read result :: log) fault)
    (hcount : r'.emptyReads = emptySince (.answer (.error fault) :: .read result :: log))
    (htolerated : r'.emptyReads ≤ config.maxEmptyReads) :
    Counted config (.answer (.error fault) :: .read result :: log) r' := by
  have hread : Faithful config (.read result :: log) := h.quiet nofun
  refine ⟨hcount, htolerated, fun _ => nofun, hread.cons ?_⟩
  intro fault'
  constructor
  · intro h
    cases h
    exact hdue
  · intro hdue'
    rw [hdue.unique hdue']

/-- One empty read too many: the count has reached the limit and starts again. -/
theorem noteEmpty_stalls (hmax : config.maxEmptyReads < 4294967295)
    (hr : r.emptyReads ≤ config.maxEmptyReads) (h : noteEmpty config r = (.error fault, r')) :
    r.emptyReads = config.maxEmptyReads ∧ fault = .stalled (config.maxEmptyReads + 1) ∧
      r'.emptyReads = 0 := by
  have hfits : Checked.nat32 .add (r.emptyReads + 1) = .ok (r.emptyReads + 1) :=
    Checked.nat32_eq_ok.mpr ⟨by omega, rfl⟩
  unfold noteEmpty at h
  simp only [hfits] at h
  split at h
  · cases h
    have hlimit : r.emptyReads = config.maxEmptyReads := by omega
    exact ⟨hlimit, by rw [hlimit], rfl⟩
  · cases h

theorem counted (hmax : config.maxEmptyReads < 4294967295)
    (h : Logged config first log stage r source) : Counted config log r := by
  induction h with
  | start =>
    refine ⟨rfl, Nat.zero_le _, fun _ => nofun, ?_⟩
    intro later e earlier hlog
    simp at hlog
  | call _ ih => exact ih
  | more _ _ _ ih => exact ⟨ih.count, ih.tolerated, ih.settled, ih.faithful⟩
  | rejected _ _ _ ih => exact ⟨ih.count, ih.tolerated, ih.settled, ih.faithful⟩
  | @complete _ _ _ _ frame _ _ _ _ _ ih =>
    have hlater := ih.complete frame
    exact ⟨hlater.count, hlater.tolerated, hlater.settled, hlater.faithful⟩
  | bytes _ _ ho _ ih =>
    refine ih.read ?_ (Nat.zero_le _) ?_
    · rw [emptySince_cons, restarts_of_bytes ho]
      rfl
    · intro cause herror
      rw [ReadOutcome.of_eq_bytes ho] at herror
      cases herror
  | again _ _ ho _ ih =>
    obtain ⟨fault, rfl, hkind⟩ := interrupted_of_again ho
    refine ih.read ?_ ih.tolerated ?_
    · rw [emptySince_cons, not_isEmpty_of_interrupted hkind, ih.count]
      rfl
    · intro cause hcause hbreaks
      cases hcause
      exact hbreaks.1 hkind
  | failed _ _ ho _ ih =>
    obtain ⟨rfl, hbreaks⟩ := breaks_of_failed ho
    refine ih.report (.failed hbreaks) ?_ ih.tolerated
    rw [emptySince_cons, emptySince_cons, hbreaks.not_isEmpty, ih.count]
    rfl
  | stalled _ _ ho hn _ ih =>
    have hempty := isEmpty_of_empty ho
    obtain ⟨hlimit, rfl, hzero⟩ := noteEmpty_stalls hmax ih.tolerated hn
    refine ih.report (.stalled hempty ?_) ?_ (hzero ▸ Nat.zero_le _)
    · rw [emptySince_cons, restarts_of_isEmpty hempty, hempty, ← ih.count, hlimit]
      rfl
    · rw [hzero, emptySince_cons]
      rfl
  | empty _ _ ho hn _ ih =>
    have hempty := isEmpty_of_empty ho
    obtain ⟨-, hmost, rfl⟩ := noteEmpty_eq_ok.mp hn
    refine ih.read ?_ hmost ?_
    · rw [emptySince_cons, restarts_of_isEmpty hempty, hempty, ← ih.count]
      rfl
    · rintro cause rfl hbreaks
      rw [hbreaks.not_isEmpty] at hempty
      cases hempty

/-! ## The number of reads -/

/-- So many reads have been made: while deliveries are left, no more than have been taken from the
source, and `idle` of them at its end. -/
def Spent (first source : Source) (n idle : Nat) : Prop :=
  (source.pending = [] ∨ n + source.weight ≤ first.weight) ∧ n ≤ first.weight + idle

theorem Spent.read {n idle size : Nat} (h : Spent first source n idle)
    (hread : source.read size = (result, source')) :
    Spent first source' (n + 1) (idle + 1) ∧
      (result ≠ .ok [] → ∀ idle', Spent first source' (n + 1) idle') := by
  obtain ⟨htaken, hmade⟩ := h
  by_cases hpending : source.pending = []
  · -- At the end of the source every read is empty.
    simp only [Source.read, hpending, Source.readPending] at hread
    cases hread
    exact ⟨⟨Or.inl rfl, by omega⟩, fun hne => absurd rfl hne⟩
  · have hlighter : source'.weight < source.weight := by
      have hweight := Source.readPending_weight size source.pending hpending
      simp only [Source.read] at hread
      cases hread
      exact hweight
    have htaken := htaken.resolve_left hpending
    exact ⟨⟨Or.inr (by omega), by omega⟩, fun _ _ => ⟨Or.inr (by omega), by omega⟩⟩

/-- A stall takes one empty read more than is tolerated. -/
theorem reads_spent (hmax : config.maxEmptyReads < 4294967295)
    (h : Logged config first log stage r source) :
    Spent first source (reads log).length
      ((answers log).length * (config.maxEmptyReads + 1) + r.emptyReads) := by
  induction h with
  | start => exact ⟨Or.inr (Nat.le_of_eq (Nat.zero_add _)), Nat.zero_le _⟩
  | call _ ih => exact ih
  | more _ _ _ ih => exact ih
  | rejected _ _ _ ih => exact ih
  | complete _ _ _ ih =>
    refine ⟨ih.1, Nat.le_trans ih.2 ?_⟩
    simp only [answers, List.filterMap_cons, Entry.answer?, List.length_cons, Nat.succ_mul]
    omega
  | bytes _ hr ho _ ih =>
    obtain rfl := ReadOutcome.of_eq_bytes ho
    refine (ih.read hr).2 ?_ _
    rintro hempty
    cases hempty
    cases ho
  | again _ hr ho _ ih =>
    obtain ⟨fault, rfl, -⟩ := interrupted_of_again ho
    exact (ih.read hr).2 nofun _
  | failed _ hr ho _ ih =>
    obtain ⟨rfl, -⟩ := breaks_of_failed ho
    exact (ih.read hr).2 nofun _
  | stalled _ hr _ hn hlog ih =>
    obtain ⟨hlimit, -, hzero⟩ := noteEmpty_stalls hmax (counted hmax hlog).tolerated hn
    have hspent := (ih.read hr).1
    rw [hlimit, Nat.add_assoc, ← Nat.succ_mul] at hspent
    rw [hzero]
    exact hspent
  | empty _ hr _ hn _ ih =>
    obtain ⟨-, -, rfl⟩ := noteEmpty_eq_ok.mp hn
    exact (ih.read hr).1

/-- Whatever a source does, any number of calls of a new receiver comes to an end and leaves a log.
At every point of it, also between calls and in the middle of one, the receiver has counted the empty
reads since the last bytes or the last stall, and there are no more of them than tolerated. A call
answers a stall exactly at the read that makes them one more, with their number, and a failure of the
link exactly at the read that failed; no other fault is answered. Beyond what the source delivers,
reads are made only for these counts. -/
theorem stalls_are_counted_exactly (hmax : config.maxEmptyReads < 4294967295) (first : Source) :
    (∀ count, ∃ log r source, Logged config first log none r source ∧
      (answers log).reverse = (calls config count {} first).map Prod.fst) ∧
    ∀ log stage r source, Logged config first log stage r source →
      r.emptyReads = emptySince log ∧ emptySince log ≤ config.maxEmptyReads ∧
      (∀ fault, ¬ Due config log fault) ∧
      (∀ later e earlier, log = later ++ e :: earlier →
        ∀ fault, e = .answer (.error fault) ↔ Due config earlier fault) ∧
      (reads log).length ≤ first.weight +
        ((answers log).length * (config.maxEmptyReads + 1) + emptySince log) := by
  refine ⟨fun count => calls_logged .start count, ?_⟩
  intro log stage r source hlogged
  have h := counted hmax hlogged
  have hspent := (reads_spent hmax hlogged).2
  rw [h.count] at hspent
  exact ⟨h.count, h.count ▸ h.tolerated, h.settled, h.faithful, hspent⟩

/-- An empty read, a failure of the link that ends the call, an interruption and a second empty read
in the next call: one more than tolerated. -/
theorem stalls_are_counted_exactly_across_calls :
    let config := { Config.sensorBoard with maxEmptyReads := 1 }
    let late : IoFault := ⟨.timedOut, ""⟩
    let broken : IoFault := ⟨.brokenPipe, ""⟩
    let interrupted : IoFault := ⟨.interrupted, ""⟩
    let first : Source := { pending := [.failure late, .failure broken, .failure interrupted] }
    let earlier := [.read (.ok []), .read (.error interrupted),
      .answer (.error (.failed broken)), .read (.error broken), .read (.error late)]
    config.maxEmptyReads < 4294967295 ∧ Due config earlier (.stalled 2) ∧
      ∃ r source, Logged config first (.answer (.error (.stalled 2)) :: earlier) none r source ∧
        r.emptyReads = 0 := by
  intro config late broken interrupted first earlier
  have hmax : config.maxEmptyReads < 4294967295 := by decide
  have hfailed : Logged config first _ none _ _ :=
    .failed rfl rfl rfl <| .empty rfl rfl rfl rfl <| .call .start
  have hstalled : Logged config first (.answer (.error (.stalled 2)) :: earlier) none _ _ :=
    .stalled rfl rfl rfl rfl <| .again rfl rfl rfl hfailed.call
  obtain ⟨hcount, -, -, hdue, -⟩ :=
    (stalls_are_counted_exactly hmax first).2 _ _ _ _ hstalled
  exact ⟨hmax, (hdue [] _ _ rfl _).mp rfl, _, _, hstalled, hcount⟩

end FireControl.Wire.Receiver
