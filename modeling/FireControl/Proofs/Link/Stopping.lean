import FireControl.Link.Supervisor

/-!
# How promptly a link stops

The log of a link notes every opening, every read, what every call of the receiver comes to, every
frame handed to the handler, and every alert. Logs are built along the recursion of the receiver
(`Runs`), the session (`Acts`) and the supervisor (`Logged`), and every run leaves one
(`run_logged`).

A request for shutdown made during a read leaves the call in progress to be answered; one made by an
opening or by the handler, and a stop of the handler, leave nothing. A call, a session and a visit
each end so that a request is either followed by what it may leave (`Prompt`) and has been noted, or
was not made at all; so visits can be put together (`logged_prompt`).
-/

namespace FireControl.Wire

/-- A read, and whether shutdown was asked for meanwhile. -/
structure Reading where
  result : Except IoFault Bytes
  shutdown : Bool

/-- What the next read of a source is. -/
def Source.reading (size : Nat) (s : Source) : Reading where
  result := (readPending size s.pending).1
  shutdown := (readPending size s.pending).2.2

namespace Receiver

/-- A run from a phase to the next frame or link fault, with its reads. -/
inductive Runs (config : Config) : Phase → Receiver → Source → List Reading →
    Except LinkFault Frame × Receiver × Source → Prop
  | more {phase phase' byte rest skipped r source readings out} : r.buffered = byte :: rest →
      phase.accept config.maxFrameLength byte = .more phase' skipped →
      Runs config phase'
        { r with buffered := rest, tally := { r.tally with skipped := r.tally.skipped + skipped } }
        source readings out →
      Runs config phase r source readings out
  | rejected {phase byte rest r source readings out} : r.buffered = byte :: rest →
      phase.accept config.maxFrameLength byte = .rejected →
      Runs config (.hunting 0)
        { r with buffered := rest, tally := { r.tally with rejected := r.tally.rejected + 1 } }
        source readings out →
      Runs config phase r source readings out
  | complete {phase byte rest frame r source} : r.buffered = byte :: rest →
      phase.accept config.maxFrameLength byte = .complete frame →
      Runs config phase r source []
        (.ok frame,
          { r with buffered := rest, tally := { r.tally with frames := r.tally.frames + 1 } },
          source)
  | bytes {phase result chunk r source source' readings out} : r.buffered = [] →
      source.read config.readSize = (result, source') → ReadOutcome.of result = .bytes chunk →
      Runs config phase { r with buffered := chunk, emptyReads := 0 } source' readings out →
      Runs config phase r source (source.reading config.readSize :: readings) out
  | again {phase result r source source' readings out} : r.buffered = [] →
      source.read config.readSize = (result, source') → ReadOutcome.of result = .again →
      Runs config phase r source' readings out →
      Runs config phase r source (source.reading config.readSize :: readings) out
  | failed {phase result fault r source source'} : r.buffered = [] →
      source.read config.readSize = (result, source') → ReadOutcome.of result = .failed fault →
      Runs config phase r source [source.reading config.readSize]
        (.error (.failed fault), r, source')
  | stalled {phase result fault r r' source source'} : r.buffered = [] →
      source.read config.readSize = (result, source') → ReadOutcome.of result = .empty →
      noteEmpty config r = (.error fault, r') →
      Runs config phase r source [source.reading config.readSize] (.error fault, r', source')
  | empty {phase result r r' source source' readings out} : r.buffered = [] →
      source.read config.readSize = (result, source') → ReadOutcome.of result = .empty →
      noteEmpty config r = (.ok (), r') →
      Runs config phase r' source' readings out →
      Runs config phase r source (source.reading config.readSize :: readings) out

variable {config : Config} {phase : Phase} {r : Receiver} {source source' : Source}
  {readings : List Reading} {out : Except LinkFault Frame × Receiver × Source}

theorem advance_runs (config : Config) (phase : Phase) (r : Receiver) (source : Source) :
    ∃ readings, Runs config phase r source readings (r.advance config phase source) := by
  fun_induction advance config phase r source with
  | case1 phase r source byte rest hb phase' skipped ha ih =>
    obtain ⟨readings, hruns⟩ := ih
    exact ⟨readings, .more hb ha hruns⟩
  | case2 phase r source byte rest hb ha ih =>
    obtain ⟨readings, hruns⟩ := ih
    exact ⟨readings, .rejected hb ha hruns⟩
  | case3 phase r source byte rest hb frame ha => exact ⟨[], .complete hb ha⟩
  | case4 phase r source hb result source' hr chunk ho ih =>
    obtain ⟨readings, hruns⟩ := ih
    exact ⟨_, .bytes hb hr ho hruns⟩
  | case5 phase r source hb result source' hr ho ih =>
    obtain ⟨readings, hruns⟩ := ih
    exact ⟨_, .again hb hr ho hruns⟩
  | case6 phase r source hb result source' hr fault ho => exact ⟨_, .failed hb hr ho⟩
  | case7 phase r source hb result source' hr ho fault r' hn => exact ⟨_, .stalled hb hr ho hn⟩
  | case8 phase r source hb result source' hr ho r' hn ih =>
    obtain ⟨readings, hruns⟩ := ih
    exact ⟨_, .empty hb hr ho hn hruns⟩

theorem read_shutdown {size : Nat} {result : Except IoFault Bytes}
    (h : source.read size = (result, source')) :
    source'.shutdownRequested = (source.shutdownRequested || (source.reading size).shutdown) := by
  cases h
  rfl

/-- A source remembers every request made during its reads. -/
theorem Runs.shutdownRequested (h : Runs config phase r source readings out) :
    out.2.2.shutdownRequested =
      (source.shutdownRequested || readings.any Reading.shutdown) := by
  induction h with
  | more _ _ _ ih => exact ih
  | rejected _ _ _ ih => exact ih
  | complete => rw [List.any_nil, Bool.or_false]
  | bytes _ hr _ _ ih => rw [ih, read_shutdown hr, List.any_cons, Bool.or_assoc]
  | again _ hr _ _ ih => rw [ih, read_shutdown hr, List.any_cons, Bool.or_assoc]
  | failed _ hr => rw [read_shutdown hr, List.any_cons, List.any_nil, Bool.or_false]
  | stalled _ hr => rw [read_shutdown hr, List.any_cons, List.any_nil, Bool.or_false]
  | empty _ hr _ _ _ ih => rw [ih, read_shutdown hr, List.any_cons, Bool.or_assoc]

end Receiver

end FireControl.Wire

namespace FireControl.Link

open FireControl.Exchange (Bus)
open FireControl.Wire (Delivery Frame LinkFault Reading Receiver Source)

/-! ## Logs -/

/-- One entry in the log of a link. -/
inductive Act where
  | opening (attempt : Attempt)
  | read (reading : Reading)
  /-- What a call of the receiver came to. -/
  | answer (result : Except LinkFault Frame)
  /-- A frame handed to the handler, and what the handler wants then. -/
  | handle (frame : Frame) (verdict : Verdict)
  | alert (emptyReads : Nat)

namespace Act

/-- Shutdown was asked for meanwhile, or the handler stopped the link. -/
def ends : Act → Bool
  | .opening attempt => attempt.shutdown
  | .read reading => reading.shutdown
  | .handle _ verdict => verdict.stop || verdict.shutdown
  | .answer _ => false
  | .alert _ => false

def frame? : Act → Option Frame
  | .handle frame _ => some frame
  | _ => none

def alert? : Act → Option Nat
  | .alert emptyReads => some emptyReads
  | _ => none

end Act

/-- The alerts a link fault gives rise to. -/
def alerts (alerting : Bool) : LinkFault → List Act
  | .stalled n => if alerting then [.alert n] else []
  | _ => []

/-- The session that a link fault ends. -/
def Session.endedBy (frames : List Frame) (shutdown : Bool) (source : Source) :
    LinkFault → Checked Session
  | .stalled n => .ok ⟨.stalled n, frames, source, shutdown⟩
  | .failed fault => .ok ⟨.failed fault, frames, source, shutdown⟩
  | .overflow cause => .error cause

/-- The log of a session, and what the session comes to. -/
inductive Acts (config : Receiver.Config) (handler : Handler) (alerting : Bool) :
    List Frame → Bool → Receiver → Source → List Act → Checked Session → Prop
  | stopped {frames shutdown r source} : (shutdown || source.shutdownRequested) = true →
      Acts config handler alerting frames shutdown r source []
        (.ok ⟨.stopped, frames, source, shutdown⟩)
  | broke {frames shutdown r r' source source' readings frame} :
      (shutdown || source.shutdownRequested) = false →
      r.Runs config (.hunting 0) source readings (.ok frame, r', source') →
      (handler (frame :: frames)).stop = true →
      Acts config handler alerting frames shutdown r source
        (readings.map .read ++ [.answer (.ok frame), .handle frame (handler (frame :: frames))])
        (.ok ⟨.stopped, frame :: frames, source', (handler (frame :: frames)).shutdown⟩)
  | continued {frames shutdown r r' source source' readings frame acts outcome} :
      (shutdown || source.shutdownRequested) = false →
      r.Runs config (.hunting 0) source readings (.ok frame, r', source') →
      (handler (frame :: frames)).stop = false →
      Acts config handler alerting (frame :: frames) (handler (frame :: frames)).shutdown r' source'
        acts outcome →
      Acts config handler alerting frames shutdown r source
        (readings.map .read ++
          .answer (.ok frame) :: .handle frame (handler (frame :: frames)) :: acts)
        outcome
  | ended {frames shutdown r r' source source' readings fault} :
      (shutdown || source.shutdownRequested) = false →
      r.Runs config (.hunting 0) source readings (.error fault, r', source') →
      Acts config handler alerting frames shutdown r source
        (readings.map .read ++ .answer (.error fault) :: alerts alerting fault)
        (Session.endedBy frames shutdown source' fault)

/-- The log of one attempt, and what the attempt comes to. -/
inductive Visits (config : Config) (handler : Handler) (s : Supervisor) :
    Attempt → List Act → Checked Supervisor → Prop
  | refused {kind shutdown} :
      Visits config handler s ⟨.refused kind, shutdown⟩ [.opening ⟨.refused kind, shutdown⟩]
        (.ok { s with
          report.ioFailures := s.report.ioFailures + 1, isOver := s.isOver || shutdown })
  | opened {pending shutdown acts outcome} :
      Acts config.receiver handler s.bus.isSome s.frames shutdown {} { pending } acts outcome →
      Visits config handler s ⟨.opened pending, shutdown⟩
        (.opening ⟨.opened pending, shutdown⟩ :: acts) (outcome.map (s.note config))

/-- The log of a supervisor, and what its run comes to. -/
inductive Logged (config : Config) (handler : Handler) :
    Supervisor → List Attempt → List Act → Checked Supervisor → Prop
  | finished {s attempts} : s.isOver = true → Logged config handler s attempts [] (.ok s)
  | last {s acts outcome} : s.isOver = false →
      Visits config handler s .final acts outcome → Logged config handler s [] acts outcome
  | attempt {s s' a later acts log outcome} : s.isOver = false →
      Visits config handler s a acts (.ok s') → Logged config handler s' later log outcome →
      Logged config handler s (a :: later) (acts ++ log) outcome
  | panicked {s a later acts cause} : s.isOver = false →
      Visits config handler s a acts (.error cause) →
      Logged config handler s (a :: later) acts (.error cause)

/-! ## Every run leaves a log -/

section
variable {config : Config} {handler : Handler} {s s' : Supervisor} {a : Attempt}
  {acts later tail log : List Act} {outcome : Checked Supervisor}

theorem next_runs {config : Receiver.Config} {r : Receiver} {source : Source}
    {out : Except LinkFault Frame × Receiver × Source} (h : r.next config source = out) :
    ∃ readings, r.Runs config (.hunting 0) source readings out := by
  obtain ⟨readings, hruns⟩ := Receiver.advance_runs config (.hunting 0) r source
  exact ⟨readings, h ▸ hruns⟩

theorem session_acts (config : Receiver.Config) (handler : Handler) (alerting : Bool)
    (frames : List Frame) (shutdown : Bool) (r : Receiver) (source : Source) :
    ∃ acts, Acts config handler alerting frames shutdown r source acts
      (Session.run config handler frames shutdown r source) := by
  fun_induction Session.run config handler frames shutdown r source with
  | case1 frames shutdown r source hstop => exact ⟨[], .stopped hstop⟩
  | case2 frames shutdown r source hgo frame r' source' hnext verdict hstop =>
    obtain ⟨readings, hruns⟩ := next_runs hnext
    exact ⟨_, .broke (Bool.eq_false_iff.mpr hgo) hruns hstop⟩
  | case3 frames shutdown r source hgo frame r' source' hnext verdict hcontinue ih =>
    obtain ⟨readings, hruns⟩ := next_runs hnext
    obtain ⟨acts, hacts⟩ := ih
    exact ⟨_, .continued (Bool.eq_false_iff.mpr hgo) hruns (Bool.eq_false_iff.mpr hcontinue) hacts⟩
  | case4 frames shutdown r source hgo n r' source' hnext =>
    obtain ⟨readings, hruns⟩ := next_runs hnext
    exact ⟨_, .ended (Bool.eq_false_iff.mpr hgo) hruns⟩
  | case5 frames shutdown r source hgo fault r' source' hnext =>
    obtain ⟨readings, hruns⟩ := next_runs hnext
    exact ⟨_, .ended (Bool.eq_false_iff.mpr hgo) hruns⟩
  | case6 frames shutdown r source hgo cause r' source' hnext =>
    obtain ⟨readings, hruns⟩ := next_runs hnext
    exact ⟨_, .ended (Bool.eq_false_iff.mpr hgo) hruns⟩

theorem attempt_visits (config : Config) (handler : Handler) (s : Supervisor) (a : Attempt) :
    ∃ acts, Visits config handler s a acts (s.attempt config handler a) := by
  obtain ⟨_ | pending, shutdown⟩ := a
  · exact ⟨_, .refused⟩
  · obtain ⟨acts, hacts⟩ := session_acts config.receiver handler s.bus.isSome s.frames shutdown {}
      { pending }
    exact ⟨_, .opened hacts⟩

theorem run_logged (config : Config) (handler : Handler) (s : Supervisor)
    (attempts : List Attempt) :
    ∃ log, Logged config handler s attempts log (s.run config handler attempts) := by
  induction attempts generalizing s with
  | nil =>
    cases hover : s.isOver with
    | true => exact ⟨[], by rw [Supervisor.run, if_pos hover]; exact .finished hover⟩
    | false =>
      obtain ⟨acts, hvisits⟩ := attempt_visits config handler s .final
      exact ⟨acts, by
        rw [Supervisor.run, if_neg (Bool.eq_false_iff.mp hover)]; exact .last hover hvisits⟩
  | cons a later ih =>
    cases hover : s.isOver with
    | true => exact ⟨[], by rw [Supervisor.run, if_pos hover]; exact .finished hover⟩
    | false =>
      obtain ⟨acts, hvisits⟩ := attempt_visits config handler s a
      rw [Supervisor.run, if_neg (Bool.eq_false_iff.mp hover)]
      cases hattempt : s.attempt config handler a with
      | error cause => exact ⟨acts, .panicked hover (hattempt ▸ hvisits)⟩
      | ok s' =>
        obtain ⟨log, hlater⟩ := ih s'
        exact ⟨acts ++ log, .attempt hover (hattempt ▸ hvisits) hlater⟩

/-! ## What the log says is what the supervisor keeps -/

theorem filterMap_reads {α : Type} (f : Act → Option α) (hf : ∀ reading, f (.read reading) = none)
    (readings : List Reading) (acts : List Act) :
    (readings.map Act.read ++ acts).filterMap f = acts.filterMap f := by
  rw [List.filterMap_append, List.filterMap_map]
  exact congrArg (· ++ _) (List.filterMap_eq_nil_iff.mpr fun reading _ => hf reading)

theorem frame?_alerts (alerting : Bool) (fault : LinkFault) :
    (alerts alerting fault).filterMap Act.frame? = [] := by
  cases fault <;> cases alerting <;> rfl

/-- The frames of a session are those in its log, and it is reported if it stalled. -/
theorem Acts.kept {config : Receiver.Config} {alerting : Bool} {frames : List Frame}
    {shutdown : Bool} {r : Receiver} {source : Source} {outcome : Checked Session}
    (h : Acts config handler alerting frames shutdown r source acts outcome) {session : Session}
    (hok : outcome = .ok session) :
    session.frames = (acts.filterMap Act.frame?).reverse ++ frames ∧
      acts.filterMap Act.alert? =
        match session.ending with
        | .stalled n => if alerting then [n] else []
        | _ => [] := by
  induction h with
  | stopped =>
    cases hok
    exact ⟨rfl, rfl⟩
  | broke =>
    cases hok
    rw [filterMap_reads Act.frame? fun _ => rfl, filterMap_reads Act.alert? fun _ => rfl]
    exact ⟨rfl, rfl⟩
  | continued _ _ _ _ ih =>
    obtain ⟨hframes, halerts⟩ := ih hok
    rw [filterMap_reads Act.frame? fun _ => rfl, filterMap_reads Act.alert? fun _ => rfl]
    refine ⟨?_, halerts⟩
    rw [hframes]
    simp only [List.filterMap_cons, Act.frame?, List.reverse_cons, List.append_assoc]
    rfl
  | @ended _ _ _ _ _ _ _ fault =>
    rw [filterMap_reads Act.frame? fun _ => rfl, filterMap_reads Act.alert? fun _ => rfl]
    simp only [List.filterMap_cons, Act.frame?, Act.alert?, frame?_alerts]
    cases fault with
    | stalled n =>
      cases hok
      cases alerting <;> exact ⟨rfl, rfl⟩
    | failed fault =>
      cases hok
      exact ⟨rfl, rfl⟩
    | overflow cause => cases hok

/-- A bus after the reports of so many stalls. -/
def published (config : Config) (stalls : List Nat) (bus : Bus) : Bus :=
  stalls.foldl (fun b n => (b.publish .systemAlerts (Supervisor.resetEvent config n)).2) bus

/-- The log accounts for what a supervisor has after it and not before it. -/
structure Kept (config : Config) (log : List Act) (s s' : Supervisor) : Prop where
  frames : s'.frames = (log.filterMap Act.frame?).reverse ++ s.frames
  bus : s'.bus = s.bus.map (published config (log.filterMap Act.alert?))

theorem Kept.refl (config : Config) (s : Supervisor) : Kept config [] s s :=
  ⟨rfl, by cases s.bus <;> rfl⟩

theorem Kept.trans {s'' : Supervisor} (h : Kept config acts s s') (h' : Kept config later s' s'') :
    Kept config (acts ++ later) s s'' where
  frames := by
    rw [h'.frames, h.frames, List.filterMap_append, List.reverse_append, List.append_assoc]
  bus := by
    rw [h'.bus, h.bus, Option.map_map, List.filterMap_append]
    exact congrArg (s.bus.map ·) (funext fun _ => List.foldl_append.symm)

theorem Visits.kept (h : Visits config handler s a acts outcome) (hok : outcome = .ok s') :
    Kept config acts s s' := by
  cases h with
  | refused =>
    cases hok
    exact ⟨rfl, by cases s.bus <;> rfl⟩
  | @opened pending shutdown acts outcome hacts =>
    cases outcome with
    | error => cases hok
    | ok session =>
      cases hok
      obtain ⟨hframes, halerts⟩ := hacts.kept rfl
      obtain ⟨ending, frames, source, asked⟩ := session
      have hbus : ∀ {acts : List Act}, acts.filterMap Act.alert? = [] →
          s.bus = s.bus.map (published config (acts.filterMap Act.alert?)) := by
        intro acts hnone
        rw [hnone]
        cases s.bus <;> rfl
      cases ending with
      | stopped => exact ⟨hframes, hbus halerts⟩
      | failed => exact ⟨hframes, hbus halerts⟩
      | stalled n =>
        refine ⟨hframes, ?_⟩
        show s.bus.map _ = s.bus.map (published config (acts.filterMap Act.alert?))
        rw [halerts]
        cases s.bus <;> rfl

theorem Logged.kept {attempts : List Attempt} (h : Logged config handler s attempts log outcome)
    (hok : outcome = .ok s') : Kept config log s s' := by
  induction h with
  | finished =>
    cases hok
    exact .refl config _
  | last _ hvisits => exact hvisits.kept hok
  | attempt _ hvisits _ ih => exact (hvisits.kept rfl).trans (ih hok)
  | panicked => cases hok

/-! ## Requests -/

/-- The answer of a call, with the one thing it leads to. -/
inductive Processed : List Act → Prop
  | frame {frame verdict} : Processed [.answer (.ok frame), .handle frame verdict]
  | fault {fault} : Processed [.answer (.error fault)]
  | alert {n} : Processed [.answer (.error (.stalled n)), .alert n]

/-- The call in progress is answered, after some reads more. -/
def WindsUp (later : List Act) : Prop :=
  ∃ (readings : List Reading) (tail : List Act), later = readings.map .read ++ tail ∧ Processed tail

/-- What an act with a request may leave to be done. -/
def Act.Leaves (later : List Act) : Act → Prop
  | .read _ => WindsUp later
  | _ => later = []

/-- Every act of a log with a request is followed by what it may leave. -/
def Prompt : List Act → Prop
  | [] => True
  | act :: later => (act.ends = true → act.Leaves later) ∧ Prompt later

theorem Prompt.leaves {before after : List Act} {act : Act}
    (h : Prompt (before ++ act :: after)) (hends : act.ends = true) : act.Leaves after := by
  induction before with
  | nil => exact h.1 hends
  | cons _ before ih => exact ih h.2

/-- Nothing was asked for. -/
def Quiet (acts : List Act) : Prop := ∀ act ∈ acts, act.ends = false

theorem Quiet.prompt (hquiet : Quiet acts) (h : Prompt later) : Prompt (acts ++ later) := by
  induction acts with
  | nil => exact h
  | cons act acts ih =>
    refine ⟨?_, ih fun act' hact' => hquiet act' (List.mem_cons_of_mem _ hact')⟩
    intro hends
    rw [hquiet act List.mem_cons_self] at hends
    cases hends

theorem Quiet.append (h : Quiet acts) (h' : Quiet later) : Quiet (acts ++ later) := by
  intro act hact
  exact (List.mem_append.mp hact).elim (h act) (h' act)

theorem quiet_reads {readings : List Reading} (h : readings.any Reading.shutdown = false) :
    Quiet (readings.map Act.read) := by
  intro act hact
  obtain ⟨reading, hreading, rfl⟩ := List.mem_map.mp hact
  exact Bool.eq_false_iff.mpr (List.any_eq_false.mp h reading hreading)

/-- Reads are followed by the answer of their call. -/
theorem prompt_reads (readings : List Reading) (hprocessed : Processed tail) (h : Prompt tail) :
    Prompt (readings.map Act.read ++ tail) := by
  induction readings with
  | nil => exact h
  | cons reading readings ih => exact ⟨fun _ => ⟨readings, tail, rfl, hprocessed⟩, ih⟩

theorem processed_fault (alerting : Bool) (fault : LinkFault) :
    Processed (.answer (.error fault) :: alerts alerting fault) := by
  cases fault with
  | stalled n =>
    cases alerting with
    | true => exact .alert
    | false => exact .fault
  | failed => exact .fault
  | overflow => exact .fault

theorem quiet_fault (alerting : Bool) (fault : LinkFault) :
    Quiet (.answer (.error fault) :: alerts alerting fault) := by
  intro act hact
  cases fault <;> cases alerting <;> simp [alerts] at hact
  all_goals rcases hact with rfl | rfl <;> rfl

/-- A session after which the link is over. -/
def Session.isLast (session : Session) : Bool :=
  session.shutdown || session.source.shutdownRequested || session.ending == .stopped

theorem isLast_of_endedBy {frames : List Frame} {shutdown : Bool} {source : Source}
    {fault : LinkFault} {session : Session} (h : source.shutdownRequested = true)
    (hended : Session.endedBy frames shutdown source fault = .ok session) :
    session.isLast = true := by
  cases fault <;> cases hended <;> simp [Session.isLast, h]

section
variable {config : Receiver.Config} {alerting : Bool} {frames : List Frame} {shutdown : Bool}
  {r : Receiver} {source : Source} {outcome : Checked Session}

/-- Once shutdown is asked for, a session does nothing more. -/
theorem Acts.eq_nil (h : Acts config handler alerting frames shutdown r source acts outcome)
    (hstop : (shutdown || source.shutdownRequested) = true) :
    acts = [] ∧ ∀ session, outcome = .ok session → session.isLast = true := by
  cases h with
  | stopped =>
    refine ⟨rfl, ?_⟩
    rintro session ⟨⟩
    exact Bool.or_true _
  | broke hgo => rw [hgo] at hstop; cases hstop
  | continued hgo => rw [hgo] at hstop; cases hstop
  | ended hgo => rw [hgo] at hstop; cases hstop

/-- A session is not asked to end, or does what the request may leave and is the last one. -/
theorem Acts.prompt (h : Acts config handler alerting frames shutdown r source acts outcome) :
    Prompt acts ∧ (Quiet acts ∨ ∀ session, outcome = .ok session → session.isLast = true) := by
  induction h with
  | stopped => exact ⟨trivial, .inl nofun⟩
  | broke =>
    refine ⟨prompt_reads _ .frame ⟨nofun, fun _ => rfl, trivial⟩, .inr ?_⟩
    rintro session ⟨⟩
    exact Bool.or_true _
  | @continued frames _ _ _ _ source' readings frame acts _ _ hruns hgo hacts ih =>
    have hrequested := hruns.shutdownRequested
    by_cases hstop : ((handler (frame :: frames)).shutdown || source'.shutdownRequested) = true
    · -- The request came with this frame or in the reads before it.
      obtain ⟨rfl, hlast⟩ := hacts.eq_nil hstop
      exact ⟨prompt_reads _ .frame ⟨nofun, fun _ => rfl, trivial⟩, .inr hlast⟩
    · obtain ⟨hverdict, hsource⟩ := Bool.or_eq_false_iff.mp (Bool.eq_false_iff.mpr hstop)
      obtain ⟨-, hreadings⟩ := Bool.or_eq_false_iff.mp (hrequested.symm.trans hsource)
      have hhandled : Quiet [.answer (.ok frame), .handle frame (handler (frame :: frames))] := by
        intro act hact
        rcases List.mem_cons.mp hact with rfl | hact
        · rfl
        · obtain rfl := List.mem_singleton.mp hact
          exact Bool.or_eq_false_iff.mpr ⟨hgo, hverdict⟩
      have hquiet := (quiet_reads hreadings).append hhandled
      obtain ⟨hprompt, hlast⟩ := ih
      rw [List.append_cons, List.append_cons, List.append_assoc _ _ [_]]
      exact ⟨hquiet.prompt hprompt, hlast.imp_left hquiet.append⟩
  | @ended _ _ _ _ _ source' readings fault _ hruns =>
    have hprompt : Prompt (.answer (.error fault) :: alerts alerting fault ++ []) :=
      (quiet_fault alerting fault).prompt trivial
    rw [List.append_nil] at hprompt
    refine ⟨prompt_reads _ (processed_fault _ _) hprompt, ?_⟩
    cases hany : readings.any Reading.shutdown with
    | false => exact .inl ((quiet_reads hany).append (quiet_fault _ _))
    | true =>
      have hrequested : source'.shutdownRequested = true := by
        rw [show source'.shutdownRequested = _ from hruns.shutdownRequested, hany, Bool.or_true]
      exact .inr fun session hok => isLast_of_endedBy hrequested hok

end

theorem isOver_of_isLast {session : Session} (h : session.isLast = true) :
    (s.note config session).isOver = true := by
  obtain ⟨ending, frames, source, asked⟩ := session
  have hover : (s.isOver || asked || source.shutdownRequested || ending == .stopped) = true := by
    rw [Bool.or_assoc, Bool.or_assoc, ← Bool.or_assoc asked]
    exact Bool.or_eq_true_iff.mpr (.inr h)
  cases ending with
  | stopped => exact hover
  | stalled => exact hover
  | failed => exact hover

theorem Visits.prompt (h : Visits config handler s a acts outcome) :
    Prompt acts ∧ (Quiet acts ∨ ∀ s', outcome = .ok s' → s'.isOver = true) := by
  cases h with
  | @refused kind shutdown =>
    refine ⟨⟨fun _ => rfl, trivial⟩, ?_⟩
    cases shutdown with
    | false => exact .inl fun act hact => by rw [List.mem_singleton.mp hact]; rfl
    | true =>
      refine .inr ?_
      rintro s' ⟨⟩
      exact Bool.or_true _
  | @opened pending shutdown acts outcome hacts =>
    have hover : (∀ session, outcome = .ok session → session.isLast = true) →
        ∀ s', outcome.map (s.note config) = .ok s' → s'.isOver = true := by
      intro hlast s' hok
      cases outcome with
      | error => cases hok
      | ok session =>
        cases hok
        exact isOver_of_isLast (hlast session rfl)
    cases shutdown with
    | true =>
      obtain ⟨rfl, hlast⟩ := hacts.eq_nil rfl
      exact ⟨⟨fun _ => rfl, trivial⟩, .inr (hover hlast)⟩
    | false =>
      obtain ⟨hprompt, hlast⟩ := hacts.prompt
      have hopening : Quiet [.opening ⟨.opened pending, false⟩] :=
        fun act hact => by rw [List.mem_singleton.mp hact]; rfl
      exact ⟨hopening.prompt hprompt, hlast.imp hopening.append hover⟩

/-- Once it is over, a supervisor does nothing more. -/
theorem Logged.eq_nil {attempts : List Attempt} (h : Logged config handler s attempts log outcome)
    (hover : s.isOver = true) : log = [] := by
  cases h with
  | finished => rfl
  | last hgo => rw [hgo] at hover; cases hover
  | attempt hgo => rw [hgo] at hover; cases hover
  | panicked hgo => rw [hgo] at hover; cases hover

theorem logged_prompt {attempts : List Attempt}
    (h : Logged config handler s attempts log outcome) : Prompt log := by
  induction h with
  | finished => trivial
  | last _ hvisits => exact hvisits.prompt.1
  | attempt _ hvisits hlater ih =>
    obtain ⟨hprompt, hquiet | hover⟩ := hvisits.prompt
    · exact hquiet.prompt ih
    · obtain rfl := hlater.eq_nil (hover _ rfl)
      rwa [List.append_nil]
  | panicked _ hvisits => exact hvisits.prompt.1

/-- Every run of a supervisor leaves a log, which accounts for the frames and the alerts of the run;
the log of a session has the reads of the session, down to the source that it leaves. Nothing follows
a frame after which the handler stopped the link or asked for shutdown, and nothing follows an
opening during which shutdown was asked for. After a read during which it was asked for, the call in
progress is answered, perhaps after some reads more; if it is answered with a frame, that frame is
handed on, and if with a stall, that may be reported, and nothing else follows. -/
theorem link_stops_promptly (config : Config) (handler : Handler) (s : Supervisor)
    (attempts : List Attempt) :
    (∃ log, Logged config handler s attempts log (s.run config handler attempts)) ∧
    (∀ alerting frames shutdown r source,
      ∃ acts, Acts config.receiver handler alerting frames shutdown r source acts
        (Session.run config.receiver handler frames shutdown r source)) ∧
    ∀ log outcome, Logged config handler s attempts log outcome →
      (∀ s', outcome = .ok s' →
        s'.frames = (log.filterMap Act.frame?).reverse ++ s.frames ∧
        s'.bus = s.bus.map (published config (log.filterMap Act.alert?))) ∧
      (∀ before frame verdict after, log = before ++ .handle frame verdict :: after →
        verdict.stop = true ∨ verdict.shutdown = true → after = []) ∧
      (∀ before a after, log = before ++ .opening a :: after → a.shutdown = true → after = []) ∧
      ∀ before reading after, log = before ++ .read reading :: after → reading.shutdown = true →
        ∃ (readings : List Reading) (tail : List Act), after = readings.map .read ++ tail ∧
          Processed tail := by
  refine ⟨run_logged config handler s attempts, session_acts config.receiver handler, ?_⟩
  intro log outcome hlogged
  have hprompt := logged_prompt hlogged
  refine ⟨?_, ?_, ?_, ?_⟩
  · intro s' hok
    have hkept := hlogged.kept hok
    exact ⟨hkept.frames, hkept.bus⟩
  · rintro before frame verdict after rfl hends
    exact hprompt.leaves (Bool.or_eq_true_iff.mpr hends)
  · rintro before a after rfl hends
    exact hprompt.leaves hends
  · rintro before reading after rfl hends
    exact hprompt.leaves hends

end

/-- Shutdown is asked for during the first of two empty reads: the second one makes the stall that is
reported, and the device is not opened again. -/
theorem link_stops_promptly_stalled :
    let config : Config := ⟨"radar", ⟨124, 1, 16⟩, 3000⟩
    let attempts : List Attempt := [⟨.opened [.shutdown, .data []], false⟩, ⟨.opened [], false⟩]
    let asked : Act := .read ⟨.ok [], true⟩
    let after : List Act := [.read ⟨.ok [], false⟩, .answer (.error (.stalled 2)), .alert 2]
    ∃ outcome, Logged config (fun _ => {}) { bus := some Bus.default } attempts
        (.opening ⟨.opened [.shutdown, .data []], false⟩ :: asked :: after) outcome ∧
      ∃ (readings : List Reading) (tail : List Act), after = readings.map .read ++ tail ∧
        Processed tail := by
  intro config attempts asked after
  have hruns : Receiver.Runs config.receiver (.hunting 0) {} { pending := [.shutdown, .data []] }
      [⟨.ok [], true⟩, ⟨.ok [], false⟩]
      (.error (.stalled 2), {}, { pending := [], shutdownRequested := true }) :=
    .empty rfl rfl rfl rfl (.stalled rfl rfl rfl rfl)
  have hlogged : Logged config (fun _ => {}) { bus := some Bus.default } attempts
      (.opening ⟨.opened [.shutdown, .data []], false⟩ :: asked :: after) _ :=
    .attempt rfl (.opened (.ended rfl hruns)) (.finished rfl)
  obtain ⟨-, -, hlogs⟩ := link_stops_promptly config (fun _ => {}) { bus := some Bus.default } attempts
  obtain ⟨-, -, -, hread⟩ := hlogs _ _ hlogged
  exact ⟨_, hlogged, hread [_] _ _ rfl rfl⟩

end FireControl.Link
