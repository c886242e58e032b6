import FireControl.Proofs.Exchange.Listening
import FireControl.Proofs.Link.Sessions

/-!
# What a supervisor accounts for

A run of a supervisor is a list of visits to the device: attempts to open it, with what the sessions
handed on and how they ended. `account` counts them. Every attempt adds one visit
(`Explains.attempt`), so that the report is the account of the visits and the alerts are those of
the visits that stalled, whatever else the bus is used for between the attempts
(`Watched.explained`).
-/

namespace FireControl.Link

open FireControl.Exchange (Bus Listens)
open FireControl.Wire (Delivery Frame Receiver Source)

/-! ## Visits -/

/-- An attempt, the frames handed on, and how the session ended, if there was one. -/
structure Visit where
  attempt : Attempt
  handed : List Frame
  ending : Option Ending

namespace Visit

/-- A session depends on its own source only, and starts with a new receiver. -/
inductive Faithful (config : Receiver.Config) : Visit → Prop
  | refused {kind : IoKind} {shutdown : Bool} :
      Faithful config ⟨⟨.refused kind, shutdown⟩, [], none⟩
  | session {pending : List Delivery} {shutdown : Bool} {handed : List Frame} {ending : Ending} :
      Ends config {} { pending } handed ending →
      Faithful config ⟨⟨.opened pending, shutdown⟩, handed, some ending⟩

def isOpened (v : Visit) : Bool :=
  match v.attempt.opening with
  | .opened _ => true
  | .refused _ => false

def isStopped (v : Visit) : Bool := v.ending == some .stopped

def isStalled (v : Visit) : Bool :=
  match v.ending with
  | some (.stalled _) => true
  | _ => false

def isFailed (v : Visit) : Bool :=
  match v.ending with
  | some (.failed _) => true
  | _ => false

def alert? (config : Config) (v : Visit) : Option Event :=
  match v.ending with
  | some (.stalled n) => some (Supervisor.resetEvent config n)
  | _ => none

end Visit

def account (visits : List Visit) : Report where
  sessions := visits.countP (·.isOpened)
  resets := visits.countP (·.isStalled)
  ioFailures := visits.countP (!·.isOpened) + visits.countP (·.isFailed)
  frames := (visits.flatMap Visit.handed).length

section
variable {config : Config} {handler : Handler} {visits : List Visit} {v : Visit} {a : Attempt}
  {s s' : Supervisor}

theorem account_snoc (visits : List Visit) (v : Visit) :
    account (visits ++ [v]) =
      { sessions := (account visits).sessions + v.isOpened.toNat
        resets := (account visits).resets + v.isStalled.toNat
        ioFailures := (account visits).ioFailures + (!v.isOpened).toNat + v.isFailed.toNat
        frames := (account visits).frames + v.handed.length } := by
  have hone : ∀ p : Visit → Bool, [v].countP p = (p v).toNat := by
    intro p
    cases hp : p v <;> simp [hp]
  simp only [account, List.countP_append, hone, List.flatMap_append, List.flatMap_singleton,
    List.length_append, Report.mk.injEq, true_and, and_true]
  omega

/-- Every session has ended in one of three ways. -/
theorem sessions_eq {visits : List Visit} (h : ∀ v ∈ visits, v.Faithful config.receiver) :
    visits.countP (·.isOpened) =
      visits.countP (·.isStalled) + visits.countP (·.isFailed) +
        visits.countP (·.isStopped) := by
  induction visits with
  | nil => rfl
  | cons v visits ih =>
    have hlater := ih fun w hw => h w (List.mem_cons_of_mem _ hw)
    simp only [List.countP_cons, hlater]
    cases h v List.mem_cons_self with
    | refused => rfl
    | session hends =>
      cases hends <;> simp [Visit.isOpened, Visit.isStalled, Visit.isFailed, Visit.isStopped]
      all_goals omega

/-- The visits so far explain the state of a supervisor. -/
structure Explains (config : Config) (visits : List Visit) (s : Supervisor) : Prop where
  faithful : ∀ v ∈ visits, v.Faithful config.receiver
  frames : s.frames.reverse = visits.flatMap Visit.handed
  report : s.report = account visits
  /-- Only the last session may have been stopped, -/
  last : ∀ v ∈ visits.dropLast, v.isStopped = false
  /-- and then nothing follows. -/
  ongoing : s.isOver = false → ∀ v ∈ visits, v.isStopped = false

theorem explains_start (config : Config) (bus : Option Bus) : Explains config [] { bus } where
  faithful _ hv := nomatch hv
  frames := rfl
  report := rfl
  last _ hv := nomatch hv
  ongoing _ _ hv := nomatch hv

theorem Explains.withBus (h : Explains config visits s) (bus : Option Bus) :
    Explains config visits { s with bus } :=
  ⟨h.faithful, h.frames, h.report, h.last, h.ongoing⟩

theorem Explains.snoc (h : Explains config visits s) (hgo : s.isOver = false)
    (hv : v.Faithful config.receiver) (hframes : s'.frames = v.handed.reverse ++ s.frames)
    (hreport : s'.report = account (visits ++ [v]))
    (hover : v.isStopped = true → s'.isOver = true) : Explains config (visits ++ [v]) s' where
  faithful w hw := by
    rcases List.mem_append.mp hw with hw | hw
    · exact h.faithful w hw
    · obtain rfl := List.mem_singleton.mp hw
      exact hv
  frames := by
    rw [hframes, List.reverse_append, List.reverse_reverse, h.frames, List.flatMap_append,
      List.flatMap_singleton]
  report := hreport
  last := by
    rw [List.dropLast_concat]
    exact h.ongoing hgo
  ongoing hgo' w hw := by
    rcases List.mem_append.mp hw with hw | hw
    · exact h.ongoing hgo w hw
    · obtain rfl := List.mem_singleton.mp hw
      cases hstopped : w.isStopped with
      | false => rfl
      | true =>
        rw [hover hstopped] at hgo'
        cases hgo'

theorem Explains.note (h : Explains config visits s) (hgo : s.isOver = false) {session : Session}
    {pending : List Delivery} {shutdown : Bool} {handed : List Frame}
    (hframes : session.frames = handed.reverse ++ s.frames)
    (hends : Ends config.receiver {} { pending } handed session.ending) :
    Explains config (visits ++ [⟨⟨.opened pending, shutdown⟩, handed, some session.ending⟩])
      (s.note config session) := by
  have hlength : session.frames.length = s.report.frames + handed.length := by
    rw [h.report, hframes, List.length_append, List.length_reverse, Nat.add_comm]
    show _ = (visits.flatMap Visit.handed).length + _
    rw [← h.frames, List.length_reverse]
  obtain ⟨ending, frames, source, asked⟩ := session
  dsimp only at hframes hends hlength ⊢
  have hreport : (s.note config ⟨ending, frames, source, asked⟩).report =
      account (visits ++ [⟨⟨.opened pending, shutdown⟩, handed, some ending⟩]) := by
    rw [account_snoc, ← h.report]
    cases ending <;>
      simp [Supervisor.note, Supervisor.alert, hlength, Visit.isOpened, Visit.isStalled,
        Visit.isFailed]
  refine h.snoc hgo (.session hends) ?_ hreport ?_
  · cases ending <;> exact hframes
  · intro hstopped
    obtain rfl : ending = .stopped := by simpa [Visit.isStopped] using hstopped
    simp [Supervisor.note]

def announce (config : Config) (v : Visit) (b : Bus) : Bus :=
  match v.alert? config with
  | some e => (b.publish .systemAlerts e).2
  | none => b

theorem note_bus (config : Config) (s : Supervisor) (session : Session) (a : Attempt)
    (handed : List Frame) :
    (s.note config session).bus = s.bus.map (announce config ⟨a, handed, some session.ending⟩) := by
  obtain ⟨ending, frames, source, asked⟩ := session
  cases ending with
  | stalled n => rfl
  | stopped => exact Option.map_id'.symm
  | failed fault => exact Option.map_id'.symm

theorem Explains.attempt (h : Explains config visits s) (hgo : s.isOver = false)
    (hattempt : s.attempt config handler a = .ok s') :
    ∃ v, v.attempt = a ∧ Explains config (visits ++ [v]) s' ∧
      s'.bus = s.bus.map (announce config v) := by
  obtain ⟨opening, shutdown⟩ := a
  cases opening with
  | refused kind =>
    cases hattempt
    refine ⟨⟨⟨.refused kind, shutdown⟩, [], none⟩, rfl, ?_, Option.map_id'.symm⟩
    refine h.snoc hgo .refused rfl ?_ nofun
    rw [account_snoc, ← h.report]
    rfl
  | opened pending =>
    obtain ⟨session, hrun, rfl⟩ := Checked.map_eq_ok.mp hattempt
    have hends := @session_ends config.receiver handler s.frames shutdown {} { pending }
    rw [hrun] at hends
    obtain ⟨handed, hframes, hends⟩ := hends
    exact ⟨_, rfl, h.note hgo hframes hends, note_bus config s session _ handed⟩

/-- A supervisor makes one attempt after the other. In between, receiver `i` of its bus looks for
alerts, never behind by more than the bus keeps, and hears some; whatever else happens to the bus
leaves the topic and the receiver alone. -/
inductive Watched (config : Config) (handler : Handler) (i : Nat) (start : Supervisor) :
    List Attempt → List Event → Supervisor → Prop
  | start : Watched config handler i start [] [] start
  | attempt {made : List Attempt} {heard : List Event} {s s' : Supervisor} {a : Attempt} :
      Watched config handler i start made heard s → s.isOver = false →
      s.attempt config handler a = .ok s' → Watched config handler i start (made ++ [a]) heard s'
  | look {made : List Attempt} {heard : List Event} {s : Supervisor} {b : Bus} :
      Watched config handler i start made heard s → s.bus = some b →
      (∀ n, (b.receive i).1 ≠ .lagged n) →
      Watched config handler i start made (heard ++ (b.receive i).1.heard)
        { s with bus := some (b.receive i).2 }
  | elsewhere {made : List Attempt} {heard : List Event} {s : Supervisor} {b b' : Bus} :
      Watched config handler i start made heard s → s.bus = some b →
      b'.lane .systemAlerts = b.lane .systemAlerts → b'.size = b.size →
      b'.receivers[i]? = b.receivers[i]? →
      Watched config handler i start made heard { s with bus := some b' }

variable {i : Nat} {start : Supervisor} {made : List Attempt} {heard : List Event}

/-- The receiver listens to the alerts of the visits. -/
def Hears (config : Config) (i : Nat) (visits : List Visit) (heard : List Event)
    (bus bus' : Option Bus) : Prop :=
  ∀ b ∈ bus, ∃ b' ∈ bus',
    Listens .systemAlerts i b (visits.filterMap (Visit.alert? config)) heard b'

theorem Hears.attempt {bus bus' : Option Bus} (h : Hears config i visits heard bus bus')
    (v : Visit) : Hears config i (visits ++ [v]) heard bus (bus'.map (announce config v)) := by
  intro b hb
  obtain ⟨b', hb', hlistens⟩ := h b hb
  refine ⟨announce config v b', Option.mem_map_of_mem _ hb', ?_⟩
  rw [List.filterMap_append]
  unfold announce
  cases halert : v.alert? config with
  | none =>
    rw [List.filterMap_cons_none halert, List.filterMap_nil, List.append_nil]
    exact hlistens
  | some e =>
    rw [List.filterMap_cons_some halert, List.filterMap_nil]
    exact hlistens.publish e

/-- What else happens to the bus of the supervisor happens to the bus that is listened to. -/
theorem Hears.use {bus : Option Bus} {b b' : Bus} {heard' : List Event}
    (h : Hears config i visits heard bus (some b))
    (hstep : ∀ start,
      Listens .systemAlerts i start (visits.filterMap (Visit.alert? config)) heard b →
        Listens .systemAlerts i start (visits.filterMap (Visit.alert? config)) heard' b') :
    Hears config i visits heard' bus (some b') := by
  intro start hstart
  obtain ⟨b, hb, hlistens⟩ := h start hstart
  cases hb
  exact ⟨b', rfl, hstep start hlistens⟩

theorem Watched.explained {bus : Option Bus} (h : Watched config handler i { bus } made heard s) :
    ∃ visits, visits.map Visit.attempt = made ∧ Explains config visits s ∧
      Hears config i visits heard bus s.bus := by
  induction h with
  | start => exact ⟨[], rfl, explains_start config bus, fun b hb => ⟨b, hb, .start⟩⟩
  | attempt _ hgo hattempt ih =>
    obtain ⟨visits, rfl, hexplains, hhears⟩ := ih
    obtain ⟨v, rfl, hlater, hbus⟩ := hexplains.attempt hgo hattempt
    rw [hbus]
    exact ⟨visits ++ [v], List.map_append, hlater, hhears.attempt v⟩
  | look _ hbus hlag ih =>
    obtain ⟨visits, rfl, hexplains, hhears⟩ := ih
    rw [hbus] at hhears
    exact ⟨visits, rfl, hexplains.withBus _, hhears.use fun _ h => h.look hlag⟩
  | elsewhere _ hbus hlane hsize hreceiver ih =>
    obtain ⟨visits, rfl, hexplains, hhears⟩ := ih
    rw [hbus] at hhears
    exact ⟨visits, rfl, hexplains.withBus _,
      hhears.use fun _ h => h.elsewhere hlane hsize hreceiver⟩

/-- The last attempt ends the link. -/
theorem isOver_of_final (h : s.attempt config handler .final = .ok s') : s'.isOver = true := by
  obtain ⟨session, hrun, rfl⟩ := Checked.map_eq_ok.mp h
  rw [Session.run, if_pos (by rfl)] at hrun
  cases hrun
  simp [Supervisor.note]

/-- A run makes attempts until the link is over, and no longer. -/
theorem Watched.run {attempts : List Attempt} (h : Watched config handler i start made heard s)
    (hrun : s.run config handler attempts = .ok s') :
    s'.isOver = true ∧ ∃ later, later <+: attempts ++ [.final] ∧
      Watched config handler i start (made ++ later) heard s' := by
  induction attempts generalizing made s with
  | nil =>
    unfold Supervisor.run at hrun
    split at hrun
    · next hover =>
      cases hrun
      exact ⟨hover, [], List.nil_prefix, by rwa [List.append_nil]⟩
    · next hgo =>
      exact ⟨isOver_of_final hrun, [.final], List.prefix_rfl, h.attempt (by simpa using hgo) hrun⟩
  | cons a attempts ih =>
    unfold Supervisor.run at hrun
    split at hrun
    · next hover =>
      cases hrun
      exact ⟨hover, [], List.nil_prefix, by rwa [List.append_nil]⟩
    · next hgo =>
      obtain ⟨next, hattempt, hlater⟩ := Checked.bind_eq_ok.mp hrun
      obtain ⟨hover, later, hprefix, hwatched⟩ :=
        ih (h.attempt (by simpa using hgo) hattempt) hlater
      refine ⟨hover, a :: later, List.cons_prefix_cons.mpr ⟨rfl, hprefix⟩, ?_⟩
      rwa [List.append_assoc] at hwatched

/-- A session that was stopped can only be the last. -/
theorem Explains.stopped (h : Explains config visits s) :
    visits.countP (·.isStopped) = if visits.getLast?.any (·.isStopped) then 1 else 0 := by
  rcases List.eq_nil_or_concat visits with rfl | ⟨before, v, rfl⟩
  · rfl
  · have hbefore := h.last
    rw [List.concat_eq_append, List.dropLast_concat] at hbefore
    have hnone : before.countP (·.isStopped) = 0 := by
      rw [List.countP_eq_zero]
      intro w hw
      rw [hbefore w hw]
      exact Bool.false_ne_true
    rw [List.concat_eq_append, List.countP_append, hnone, List.getLast?_concat]
    cases hv : v.isStopped <;> simp [hv]

theorem Explains.sessions (h : Explains config visits s) :
    s.report.sessions = s.report.resets + visits.countP (·.isFailed) +
      if visits.getLast?.any (·.isStopped) then 1 else 0 := by
  rw [← h.stopped, h.report]
  exact sessions_eq h.faithful

end

end FireControl.Link
