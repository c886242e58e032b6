import FireControl.Link.Upload
import Mathlib.Data.List.Infix

/-!
# The dialogue of an upload

What happens at a port is what the port does with one request after the other (`Does`, `Happens`).
During an upload it is one `Exchange` after the other: the writes that offer a command and then its
carriage return, a flush, and the reads that wait for the acknowledgement. What a command hears is
told by the replies as a whole: a read is made while `Due` holds of all that was heard before, and
the command is acknowledged if the word stands in all that was heard (`awaitReply_since`). A failure
of the port breaks off the exchange of one command (`Breaks`), and nothing happens after it; a port
that fails nothing lets every function of an upload succeed (`uploadFrom_ok`).

Main statement: `upload_is_a_dialogue`.
-/

namespace FireControl.Link

theorem occursIn_iff {word bytes : Bytes} : occursIn word bytes = true ↔ word <:+: bytes := by
  induction bytes with
  | nil => simp [occursIn]
  | cons b rest ih =>
    rw [occursIn, Bool.or_eq_true, ih, List.infix_cons_iff, List.isPrefixOf_iff_prefix]

/-! ## Requests -/

/-- What a port does with one request. -/
inductive Does (p : Port) : Contact → Port → Prop
  | took {taken rest p'} : p.write (taken ++ rest) = (.ok rest, p') → Does p (.took taken rest) p'
  | refused {offered fault p'} : p.write offered = (.error fault, p') →
      Does p (.refused offered fault) p'
  | flushed {p'} : p.flush = (.ok (), p') → Does p (.flushed none) p'
  | unflushed {fault p'} : p.flush = (.error fault, p') → Does p (.flushed (some fault)) p'
  | heard {size result p'} : p.read size = (result, p') → Does p (.heard size result) p'

/-- What a port does with one request after the other. -/
inductive Happens : Port → List Contact → Port → Prop
  | nothing {p} : Happens p [] p
  | request {p p' p'' c cs} : Does p c p' → Happens p' cs p'' → Happens p (c :: cs) p''

section Requests

variable {p p' p'' : Port} {bytes rest : Bytes} {fault : IoFault} {c : Contact}
  {happened happened' : List Contact}

/-- A write fails with the step that is due, or takes bytes off the front. -/
theorem write_cases (p : Port) (bytes : Bytes) :
    (∃ fault later, p.writes = .fail fault :: later ∧
      p.write bytes = (.error fault, { p with writes := later }.note (.refused bytes fault))) ∨
    ∃ n later, (p.writes = [] ∧ later = [] ∧ n = bytes.length ∨ p.writes = .accept n :: later) ∧
      p.write bytes = (.ok (({ p with writes := later } : Port).accept bytes n).1,
        (({ p with writes := later } : Port).accept bytes n).2) := by
  cases hwrites : p.writes with
  | nil =>
    refine .inr ⟨bytes.length, [], .inl ⟨rfl, rfl, rfl⟩, ?_⟩
    obtain ⟨replies, writes, chunk, room, flushes, contacts⟩ := p
    cases hwrites
    rfl
  | cons step later =>
    cases step with
    | fail fault => exact .inl ⟨fault, later, rfl, by rw [Port.write, hwrites]⟩
    | accept n => exact .inr ⟨n, later, .inr rfl, by rw [Port.write, hwrites]⟩

theorem write_took (h : p.write bytes = (.ok rest, p')) :
    ∃ taken, bytes = taken ++ rest ∧ p'.contacts = p.contacts ++ [.took taken rest] ∧
      p'.replies = p.replies := by
  obtain ⟨fault, later, -, hwrite⟩ | ⟨n, later, -, hwrite⟩ := write_cases p bytes
  · cases hwrite.symm.trans h
  · cases hwrite.symm.trans h
    exact ⟨_, (List.take_append_drop _ bytes).symm, rfl, rfl⟩

theorem write_refused (h : p.write bytes = (.error fault, p')) :
    p'.contacts = p.contacts ++ [.refused bytes fault] ∧ p'.replies = p.replies := by
  obtain ⟨cause, later, -, hwrite⟩ | ⟨n, later, -, hwrite⟩ := write_cases p bytes
  · cases hwrite.symm.trans h
    exact ⟨rfl, rfl⟩
  · cases hwrite.symm.trans h

theorem flush_cases (p : Port) :
    ∃ failure, failure = p.flushes.head?.join ∧
      p.flush = ((match failure with
        | none => .ok ()
        | some fault => .error fault),
        { p with flushes := p.flushes.tail }.note (.flushed failure)) := by
  refine ⟨_, rfl, ?_⟩
  unfold Port.flush
  rcases p.flushes with _ | ⟨_ | fault, later⟩ <;> rfl

/-- A port notes what it did. -/
theorem Does.contacts (h : Does p c p') : p'.contacts = p.contacts ++ [c] := by
  cases h with
  | took hwrite =>
    obtain ⟨taken, hsplit, hcontacts, -⟩ := write_took hwrite
    rwa [List.append_cancel_right hsplit]
  | refused hwrite => exact (write_refused hwrite).1
  | flushed hflush | unflushed hflush =>
    obtain ⟨failure, -, hdid⟩ := flush_cases p
    cases failure <;> cases hdid.symm.trans hflush
    rfl
  | heard hread =>
    cases hread
    rfl

theorem Happens.contacts (h : Happens p happened p') : p'.contacts = p.contacts ++ happened := by
  induction h with
  | nothing => exact (List.append_nil _).symm
  | request hdoes _ ih => rw [ih, hdoes.contacts, List.append_assoc, List.singleton_append]

theorem Happens.append (h : Happens p happened p') (h' : Happens p' happened' p'') :
    Happens p (happened ++ happened') p'' := by
  induction h with
  | nothing => exact h'
  | request hdoes _ ih => exact .request hdoes (ih h')

end Requests

/-- What happened between two moments of a port, and what it said meanwhile. After its replies a port
says nothing. -/
structure Since (p : Port) (happened : List Contact) (said : List (Except IoFault Bytes))
    (p' : Port) : Prop where
  happens : Happens p happened p'
  replies : ∃ silent, p.replies ++ List.replicate silent (.ok []) = said ++ p'.replies

section Moments

variable {p p' p'' : Port} {c : Contact} {happened happened' : List Contact}
  {said said' : List (Except IoFault Bytes)}

theorem since_refl (p : Port) : Since p [] [] p :=
  ⟨.nothing, 0, List.append_nil _⟩

theorem Since.trans (h : Since p happened said p') (h' : Since p' happened' said' p'') :
    Since p (happened ++ happened') (said ++ said') p'' := by
  obtain ⟨silent, hreplies⟩ := h.replies
  obtain ⟨silent', hreplies'⟩ := h'.replies
  refine ⟨h.happens.append h'.happens, silent + silent', ?_⟩
  rw [← List.replicate_append_replicate, ← List.append_assoc, hreplies, List.append_assoc, hreplies',
    List.append_assoc]

/-- One request without a reply. -/
theorem Does.since (h : Does p c p') (hreplies : p'.replies = p.replies) : Since p [c] [] p' :=
  ⟨.request h .nothing, 0, by simp [hreplies]⟩

theorem since_read (p : Port) (size : Nat) :
    ∃ reply, (p.read size).1 = reply.map (·.take size) ∧
      Since p [.heard size (reply.map (·.take size))] [reply] (p.read size).2 := by
  refine ⟨p.replies.head?.getD (.ok []), rfl, .request (.heard rfl) .nothing, ?_⟩
  cases hreplies : p.replies with
  | nil => exact ⟨1, by simp [Port.read, Port.note, hreplies]⟩
  | cons reply later => exact ⟨0, by simp [Port.read, Port.note, hreplies]⟩

end Moments

/-! ## Writing -/

/-- Writes that take a text piece by piece, each of them offered all that is left. One that is
interrupted is repeated; any other failure, and a write that takes nothing, is the end. -/
inductive Writes : Bytes → List Contact → Except IoFault Unit → Prop
  | done : Writes [] [] (.ok ())
  | interrupted {text cs fault result} : text ≠ [] → fault.kind = .interrupted →
      Writes text cs result → Writes text (.refused text fault :: cs) result
  | piece {first rest cs result} : first ≠ [] → Writes rest cs result →
      Writes (first ++ rest) (.took first rest :: cs) result
  | refused {text fault} : text ≠ [] → fault.kind ≠ .interrupted →
      Writes text [.refused text fault] (.error fault)
  | nothing {text} : text ≠ [] → Writes text [.took [] text] (.error Port.nothingTaken)

theorem writeAll_since (p : Port) (bytes : Bytes) :
    ∃ cs, Since p cs [] (p.writeAll bytes).2 ∧ Writes bytes cs (p.writeAll bytes).1 := by
  fun_induction Port.writeAll p bytes with
  | case1 p bytes hempty =>
    obtain rfl := List.isEmpty_iff.mp hempty
    exact ⟨[], since_refl p, .done⟩
  | case2 p bytes hne fault p' hwrite hkind ih =>
    obtain ⟨cs, hsince, hwrites⟩ := ih
    have hrefused := (Does.refused hwrite).since (write_refused hwrite).2
    exact ⟨_, hrefused.trans hsince, .interrupted (by simpa using hne) hkind hwrites⟩
  | case3 p bytes hne fault p' hwrite hkind =>
    have hrefused := (Does.refused hwrite).since (write_refused hwrite).2
    exact ⟨_, hrefused, .refused (by simpa using hne) hkind⟩
  | case4 p bytes hne rest p' hwrite hshorter ih =>
    obtain ⟨taken, rfl, -, hreplies⟩ := write_took hwrite
    obtain ⟨cs, hsince, hwrites⟩ := ih
    refine ⟨_, ((Does.took hwrite).since hreplies).trans hsince, .piece ?_ hwrites⟩
    rintro rfl
    exact absurd hshorter (Nat.lt_irrefl _)
  | case5 p bytes hne rest p' hwrite hsame =>
    obtain ⟨taken, rfl, -, hreplies⟩ := write_took hwrite
    -- What was not taken is no shorter than the whole, so nothing was taken.
    have hnothing : taken = [] := by
      rw [List.length_append] at hsame
      exact List.eq_nil_of_length_eq_zero (by omega)
    subst hnothing
    exact ⟨_, (Does.took hwrite).since hreplies, .nothing (by simpa using hne)⟩

/-! ## Reading -/

/-- The reads of replies into a buffer with so much room left. -/
def readings : Nat → List Bytes → List Contact
  | _, [] => []
  | room, reply :: later =>
    .heard room (.ok (reply.take room)) :: readings (room - reply.length) later

/-- What was said so far does not end the wait: the word is not in it, and there is room for more. -/
def Due (said : Bytes) : Prop := ¬ acknowledgement <:+: said ∧ said.length < replyLimit

/-- The reads of a wait that had heard something before, and its result. All replies but the last
left more to wait for, and the last ended the wait: by the word, for want of room, or as the last of
the reads. -/
inductive Waits (reads : Nat) (before : Bytes) :
    List Contact → List (Except IoFault Bytes) → Except IoFault Bool → Prop
  | ended {replies : List Bytes} {done : Bool} : replies.length ≤ reads →
      (∀ k < replies.length, Due (before ++ (replies.take k).flatten)) →
      (done = true ↔ acknowledgement <:+: (before ++ replies.flatten).take replyLimit) →
      (done = true ∨ replies.length = reads ∨ replyLimit ≤ (before ++ replies.flatten).length) →
      Waits reads before (readings (replyLimit - before.length) replies) (replies.map .ok) (.ok done)
  | failed {replies : List Bytes} {fault : IoFault} : replies.length < reads →
      (∀ k ≤ replies.length, Due (before ++ (replies.take k).flatten)) →
      Waits reads before
        (readings (replyLimit - before.length) replies ++
          [.heard (replyLimit - (before ++ replies.flatten).length) (.error fault)])
        (replies.map .ok ++ [.error fault]) (.error fault)

section Reading

variable {reads : Nat} {before reply : Bytes} {cs : List Contact}
  {said : List (Except IoFault Bytes)} {result : Except IoFault Bool}

/-- A reply that leaves more to wait for is heard whole, and the wait goes on behind it. -/
theorem Waits.cons (hdue : Due before)
    (h : Waits reads (before ++ reply) cs said result) :
    Waits (reads + 1) before
      (.heard (replyLimit - before.length) (.ok (reply.take (replyLimit - before.length))) :: cs)
      (.ok reply :: said) result := by
  have hall : ∀ replies : List Bytes,
      before ++ (reply :: replies).flatten = before ++ reply ++ replies.flatten := by
    intro replies
    rw [List.flatten_cons, List.append_assoc]
  have hreads : ∀ replies, readings (replyLimit - before.length) (reply :: replies) =
      .heard (replyLimit - before.length) (.ok (reply.take (replyLimit - before.length))) ::
        readings (replyLimit - (before ++ reply).length) replies := by
    intro replies
    rw [readings, List.length_append, Nat.sub_sub]
  have hlater : ∀ (replies : List Bytes) k,
      (∀ j, j + 1 = k → Due (before ++ reply ++ (replies.take j).flatten)) →
        Due (before ++ ((reply :: replies).take k).flatten) := by
    intro replies k hk
    cases k with
    | zero => simpa using hdue
    | succ j =>
      rw [List.take_succ_cons, hall]
      exact hk j rfl
  cases h with
  | @ended replies done hfew hwait hdone hend =>
    rw [← hreads]
    refine @Waits.ended _ _ (reply :: replies) _ (Nat.succ_le_succ hfew) ?_ ?_ ?_
    · intro k hk
      refine hlater replies k fun j hj => hwait j ?_
      rw [List.length_cons] at hk
      omega
    · rwa [hall]
    · rw [hall, List.length_cons, Nat.succ_inj]
      exact hend
  | @failed replies fault hfew hwait =>
    rw [← List.cons_append, ← hreads, ← hall]
    refine @Waits.failed _ _ (reply :: replies) _ (Nat.succ_lt_succ hfew) ?_
    intro k hk
    refine hlater replies k fun j hj => hwait j ?_
    rw [List.length_cons] at hk
    omega

/-- A reply that ends the wait. -/
theorem Waits.last {done : Bool} (hdue : Due before)
    (hdone : done = true ↔ acknowledgement <:+: (before ++ reply).take replyLimit)
    (hend : done = true ∨ reads = 0 ∨ replyLimit ≤ (before ++ reply).length) :
    Waits (reads + 1) before
      [.heard (replyLimit - before.length) (.ok (reply.take (replyLimit - before.length)))]
      [.ok reply] (.ok done) := by
  refine @Waits.ended _ _ [reply] _ (Nat.succ_le_succ (Nat.zero_le _)) ?_ ?_ ?_
  · intro k hk
    obtain rfl : k = 0 := by simpa using hk
    simpa using hdue
  · rwa [List.flatten_singleton]
  · rw [List.flatten_singleton]
    exact hend.imp_right (Or.imp_left fun hnone => by rw [hnone]; rfl)

/-- With the buffer full no more is read. -/
theorem awaitReply_full {p : Port} (h : replyLimit ≤ before.length) :
    awaitReply reads before p = (.ok false, p) := by
  cases reads with
  | zero => rfl
  | succ reads => rw [awaitReply, if_pos h]

theorem awaitReply_since (reads : Nat) (before : Bytes) (p : Port)
    (hword : ¬ acknowledgement <:+: before) (hshort : before.length ≤ replyLimit) :
    ∃ cs said, Since p cs said (awaitReply reads before p).2 ∧
      Waits reads before cs said (awaitReply reads before p).1 := by
  induction reads generalizing before p with
  | zero =>
    refine ⟨[], [], since_refl p, @Waits.ended _ _ [] _ (Nat.le_refl _) (by simp) ?_ (by simp)⟩
    simp [List.take_of_length_le hshort, hword]
  | succ reads ih =>
    rcases Nat.lt_or_ge before.length replyLimit with hroom | hfull
    case inr =>
      rw [awaitReply_full hfull]
      refine ⟨[], [], since_refl p, @Waits.ended _ _ [] _ (Nat.zero_le _) (by simp) ?_ ?_⟩
      · simp [List.take_of_length_le hshort, hword]
      · simp [hfull]
    have hdue : Due before := ⟨hword, hroom⟩
    rw [awaitReply, if_neg (Nat.not_le.mpr hroom)]
    obtain ⟨reply, hresult, hread⟩ := since_read p (replyLimit - before.length)
    split
    · next fault p' hfault =>
      rw [hfault] at hresult hread
      cases reply with
      | ok reply => cases hresult
      | error cause =>
        cases hresult
        have hfailed := @Waits.failed (reads + 1) before [] fault (Nat.succ_pos _)
          fun k _ => by simpa using hdue
        rw [List.flatten_nil, List.append_nil] at hfailed
        exact ⟨_, _, hread, hfailed⟩
    · next more p' hmore =>
      rw [hmore] at hresult hread
      cases reply with
      | error cause => cases hresult
      | ok reply =>
        obtain rfl : more = reply.take (replyLimit - before.length) := Except.ok.inj hresult
        have hall : before ++ reply.take (replyLimit - before.length) =
            (before ++ reply).take replyLimit := by
          rw [List.take_append, List.take_of_length_le hshort]
        split
        · next hfound =>
          rw [hall, occursIn_iff] at hfound
          exact ⟨_, _, hread, .last hdue (by simpa using hfound) (.inl rfl)⟩
        · next hnone =>
          rw [hall, occursIn_iff] at hnone
          rw [hall]
          rcases Nat.lt_or_ge (before ++ reply).length replyLimit with hmore | hcut
          · rw [List.take_of_length_le (Nat.le_of_lt hmore)] at hnone ⊢
            obtain ⟨cs, said, hsince, hwaits⟩ := ih _ p' hnone (Nat.le_of_lt hmore)
            exact ⟨_, _, hread.trans hsince, hwaits.cons hdue⟩
          · have hfull : replyLimit ≤ ((before ++ reply).take replyLimit).length := by
              rw [List.length_take]
              omega
            rw [awaitReply_full hfull]
            exact ⟨_, _, hread, .last hdue (by simpa using hnone) (.inr (.inr hcut))⟩

end Reading

/-! ## Exchanges -/

/-- A command is written and then its carriage return, and then the port is flushed. -/
inductive Sends (command : Bytes) : List Contact → Except IoFault Unit → Prop
  | sent {cs ends} : Writes command cs (.ok ()) → Writes [13] ends (.ok ()) →
      Sends command (cs ++ ends ++ [.flushed none]) (.ok ())
  | command {cs fault} : Writes command cs (.error fault) → Sends command cs (.error fault)
  | ending {cs ends fault} : Writes command cs (.ok ()) → Writes [13] ends (.error fault) →
      Sends command (cs ++ ends) (.error fault)
  | flush {cs ends fault} : Writes command cs (.ok ()) → Writes [13] ends (.ok ()) →
      Sends command (cs ++ ends ++ [.flushed (some fault)]) (.error fault)

/-- A command, what happens while it is sent, and the replies read afterwards. -/
structure Exchange where
  command : Bytes
  sending : List Contact
  replies : List Bytes

namespace Exchange

def contacts (e : Exchange) : List Contact := e.sending ++ readings replyLimit e.replies

/-- Whether the word stands in the replies, as far as they are looked at. -/
def isAcknowledged (e : Exchange) : Bool :=
  decide (acknowledgement <:+: e.replies.flatten.take replyLimit)

/-- The command is sent, and then replies are read as long as one is due. They end with the word,
after the last of the reads, or for want of room. -/
structure Complete (e : Exchange) : Prop where
  sent : Sends e.command e.sending (.ok ())
  few : e.replies.length ≤ replyReads
  due : ∀ k < e.replies.length, Due (e.replies.take k).flatten
  ended : e.isAcknowledged = true ∨ e.replies.length = replyReads ∨
    replyLimit ≤ e.replies.flatten.length

end Exchange

/-- A failure of the port ends the exchange of a command: the command cannot be sent, or a read that
was due fails. -/
inductive Breaks (command : Bytes) :
    List Contact → List (Except IoFault Bytes) → IoFault → Prop
  | send {cs fault} : Sends command cs (.error fault) → Breaks command cs [] fault
  | read {sending replies fault} : Sends command sending (.ok ()) →
      replies.length < replyReads → (∀ k ≤ replies.length, Due (replies.take k).flatten) →
      Breaks command
        (sending ++ (readings replyLimit replies ++
          [.heard (replyLimit - replies.flatten.length) (.error fault)]))
        (replies.map .ok ++ [.error fault]) fault

section Exchanges

variable {command : Bytes} {commands : List Bytes} {p : Port} {report : UploadReport}

theorem flush_since (p : Port) :
    ∃ failure, Since p [.flushed failure] [] p.flush.2 ∧
      p.flush.1 = match failure with
        | none => .ok ()
        | some fault => .error fault := by
  obtain ⟨failure, -, hdid⟩ := flush_cases p
  refine ⟨failure, ?_, congrArg Prod.fst hdid⟩
  rw [hdid]
  cases failure with
  | none => exact (Does.flushed hdid).since rfl
  | some fault => exact (Does.unflushed hdid).since rfl

theorem send_since (command : Bytes) (p : Port) :
    ∃ cs, Since p cs [] (send command p).2 ∧ Sends command cs (send command p).1 := by
  obtain ⟨first, hfirst, hcommand⟩ := writeAll_since p command
  unfold send
  split
  · next fault p' hfailed =>
    rw [hfailed] at hfirst hcommand
    exact ⟨first, hfirst, .command hcommand⟩
  next p' hsent =>
  rw [hsent] at hfirst hcommand
  obtain ⟨last, hlast, hreturn⟩ := writeAll_since p' [13]
  split
  · next fault p'' hfailed =>
    rw [hfailed] at hlast hreturn
    exact ⟨first ++ last, hfirst.trans hlast, .ending hcommand hreturn⟩
  next p'' hsent =>
  rw [hsent] at hlast hreturn
  obtain ⟨failure, hflush, hresult⟩ := flush_since p''
  refine ⟨_, (hfirst.trans hlast).trans hflush, ?_⟩
  rw [hresult]
  cases failure with
  | none => exact .sent hcommand hreturn
  | some fault => exact .flush hcommand hreturn

/-- How an upload ends that adds to a report: with an exchange for each of its commands, or with a
failure during one of them. -/
inductive Concludes (report : UploadReport) (commands : List Bytes) (exchanges : List Exchange) :
    List Contact → List (Except IoFault Bytes) → Except IoFault UploadReport → Prop
  | all : exchanges.map Exchange.command = commands →
      Concludes report commands exchanges [] []
        (.ok ⟨report.sent + exchanges.length,
          report.acknowledged + exchanges.countP (·.isAcknowledged)⟩)
  | broken {command later cs said fault} :
      commands = exchanges.map Exchange.command ++ command :: later →
      Breaks command cs said fault → Concludes report commands exchanges cs said (.error fault)

theorem Concludes.cons {e : Exchange} {exchanges : List Exchange} {cs : List Contact}
    {said : List (Except IoFault Bytes)} {result : Except IoFault UploadReport}
    (h : Concludes
      ⟨report.sent + 1, report.acknowledged + if e.isAcknowledged then 1 else 0⟩
      commands exchanges cs said result) :
    Concludes report (e.command :: commands) (e :: exchanges) cs said result := by
  cases h with
  | all hcommands =>
    have hsent : report.sent + 1 + exchanges.length = report.sent + (e :: exchanges).length := by
      rw [List.length_cons]
      omega
    have hacknowledged : (report.acknowledged + if e.isAcknowledged then 1 else 0) +
        exchanges.countP (·.isAcknowledged) =
          report.acknowledged + (e :: exchanges).countP (·.isAcknowledged) := by
      rw [List.countP_cons]
      omega
    rw [hsent, hacknowledged]
    exact .all (by rw [List.map_cons, hcommands])
  | broken hcommands hbreaks => exact .broken (by rw [hcommands]; rfl) hbreaks

theorem exchange_complete {command : Bytes} {sending cs : List Contact}
    {said : List (Except IoFault Bytes)} {done : Bool} (hsent : Sends command sending (.ok ()))
    (h : Waits replyReads [] cs said (.ok done)) :
    ∃ e : Exchange, e.Complete ∧ e.command = command ∧ e.contacts = sending ++ cs ∧
      e.replies.map .ok = said ∧ e.isAcknowledged = done := by
  cases h with
  | @ended replies _ hfew hdue hdone hend =>
    have hsame : (⟨command, sending, replies⟩ : Exchange).isAcknowledged = done := by
      unfold Exchange.isAcknowledged
      cases done with
      | true => exact decide_eq_true (hdone.mp rfl)
      | false => exact decide_eq_false (mt hdone.mpr Bool.false_ne_true)
    refine ⟨⟨command, sending, replies⟩, ⟨hsent, hfew, hdue, ?_⟩, rfl, rfl, rfl, hsame⟩
    rw [hsame]
    exact hend

theorem breaks_of_wait {command : Bytes} {sending cs : List Contact}
    {said : List (Except IoFault Bytes)} {fault : IoFault} (hsent : Sends command sending (.ok ()))
    (h : Waits replyReads [] cs said (.error fault)) :
    Breaks command (sending ++ cs) said fault := by
  cases h with
  | failed hfew hdue => exact .read hsent hfew hdue

theorem uploadFrom_since (report : UploadReport) (commands : List Bytes) (p : Port) :
    ∃ exchanges cs said, (∀ e ∈ exchanges, e.Complete) ∧
      Since p (exchanges.flatMap Exchange.contacts ++ cs)
        ((exchanges.flatMap Exchange.replies).map .ok ++ said) (uploadFrom report commands p).2 ∧
      Concludes report commands exchanges cs said (uploadFrom report commands p).1 := by
  induction commands generalizing report p with
  | nil => exact ⟨[], [], [], nofun, since_refl p, .all rfl⟩
  | cons command later ih =>
    obtain ⟨sending, hsending, hsends⟩ := send_since command p
    unfold uploadFrom
    split
    · next fault p' hfailed =>
      rw [hfailed] at hsending hsends
      exact ⟨[], _, _, nofun, hsending, .broken rfl (.send hsends)⟩
    next p' hsent =>
    rw [hsent] at hsending hsends
    obtain ⟨cs, said, hreads, hwaits⟩ :=
      awaitReply_since replyReads [] p' (by decide) (Nat.zero_le _)
    split
    · next fault p'' hfailed =>
      rw [hfailed] at hreads hwaits
      exact ⟨[], _, _, nofun, hsending.trans hreads, .broken rfl (breaks_of_wait hsends hwaits)⟩
    next done p'' hheard =>
    rw [hheard] at hreads hwaits
    obtain ⟨e, hcomplete, rfl, hcontacts, rfl, rfl⟩ := exchange_complete hsends hwaits
    obtain ⟨exchanges, cs', said', hall, hlater, hconcludes⟩ := ih _ p''
    refine ⟨e :: exchanges, cs', said', List.forall_mem_cons.mpr ⟨hcomplete, hall⟩, ?_,
      hconcludes.cons⟩
    have hwhole := (hsending.trans hreads).trans hlater
    rw [← hcontacts, List.nil_append] at hwhole
    simpa [List.append_assoc] using hwhole

end Exchanges

/-! ## Bytes and failures -/

/-- The failure that a contact is, if it is one. To be interrupted in a write is none. -/
def Contact.failure? : Contact → Option IoFault
  | took [] (_ :: _) => some Port.nothingTaken
  | took _ _ => none
  | refused _ fault => if fault.kind = .interrupted then none else some fault
  | flushed failure => failure
  | heard _ (.ok _) => none
  | heard _ (.error fault) => some fault

/-- What happened brought these bytes to the port and ended with a failure, the only one. -/
structure Fails (text : Bytes) (happened : List Contact) (fault : IoFault) : Prop where
  bytes : happened.flatMap Contact.bytes = text
  last : ∃ earlier c, happened = earlier ++ [c] ∧ c.failure? = some fault ∧
    ∀ c ∈ earlier, c.failure? = none

/-- What happened brought these bytes to the port, without any failure. -/
structure Succeeds (text : Bytes) (happened : List Contact) : Prop where
  bytes : happened.flatMap Contact.bytes = text
  none : ∀ c ∈ happened, c.failure? = none

section Failures

variable {text text' : Bytes} {cs cs' : List Contact} {fault : IoFault}

theorem Succeeds.append (h : Succeeds text cs) (h' : Succeeds text' cs') :
    Succeeds (text ++ text') (cs ++ cs') :=
  ⟨by rw [List.flatMap_append, h.bytes, h'.bytes],
    fun c hc => (List.mem_append.mp hc).elim (h.none c) (h'.none c)⟩

theorem Succeeds.fails (h : Succeeds text cs) (h' : Fails text' cs' fault) :
    Fails (text ++ text') (cs ++ cs') fault := by
  obtain ⟨earlier, c, rfl, hc, hearlier⟩ := h'.last
  refine ⟨by rw [List.flatMap_append, h.bytes, h'.bytes], cs ++ earlier, c,
    (List.append_assoc ..).symm, hc, ?_⟩
  intro c hc
  exact (List.mem_append.mp hc).elim (h.none c) (hearlier c)

theorem succeeds_single (c : Contact) (hc : c.failure? = none) : Succeeds c.bytes [c] :=
  ⟨List.append_nil _, by simpa using hc⟩

theorem fails_single (c : Contact) (hc : c.failure? = some fault) : Fails c.bytes [c] fault :=
  ⟨List.append_nil _, [], c, rfl, hc, nofun⟩

theorem failure?_took {first : Bytes} (h : first ≠ []) (rest : Bytes) :
    (Contact.took first rest).failure? = none := by
  cases first with
  | nil => exact absurd rfl h
  | cons => rfl

theorem failure?_nothing (h : text ≠ []) :
    (Contact.took [] text).failure? = some Port.nothingTaken := by
  cases text with
  | nil => exact absurd rfl h
  | cons => rfl

theorem Writes.succeeds (h : Writes text cs (.ok ())) : Succeeds text cs := by
  generalize hok : (.ok () : Except IoFault Unit) = result at h
  induction h with
  | done => exact ⟨rfl, nofun⟩
  | @interrupted text _ fault _ _ hkind _ ih =>
    exact (succeeds_single (.refused text fault) (if_pos hkind)).append (ih hok)
  | @piece first rest _ _ hne _ ih =>
    exact (succeeds_single (.took first rest) (failure?_took hne rest)).append (ih hok)
  | refused => cases hok
  | nothing => cases hok

/-- A text that is broken off has reached the port up to some point. -/
theorem Writes.fails (h : Writes text cs (.error fault)) :
    ∃ front, front <+: text ∧ Fails front cs fault := by
  generalize herror : (.error fault : Except IoFault Unit) = result at h
  induction h with
  | done => cases herror
  | @interrupted text _ cause _ _ hkind _ ih =>
    obtain ⟨front, hfront, hfails⟩ := ih herror
    exact ⟨front, hfront,
      (succeeds_single (.refused text cause) (if_pos hkind)).fails hfails⟩
  | @piece first rest _ _ hne _ ih =>
    obtain ⟨front, hfront, hfails⟩ := ih herror
    exact ⟨first ++ front, (List.prefix_append_right_inj first).mpr hfront,
      (succeeds_single (.took first rest) (failure?_took hne rest)).fails hfails⟩
  | @refused text cause hne hkind =>
    cases herror
    exact ⟨[], List.nil_prefix, fails_single (.refused text fault) (if_neg hkind)⟩
  | @nothing text hne =>
    cases herror
    exact ⟨[], List.nil_prefix, fails_single (.took [] text) (failure?_nothing hne)⟩

theorem Sends.succeeds {command : Bytes} (h : Sends command cs (.ok ())) :
    Succeeds (command ++ [13]) cs := by
  cases h with
  | sent hcommand hreturn =>
    have hflush : Succeeds [] [.flushed none] := succeeds_single (.flushed none) rfl
    have hall := (hcommand.succeeds.append hreturn.succeeds).append hflush
    rwa [List.append_nil] at hall

theorem Sends.fails {command : Bytes} (h : Sends command cs (.error fault)) :
    ∃ front, front <+: command ++ [13] ∧ Fails front cs fault := by
  cases h with
  | command hcommand =>
    obtain ⟨front, hfront, hfails⟩ := hcommand.fails
    exact ⟨front, hfront.trans (List.prefix_append ..), hfails⟩
  | ending hcommand hreturn =>
    obtain ⟨front, hfront, hfails⟩ := hreturn.fails
    exact ⟨command ++ front, (List.prefix_append_right_inj command).mpr hfront,
      hcommand.succeeds.fails hfails⟩
  | flush hcommand hreturn =>
    have hflush : Fails [] [.flushed (some fault)] fault := fails_single (.flushed (some fault)) rfl
    have hall := (hcommand.succeeds.append hreturn.succeeds).fails hflush
    rw [List.append_nil] at hall
    exact ⟨command ++ [13], List.prefix_rfl, hall⟩

theorem readings_succeed (room : Nat) (replies : List Bytes) :
    Succeeds [] (readings room replies) := by
  induction replies generalizing room with
  | nil => exact ⟨rfl, nofun⟩
  | cons reply later ih =>
    exact (succeeds_single (.heard room (.ok (reply.take room))) rfl).append (ih _)

theorem Exchange.Complete.succeeds {e : Exchange} (h : e.Complete) :
    Succeeds (e.command ++ [13]) e.contacts := by
  have hall := h.sent.succeeds.append (readings_succeed replyLimit e.replies)
  rwa [List.append_nil] at hall

theorem Breaks.fails {command : Bytes} {said : List (Except IoFault Bytes)}
    (h : Breaks command cs said fault) :
    ∃ front, front <+: command ++ [13] ∧ Fails front cs fault := by
  cases h with
  | send hsends => exact hsends.fails
  | @read sending replies _ hsent =>
    have hread := fails_single
      (.heard (replyLimit - replies.flatten.length) (.error fault)) rfl
    have hall := hsent.succeeds.fails ((readings_succeed replyLimit replies).fails hread)
    rw [show [] ++ Contact.bytes _ = [] from rfl, List.append_nil] at hall
    exact ⟨command ++ [13], List.prefix_rfl, hall⟩

theorem succeeds_exchanges {exchanges : List Exchange} (h : ∀ e ∈ exchanges, e.Complete) :
    Succeeds ((exchanges.map Exchange.command).flatMap (· ++ [13]))
      (exchanges.flatMap Exchange.contacts) := by
  induction exchanges with
  | nil => exact ⟨rfl, nofun⟩
  | cons e later ih =>
    obtain ⟨hfirst, hlater⟩ := List.forall_mem_cons.mp h
    exact hfirst.succeeds.append (ih hlater)

end Failures

/-- What a contact heard. -/
def Contact.hears : Contact → Bytes
  | heard _ (.ok bytes) => bytes
  | _ => []

/-- What is heard is all that was said, up to the limit. -/
theorem hears_readings (room : Nat) (replies : List Bytes) :
    (readings room replies).flatMap Contact.hears = replies.flatten.take room := by
  induction replies generalizing room with
  | nil => exact List.take_nil.symm
  | cons reply later ih =>
    rw [readings, List.flatMap_cons, ih, List.flatten_cons, List.take_append]
    rfl

/-! ## Ports that fail nothing -/

/-- A port that fails nothing as long as it is brought no more bytes than this: a write takes
something or is interrupted, and every flush and every read succeeds. -/
structure Port.Faultless (p : Port) (size : Nat) : Prop where
  accepts : ∀ n, .accept n ∈ p.writes → 0 < n
  fails : ∀ fault, .fail fault ∈ p.writes → fault.kind = .interrupted
  chunk : ∀ n ∈ p.chunk, 0 < n
  room : ∀ n ∈ p.room, size ≤ n
  flushes : ∀ failure ∈ p.flushes, failure = none
  replies : ∀ reply ∈ p.replies, ∃ bytes, reply = .ok bytes

section Faultless

variable {p p' : Port} {bytes rest : Bytes} {size : Nat}

theorem limited_pos {n : Nat} {limit : Option Nat} (hn : 0 < n) (h : ∀ m ∈ limit, 0 < m) :
    0 < Port.limited n limit := by
  cases limit with
  | none => exact hn
  | some m => exact Nat.lt_min.mpr ⟨hn, h m rfl⟩

theorem Port.Faultless.accept (h : p.Faultless (bytes.length + size)) (hne : bytes ≠ []) {n : Nat}
    (hn : 0 < n) : (p.accept bytes n).1.length < bytes.length ∧
      (p.accept bytes n).2.Faultless ((p.accept bytes n).1.length + size) := by
  have hlength : 0 < bytes.length := List.length_pos_iff.mpr hne
  have hroom : ∀ m ∈ p.room, 0 < m := fun m hm => by
    have := h.room m hm
    omega
  have htaken := limited_pos (limited_pos hn h.chunk) hroom
  simp only [Port.accept, Port.note, List.length_drop, List.length_take]
  refine ⟨by omega, h.accepts, h.fails, h.chunk, ?_, h.flushes, h.replies⟩
  intro m hm
  obtain ⟨before, hbefore, rfl⟩ := Option.map_eq_some_iff.mp hm
  have := h.room before hbefore
  omega

theorem Port.Faultless.write_refused {fault : IoFault} (h : p.Faultless size)
    (hwrite : p.write bytes = (.error fault, p')) :
    fault.kind = .interrupted ∧ p'.Faultless size := by
  obtain ⟨cause, later, hwrites, hfail⟩ | ⟨n, later, -, htook⟩ := write_cases p bytes
  · cases hfail.symm.trans hwrite
    have hlater : ∀ step ∈ later, step ∈ p.writes := by
      rw [hwrites]
      exact fun step => List.mem_cons_of_mem _
    exact ⟨h.fails fault (by rw [hwrites]; exact List.mem_cons_self),
      fun n hn => h.accepts n (hlater _ hn), fun cause hcause => h.fails cause (hlater _ hcause),
      h.chunk, h.room, h.flushes, h.replies⟩
  · cases htook.symm.trans hwrite

theorem Port.Faultless.write_took (h : p.Faultless (bytes.length + size)) (hne : bytes ≠ [])
    (hwrite : p.write bytes = (.ok rest, p')) :
    rest.length < bytes.length ∧ p'.Faultless (rest.length + size) := by
  obtain ⟨cause, later, -, hfail⟩ | ⟨n, later, hwrites, htook⟩ := write_cases p bytes
  · cases hfail.symm.trans hwrite
  · cases htook.symm.trans hwrite
    have hsteps : 0 < n ∧ ∀ step ∈ later, step ∈ p.writes := by
      rcases hwrites with ⟨-, rfl, rfl⟩ | hwrites
      · exact ⟨List.length_pos_iff.mpr hne, nofun⟩
      · rw [hwrites]
        exact ⟨h.accepts n (by rw [hwrites]; exact List.mem_cons_self),
          fun step => List.mem_cons_of_mem _⟩
    have hlater : ({ p with writes := later } : Port).Faultless (bytes.length + size) :=
      ⟨fun n hn => h.accepts n (hsteps.2 _ hn), fun cause hcause => h.fails cause (hsteps.2 _ hcause),
        h.chunk, h.room, h.flushes, h.replies⟩
    exact hlater.accept hne hsteps.1

theorem Port.Faultless.writeAll (h : p.Faultless (bytes.length + size)) :
    ∃ p', p.writeAll bytes = (.ok (), p') ∧ p'.Faultless size := by
  fun_induction Port.writeAll p bytes with
  | case1 p bytes hempty =>
    obtain rfl := List.isEmpty_iff.mp hempty
    exact ⟨p, rfl, by simpa using h⟩
  | case2 p bytes hne fault p' hwrite hkind ih => exact ih (h.write_refused hwrite).2
  | case3 p bytes hne fault p' hwrite hkind => exact absurd (h.write_refused hwrite).1 hkind
  | case4 p bytes hne rest p' hwrite hshorter ih =>
    exact ih (h.write_took (by simpa using hne) hwrite).2
  | case5 p bytes hne rest p' hwrite hsame =>
    exact absurd (h.write_took (by simpa using hne) hwrite).1 hsame

theorem Port.Faultless.flush (h : p.Faultless size) :
    ∃ p', p.flush = (.ok (), p') ∧ p'.Faultless size := by
  obtain ⟨failure, hfailure, hdid⟩ := flush_cases p
  have hnone : failure = none := by
    cases hflushes : p.flushes with
    | nil => rw [hfailure, hflushes]; rfl
    | cons step later =>
      have hstep := h.flushes step (by rw [hflushes]; exact List.mem_cons_self)
      rw [hfailure, hflushes, hstep]
      rfl
  subst hnone
  exact ⟨_, hdid, h.accepts, h.fails, h.chunk, h.room,
    fun failure hlater => h.flushes failure (List.mem_of_mem_tail hlater), h.replies⟩

theorem Port.Faultless.read (h : p.Faultless size) (room : Nat) :
    ∃ reply p', p.read room = (.ok reply, p') ∧ p'.Faultless size := by
  have hlater : (p.read room).2.Faultless size :=
    ⟨h.accepts, h.fails, h.chunk, h.room, h.flushes,
      fun reply hreply => h.replies reply (List.mem_of_mem_tail hreply)⟩
  cases hreplies : p.replies with
  | nil => exact ⟨[].take room, _, by simp only [Port.read, hreplies]; rfl, hlater⟩
  | cons reply later =>
    obtain ⟨bytes, rfl⟩ := h.replies reply (by rw [hreplies]; exact List.mem_cons_self)
    exact ⟨bytes.take room, _, by simp only [Port.read, hreplies]; rfl, hlater⟩

theorem send_ok {command : Bytes} (h : p.Faultless ((command ++ [13]).length + size)) :
    ∃ p', send command p = (.ok (), p') ∧ p'.Faultless size := by
  rw [List.length_append, Nat.add_assoc] at h
  obtain ⟨p₁, hcommand, h₁⟩ := h.writeAll
  obtain ⟨p₂, hreturn, h₂⟩ := h₁.writeAll
  obtain ⟨p₃, hflush, h₃⟩ := h₂.flush
  exact ⟨p₃, by simp only [send, hcommand, hreturn, hflush], h₃⟩

theorem awaitReply_ok (reads : Nat) (reply : Bytes) (h : p.Faultless size) :
    ∃ done p', awaitReply reads reply p = (.ok done, p') ∧ p'.Faultless size := by
  induction reads generalizing reply p with
  | zero => exact ⟨false, p, rfl, h⟩
  | succ reads ih =>
    rw [awaitReply]
    split
    · exact ⟨false, p, rfl, h⟩
    obtain ⟨more, p', hread, h'⟩ := h.read (replyLimit - reply.length)
    rw [hread]
    dsimp only
    split
    · exact ⟨true, p', rfl, h'⟩
    · exact ih _ h'

theorem uploadFrom_ok (report : UploadReport) {commands : List Bytes}
    (h : p.Faultless (commands.flatMap (· ++ [13])).length) :
    ∃ last p', uploadFrom report commands p = (.ok last, p') := by
  induction commands generalizing report p with
  | nil => exact ⟨report, p, rfl⟩
  | cons command later ih =>
    rw [List.flatMap_cons, List.length_append] at h
    obtain ⟨p₁, hsent, h₁⟩ := send_ok h
    obtain ⟨done, p₂, hheard, h₂⟩ := awaitReply_ok replyReads [] h₁
    simp only [uploadFrom, hsent, hheard]
    exact ih _ h₂

end Faultless

/-- An upload is a dialogue for each of its commands, one after the other, whatever the port does. A
command is written and then its carriage return, the port is flushed, and only then replies are
read. A read is made as long as the word does not stand in what the command has heard, fewer than
250 bytes are heard, and fewer than five reads are made; the command is acknowledged exactly if the
word stands in the first 250 bytes of all its replies. Without a failure of the port, every command
is sent, the port has taken all of them with their carriage returns, and the report has their number
and that of the acknowledged ones. A failure ends the upload at once with itself, after a part of
these bytes; and a port that fails nothing never ends it. -/
theorem upload_is_a_dialogue (commands : List Bytes) (p : Port) :
    (∃ exchanges cs said, (∀ e ∈ exchanges, e.Complete) ∧
      (∀ e ∈ exchanges,
        (readings replyLimit e.replies).flatMap Contact.hears =
          e.replies.flatten.take replyLimit) ∧
      Since p (exchanges.flatMap Exchange.contacts ++ cs)
        ((exchanges.flatMap Exchange.replies).map .ok ++ said) (upload commands p).2 ∧
      Concludes {} commands exchanges cs said (upload commands p).1 ∧
      ∃ text, (upload commands p).2.written = p.written ++ text ∧
        match (upload commands p).1 with
        | .ok report =>
          Succeeds text (exchanges.flatMap Exchange.contacts ++ cs) ∧
            text = commands.flatMap (· ++ [13]) ∧ report.sent = commands.length ∧
            report.acknowledged = exchanges.countP (·.isAcknowledged)
        | .error fault =>
          Fails text (exchanges.flatMap Exchange.contacts ++ cs) fault ∧
            text <+: commands.flatMap (· ++ [13])) ∧
    (p.Faultless (commands.flatMap (· ++ [13])).length →
      ∃ report, (upload commands p).1 = .ok report) := by
  constructor
  case right =>
    intro hport
    obtain ⟨report, p', hupload⟩ := uploadFrom_ok {} hport
    exact ⟨report, congrArg Prod.fst hupload⟩
  obtain ⟨exchanges, cs, said, hall, hsince, hconcludes⟩ := uploadFrom_since {} commands p
  change Since p _ _ (upload commands p).2 at hsince
  change Concludes {} commands exchanges cs said (upload commands p).1 at hconcludes
  have hwritten : (upload commands p).2.written = p.written ++
      (exchanges.flatMap Exchange.contacts ++ cs).flatMap Contact.bytes := by
    rw [Port.written, hsince.happens.contacts, List.flatMap_append]
    rfl
  refine ⟨exchanges, cs, said, hall, fun e _ => hears_readings _ _, hsince, hconcludes, _, hwritten,
    ?_⟩
  have hexchanges := succeeds_exchanges hall
  generalize (upload commands p).1 = result at hconcludes
  cases hconcludes with
  | all hcommands =>
    subst hcommands
    rw [List.append_nil, hexchanges.bytes]
    exact ⟨hexchanges, rfl, by rw [List.length_map]; exact Nat.zero_add _, Nat.zero_add _⟩
  | broken hcommands hbreaks =>
    obtain ⟨front, hfront, hfails⟩ := hbreaks.fails
    have hends := hexchanges.fails hfails
    rw [hends.bytes, hcommands, List.flatMap_append, List.flatMap_cons]
    refine ⟨hends, (List.prefix_append_right_inj _).mpr (hfront.trans (List.prefix_append ..))⟩

/-- Two commands of nine bytes. The word that acknowledges the first is split over two reads, a write
takes four bytes and the next is interrupted, and the port takes no byte more than it is brought. -/
theorem upload_is_a_dialogue_split :
    let stop : Bytes := [115, 116, 111, 112]
    let flush : Bytes := [102, 108, 117, 115, 104]
    let port : Port :=
      { replies := [.ok (stop ++ [10, 68, 111]), .ok [110, 101, 10, 62], .ok acknowledgement]
        writes := [.accept 4, .fail ⟨.interrupted, "interrupted"⟩], room := some 11 }
    port.Faultless ([stop, flush].flatMap (· ++ [13])).length ∧
      ∃ report, (upload [stop, flush] port).1 = .ok report ∧ report.sent = 2 ∧
        report.acknowledged = 2 ∧
        (upload [stop, flush] port).2.written = stop ++ [13] ++ flush ++ [13] := by
  intro stop flush port
  have hport : port.Faultless ([stop, flush].flatMap (· ++ [13])).length :=
    { accepts := by simp [port]
      fails := by simp [port]
      chunk := nofun
      room := by
        rintro n ⟨⟩
        decide
      flushes := nofun
      replies := by simp [port] }
  have hacknowledged : (upload [stop, flush] port).1 = .ok ⟨2, 2⟩ := by
    simp [port, stop, flush, upload, uploadFrom, send, Port.writeAll, Port.write, Port.accept,
      Port.limited, Port.note, Port.flush, awaitReply, replyReads, replyLimit, Port.read, Except.map,
      occursIn, acknowledgement]
  obtain ⟨⟨exchanges, cs, said, -, -, -, -, text, hwritten, hends⟩, hok⟩ :=
    upload_is_a_dialogue [stop, flush] port
  obtain ⟨report, hreport⟩ := hok hport
  rw [hreport] at hends hacknowledged
  obtain ⟨-, rfl, hsent, -⟩ := hends
  refine ⟨hport, report, hreport, hsent, ?_, hwritten⟩
  cases hacknowledged
  rfl

end FireControl.Link
