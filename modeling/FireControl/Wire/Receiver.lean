import FireControl.Number.Checked
import FireControl.Wire.Frame
import FireControl.Wire.Source

/-!
# Receiving frames from a byte source

A receiver hunts for the magic word, then collects the header and the body it announces. A header
whose length is out of range is dropped and the hunt goes on behind it. Chunks may end anywhere: what
one byte does depends only on the phase (`Phase.accept`), and bytes of a chunk that a frame did not
need stay buffered for the next call.

A source that keeps returning nothing is stalled. Empty reads are counted across calls; the count
starts again at every read that returns bytes and at every reported stall.
-/

namespace FireControl.Wire

/-- Why a call to the receiver returned no frame. -/
inductive LinkFault where
  /-- More consecutive empty reads than tolerated. -/
  | stalled (emptyReads : Nat)
  | failed (fault : IoFault)
  /-- The count of empty reads left its width. -/
  | overflow (cause : Overflow)
  deriving DecidableEq, Repr

def LinkFault.name : LinkFault → String
  | .stalled _ => "ResetRequired"
  | .failed _ => "Io"
  | .overflow _ => "Overflow"

def LinkFault.message : LinkFault → String
  | .stalled emptyReads => s!"link stalled after {emptyReads} consecutive empty reads"
  | .failed fault => "link I/O error: " ++ fault.detail
  | .overflow cause => cause.message

/-- Where a receiver stands in the byte stream. Bytes collected so far are kept latest first. -/
inductive Phase where
  /-- Hunting, with this many bytes of the magic word matched. -/
  | hunting (matched : Nat)
  /-- Past the magic word, with this many header bytes missing. -/
  | inHeader (missing : Nat) (collected : Bytes)
  /-- Past the header, with this many body bytes missing. -/
  | inBody (header : Header) (missing : Nat) (collected : Bytes)
  deriving DecidableEq, Repr

/-- What one byte leads to. -/
inductive Progress where
  /-- The next phase, and the bytes now known to belong to no frame. -/
  | more (phase : Phase) (skipped : Nat)
  /-- A header was dropped. -/
  | rejected
  | complete (frame : Frame)
  deriving DecidableEq, Repr

namespace Phase

/-- The header bytes that follow the magic word. -/
def fieldBytes : Nat := headerLength - magic.length

/-- A complete header: its frame is complete at once when the body is empty. -/
def ofHeader (limit : Nat) (fields : Bytes) : Progress :=
  match Header.readFields fields with
  | .error _ => .rejected
  | .ok (header, _) =>
    match header.bodyLength limit with
    | .error _ => .rejected
    | .ok 0 => .complete ⟨header, []⟩
    | .ok (missing + 1) => .more (.inBody header (missing + 1) []) 0

/-- The effect of one byte. No byte of the magic word but the first equals its first byte, so a
broken match can restart only at the byte that broke it. -/
def accept (limit : Nat) : Phase → UInt8 → Progress
  | .hunting matched, byte =>
    if magic[matched]? = some byte then
      if matched + 1 = magic.length then .more (.inHeader fieldBytes []) 0
      else .more (.hunting (matched + 1)) 0
    else if magic.head? = some byte then .more (.hunting 1) matched
    else .more (.hunting 0) (matched + 1)
  | .inHeader missing collected, byte =>
    if missing ≤ 1 then ofHeader limit (byte :: collected).reverse
    else .more (.inHeader (missing - 1) (byte :: collected)) 0
  | .inBody header missing collected, byte =>
    if missing ≤ 1 then .complete ⟨header, (byte :: collected).reverse⟩
    else .more (.inBody header (missing - 1) (byte :: collected)) 0

end Phase

/-- The limits a receiver works under. -/
structure Receiver.Config where
  /-- Longer frames are dropped. -/
  maxFrameLength : Nat
  /-- Consecutive empty reads tolerated. -/
  maxEmptyReads : Nat
  readSize : Nat
  deriving DecidableEq, Repr

/-- The limits of the radar link. -/
def Receiver.Config.radar : Receiver.Config :=
  { maxFrameLength := 204800, maxEmptyReads := 255, readSize := 2048 }

/-- The limits of the sensor-board link, whose frames are short. -/
def Receiver.Config.sensorBoard : Receiver.Config :=
  { Receiver.Config.radar with maxFrameLength := 124 }

/-- What a receiver has seen so far. -/
structure Tally where
  frames : Nat := 0
  /-- Headers dropped for their length. -/
  rejected : Nat := 0
  /-- Bytes that belonged to no frame. -/
  skipped : Nat := 0
  deriving DecidableEq, Repr

/-- What a receiver keeps between calls. -/
structure Receiver where
  /-- The unused rest of the last chunk. -/
  buffered : Bytes := []
  /-- Consecutive empty reads. -/
  emptyReads : Nat := 0
  tally : Tally := {}
  deriving DecidableEq, Repr

namespace Receiver

/-- What a read means to a receiver. -/
inductive ReadOutcome where
  | bytes (chunk : Bytes)
  /-- Nothing there yet. -/
  | empty
  /-- Interrupted: to be repeated, and counted as nothing. -/
  | again
  | failed (fault : IoFault)
  deriving DecidableEq, Repr

/-- Reads that would block or time out count as empty. -/
def ReadOutcome.of : Except IoFault Bytes → ReadOutcome
  | .ok [] => .empty
  | .ok (b :: rest) => .bytes (b :: rest)
  | .error fault =>
    match fault.kind with
    | .interrupted => .again
    | .wouldBlock => .empty
    | .timedOut => .empty
    | _ => .failed fault

/-- Notes an empty read; one too many is a stall, and the count starts again. -/
def noteEmpty (config : Config) (r : Receiver) : Except LinkFault Unit × Receiver :=
  match Checked.nat32 .add (r.emptyReads + 1) with
  | .error cause => (.error (.overflow cause), r)
  | .ok emptyReads =>
    if config.maxEmptyReads < emptyReads then
      (.error (.stalled emptyReads), { r with emptyReads := 0 })
    else (.ok (), { r with emptyReads })

/-- The empty reads that may still come before a stall. -/
def patience (config : Config) (r : Receiver) : Nat := config.maxEmptyReads + 1 - r.emptyReads

/-- An empty read that is no stall uses up patience and leaves the buffer alone. -/
theorem noteEmpty_patience {config : Config} {r r' : Receiver}
    (h : noteEmpty config r = (.ok (), r')) : r'.patience config < r.patience config := by
  unfold noteEmpty at h
  split at h
  · simp at h
  · next hc =>
    obtain ⟨-, rfl⟩ := Checked.nat32_eq_ok.mp hc
    split at h
    · simp at h
    · next hle =>
      simp only [Prod.mk.injEq, true_and] at h
      subst h
      simp only [patience]
      omega

/-- Runs from a phase to the next frame or link fault. -/
def advance (config : Config) (phase : Phase) (r : Receiver) (source : Source) :
    Except LinkFault Frame × Receiver × Source :=
  match _hbuffered : r.buffered with
  | byte :: rest =>
    match phase.accept config.maxFrameLength byte with
    | .more phase skipped =>
      advance config phase
        { r with buffered := rest, tally := { r.tally with skipped := r.tally.skipped + skipped } }
        source
    | .rejected =>
      advance config (.hunting 0)
        { r with buffered := rest, tally := { r.tally with rejected := r.tally.rejected + 1 } }
        source
    | .complete frame =>
      (.ok frame,
        { r with buffered := rest, tally := { r.tally with frames := r.tally.frames + 1 } }, source)
  | [] =>
    match _hread : source.read config.readSize with
    | (result, source') =>
      match _houtcome : ReadOutcome.of result with
      | .bytes chunk => advance config phase { r with buffered := chunk, emptyReads := 0 } source'
      | .again => advance config phase r source'
      | .failed fault => (.error (.failed fault), r, source')
      | .empty =>
        match _hcount : noteEmpty config r with
        | (.error fault, r') => (.error fault, r', source')
        | (.ok (), r') => advance config phase r' source'
-- A byte shortens the buffer, a read lightens the source, and at the end of the source every empty
-- read uses up patience.
termination_by (source.weight, r.patience config, r.buffered.length)
decreasing_by
  · rw [_hbuffered]; simp only [patience, List.length_cons]
    exact Prod.Lex.right _ (Prod.Lex.right _ (Nat.lt_succ_self _))
  · rw [_hbuffered]; simp only [patience, List.length_cons]
    exact Prod.Lex.right _ (Prod.Lex.right _ (Nat.lt_succ_self _))
  · have hw := source.read_weight config.readSize
    rw [_hread] at hw
    rcases hw with hw | ⟨hw, -⟩
    · exact Prod.Lex.left _ _ hw
    · simp only at hw; subst hw; simp [ReadOutcome.of] at _houtcome
  · have hw := source.read_weight config.readSize
    rw [_hread] at hw
    rcases hw with hw | ⟨hw, -⟩
    · exact Prod.Lex.left _ _ hw
    · simp only at hw; subst hw; simp [ReadOutcome.of] at _houtcome
  · have hw := source.read_weight config.readSize
    rw [_hread] at hw
    rcases hw with hw | ⟨-, hw⟩
    · exact Prod.Lex.left _ _ hw
    · simp only at hw; subst hw
      exact Prod.Lex.right _ (Prod.Lex.left _ _ (noteEmpty_patience _hcount))

/-- The next frame of the source. A partial match, header or body is lost when a fault interrupts
it, but not the bytes still buffered. -/
def next (config : Config) (r : Receiver) (source : Source) :
    Except LinkFault Frame × Receiver × Source :=
  r.advance config (.hunting 0) source

/-- The bytes a receiver may still get to see, and the deliveries that bring them. -/
def remaining (r : Receiver) (source : Source) : Nat := r.buffered.length + source.weight

theorem noteEmpty_buffered {config : Config} {r : Receiver} :
    (noteEmpty config r).2.buffered = r.buffered := by
  unfold noteEmpty
  split
  · rfl
  · split <;> rfl

theorem ReadOutcome.of_eq_bytes {result : Except IoFault Bytes} {chunk : Bytes}
    (h : ReadOutcome.of result = .bytes chunk) : result = .ok chunk := by
  unfold ReadOutcome.of at h
  split at h
  · cases h
  · cases h; rfl
  · split at h <;> cases h

theorem advance_remaining (config : Config) (phase : Phase) (r : Receiver) (source : Source) :
    let out := r.advance config phase source
    out.2.1.remaining out.2.2 ≤ r.remaining source ∧
      ((∃ f, out.1 = .ok f) → out.2.1.remaining out.2.2 < r.remaining source) := by
  fun_induction advance config phase r source with
  | case1 phase r source byte rest hb next skipped ha ih =>
    simp only [remaining, hb, List.length_cons] at ih ⊢
    exact ⟨by omega, fun h => by have := ih.2 h; omega⟩
  | case2 phase r source byte rest hb ha ih =>
    simp only [remaining, hb, List.length_cons] at ih ⊢
    exact ⟨by omega, fun h => by have := ih.2 h; omega⟩
  | case3 phase r source byte rest hb frame ha =>
    simp only [remaining, hb, List.length_cons]
    exact ⟨by omega, fun _ => by omega⟩
  | case4 phase r source hb result source' hr chunk ho ih =>
    have hm := Source.read_moves (ReadOutcome.of_eq_bytes ho ▸ hr)
    simp only [remaining, hb, List.length_nil] at ih ⊢
    exact ⟨by omega, fun h => by have := ih.2 h; omega⟩
  | case5 phase r source hb result source' hr ho ih =>
    have hw := source.read_weight_le config.readSize
    rw [hr] at hw
    simp only [remaining, hb] at ih hw ⊢
    exact ⟨by omega, fun h => by have := ih.2 h; omega⟩
  | case6 phase r source hb result source' hr fault ho =>
    have hw := source.read_weight_le config.readSize
    rw [hr] at hw
    simp only [remaining] at hw ⊢
    exact ⟨by omega, fun ⟨_, h⟩ => by cases h⟩
  | case7 phase r source hb result source' hr ho fault r' hn =>
    have hw := source.read_weight_le config.readSize
    have hbuf := @noteEmpty_buffered config r
    rw [hr] at hw
    rw [hn] at hbuf
    simp only [remaining] at hw hbuf ⊢
    exact ⟨by rw [hbuf]; omega, fun ⟨_, h⟩ => by cases h⟩
  | case8 phase r source hb result source' hr ho r' hn ih =>
    have hw := source.read_weight_le config.readSize
    have hbuf := @noteEmpty_buffered config r
    rw [hr] at hw
    rw [hn] at hbuf
    simp only [remaining] at ih hw hbuf ⊢
    rw [hbuf] at ih
    exact ⟨by omega, fun h => by have := ih.2 h; omega⟩

/-- A frame uses up some of what remains. -/
theorem next_remaining {config : Config} {r r' : Receiver} {source source' : Source} {f : Frame}
    (h : r.next config source = (.ok f, r', source')) :
    r'.remaining source' < r.remaining source := by
  have := (advance_remaining config (.hunting 0) r source).2 ⟨f, by
    rw [show r.advance config (.hunting 0) source = _ from h]⟩
  rwa [show r.advance config (.hunting 0) source = _ from h] at this

end Receiver

end FireControl.Wire
