import FireControl.Link.Supervisor
import FireControl.Proofs.Wire.Delivery

/-!
# Sessions of a link

What a receiver makes of a source until the link fails does not depend on who takes the frames
(`yields`). A session hands on what its receiver yields: all of it when the link ends the session,
the first frames of it when the session is stopped (`session_ends`).
-/

namespace FireControl.Wire.Receiver

variable {config : Config} {r r' : Receiver} {source source' : Source}

/-- The frames of successive calls up to the first link fault, and this fault. -/
def yields (config : Config) (r : Receiver) (source : Source) : List Frame × LinkFault :=
  match _hnext : r.next config source with
  | (.ok frame, r', source') =>
    let later := yields config r' source'
    (frame :: later.1, later.2)
  | (.error fault, _, _) => ([], fault)
termination_by r.remaining source
decreasing_by exact next_remaining _hnext

theorem yields_frame {frame : Frame} (h : r.next config source = (.ok frame, r', source')) :
    r.yields config source =
      (frame :: (r'.yields config source').1, (r'.yields config source').2) := by
  rw [yields]
  split
  · next hnext =>
    rw [h] at hnext
    cases hnext
    rfl
  · next hnext =>
    rw [h] at hnext
    cases hnext

theorem yields_fault {fault : LinkFault} (h : r.next config source = (.error fault, r', source')) :
    r.yields config source = ([], fault) := by
  rw [yields]
  split
  · next hnext =>
    rw [h] at hnext
    cases hnext
  · next hnext =>
    rw [h] at hnext
    cases hnext
    rfl

end FireControl.Wire.Receiver

namespace FireControl.Link

open FireControl.Wire (Delivery Frame LinkFault Receiver Source)

variable {config : Receiver.Config} {r r' : Receiver} {source source' : Source}

section Steps
variable {handler : Handler} {frames : List Frame} {shutdown : Bool}
  (hgo : (shutdown || source.shutdownRequested) = false)

end Steps

/-- What a session hands on from here on and how it ends. -/
inductive Ends (config : Receiver.Config) (r : Receiver) (source : Source) :
    List Frame → Ending → Prop
  | stopped {handed : List Frame} : handed <+: (r.yields config source).1 →
      Ends config r source handed .stopped
  | stalled {handed : List Frame} {n : Nat} : r.yields config source = (handed, .stalled n) →
      Ends config r source handed (.stalled n)
  | failed {handed : List Frame} {fault : IoFault} :
      r.yields config source = (handed, .failed fault) →
      Ends config r source handed (.failed fault)

theorem Ends.cons {frame : Frame} {handed : List Frame} {ending : Ending}
    (hnext : r.next config source = (.ok frame, r', source'))
    (h : Ends config r' source' handed ending) :
    Ends config r source (frame :: handed) ending := by
  have hyields := Receiver.yields_frame hnext
  cases h with
  | stopped hprefix =>
    refine .stopped ?_
    rw [hyields]
    exact List.cons_prefix_cons.mpr ⟨rfl, hprefix⟩
  | stalled hlater => exact .stalled (by rw [hyields, hlater])
  | failed hlater => exact .failed (by rw [hyields, hlater])

/-- A session has handed on what its receiver yields. It comes to no end only when the count of
empty reads leaves its width. -/
theorem session_ends (handler : Handler) (frames : List Frame) (shutdown : Bool) (r : Receiver)
    (source : Source) :
    match Session.run config handler frames shutdown r source with
    | .ok session => ∃ handed, session.frames = handed.reverse ++ frames ∧
        Ends config r source handed session.ending
    | .error cause => (r.yields config source).2 = .overflow cause := by
  fun_induction Session.run config handler frames shutdown r source with
  | case1 => exact ⟨[], rfl, .stopped List.nil_prefix⟩
  | case2 frames shutdown r source hgo frame r' source' hnext verdict hstop =>
    exact ⟨[frame], rfl, .cons hnext (.stopped List.nil_prefix)⟩
  | case3 frames shutdown r source hgo frame r' source' hnext verdict hcontinue ih =>
    split at ih
    · next session hrun =>
      obtain ⟨handed, hframes, hends⟩ := ih
      refine ⟨frame :: handed, ?_, hends.cons hnext⟩
      rw [hframes, List.reverse_cons, List.append_assoc]
      rfl
    · next cause hrun =>
      rw [Receiver.yields_frame hnext]
      exact ih
  | case4 frames shutdown r source hgo n r' source' hnext =>
    exact ⟨[], rfl, .stalled (Receiver.yields_fault hnext)⟩
  | case5 frames shutdown r source hgo fault r' source' hnext =>
    exact ⟨[], rfl, .failed (Receiver.yields_fault hnext)⟩
  | case6 frames shutdown r source hgo cause r' source' hnext =>
    exact congrArg Prod.snd (Receiver.yields_fault hnext)

end FireControl.Link
