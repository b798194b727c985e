import AntRuntime.Sandbox.TcpGateway

/-!
# What the gateway hands to the host

The bytes that a connection accepts from the guest are those it writes to the host, and
the number it acknowledges is the one in force when it sends. So it stays faithful to the
guest's stream exactly as long as every segment brings the next bytes of the stream when
it is accepted and no more than the accepted bytes when it is not.
-/

namespace AntRuntime.Sandbox

open List UInt32

section Histories

/-- The bytes accepted from the guest. -/
def accepted : List Output → Bytes
  | [] => []
  | .accepted bytes :: older => accepted older ++ bytes
  | _ :: older => accepted older

/-- The bytes written to the host. -/
def handed : List Output → Bytes
  | [] => []
  | .toHost bytes :: older => handed older ++ bytes
  | _ :: older => handed older

/-- A number acknowledges the byte of the stream at a place. -/
def Covers (stream : Bytes) (isn : UInt32) (place : Nat) (number : UInt32) : Prop :=
  place < stream.length ∧ isAfter number (isn + 1 + ofNat place) = true

/-- No segment acknowledged the first byte that was not accepted. -/
def AcksAccepted (stream : Bytes) (isn : UInt32) : List Output → Prop
  | [] => True
  | .toGuest segment :: older =>
    (segment.hasAck = true → ¬Covers stream isn (accepted older).length segment.ack) ∧
      AcksAccepted stream isn older
  | _ :: older => AcksAccepted stream isn older

/-- The bytes handed to the host and those accepted for it are the first ones of the
stream, and neither the numbers sent nor the one in force acknowledge more. -/
structure Faithful (stream : Bytes) (isn : UInt32) (w : World) : Prop where
  writes : handed w.log <+: stream
  takes : accepted w.log <+: stream
  acks : AcksAccepted stream isn w.log
  inForce : w.live = true → ¬Covers stream isn (accepted w.log).length w.c.guestNext

/-- What is written was accepted, and the rest waits. -/
structure Consistent (w : World) : Prop where
  written : handed w.log <+: accepted w.log
  waiting : w.live = true → w.c.fd = true → handed w.log ++ w.c.pending = accepted w.log
  answered : w.c.state ≠ .connectingGuest

variable {stream : Bytes} {w w' : World}

/-- What holds of a log held of its older part. -/
theorem AcksAccepted.of_append {later older : List Output}
    (acks : AcksAccepted stream isn (later ++ older)) : AcksAccepted stream isn older := by
  induction later with
  | nil => exact acks
  | cons output later ih =>
    apply ih
    cases output with
    | toGuest segment => exact acks.2
    | accepted bytes | toHost bytes => exact acks

/-- A closed connection is as faithful as its past. -/
theorem Faithful.closeTcp (faithful : Faithful stream isn w) : Faithful stream isn (closeTcp w) :=
  { faithful with inForce := nofun }

/-- A closed connection has nothing that waits. -/
theorem Consistent.closeTcp (consistent : Consistent w) : Consistent (closeTcp w) :=
  ⟨consistent.written, nofun, nofun⟩

end Histories

section Quiet

/-- Only segments with the number in force are sent, and what concerns the guest's bytes
stays the same. -/
structure Quiet (w w' : World) : Prop where
  state : w'.c.state = w.c.state
  addressed : w'.c.addressed = w.c.addressed
  fd : w'.c.fd = w.c.fd
  guestNext : w'.c.guestNext = w.c.guestNext
  guestFinSeen : w'.c.guestFinSeen = w.c.guestFinSeen
  pending : w'.c.pending = w.c.pending
  log : ∃ sent, w'.log = sent ++ w.log ∧
    ∀ output ∈ sent, ∃ segment, output = .toGuest segment ∧ segment.ack = w.c.guestNext

variable {stream : Bytes} {w w' : World}

/-- Doing nothing is quiet. -/
theorem Quiet.refl (w : World) : Quiet w w :=
  ⟨rfl, rfl, rfl, rfl, rfl, rfl, [], rfl, fun _ isIn => absurd isIn not_mem_nil⟩

/-- Segments to the guest accept and write nothing. -/
theorem sent_append {sent : List Output} (log : List Output)
    (segments : ∀ output ∈ sent, ∃ segment, output = .toGuest segment ∧ segment.ack =
      w.c.guestNext) :
    accepted (sent ++ log) = accepted log ∧ handed (sent ++ log) = handed log := by
  induction sent with
  | nil => exact ⟨rfl, rfl⟩
  | cons output sent ih =>
    obtain ⟨segment, rfl, -⟩ := segments output mem_cons_self
    exact ih fun output isIn => segments output (mem_cons_of_mem _ isIn)

section

variable (quiet : Quiet w w')
include quiet

/-- A connection stays live while only segments are sent. -/
theorem Quiet.live : w'.live = w.live := by
  rw [World.live, World.live, quiet.state, quiet.addressed]

/-- Segments to the guest accept nothing. -/
theorem Quiet.accepted_eq : accepted w'.log = accepted w.log := by
  obtain ⟨sent, logEq, numbers⟩ := quiet.log
  rw [logEq, (sent_append w.log numbers).1]

/-- Segments to the guest hand nothing to the host. -/
theorem Quiet.handed_eq : handed w'.log = handed w.log := by
  obtain ⟨sent, logEq, numbers⟩ := quiet.log
  rw [logEq, (sent_append w.log numbers).2]

/-- As long as the number in force is right, so are the segments that carry it. -/
theorem Quiet.acks (inForce : ¬Covers stream isn (accepted w.log).length w.c.guestNext)
    (before : AcksAccepted stream isn w.log) :
    AcksAccepted stream isn w'.log := by
  obtain ⟨sent, logEq, numbers⟩ := quiet.log
  rw [logEq]
  clear logEq
  induction sent with
  | nil => exact before
  | cons output sent ih =>
    have others := fun output isIn => numbers output (mem_cons_of_mem _ isIn)
    obtain ⟨segment, rfl, ack⟩ := numbers output mem_cons_self
    refine ⟨fun _ => ?_, ih others⟩
    change ¬Covers stream isn (accepted (sent ++ w.log)).length segment.ack
    rwa [ack, (sent_append w.log others).1]

/-- Segments with the number in force leave a live connection faithful. -/
theorem Quiet.faithful (isLive : w.live = true) (faithful : Faithful stream isn w) :
    Faithful stream isn w' := by
  refine ⟨?_, ?_, quiet.acks (faithful.inForce isLive) faithful.acks, fun _ => ?_⟩
  · rw [quiet.handed_eq]
    exact faithful.writes
  · rw [quiet.accepted_eq]
    exact faithful.takes
  · rw [quiet.accepted_eq, quiet.guestNext]
    exact faithful.inForce isLive

/-- Segments to the guest leave what waits as it is. -/
theorem Quiet.consistent (consistent : Consistent w) : Consistent w' := by
  refine ⟨?_, fun isLive isOpen => ?_, ?_⟩
  · rw [quiet.handed_eq, quiet.accepted_eq]
    exact consistent.written
  · rw [quiet.handed_eq, quiet.accepted_eq, quiet.pending]
    exact consistent.waiting (quiet.live ▸ isLive) (quiet.fd ▸ isOpen)
  · rw [quiet.state]
    exact consistent.answered

end

section

variable {start : World} (quiet : Quiet start w)
include quiet

/-- A segment carries the number in force. -/
theorem Quiet.sendTcp (seq : UInt32) (fin : Bool) (payload : Bytes) :
    Quiet start (sendTcp seq fin payload w) := by
  unfold Sandbox.sendTcp
  split_ifs
  · exact quiet
  · obtain ⟨sent, logEq, numbers⟩ := quiet.log
    exact { quiet with
      log := ⟨_ :: sent, congrArg _ logEq,
        forall_mem_cons.mpr ⟨⟨_, rfl, quiet.guestNext⟩, numbers⟩⟩ }

theorem Quiet.dropGuestAcked : Quiet start { w with c := dropGuestAcked w.c } := by
  unfold Sandbox.dropGuestAcked
  simp only
  split_ifs <;> exact { quiet with }

/-- The loop that sends from the buffer only sends segments. -/
theorem Quiet.sendLoop (fuel : Nat) : Quiet start (sendLoop fuel w) := by
  induction fuel generalizing w with
  | zero => exact quiet
  | succ fuel ih =>
    rw [Sandbox.sendLoop]
    split_ifs
    · exact quiet
    · exact ih { quiet.sendTcp _ _ _ with }

/-- The host's bytes are sent to the guest without touching the guest's own. -/
theorem Quiet.sendHostBuffer : Quiet start (sendHostBuffer w) := by
  have sent := quiet.dropGuestAcked.sendLoop (Sandbox.dropGuestAcked w.c).hostBuf.length
  unfold Sandbox.sendHostBuffer
  simp only
  split_ifs
  · exact { sent.sendTcp _ _ _ with }
  · exact sent

/-- A change of the window may send what is buffered, and no more. -/
theorem Quiet.updateWindow (segment : Segment) : Quiet start (updateWindow segment w) := by
  have noted : Quiet start { w with c := noteAck segment w.c } := { quiet with }
  unfold Sandbox.updateWindow
  simp only
  split_ifs
  · exact noted.dropGuestAcked.sendHostBuffer
  · exact noted

end

end Quiet

section Writing

/-- Nothing is accepted, and what was faithful and consistent still is. -/
structure Harmless (w w' : World) : Prop where
  consistent : Consistent w'
  accepted_eq : accepted w'.log = accepted w.log
  log : ∃ later, w'.log = later ++ w.log
  faithful : ∀ {stream isn}, Faithful stream isn w → Faithful stream isn w'

variable {start w w' : World}

theorem Consistent.harmless (consistent : Consistent w) : Harmless w w :=
  ⟨consistent, rfl, ⟨[], rfl⟩, id⟩

section

variable (harmless : Harmless start w)
include harmless

/-- A connection may always be closed. -/
theorem Harmless.closeTcp : Harmless start (closeTcp w) :=
  ⟨harmless.consistent.closeTcp, harmless.accepted_eq, harmless.log,
    fun faithful => (harmless.faithful faithful).closeTcp⟩

variable (isLive : w.live = true)
include isLive

/-- Segments to a live connection are harmless. -/
theorem Harmless.quiet (quiet : Quiet w w') : Harmless start w' := by
  obtain ⟨sent, logEq, -⟩ := quiet.log
  obtain ⟨later, laterEq⟩ := harmless.log
  exact ⟨quiet.consistent harmless.consistent, quiet.accepted_eq.trans harmless.accepted_eq,
    ⟨sent ++ later, by rw [logEq, laterEq, append_assoc]⟩,
    fun faithful => quiet.faithful isLive (harmless.faithful faithful)⟩

/-- What is written to the host is the front of what waits. -/
theorem Harmless.writePending (isOpen : w.c.fd = true) (n : Nat) :
    Harmless start (writePending n w) := by
  have split : handed w.log ++ w.c.pending.take n ++ w.c.pending.drop n = accepted w.log := by
    rw [append_assoc, take_append_drop, harmless.consistent.waiting isLive isOpen]
  have later : Consistent (Sandbox.writePending n w) :=
    ⟨⟨_, split⟩, fun _ _ => split, harmless.consistent.answered⟩
  obtain ⟨older, logEq⟩ := harmless.log
  exact ⟨later, harmless.accepted_eq, ⟨_ :: older, congrArg _ logEq⟩, fun faithful =>
    { harmless.faithful faithful with
      writes := later.written.trans (harmless.faithful faithful).takes }⟩

/-- The bytes that waited are written one part after the other. -/
theorem Harmless.flushLoop (isOpen : w.c.fd = true) (results : List WriteResult) :
    Harmless start (flushLoop results w) := by
  induction results generalizing w with
  | nil => exact harmless
  | cons result results ih =>
    unfold Sandbox.flushLoop
    split_ifs
    · exact harmless
    · cases result with
      | wrote n =>
        simp only
        split_ifs
        · exact harmless.closeTcp
        · exact ih (harmless.writePending isLive isOpen _) isLive isOpen
      | interrupted => exact ih harmless isLive isOpen
      | again => exact harmless
      | failed => exact harmless.closeTcp

/-- Writing what waits is harmless, whatever the socket answers. -/
theorem Harmless.flushPending (results : List WriteResult) :
    Harmless start (flushPending results w) := by
  unfold Sandbox.flushPending
  split_ifs with closed
  · exact harmless
  · exact harmless.flushLoop isLive (Bool.not_eq_false _ ▸ closed) results

/-- The end of the host's stream concerns the other direction only. -/
theorem Harmless.receiveEof : Harmless start (receiveEof w) := by
  have addressed := (Bool.and_eq_true _ _ ▸ isLive).2
  have closed : Harmless start { w with c := closeFd { w.c with hostEof := true } } :=
    { harmless with
      consistent := ⟨harmless.consistent.written, fun _ => nofun, nofun⟩
      faithful := fun faithful =>
        { harmless.faithful faithful with
          inForce := fun _ => (harmless.faithful faithful).inForce isLive } }
  exact closed.quiet addressed (Quiet.refl _).sendHostBuffer

/-- What the host sends reaches the guest with the number in force. -/
theorem Harmless.tcpFromHost (results : List ReadResult) :
    Harmless start (tcpFromHost results w) := by
  induction results generalizing w with
  | nil => exact harmless
  | cons result results ih =>
    rw [Sandbox.tcpFromHost]
    cases hostRoom w.c with
    | none => exact harmless
    | some cap =>
      have widened : Quiet w { w with c := { w.c with hostCap := cap } } := { Quiet.refl w with }
      have before := harmless.quiet isLive widened
      have widerLive := widened.live.trans isLive
      simp only
      generalize ({ w with c := { w.c with hostCap := cap } } : World) = wider
        at before widerLive ⊢
      cases result with
      | data bytes =>
        simp only
        split_ifs
        · exact before.receiveEof widerLive
        · have quiet (bytes : Bytes) : Quiet wider (receiveData bytes wider) :=
            Quiet.sendHostBuffer { Quiet.refl wider with }
          exact ih (before.quiet widerLive (quiet _)) ((quiet _).live.trans widerLive)
      | interrupted => exact ih before widerLive
      | again => exact before
      | failed => exact before.closeTcp

end

/-- Whether the socket stays open while so many bytes are written. -/
def survives : List WriteResult → Nat → Bool
  | [], _ => true
  | result :: results, waiting =>
    if waiting = 0 then true
    else
      match result with
      | .wrote n => if min n waiting = 0 then false else survives results (waiting - min n waiting)
      | .interrupted => survives results waiting
      | .again => true
      | .failed => false

/-- A loop that writes keeps the connection exactly if the socket survives its answers, and
clears it otherwise. -/
theorem live_flushLoop (results : List WriteResult) (isLive : w.live = true)
    (connected : w.c.state ≠ .connectingHost) :
    (flushLoop results w).live = survives results w.c.pending.length ∧
      (survives results w.c.pending.length = true →
        (flushLoop results w).c.guestNext = w.c.guestNext) ∧
      (survives results w.c.pending.length = false →
        (flushLoop results w).c = .cleared) := by
  induction results generalizing w with
  | nil => exact ⟨isLive, fun _ => rfl, nofun⟩
  | cons result results ih =>
    by_cases nothing : w.c.pending = []
    · cases result <;> simp [flushLoop, survives, nothing, isLive]
    · have some : w.c.pending.length ≠ 0 := fun empty => nothing (length_eq_zero_iff.mp empty)
      have going : ¬(w.c.pending = [] ∨ w.c.state = .connectingHost) := by
        rintro (empty | connecting)
        · exact nothing empty
        · exact connected connecting
      rw [flushLoop.eq_def, survives.eq_def]
      simp only [if_neg going, if_neg some]
      cases result with
      | wrote n =>
        simp only
        split_ifs
        · exact ⟨rfl, nofun, fun _ => rfl⟩
        · have later := @ih (writePending (min n w.c.pending.length) w) isLive connected
          have lengthEq : (writePending (min n w.c.pending.length) w).c.pending.length =
              w.c.pending.length - min n w.c.pending.length := length_drop
          rw [lengthEq] at later
          exact later
      | interrupted => exact ih isLive connected
      | again => exact ⟨isLive, fun _ => rfl, nofun⟩
      | failed => exact ⟨rfl, nofun, fun _ => rfl⟩

/-- Whether a connection stays open while it writes. -/
def StaysOpen (results : List WriteResult) (waiting : Nat) (c : Tcp) : Prop :=
  c.fd = false ∨ c.state = .connectingHost ∨ survives results waiting = true

/-- A connection that stays open while it writes keeps its number, and any other one is
cleared. -/
theorem live_flushPending (results : List WriteResult) (isLive : w.live = true) :
    (StaysOpen results w.c.pending.length w.c →
      (flushPending results w).live = true ∧
        (flushPending results w).c.guestNext = w.c.guestNext) ∧
      (¬StaysOpen results w.c.pending.length w.c →
        (flushPending results w).c = .cleared) := by
  unfold StaysOpen flushPending
  by_cases closed : w.c.fd = false
  · rw [if_pos closed]
    exact ⟨fun _ => ⟨isLive, rfl⟩, fun leaves => absurd (Or.inl closed) leaves⟩
  · rw [if_neg closed]
    by_cases connecting : w.c.state = .connectingHost
    · have unchanged : flushLoop results w = w := by
        cases results with
        | nil => rfl
        | cons result results => cases result <;> simp [flushLoop, connecting]
      rw [unchanged]
      exact ⟨fun _ => ⟨isLive, rfl⟩, fun leaves => absurd (Or.inr (Or.inl connecting)) leaves⟩
    · obtain ⟨liveEq, guestNextEq, cleared⟩ := live_flushLoop results isLive connecting
      rw [or_iff_right closed, or_iff_right connecting, liveEq, Bool.not_eq_true]
      exact ⟨fun survives => ⟨survives, guestNextEq survives⟩, cleared⟩

end Writing

section Segments

/-- What the end of the stream may acknowledge: the number in force becomes that of the
end if it is larger. -/
def FinInOrder (stream : Bytes) (isn : UInt32) (segment : Segment) (place : Nat) (next : UInt32) :
    Prop :=
  segment.fin = true → next < segment.seq + ofNat segment.payload.length + 1 →
    ¬Covers stream isn place (segment.seq + ofNat segment.payload.length + 1)

/-- What a segment has to be like when it comes. If its payload is accepted it has the
next bytes of the stream; its end acknowledges no more than is then accepted. -/
def SegmentInOrder (stream : Bytes) (isn : UInt32) (segment : Segment) (results : List WriteResult)
    (w : World) : Prop :=
  segment.rst = false →
    let place := (accepted w.log).length
    let next := segment.seq + ofNat segment.payload.length
    if segment.payload = [] then FinInOrder stream isn segment place w.c.guestNext
    else if w.c.fd && !w.c.guestFinSeen then
      if streamBufferLimit - w.c.pending.length < segment.payload.length then
        ¬Covers stream isn place next
      else
        accepted w.log ++ segment.payload <+: stream ∧
          ¬Covers stream isn (place + segment.payload.length) next ∧
          (StaysOpen results (w.c.pending.length + segment.payload.length) w.c →
            FinInOrder stream isn segment (place + segment.payload.length) next)
    else
      ¬Covers stream isn place next ∧
        (StaysOpen results w.c.pending.length w.c → FinInOrder stream isn segment place next)

variable {stream : Bytes} {isn : UInt32} {w : World} {segment : Segment}
  {results : List WriteResult}

/-- A segment without payload is one more line of the log. -/
theorem sendTcp_eq (addressed : w.c.addressed = true) :
    sendTcp seq fin [] w =
      { w with log := .toGuest ⟨seq, w.c.guestNext, fin, false, false, true, 65535, []⟩ ::
        w.log } := by
  rw [sendTcp, if_neg]
  rintro (unaddressed | long)
  · rw [addressed] at unaddressed
    cases unaddressed
  · cases long

/-- A live connection has its addresses. -/
theorem World.live.addressed (isLive : w.live = true) : w.c.addressed = true :=
  (Bool.and_eq_true _ _ ▸ isLive).2

/-- After an acknowledgement the connection is faithful exactly if the number in force
covers no more than the accepted bytes, whether or not it is closed then. -/
theorem faithful_sendTcp_iff {seq : UInt32} {fin : Bool} (isLive : w.live = true) (w' : World)
    (isNext : w' = sendTcp seq fin [] w ∨ w' = closeTcp (sendTcp seq fin [] w)) :
    Faithful stream isn w' ↔ Faithful stream isn w := by
  have quiet := (Quiet.refl w).sendTcp seq fin []
  constructor
  · intro faithful
    have sameLog : w'.log = (sendTcp seq fin [] w).log := by
      rcases isNext with rfl | rfl <;> rfl
    obtain ⟨writes, takes, acks, -⟩ := faithful
    rw [sameLog] at writes takes acks
    rw [quiet.handed_eq] at writes
    rw [quiet.accepted_eq] at takes
    rw [sendTcp_eq (World.live.addressed isLive)] at acks
    exact ⟨writes, takes, acks.2, fun _ => acks.1 rfl⟩
  · intro faithful
    rcases isNext with rfl | rfl
    · exact quiet.faithful isLive faithful
    · exact (quiet.faithful isLive faithful).closeTcp

/-- The end of the guest's stream is taken faithfully exactly if it is in order. -/
theorem faithful_handleFin_iff (isLive : w.live = true) (faithful : Faithful stream isn w) :
    Faithful stream isn (handleFin segment w) ↔
      FinInOrder stream isn segment (accepted w.log).length w.c.guestNext := by
  unfold handleFin FinInOrder
  by_cases isFin : segment.fin = true
  · have noted : World.live { w with c := noteFin segment w.c } = true := by
      change (true && w.c.addressed) = true
      rw [World.live.addressed isLive, Bool.and_self]
    simp only [isFin, if_true, true_implies]
    rw [@faithful_sendTcp_iff stream isn _ w.c.natNext false noted]
    · constructor
      · intro finished larger
        have inForce := finished.inForce noted
        rw [noteFin, if_pos larger] at inForce
        exact inForce
      · intro inOrder
        refine { faithful with inForce := fun _ => ?_ }
        by_cases larger : w.c.guestNext < segment.seq + ofNat segment.payload.length + 1
        · rw [noteFin, if_pos larger]
          exact inOrder larger
        · rw [noteFin, if_neg larger]
          exact faithful.inForce isLive
    · split_ifs
      · exact Or.inr rfl
      · exact Or.inl rfl
  · refine iff_of_true ?_ fun fin => absurd fin isFin
    split_ifs
    · exact faithful.closeTcp
    · exact faithful

/-- A connection that was closed while it wrote stays without addresses. -/
theorem faithful_handleFin_closed
    (unaddressed : w.c.addressed = false) (faithful : Faithful stream isn w) :
    Faithful stream isn (handleFin segment w) := by
  have silent (seq : UInt32) :
      sendTcp seq false [] { w with c := noteFin segment w.c } =
        { w with c := noteFin segment w.c } := if_pos (Or.inl unaddressed)
  have noted : Faithful stream isn { w with c := noteFin segment w.c } := by
    refine { faithful with inForce := fun isLive => ?_ }
    rw [World.live, Bool.and_eq_true] at isLive
    exact absurd isLive.2 (Bool.eq_false_iff.mp unaddressed)
  unfold handleFin
  simp only [silent]
  split_ifs
  · exact noted.closeTcp
  · exact noted
  · exact faithful.closeTcp
  · exact faithful

/-- The end of the guest's stream accepts no byte. -/
theorem handleFin_log (segment : Segment) (w : World) :
    accepted (handleFin segment w).log = accepted w.log ∧
      ∃ later, (handleFin segment w).log = later ++ w.log := by
  have quiet := (Quiet.refl { w with c := noteFin segment w.c }).sendTcp w.c.natNext false []
  obtain ⟨later, logEq, -⟩ := quiet.log
  unfold handleFin
  simp only
  split_ifs
  · exact ⟨quiet.accepted_eq, later, logEq⟩
  · exact ⟨quiet.accepted_eq, later, logEq⟩
  · exact ⟨rfl, [], rfl⟩
  · exact ⟨rfl, [], rfl⟩

/-- The rest of a segment, once its payload was accepted or dropped. -/
theorem faithful_finish_iff
    (isLive : w.live = true) (consistent : Consistent w) (writes : handed w.log <+: stream) :
    Faithful stream isn
        (handleFin segment (flushPending results (sendTcp w.c.natNext false [] w))) ↔
      Faithful stream isn w ∧
        (StaysOpen results w.c.pending.length w.c →
          FinInOrder stream isn segment (accepted w.log).length w.c.guestNext) := by
  have quiet := (Quiet.refl w).sendTcp w.c.natNext false []
  have sentFaithful := @faithful_sendTcp_iff stream isn w w.c.natNext false isLive _ (Or.inl rfl)
  have staysEq : StaysOpen results w.c.pending.length w.c ↔
      StaysOpen results (sendTcp w.c.natNext false [] w).c.pending.length
        (sendTcp w.c.natNext false [] w).c := by
    rw [StaysOpen, StaysOpen, quiet.fd, quiet.state, quiet.pending]
  have sentLive := quiet.live.trans isLive
  have flushed := (quiet.consistent consistent).harmless.flushPending sentLive results
  obtain ⟨staysLive, leaves⟩ := live_flushPending results sentLive
  have sameAccepted := flushed.accepted_eq.trans quiet.accepted_eq
  obtain ⟨finAccepted, finLater, finLog⟩ := handleFin_log segment
    (flushPending results (sendTcp w.c.natNext false [] w))
  obtain ⟨flushLater, flushLog⟩ := flushed.log
  have before (faithful : Faithful stream isn
      (handleFin segment (flushPending results (sendTcp w.c.natNext false [] w)))) :
      Faithful stream isn w := by
    obtain ⟨-, takes, acks, -⟩ := faithful
    rw [finLog, flushLog, sendTcp_eq (World.live.addressed isLive)] at acks
    rw [finAccepted, sameAccepted] at takes
    exact ⟨writes, takes, acks.of_append.of_append.2, fun _ => acks.of_append.of_append.1 rfl⟩
  rw [staysEq]
  constructor
  · intro faithful
    refine ⟨before faithful, fun stays => ?_⟩
    have inOrder := (faithful_handleFin_iff (staysLive stays).1
      (flushed.faithful (sentFaithful.mpr (before faithful)))).mp faithful
    rw [sameAccepted, (staysLive stays).2, quiet.guestNext] at inOrder
    exact inOrder
  · rintro ⟨faithful, inOrder⟩
    have flushedFaithful := flushed.faithful (sentFaithful.mpr faithful)
    by_cases stays : StaysOpen results (sendTcp w.c.natNext false [] w).c.pending.length
        (sendTcp w.c.natNext false [] w).c
    · rw [faithful_handleFin_iff (staysLive stays).1 flushedFaithful, sameAccepted,
        (staysLive stays).2, quiet.guestNext]
      exact inOrder stays
    · apply faithful_handleFin_closed _ flushedFaithful
      rw [leaves stays]
      rfl

/-- The buffer takes what fits below its limit. -/
theorem appendPending_fits {data : Bytes} {c : Tcp} (nonempty : data ≠ [])
    (fits : ¬streamBufferLimit - c.pending.length < data.length) :
    ∃ cap, appendPending data c = some
      { c with pending := c.pending ++ data, pendingOff := offsetFor data c, pendingCap :=
        cap } := by
  have positive := length_pos_iff.mpr nonempty
  have grows : ∃ cap, growBuffer c.pendingCap
      (offsetFor data c + c.pending.length + data.length) = some cap := by
    unfold growBuffer offsetFor
    split_ifs
    all_goals first
      | exact ⟨_, rfl⟩
      | omega
  obtain ⟨cap, capEq⟩ := grows
  exact ⟨cap, by rw [appendPending, if_neg nonempty, if_neg fits, capEq, Option.map_some]⟩

/-- Whether a segment is in order does not depend on what is sent to the guest meanwhile. -/
theorem Quiet.segmentInOrder_iff
    {w' : World} (quiet : Quiet w w') (segment : Segment) (results : List WriteResult) :
    SegmentInOrder stream isn segment results w' ↔ SegmentInOrder stream isn segment results w := by
  simp only [SegmentInOrder, StaysOpen, quiet.accepted_eq, quiet.guestNext, quiet.fd,
    quiet.guestFinSeen, quiet.pending, quiet.state]

/-- What is accepted waits behind the rest. -/
theorem Consistent.take
    {c : Tcp} {payload : Bytes} (isLive : w.live = true) (consistent : Consistent w)
    (isOpen : w.c.fd = true) (pending : c.pending = w.c.pending ++ payload)
    (state : c.state = w.c.state) :
    Consistent ⟨c, .accepted payload :: w.log⟩ := by
  refine ⟨consistent.written.trans (prefix_append _ _), fun _ _ => ?_, ?_⟩
  · change handed w.log ++ c.pending = accepted w.log ++ payload
    rw [pending, ← append_assoc, consistent.waiting isLive isOpen]
  · rw [state]
    exact consistent.answered

/-- What is accepted has to be the next part of the stream. -/
theorem faithful_take_iff {c : Tcp} {payload : Bytes} (faithful : Faithful stream isn w)
    (isLive : World.live ⟨c, .accepted payload :: w.log⟩ = true) :
    Faithful stream isn ⟨c, .accepted payload :: w.log⟩ ↔
      accepted w.log ++ payload <+: stream ∧
        ¬Covers stream isn (accepted w.log ++ payload).length c.guestNext := by
  constructor
  · intro later
    exact ⟨later.takes, later.inForce isLive⟩
  · rintro ⟨takes, inForce⟩
    exact ⟨faithful.writes, takes, faithful.acks, fun _ => inForce⟩

/-- A payload that fits is accepted. -/
theorem faithful_accept_iff
    {next : UInt32} {c : Tcp} (isLive : w.live = true) (consistent : Consistent w)
    (faithful : Faithful stream isn w) (wanted : (w.c.fd && !w.c.guestFinSeen) = true)
    (fits : appendPending segment.payload (w.expecting next).c = some c)
    (state : c.state = w.c.state) (addressed : c.addressed = w.c.addressed) (fd : c.fd = w.c.fd)
    (guestNext : c.guestNext = next) (pending : c.pending = w.c.pending ++ segment.payload) :
    Faithful stream isn (handlePayload segment results (w.expecting next)) ↔
      accepted w.log ++ segment.payload <+: stream ∧
        ¬Covers stream isn ((accepted w.log).length + segment.payload.length) next ∧
        (StaysOpen results (w.c.pending.length + segment.payload.length) w.c →
          FinInOrder stream isn segment ((accepted w.log).length + segment.payload.length)
            next) := by
  have isOpen := (Bool.and_eq_true _ _ ▸ wanted).1
  have taken : takePayload segment.payload (w.expecting next) =
      some ⟨c, .accepted segment.payload :: w.log⟩ := by
    rw [takePayload, fits]
    exact if_pos wanted
  have tookLive : World.live ⟨c, .accepted segment.payload :: w.log⟩ = true := by
    rw [World.live, state, addressed]
    exact isLive
  have stays : StaysOpen results c.pending.length c ↔
      StaysOpen results (w.c.pending ++ segment.payload).length w.c := by
    rw [StaysOpen, StaysOpen, state, fd, pending]
  have finished := @faithful_finish_iff stream isn _ segment results tookLive
    (consistent.take isLive isOpen pending state) faithful.writes
  rw [faithful_take_iff faithful tookLive, stays, guestNext, and_assoc] at finished
  rw [handlePayload, taken, ← length_append, ← length_append]
  exact finished

/-- A segment keeps a connection faithful exactly if it is in order. -/
theorem faithful_handleTcp_iff
    (isLive : w.live = true) (consistent : Consistent w) (faithful : Faithful stream isn w) :
    Faithful stream isn (handleTcp segment results w) ↔
      SegmentInOrder stream isn segment results w := by
  unfold handleTcp
  by_cases reset : segment.rst = true
  · rw [if_pos reset]
    refine iff_of_true faithful.closeTcp fun kept => ?_
    rw [reset] at kept
    cases kept
  have quiet := (Quiet.refl w).updateWindow segment
  rw [← quiet.segmentInOrder_iff]
  replace isLive := quiet.live.trans isLive
  replace faithful := quiet.faithful (quiet.live.symm.trans isLive) faithful
  replace consistent := quiet.consistent consistent
  generalize updateWindow segment w = w at isLive faithful consistent ⊢
  simp only [consistent.answered, SegmentInOrder, Bool.not_eq_true _ ▸ reset, true_implies]
  by_cases empty : segment.payload = []
  · rw [if_pos empty, if_pos empty]
    exact faithful_handleFin_iff isLive faithful
  rw [if_neg empty, if_neg empty]
  -- The number in force covers the payload before it is accepted.
  generalize segment.seq + ofNat segment.payload.length = next
  have numbered : Faithful stream isn (w.expecting next) ↔
      ¬Covers stream isn (accepted w.log).length next :=
    ⟨fun later => later.inForce isLive, fun inForce =>
      { faithful with inForce := fun _ => inForce }⟩
  have expectingConsistent : Consistent (w.expecting next) := { consistent with }
  by_cases wanted : (w.c.fd && !w.c.guestFinSeen) = true
  · rw [if_pos wanted]
    by_cases full : streamBufferLimit - w.c.pending.length < segment.payload.length
    · have refused : takePayload segment.payload (w.expecting next) = none := by
        have noRoom : appendPending segment.payload (w.expecting next).c = none := by
          rw [appendPending, if_neg empty]
          exact if_pos full
        rw [takePayload, noRoom]
        exact if_pos wanted
      rw [handlePayload, refused, if_pos full]
      exact numbered
    · obtain ⟨cap, fits⟩ := @appendPending_fits _ (w.expecting next).c empty full
      rw [if_neg full]
      exact faithful_accept_iff isLive consistent faithful wanted fits rfl rfl rfl rfl rfl
  · have dropped : takePayload segment.payload (w.expecting next) = some (w.expecting next) :=
      if_neg wanted
    rw [if_neg wanted, handlePayload, dropped]
    refine (@faithful_finish_iff stream isn (w.expecting next) segment results isLive
      expectingConsistent faithful.writes).trans ?_
    exact and_congr_left fun _ => numbered

/-- The end of the guest's stream leaves the connection consistent. -/
theorem consistent_handleFin
    (liveOrCleared : w.live = true ∨ w.c = .cleared) (consistent : Consistent w) :
    Consistent (handleFin segment w) := by
  have noted : Consistent { w with c := noteFin segment w.c } := by
    refine ⟨consistent.written, fun isLive isOpen => ?_, nofun⟩
    rcases liveOrCleared with wasLive | cleared
    · exact consistent.waiting wasLive isOpen
    · have addressed := World.live.addressed isLive
      rw [cleared] at addressed
      cases addressed
  have sent := ((Quiet.refl _).sendTcp w.c.natNext false []).consistent noted
  unfold handleFin
  simp only
  split_ifs
  · exact sent.closeTcp
  · exact sent
  · exact consistent.closeTcp
  · exact consistent

/-- After writing, a connection is live or cleared. -/
theorem liveOrCleared_flushPending (results : List WriteResult) (isLive : w.live = true) :
    (flushPending results w).live = true ∨ (flushPending results w).c = .cleared := by
  obtain ⟨stays, leaves⟩ := live_flushPending results isLive
  by_cases open' : StaysOpen results w.c.pending.length w.c
  · exact Or.inl (stays open').1
  · exact Or.inr (leaves open')

/-- A payload is appended to what waits when it is accepted. -/
theorem consistent_handlePayload
    (isLive : w.live = true) (consistent : Consistent w) (nonempty : segment.payload ≠ []) :
    Consistent (handlePayload segment results w) := by
  have finish (took : World) (tookLive : took.live = true) (tookConsistent : Consistent took) :
      Consistent (handleFin segment
        (flushPending results (sendTcp took.c.natNext false [] took))) := by
    have quiet := (Quiet.refl took).sendTcp took.c.natNext false []
    have sentLive := quiet.live.trans tookLive
    exact consistent_handleFin (liveOrCleared_flushPending results sentLive)
      ((quiet.consistent tookConsistent).harmless.flushPending sentLive results).consistent
  unfold handlePayload takePayload
  by_cases wanted : (w.c.fd && !w.c.guestFinSeen) = true
  · rw [if_pos wanted]
    by_cases full : streamBufferLimit - w.c.pending.length < segment.payload.length
    · rw [appendPending, if_neg nonempty, if_pos full]
      exact consistent
    · obtain ⟨cap, fits⟩ := appendPending_fits nonempty full
      have isOpen := (Bool.and_eq_true _ _ ▸ wanted).1
      rw [fits]
      exact finish _ isLive (consistent.take isLive isOpen rfl rfl)
  · rw [if_neg wanted]
    exact finish w isLive consistent

/-- A segment from the guest leaves the connection consistent. -/
theorem consistent_handleTcp (isLive : w.live = true) (consistent : Consistent w) :
    Consistent (handleTcp segment results w) := by
  have quiet := (Quiet.refl w).updateWindow segment
  have updated := quiet.consistent consistent
  have updatedLive := quiet.live.trans isLive
  unfold handleTcp
  simp only [updated.answered, false_and, if_false]
  split_ifs with _ empty
  · exact consistent.closeTcp
  · exact consistent_handleFin (Or.inl updatedLive) updated
  · refine consistent_handlePayload ?_ { updated with } empty
    exact updatedLive

end Segments

section Runs

variable {segment : Segment}

/-- What a segment has to be like that comes when there is no connection any more: the reset that
answers it acknowledges its end. -/
def RefusedInOrder (stream : Bytes) (isn : UInt32) (segment : Segment) (w : World) : Prop :=
  (segment.rst || segment.syn && !segment.hasAck) = false →
    ¬Covers stream isn (accepted w.log).length (segment.seq + ofNat segment.payload.length)

/-- What an event has to be like when it comes. -/
def EventInOrder (stream : Bytes) (isn : UInt32) : Event → World → Prop
  | .segment segment results, w =>
    if w.live = false then RefusedInOrder stream isn segment w
    else SegmentInOrder stream isn segment results w
  | _, _ => True

variable {stream : Bytes} {w : World}

/-- The host's answer to a connection attempt is harmless, and the connection is live or
cleared after it. -/
theorem Consistent.checkConnect
    (failed : Bool) (results : List WriteResult) (isLive : w.live = true)
    (consistent : Consistent w) :
    Harmless w (checkConnect failed results w) ∧
      ((checkConnect failed results w).live = true ∨ (checkConnect failed results w).c =
        .cleared) := by
  unfold Sandbox.checkConnect
  split_ifs with connected
  · exact ⟨consistent.harmless, Or.inl isLive⟩
  · exact ⟨consistent.harmless.closeTcp, Or.inr rfl⟩
  · have established : World.live { w with c := { w.c with state := .established } } = true := by
      change (true && w.c.addressed) = true
      rw [World.live.addressed isLive, Bool.and_self]
    have before : Harmless w { w with c := { w.c with state := .established } } :=
      ⟨⟨consistent.written, fun _ => consistent.waiting isLive, nofun⟩, rfl,
        ⟨[], rfl⟩, fun faithful =>
          { faithful with inForce := fun _ => faithful.inForce isLive }⟩
    exact ⟨before.flushPending established results, liveOrCleared_flushPending results established⟩

/-- Only segments bring bytes of the guest. -/
theorem harmless_step (event : Event) (other : ∀ segment results, event ≠ .segment segment results)
    (consistent : Consistent w) :
    Harmless w (step event w) := by
  by_cases notLive : w.live = false
  · rw [step.eq_def, if_pos notLive]
    cases event with
    | segment segment results => exact absurd rfl (other segment results)
    | _ => exact consistent.harmless
  · rw [step.eq_def, if_neg notLive]
    have isLive := Bool.not_eq_false _ ▸ notLive
    cases event with
    | segment segment results => exact absurd rfl (other segment results)
    | writable failed connectResults results =>
      obtain ⟨connected, liveOrCleared⟩ := consistent.checkConnect failed connectResults isLive
      simp only
      split_ifs with closed unused
      · exact consistent.harmless
      · exact connected
      · refine connected.flushPending ?_ results
        rcases liveOrCleared with stillLive | cleared
        · exact stillLive
        · rw [cleared] at unused
          exact absurd rfl unused
    | readable results =>
      simp only
      split_ifs
      · exact consistent.harmless
      · exact consistent.harmless.tcpFromHost isLive results
    | broken =>
      simp only
      split_ifs
      · exact consistent.harmless
      · exact consistent.harmless.closeTcp

/-- Every event leaves the connection consistent. -/
theorem consistent_step (event : Event) (consistent : Consistent w) :
    Consistent (step event w) := by
  cases event with
  | segment segment results =>
    change Consistent (if w.live = false then refuse segment w else handleTcp segment results w)
    split_ifs with notLive
    · unfold refuse
      split_ifs
      · exact consistent
      · exact { consistent with }
    · exact consistent_handleTcp (Bool.not_eq_false _ ▸ notLive) consistent
  | _ => exact (harmless_step _ (by simp) consistent).consistent

/-- A reset that is sent keeps a connection faithful exactly if it covers accepted bytes only. -/
theorem faithful_refuse_iff (notLive : w.live = false) (faithful : Faithful stream isn w) :
    Faithful stream isn (refuse segment w) ↔ RefusedInOrder stream isn segment w := by
  unfold refuse RefusedInOrder
  split_ifs with silent
  · exact iff_of_true faithful fun answered => absurd answered (by rw [silent]; decide)
  · rw [Bool.not_eq_true] at silent
    constructor
    · exact fun later _ => later.acks.1 rfl
    · intro inOrder
      exact { faithful with
        acks := ⟨fun _ => inOrder silent, faithful.acks⟩
        inForce := fun isLive => absurd (notLive.symm.trans isLive) (by decide) }

/-- An event keeps a connection faithful exactly if it is in order. -/
theorem faithful_step_iff
    (event : Event) (consistent : Consistent w) (faithful : Faithful stream isn w) :
    Faithful stream isn (step event w) ↔ EventInOrder stream isn event w := by
  cases event with
  | segment segment results =>
    change Faithful stream isn
      (if w.live = false then refuse segment w else handleTcp segment results w) ↔
        (if w.live = false then RefusedInOrder stream isn segment w
          else SegmentInOrder stream isn segment results w)
    split_ifs with notLive
    · exact faithful_refuse_iff notLive faithful
    · exact faithful_handleTcp_iff (Bool.not_eq_false _ ▸ notLive) consistent faithful
  | _ => exact iff_of_true ((harmless_step _ (by simp) consistent).faithful faithful) trivial

/-- With nothing buffered and no end of the stream nothing is sent. -/
theorem log_sendHostBuffer (empty : w.c.hostBuf = []) (going : w.c.hostEof = false) :
    (sendHostBuffer w).log = w.log := by
  have dropped : (dropGuestAcked w.c).hostBuf = [] ∧ (dropGuestAcked w.c).hostEof = false := by
    rw [dropGuestAcked, if_pos empty]
    exact ⟨empty, going⟩
  have unsent : sendLoop (dropGuestAcked w.c).hostBuf.length { w with c := dropGuestAcked w.c } =
      { w with c := dropGuestAcked w.c } := by
    rw [dropped.1]
    rfl
  unfold sendHostBuffer
  simp only [unsent, dropped.2, Bool.false_and, Bool.false_eq_true, if_false]

/-- The number after the first segment covers nothing. -/
theorem not_covers_start (stream : Bytes) (isn : UInt32) : ¬Covers stream isn 0 (isn + 1) := by
  rintro ⟨-, after⟩
  have same : isn + 1 - (isn + 1 + ofNat 0) = 0 := by
    have zero : ofNat 0 = 0 := rfl
    rw [zero, UInt32.add_zero, UInt32.sub_self]
  rw [isAfter, same] at after
  cases after

/-- A connection that has sent only its first number is faithful. -/
theorem faithful_of_first
    {w : World} {older : List Output} (logEq : w.log = .toGuest segment :: older)
    (ackEq : segment.ack = isn + 1) (olderAccepted : accepted older = [])
    (olderHanded : handed older = []) (olderAcks : AcksAccepted stream isn older)
    (guestNext : w.c.guestNext = isn + 1) (pending : w.c.pending = [])
    (answered : w.c.state ≠ .connectingGuest) :
    Consistent w ∧ Faithful stream isn w := by
  obtain ⟨c, log⟩ := w
  obtain rfl : log = _ := logEq
  have start := not_covers_start stream isn
  refine ⟨⟨?_, fun _ _ => ?_, answered⟩, ⟨?_, ?_, ⟨fun _ => ?_, olderAcks⟩, fun _ => ?_⟩⟩
  all_goals simp only [accepted, handed, olderAccepted, olderHanded]
  · exact nil_prefix
  · exact pending
  · exact nil_prefix
  · exact nil_prefix
  · rwa [ackEq]
  · rwa [guestNext]

/-- Every connection starts consistent and faithful to any stream. -/
theorem faithful_opening (stream : Bytes) (opening : Opening) :
    Consistent opening.world ∧ Faithful stream opening.isn opening.world := by
  cases opening with
  | outbound isn srcPort win inProgress =>
    refine faithful_of_first rfl rfl rfl rfl trivial rfl rfl ?_
    intro same
    cases inProgress <;> cases same
  | inbound isn ack peerPort win =>
    have quiet := (Quiet.refl (acceptForward peerPort)).updateWindow
      ⟨isn, ack, false, true, false, true, win, []⟩
    have logEq : (updateWindow ⟨isn, ack, false, true, false, true, win, []⟩
        (acceptForward peerPort)).log = (acceptForward peerPort).log := by
      unfold updateWindow
      simp only
      split_ifs
      · exact log_sendHostBuffer rfl rfl
      · rfl
    have answers : Opening.world (.inbound isn ack peerPort win) =
        acceptSynAck ⟨isn, ack, false, true, false, true, win, []⟩
          (updateWindow ⟨isn, ack, false, true, false, true, win, []⟩
            (acceptForward peerPort)) := by
      change handleTcp _ _ _ = _
      rw [handleTcp, if_neg Bool.false_ne_true]
      exact if_pos ⟨quiet.state, rfl, rfl⟩
    have addressed := quiet.addressed
    have pending := quiet.pending
    rw [answers]
    generalize updateWindow ⟨isn, ack, false, true, false, true, win, []⟩
      (acceptForward peerPort) = w at logEq addressed pending ⊢
    have dropped := Quiet.dropGuestAcked (Quiet.refl { w with
      c := { w.c with
        guestNext := isn + 1
        state := .established
        guestAck := ack
        guestWindow := win } })
    rw [acceptSynAck, sendTcp_eq (dropped.addressed.trans addressed)]
    refine faithful_of_first rfl dropped.guestNext ?_ ?_ ?_ dropped.guestNext
      (dropped.pending.trans pending) ?_
    · rw [logEq]
      rfl
    · rw [logEq]
      rfl
    · rw [logEq]
      exact ⟨nofun, trivial⟩
    · intro same
      rw [dropped.state] at same
      cases same

/-- When a connection stays faithful to the guest's stream. -/
theorem throughout_faithful_iff (opening : Opening) (stream : Bytes) (events : List Event) :
    Machine.Throughout step (Faithful stream opening.isn) events opening.world ↔
      Machine.EachInOrder step (EventInOrder stream opening.isn) events opening.world :=
  Machine.throughout_iff_eachInOrder (fun event _ => consistent_step event)
    (fun event _ => faithful_step_iff event) events (faithful_opening stream opening).1
    (faithful_opening stream opening).2

/-- A segment carries the piece of the stream at a place. -/
structure Carries (stream : Bytes) (isn : UInt32) (segment : Segment) (place : Nat) : Prop where
  seq : segment.seq = isn + 1 + ofNat place
  inside : place + segment.payload.length ≤ stream.length
  payload : segment.payload = (stream.drop place).take segment.payload.length
  fin : segment.fin = true → place + segment.payload.length = stream.length

/-- A segment that only acknowledges, from a place that is not ahead of the accepted bytes, or one
with the next bytes, which are wanted and fit. -/
def SendsNext (stream : Bytes) (isn : UInt32) : Event → World → Prop
  | .segment segment _, w =>
    segment.payload = [] ∧ segment.fin = false ∧
        isAfter segment.seq (isn + 1 + ofNat (accepted w.log).length) = false ∨
      Carries stream isn segment (accepted w.log).length ∧
        (w.live && w.c.fd && !w.c.guestFinSeen) = true ∧
        segment.payload.length ≤ streamBufferLimit - w.c.pending.length
  | _, _ => True

/-- A guest that sends the next bytes, and no more than there is room for, is in order. -/
theorem eventInOrder_of_sendsNext {event : Event} (faithful : Faithful stream isn w)
    (sendsNext : SendsNext stream isn event w) : EventInOrder stream isn event w := by
  cases event with
  | segment segment results =>
    rw [EventInOrder]
    obtain ⟨empty, notFin, notAhead⟩ | ⟨carries, wanted, fits⟩ := sendsNext
    · split_ifs
      · rintro - ⟨-, after⟩
        have end_ : segment.seq + ofNat segment.payload.length = segment.seq := by
          rw [empty]
          exact UInt32.add_zero _
        rw [end_, notAhead] at after
        cases after
      · simp [SegmentInOrder, empty, FinInOrder, notFin]
    · rw [Bool.and_assoc, Bool.and_eq_true] at wanted
      rw [if_neg (by rw [wanted.1]; decide)]
      intro _
      have finInOrder (next : UInt32) : FinInOrder stream isn segment
          ((accepted w.log).length + segment.payload.length) next := by
        rintro isFin - ⟨inside, -⟩
        rw [carries.fin isFin] at inside
        exact Nat.lt_irrefl _ inside
      split_ifs with empty wanted' full
      · have atEnd := finInOrder w.c.guestNext
        rwa [empty, length_nil] at atEnd
      · omega
      · refine ⟨?_, ?_, fun _ => finInOrder _⟩
        · have taken := prefix_iff_eq_take.mp faithful.takes
          rw [carries.payload, taken, length_take_of_le faithful.takes.length_le, ← take_add]
          exact take_prefix _ _
        · rintro ⟨-, after⟩
          rw [carries.seq, UInt32.ofNat_add, UInt32.add_assoc, isAfter, UInt32.sub_self] at after
          cases after
      · exact absurd wanted.2 wanted'
  | _ => trivial

/-- A guest that sends every byte once and in order keeps its connection faithful. -/
theorem throughout_faithful_of_sendsNext (opening : Opening) (stream : Bytes) (events : List Event)
    (each : Machine.EachInOrder step (SendsNext stream opening.isn) events opening.world) :
    Machine.Throughout step (Faithful stream opening.isn) events opening.world := by
  obtain ⟨consistent, faithful⟩ := faithful_opening stream opening
  generalize opening.world = w at *
  induction events generalizing w with
  | nil => exact Machine.throughout_nil.mpr faithful
  | cons event events ih =>
    obtain ⟨first, others⟩ := Machine.eachInOrder_cons.mp each
    have kept := (faithful_step_iff event consistent faithful).mpr
      (eventInOrder_of_sendsNext faithful first)
    exact Machine.throughout_cons.mpr
      ⟨faithful, ih _ others (consistent_step event consistent) kept⟩

/-- A connection of the guest with the initial sequence number zero. -/
def sampleOpening : Opening :=
  .outbound 0 1000 65535 false

/-- The first byte of a stream. -/
def firstByte : Segment :=
  ⟨1, 0x51003E81, false, false, false, true, 65535, [0x61]⟩

/-- Two bytes are written in two parts, and the write of the last one fails: the acknowledgement
that still comes is answered by a reset. -/
theorem throughout_faithful_partial :
    Machine.Throughout step (Faithful [0x61, 0x62, 0x63] sampleOpening.isn)
      [.segment ⟨1, 0x51003E81, false, false, false, true, 65535, [0x61, 0x62]⟩ [.wrote 1, .again],
        .readable [.data [0x78], .again],
        .segment ⟨3, 0x51003E82, false, false, false, true, 65535, []⟩ [],
        .writable false [] [.wrote 1],
        .segment ⟨3, 0x51003E82, true, false, false, true, 65535, [0x63]⟩ [.failed],
        .segment ⟨3, 0x51003E82, false, false, false, true, 65535, []⟩ []]
      sampleOpening.world := by
  refine throughout_faithful_of_sendsNext _ _ _ ?_
  simp only [Machine.eachInOrder_cons, Machine.eachInOrder_nil, and_true]
  refine ⟨.inr ⟨⟨rfl, by decide, rfl, nofun⟩, rfl, by decide⟩, trivial, .inl ⟨rfl, rfl, ?_⟩,
    trivial,
    .inr ⟨⟨?_, ?_, ?_, ?_⟩, ?_, ?_⟩, .inl ⟨rfl, rfl, ?_⟩⟩
  all_goals decide +kernel

/-- A byte that is sent twice is handed to the host twice. -/
theorem not_faithful_repeated :
    Carries [0x61, 0x62] sampleOpening.isn firstByte 0 ∧
      ¬Machine.Throughout step (Faithful [0x61, 0x62] sampleOpening.isn)
        [.segment firstByte [.wrote 1], .segment firstByte [.wrote 1]] sampleOpening.world := by
  refine ⟨⟨rfl, by decide, rfl, by decide⟩, fun always => ?_⟩
  have writes := (always _ (prefix_refl _)).writes
  revert writes
  decide +kernel

end Runs

end AntRuntime.Sandbox
