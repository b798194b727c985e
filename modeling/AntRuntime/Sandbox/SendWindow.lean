import AntRuntime.Sandbox.TcpGateway

/-!
# What the guest's window lets through

The gateway sends data only as far as the window that the guest has advertised reaches. But it
takes a window of zero for the default one, and then sends to a guest that has no room.
-/

namespace AntRuntime.Sandbox

open List Machine

/-- The segments with data, the latest first. -/
def dataSent : List Output → List Segment
  | [] => []
  | .toGuest segment :: older =>
    match segment.payload with
    | [] => dataSent older
    | _ :: _ => segment :: dataSent older
  | _ :: older => dataSent older

/-- A segment ends within the window from the number that the guest has acknowledged. -/
def EndsWithin (c : Tcp) (segment : Segment) : Prop :=
  segment.seq + .ofNat segment.payload.length - c.guestAck ≤ c.guestWindow

/-- The connection with the acknowledgement and the window that hold while an event is handled. -/
def inForce : Event → Tcp → Tcp
  | .segment segment _, c => noteAck segment c
  | _, c => c

/-- The data that was sent after some other ends within the window. -/
def SentWithin (c : Tcp) (before : List Segment) (w : World) : Prop :=
  ∃ sent, dataSent w.log = sent ++ before ∧ ∀ segment ∈ sent, EndsWithin c segment

/-- The data that is sent for an event ends within the window. -/
def KeepsWindow (event : Event) (w : World) : Prop :=
  SentWithin (inForce event w.c) (dataSent w.log) (step event w)

/-- The guest has some room. -/
def HasWindow (event : Event) (w : World) : Prop :=
  (inForce event w.c).guestWindow ≠ 0

section Sending

/-- Data is sent within a window that stays as it is. -/
structure Sending (c : Tcp) (before : List Segment) (w : World) : Prop where
  guestAck : w.c.guestAck = c.guestAck
  guestWindow : w.c.guestWindow = c.guestWindow
  within : SentWithin c before w

variable {c : Tcp} {before : List Segment} {w : World}

theorem sentWithin_of_eq (same : dataSent w.log = before) : SentWithin c before w :=
  ⟨[], same, by simp⟩

/-- A chunk ends within a window that is not zero. -/
theorem endsWithin_chunk (hasWindow : c.guestWindow ≠ 0) (sends : chunkOf c ≠ 0)
    (atMost : size ≤ chunkOf c) :
    hostSentSeq c + .ofNat size - c.guestAck ≤ c.guestWindow := by
  simp only [chunkOf, windowOf, if_neg hasWindow] at sends atMost
  have order : hostSentSeq c + .ofNat size - c.guestAck =
      hostSentSeq c - c.guestAck + .ofNat size := by
    grind
  rw [order]
  generalize hostSentSeq c - c.guestAck = inFlight at sends atMost ⊢
  split_ifs at sends atMost with full
  · exact absurd rfl sends
  · have room := Nat.le_trans atMost (Nat.min_le_right _ _)
    rw [UInt32.not_le] at full
    rw [UInt32.toNat_sub_of_le _ _ (UInt32.le_of_lt full)] at room
    rw [UInt32.lt_iff_toNat_lt] at full
    have fits := c.guestWindow.toNat_lt
    rw [UInt32.le_iff_toNat_le, UInt32.toNat_add, UInt32.toNat_ofNat']
    omega

theorem Sending.sendTcp (sending : Sending c before w) (seq : UInt32) (fin : Bool) :
    Sending c before (sendTcp seq fin [] w) := by
  unfold Sandbox.sendTcp
  split_ifs
  · exact sending
  · exact { sending with }

theorem Sending.dropGuestAcked (sending : Sending c before w) :
    Sending c before { w with c := dropGuestAcked w.c } := by
  unfold Sandbox.dropGuestAcked
  simp only
  split_ifs <;> exact { sending with }

section

variable (hasWindow : c.guestWindow ≠ 0)
include hasWindow

theorem Sending.sendChunk (sending : Sending c before w) (sends : chunkOf w.c ≠ 0) :
    Sending c before (sendChunk (chunkOf w.c) w) := by
  obtain ⟨guestAck, guestWindow, sent, sentEq, within⟩ := sending
  have size : ((w.c.hostBuf.drop w.c.hostSent).take (chunkOf w.c)).length ≤ chunkOf w.c :=
    length_take_le _ _
  unfold Sandbox.sendChunk Sandbox.sendTcp
  simp only
  split_ifs
  · exact ⟨guestAck, guestWindow, sent, sentEq, within⟩
  · refine ⟨guestAck, guestWindow, ?_⟩
    cases payload : (w.c.hostBuf.drop w.c.hostSent).take (chunkOf w.c) with
    | nil => exact ⟨sent, sentEq, within⟩
    | cons b rest =>
      refine ⟨_ :: sent, congrArg _ sentEq, forall_mem_cons.mpr ⟨?_, within⟩⟩
      have ends := endsWithin_chunk (guestWindow ▸ hasWindow) sends size
      rwa [payload, guestAck, guestWindow] at ends

theorem Sending.sendLoop (fuel : Nat) (sending : Sending c before w) :
    Sending c before (sendLoop fuel w) := by
  induction fuel generalizing w with
  | zero => exact sending
  | succ fuel ih =>
    rw [Sandbox.sendLoop]
    split_ifs with done
    · exact sending
    · exact ih (sending.sendChunk hasWindow done)

theorem Sending.sendHostBuffer (sending : Sending c before w) :
    Sending c before (sendHostBuffer w) := by
  have sent := sending.dropGuestAcked.sendLoop hasWindow (Sandbox.dropGuestAcked w.c).hostBuf.length
  unfold Sandbox.sendHostBuffer
  simp only
  split_ifs
  · exact { sent.sendTcp _ true with }
  · exact sent

theorem Sending.tcpFromHost (results : List ReadResult) (sending : Sending c before w) :
    SentWithin c before (tcpFromHost results w) := by
  induction results generalizing w with
  | nil => exact sending.within
  | cons result results ih =>
    rw [Sandbox.tcpFromHost]
    cases hostRoom w.c with
    | none => exact sending.within
    | some cap =>
      cases result with
      | data bytes =>
        simp only
        split_ifs
        · refine Sending.within (Sending.sendHostBuffer hasWindow ?_)
          exact { sending with }
        · exact ih (Sending.sendHostBuffer hasWindow { sending with })
      | interrupted => exact @ih { w with c := { w.c with hostCap := cap } } { sending with }
      | again | failed => exact sending.within

end

/-- The window of a segment holds for the data that it lets through. -/
theorem sentWithin_updateWindow
    (segment : Segment) (hasWindow : (noteAck segment w.c).guestWindow ≠ 0) :
    SentWithin (noteAck segment w.c) (dataSent w.log) (updateWindow segment w) := by
  have noted : Sending (noteAck segment w.c) (dataSent w.log) { w with c := noteAck segment w.c } :=
    ⟨rfl, rfl, sentWithin_of_eq rfl⟩
  unfold updateWindow
  simp only
  split_ifs
  · exact (noted.dropGuestAcked.sendHostBuffer hasWindow).within
  · exact noted.within

end Sending

section Quiet

theorem dataSent_sendTcp (seq : UInt32) (fin : Bool) (w : World) :
    dataSent (sendTcp seq fin [] w).log = dataSent w.log := by
  unfold sendTcp
  split_ifs <;> rfl

theorem dataSent_flushPending (results : List WriteResult) (w : World) :
    dataSent (flushPending results w).log = dataSent w.log := by
  have loop : dataSent (flushLoop results w).log = dataSent w.log := by
    induction results generalizing w with
    | nil => rfl
    | cons result results ih =>
      unfold flushLoop
      split_ifs
      · rfl
      · cases result with
        | wrote n =>
          simp only
          split_ifs
          · rfl
          · exact ih _
        | interrupted => exact ih w
        | again | failed => rfl
  unfold flushPending
  split_ifs
  · rfl
  · exact loop

theorem dataSent_handleFin (segment : Segment) (w : World) :
    dataSent (handleFin segment w).log = dataSent w.log := by
  unfold handleFin closeTcp
  simp only
  split_ifs
  any_goals rfl
  all_goals exact dataSent_sendTcp _ _ _

theorem dataSent_handlePayload (segment : Segment) (results : List WriteResult) (w : World) :
    dataSent (handlePayload segment results w).log = dataSent w.log := by
  unfold handlePayload takePayload
  split_ifs
  · cases appendPending segment.payload w.c with
    | none => rfl
    | some c =>
      simp only [Option.map_some]
      rw [dataSent_handleFin, dataSent_flushPending, dataSent_sendTcp]
      rfl
  · simp only
    rw [dataSent_handleFin, dataSent_flushPending, dataSent_sendTcp]

end Quiet

/-- Data for an event is sent within a window that is not zero. -/
theorem keepsWindow_of_hasWindow
    (event : Event) (w : World) (hasWindow : HasWindow event w) : KeepsWindow event w := by
  unfold KeepsWindow step
  by_cases notLive : w.live = false
  · rw [if_pos notLive]
    refine sentWithin_of_eq ?_
    cases event with
    | segment segment results =>
      simp only [refuse]
      split_ifs <;> rfl
    | _ => rfl
  · rw [if_neg notLive]
    cases event with
    | segment segment results =>
      have updated := sentWithin_updateWindow segment hasWindow
      simp only [handleTcp]
      split_ifs
      · exact sentWithin_of_eq rfl
      · rwa [SentWithin, acceptSynAck, dataSent_sendTcp]
      · rwa [SentWithin, dataSent_handleFin]
      · rwa [SentWithin, dataSent_handlePayload]
    | writable connectFailed connectResults results =>
      refine sentWithin_of_eq ?_
      unfold checkConnect
      simp only
      split_ifs
      any_goals rfl
      all_goals simp only [dataSent_flushPending]
    | readable results =>
      have sending : Sending w.c (dataSent w.log) w := ⟨rfl, rfl, sentWithin_of_eq rfl⟩
      simp only
      split_ifs
      · exact sending.within
      · exact sending.tcpFromHost hasWindow results
    | broken =>
      simp only
      split_ifs <;> exact sentWithin_of_eq rfl

/-- As long as the window in force is never zero, all data ends within it. -/
theorem keepsWindow_of_eachHasWindow (opening : Opening) (events : List Event)
    (each : EachInOrder step HasWindow events opening.world) :
    EachInOrder step KeepsWindow events opening.world :=
  fun past event isPast => keepsWindow_of_hasWindow event _ (each past event isPast)

/-- A guest with a window that acknowledges nothing new is in order. -/
theorem keepsWindow_readable :
    EachInOrder step KeepsWindow [.readable [.data [0x61]]] (openOutbound 0 1000 65535 false) := by
  refine keepsWindow_of_eachHasWindow (.outbound 0 1000 65535 false) _ ?_
  rw [eachInOrder_cons]
  exact ⟨by rw [HasWindow]; decide, eachInOrder_nil⟩

/-- The guest acknowledges the `SYN` and has no room. -/
def closedWindow : Event :=
  .segment ⟨1, 0x51003E81, false, false, false, true, 0, []⟩ []

/-- The host's first byte is sent to the guest all the same. -/
theorem not_keepsWindow_closedWindow :
    ¬ EachInOrder step KeepsWindow [closedWindow, .readable [.data [0x61]]]
      (openOutbound 0 1000 65535 false) := by
  intro each
  obtain ⟨sent, logEq, within⟩ := each [closedWindow] (.readable [.data [0x61]]) prefix_rfl
  have before : dataSent (run step [closedWindow] (openOutbound 0 1000 65535 false)).log = [] := by
    decide +kernel
  have after : dataSent (step (.readable [.data [0x61]])
      (run step [closedWindow] (openOutbound 0 1000 65535 false))).log =
      [⟨0x51003E81, 1, false, false, false, true, 65535, [0x61]⟩] := by
    decide +kernel
  rw [before, after, append_nil] at logEq
  have ends := within _ (logEq ▸ mem_singleton_self _)
  revert ends
  rw [EndsWithin]
  decide +kernel

end AntRuntime.Sandbox
