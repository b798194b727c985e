import Mathlib.Algebra.Group.Nat.Defs
import AntRuntime.Machine.Runs

/-!
# The TCP connections of the sandbox network

A connection of the guest ends in the gateway, which writes the guest's bytes to a host
socket and sends what it reads from there to the guest. A segment with payload sets the
next expected sequence number, appends the payload to the bytes that wait for the socket
and is acknowledged. The log of a connection has what it did, the latest first.
-/

namespace AntRuntime.Sandbox

abbrev Bytes := List UInt8

section State

/-- `ant_hvf_nat_tcp_state_t`. -/
inductive TcpState
  | unused
  | connectingHost
  | connectingGuest
  | established
  | halfClosed
deriving DecidableEq

/-- `ant_hvf_nat_tcp`. The addresses of a connection are set when it is opened and
cleared when it is closed. The waiting bytes are those from `pendingOff` on, and the
bytes for the guest are at the start of their buffer. -/
structure Tcp where
  state : TcpState
  addressed : Bool
  fd : Bool
  guestNext : UInt32
  natNext : UInt32
  guestAck : UInt32
  guestWindow : UInt32
  guestFinSeen : Bool
  hostEof : Bool
  hostFinSent : Bool
  pending : Bytes
  pendingOff : Nat
  pendingCap : Nat
  hostBuf : Bytes
  hostCap : Nat
  hostBase : UInt32
  hostSent : Nat
deriving DecidableEq

/-- A cleared connection. -/
def Tcp.cleared : Tcp where
  state := .unused
  addressed := false
  fd := false
  guestNext := 0
  natNext := 0
  guestAck := 0
  guestWindow := 0
  guestFinSeen := false
  hostEof := false
  hostFinSent := false
  pending := []
  pendingOff := 0
  pendingCap := 0
  hostBuf := []
  hostCap := 0
  hostBase := 0
  hostSent := 0

/-- `ANT_TCP_MSS`. -/
def tcpMss : Nat := 1380

/-- `ANT_TCP_GUEST_WINDOW`. -/
def tcpGuestWindow : UInt32 := 32768

/-- `ANT_NAT_STREAM_INITIAL_CAP`. -/
def streamInitialCap : Nat := 4096

/-- `ANT_NAT_STREAM_GROW_CHUNK`. -/
def streamGrowChunk : Nat := 16384

/-- `ANT_NAT_STREAM_BUFFER_LIMIT`. -/
def streamBufferLimit : Nat := 1024 * 1024

/-- A segment: its numbers, flags, window and payload. -/
structure Segment where
  seq : UInt32
  ack : UInt32
  fin : Bool
  syn : Bool
  rst : Bool
  hasAck : Bool
  win : UInt32
  payload : Bytes
deriving DecidableEq

/-- What a connection does: it sends a segment to the guest, accepts bytes for the host
or writes them to the host socket. -/
inductive Output
  | toGuest (segment : Segment)
  | accepted (bytes : Bytes)
  | toHost (bytes : Bytes)
deriving DecidableEq

/-- A connection and what it has done, the latest first. -/
structure World where
  c : Tcp
  log : List Output
deriving DecidableEq

/-- What `write` on the host socket gives. -/
inductive WriteResult
  | wrote (n : Nat)
  | interrupted
  | again
  | failed
deriving DecidableEq

/-- What `read` on the host socket gives; no bytes are the end of the stream. -/
inductive ReadResult
  | data (bytes : Bytes)
  | interrupted
  | again
  | failed
deriving DecidableEq

end State

section Sending

/-- `(int32_t)(a - b) > 0`. -/
def isAfter (a b : UInt32) : Bool :=
  0 < (a - b).toNat && (a - b).toNat < 2 ^ 31

/-- `ant_net_send_tcp`. Without addresses the segment is for no connection. -/
def sendTcp (seq : UInt32) (fin : Bool) (payload : Bytes) (w : World) : World :=
  if w.c.addressed = false ∨ tcpMss < payload.length then w
  else
    { w with
      log := .toGuest ⟨seq, w.c.guestNext, fin, false, false, true, 65535, payload⟩ :: w.log }

/-- `ant_nat_drop_guest_acked`. -/
def dropGuestAcked (c : Tcp) : Tcp :=
  if c.hostBuf = [] then
    { c with
      hostBase := if isAfter c.guestAck c.hostBase then c.guestAck else c.hostBase
      hostSent := 0 }
  else if !isAfter c.guestAck c.hostBase then c
  else
    let acked := min (c.guestAck - c.hostBase).toNat c.hostBuf.length
    if acked = c.hostBuf.length then { c with hostBuf := [], hostBase := c.guestAck, hostSent := 0 }
    else
      { c with
        hostBuf := c.hostBuf.drop acked
        hostBase := c.hostBase + UInt32.ofNat acked
        hostSent := c.hostSent - acked }

/-- `ant_nat_host_sent_seq`. -/
def hostSentSeq (c : Tcp) : UInt32 :=
  c.hostBase + UInt32.ofNat c.hostSent

/-- The window of the guest, or the default one. -/
def windowOf (c : Tcp) : UInt32 :=
  if c.guestWindow = 0 then tcpGuestWindow else c.guestWindow

/-- How many bytes may be sent now. -/
def chunkOf (c : Tcp) : Nat :=
  let inFlight := hostSentSeq c - c.guestAck
  if windowOf c ≤ inFlight then 0
  else min (min (c.hostBuf.length - c.hostSent) tcpMss) (windowOf c - inFlight).toNat

/-- Bytes of the buffer are sent to the guest. -/
def sendChunk (chunk : Nat) (w : World) : World :=
  let sent := sendTcp (hostSentSeq w.c) false ((w.c.hostBuf.drop w.c.hostSent).take chunk) w
  { sent with
    c := { sent.c with
      hostSent := sent.c.hostSent + chunk
      natNext := hostSentSeq w.c + UInt32.ofNat chunk } }

/-- The loop of `ant_nat_send_host_buffer`. -/
def sendLoop : Nat → World → World
  | 0, w => w
  | fuel + 1, w => if chunkOf w.c = 0 then w else sendLoop fuel (sendChunk (chunkOf w.c) w)

/-- `ant_nat_send_host_buffer`. -/
def sendHostBuffer (w : World) : World :=
  let dropped : World := { w with c := dropGuestAcked w.c }
  let w := sendLoop dropped.c.hostBuf.length dropped
  if w.c.hostEof && !w.c.hostFinSent && w.c.hostSent == w.c.hostBuf.length then
    let finSeq := w.c.hostBase + UInt32.ofNat w.c.hostBuf.length
    let sent := sendTcp finSeq true [] w
    { sent with c := { sent.c with hostFinSent := true, natNext := finSeq + 1 } }
  else w

end Sending

section Host

/-- The loop of `ant_nat_grow_buffer`. -/
def growLoop (needed : Nat) : Nat → Nat → Nat
  | 0, next => next
  | fuel + 1, next =>
    if needed ≤ next then next
    else growLoop needed fuel (if streamBufferLimit / 2 < next then streamBufferLimit else next * 2)

/-- `ant_nat_grow_buffer`: the new capacity. -/
def growBuffer (cap needed : Nat) : Option Nat :=
  if needed ≤ cap then some cap
  else if streamBufferLimit < needed then none
  else some (growLoop needed needed (if cap = 0 then streamInitialCap else cap))

/-- Where the waiting bytes start once they are moved to make room for more. -/
def offsetFor (data : Bytes) (c : Tcp) : Nat :=
  if 0 < c.pendingOff ∧ c.pendingCap < c.pendingOff + c.pending.length + data.length then 0
  else c.pendingOff

/-- `ant_nat_append_pending`. -/
def appendPending (data : Bytes) (c : Tcp) : Option Tcp :=
  if data = [] then some c
  else if streamBufferLimit - c.pending.length < data.length then none
  else
    (growBuffer c.pendingCap (offsetFor data c + c.pending.length + data.length)).map fun cap =>
      { c with pending := c.pending ++ data, pendingOff := offsetFor data c, pendingCap := cap }

/-- `ant_nat_close_tcp`. -/
def closeTcp (w : World) : World :=
  { w with c := .cleared }

/-- `ant_nat_close_fd`. -/
def closeFd (c : Tcp) : Tcp :=
  { c with fd := false, state := .halfClosed, pending := [], pendingOff := 0, pendingCap := 0 }

/-- Bytes that waited are written to the host. -/
def writePending (n : Nat) (w : World) : World where
  c := { w.c with
    pendingOff := if n = w.c.pending.length then 0 else w.c.pendingOff + n
    pending := w.c.pending.drop n }
  log := .toHost (w.c.pending.take n) :: w.log

/-- The loop of `ant_nat_flush_pending`. -/
def flushLoop : List WriteResult → World → World
  | [], w => w
  | result :: results, w =>
    if w.c.pending = [] ∨ w.c.state = .connectingHost then w
    else
      match result with
      | .wrote n =>
        if min n w.c.pending.length = 0 then closeTcp w
        else flushLoop results (writePending (min n w.c.pending.length) w)
      | .interrupted => flushLoop results w
      | .again => w
      | .failed => closeTcp w

/-- `ant_nat_flush_pending`. -/
def flushPending (results : List WriteResult) (w : World) : World :=
  if w.c.fd = false then w else flushLoop results w

/-- `ant_nat_host_room`: the capacity of the buffer for the guest, if there is room. -/
def hostRoom (c : Tcp) : Option Nat :=
  if streamBufferLimit ≤ c.hostBuf.length then none
  else
    (growBuffer c.hostCap (min (c.hostBuf.length + streamGrowChunk) streamBufferLimit)).bind
      fun cap => if cap - c.hostBuf.length = 0 then none else some cap

/-- The host has finished. -/
def receiveEof (w : World) : World :=
  sendHostBuffer { w with c := closeFd { w.c with hostEof := true } }

/-- The host has sent bytes. -/
def receiveData (bytes : Bytes) (w : World) : World :=
  sendHostBuffer
    { w with
      c := { w.c with
        hostBase :=
          if w.c.hostBuf = [] ∧ w.c.hostSent = 0 then w.c.natNext else w.c.hostBase
        hostBuf := w.c.hostBuf ++ bytes } }

/-- `ant_nat_tcp_from_host`. -/
def tcpFromHost : List ReadResult → World → World
  | [], w => w
  | result :: results, w =>
    match hostRoom w.c with
    | none => w
    | some cap =>
      let w : World := { w with c := { w.c with hostCap := cap } }
      match result with
      | .data bytes =>
        let bytes := bytes.take (cap - w.c.hostBuf.length)
        if bytes = [] then receiveEof w else tcpFromHost results (receiveData bytes w)
      | .interrupted => tcpFromHost results w
      | .again => w
      | .failed => closeTcp w

/-- `ant_nat_check_connect`. -/
def checkConnect (failed : Bool) (results : List WriteResult) (w : World) : World :=
  if w.c.state ≠ .connectingHost then w
  else if failed then closeTcp w
  else flushPending results { w with c := { w.c with state := .established } }

end Host

section Segments

variable (segment : Segment)

/-- The window and the acknowledgement of a segment. -/
def noteAck (c : Tcp) : Tcp :=
  { c with
    guestWindow := segment.win
    guestAck :=
      if segment.hasAck && isAfter segment.ack c.guestAck then segment.ack else c.guestAck }

/-- The window is updated, and what it lets through is sent. -/
def updateWindow (w : World) : World :=
  let c := noteAck segment w.c
  if segment.hasAck ∧ (c.guestAck ≠ w.c.guestAck ∨ c.guestWindow ≠ w.c.guestWindow) then
    sendHostBuffer { w with c := dropGuestAcked c }
  else { w with c }

/-- A connection from the host that the guest has accepted. -/
def acceptSynAck (w : World) : World :=
  let c := dropGuestAcked { w.c with
    guestNext := segment.seq + 1
    state := .established
    guestAck := segment.ack
    guestWindow := segment.win }
  sendTcp c.natNext false [] { w with c }

/-- The payload is appended to the bytes for the host, if they are still wanted. -/
def takePayload (payload : Bytes) (w : World) : Option World :=
  if w.c.fd && !w.c.guestFinSeen then
    (appendPending payload w.c).map fun c => { c, log := .accepted payload :: w.log }
  else some w

/-- The guest has finished. -/
def noteFin (c : Tcp) : Tcp :=
  let finNext := segment.seq + UInt32.ofNat segment.payload.length + 1
  { c with
    guestNext := if c.guestNext < finNext then finNext else c.guestNext
    guestFinSeen := true
    state := .halfClosed }

/-- The guest has acknowledged the end of what the host sent. -/
def hostFinished (c : Tcp) : Bool :=
  c.hostFinSent && decide (c.natNext ≤ c.guestAck)

/-- The end of `ant_nat_handle_tcp`: the guest may have finished. -/
def handleFin (w : World) : World :=
  if segment.fin then
    let w := sendTcp w.c.natNext false [] { w with c := noteFin segment w.c }
    if hostFinished w.c then closeTcp w else w
  else if w.c.guestFinSeen && hostFinished w.c then closeTcp w
  else w

/-- The number in force is set. -/
def World.expecting (next : UInt32) (w : World) : World :=
  { w with c := { w.c with guestNext := next } }

/-- A segment with payload, once its end is expected. -/
def handlePayload (results : List WriteResult) (w : World) : World :=
  match takePayload segment.payload w with
  | none => w
  | some w => handleFin segment (flushPending results (sendTcp w.c.natNext false [] w))

/-- `ant_nat_handle_tcp` for a segment of this connection. -/
def handleTcp (results : List WriteResult) (w : World) : World :=
  if segment.rst then closeTcp w
  else
    let w := updateWindow segment w
    if w.c.state = .connectingGuest ∧ segment.syn ∧ segment.hasAck then acceptSynAck segment w
    else if segment.payload = [] then handleFin segment w
    else
      handlePayload segment results
        (w.expecting (segment.seq + UInt32.ofNat segment.payload.length))

/-- What happens to a connection: a segment comes from the guest, or the thread finds its
socket writable, readable or broken. -/
inductive Event
  | segment (segment : Segment) (results : List WriteResult)
  | writable (connectFailed : Bool) (connectResults results : List WriteResult)
  | readable (results : List ReadResult)
  | broken

/-- Segments find a connection by its addresses. -/
def World.live (w : World) : Bool :=
  w.c.state ≠ .unused && w.c.addressed

/-- `ant_nat_handle_tcp` for a segment of no connection, which is answered by a reset. A `SYN`
without an acknowledgement opens another connection, which is not followed here. -/
def refuse (w : World) : World :=
  if segment.rst || segment.syn && !segment.hasAck then w
  else
    { w with
      log := .toGuest ⟨segment.ack, segment.seq + .ofNat segment.payload.length, false, false, true,
        true, 65535, []⟩ :: w.log }

/-- One event. The thread polls only open sockets. -/
def step (event : Event) (w : World) : World :=
  if w.live = false then
    match event with
    | .segment segment _ => refuse segment w
    | _ => w
  else
    match event with
    | .segment segment results => handleTcp segment results w
    | .writable connectFailed connectResults results =>
      if w.c.fd = false then w
      else
        let w := checkConnect connectFailed connectResults w
        if w.c.state = .unused then w else flushPending results w
    | .readable results => if w.c.fd = false then w else tcpFromHost results w
    | .broken => if w.c.fd = false then w else closeTcp w

/-- How a connection begins, from the guest or from the host. -/
inductive Opening
  | outbound (isn : UInt32) (srcPort : UInt16) (win : UInt32) (inProgress : Bool)
  | inbound (isn ack : UInt32) (peerPort : UInt16) (win : UInt32)

/-- The initial sequence number of the guest. -/
def Opening.isn : Opening → UInt32
  | .outbound isn .. => isn
  | .inbound isn .. => isn

/-- The connection after a `SYN` of the guest, with the `SYN` that answers it. -/
def openOutbound (isn : UInt32) (srcPort : UInt16) (win : UInt32) (inProgress : Bool) : World :=
  let natIss := (0x51000000 : UInt32) + (srcPort.toUInt32 <<< 4)
  { c := { Tcp.cleared with
      state := if inProgress then .connectingHost else .established
      addressed := true
      fd := true
      guestNext := isn + 1
      natNext := natIss + 1
      guestAck := natIss
      guestWindow := win
      hostBase := natIss + 1 }
    log := [.toGuest ⟨natIss, isn + 1, false, true, false, true, 65535, []⟩] }

/-- A connection that was accepted on the host, before the guest has answered. -/
def acceptForward (peerPort : UInt16) : World :=
  let natIss := (0x41000000 : UInt32) + (peerPort.toUInt32 <<< 4)
  { c := { Tcp.cleared with
      state := .connectingGuest
      addressed := true
      fd := true
      natNext := natIss + 1
      guestAck := natIss
      guestWindow := 65535
      hostBase := natIss + 1 }
    log := [.toGuest ⟨natIss, 0, false, true, false, false, 65535, []⟩] }

/-- The connection as the guest's first segment leaves it. -/
def Opening.world : Opening → World
  | .outbound isn srcPort win inProgress => openOutbound isn srcPort win inProgress
  | .inbound isn ack peerPort win =>
    handleTcp ⟨isn, ack, false, true, false, true, win, []⟩ [] (acceptForward peerPort)

end Segments

end AntRuntime.Sandbox
