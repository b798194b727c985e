import Mathlib.Algebra.Group.Nat.Defs

/-!
# Server-sent events

The formatter writes an event as lines of a field name, a colon, a blank and a value; a
value with line breaks takes several lines. The parser collects bytes into lines, lines
into fields, and dispatches a message at an empty line. Allocation is taken to succeed.
-/

namespace AntRuntime.Sse

/-- A C string: bytes before the terminator. -/
structure CString where
  bytes : List UInt8
  noNul : 0 ∉ bytes

/-- What a reader of a C string sees of a buffer. -/
def readString (buffer : List UInt8) : List UInt8 :=
  buffer.takeWhile (· != 0)

/-- The end of a line without one carriage return. -/
def stripReturn (line : List UInt8) : List UInt8 :=
  if line.getLast? = some 13 then line.dropLast else line

section Formatter

/-- `event`. -/
def eventField : List UInt8 := [101, 118, 101, 110, 116]

/-- `id`. -/
def idField : List UInt8 := [105, 100]

/-- `retry`. -/
def retryField : List UInt8 := [114, 101, 116, 114, 121]

/-- `data`. -/
def dataField : List UInt8 := [100, 97, 116, 97]

/-- One line of a field. -/
def fieldLine (field line : List UInt8) : List UInt8 :=
  field ++ [58, 32] ++ stripReturn line ++ [10]

/-- The loop of `append_field_lines`, with the bytes of the line so far. It stops at the end
of the value, also when that comes right after a line break. -/
def fieldLinesFrom (field : List UInt8) : List UInt8 → List UInt8 → List UInt8
  | line, [] => fieldLine field line
  | line, byte :: rest =>
    if byte = 10 then
      fieldLine field line ++ (if rest.isEmpty then [] else fieldLinesFrom field [] rest)
    else fieldLinesFrom field (line ++ [byte]) rest

/-- `append_field_lines`. -/
def fieldLines (field value : List UInt8) : List UInt8 :=
  fieldLinesFrom field [] value

/-- A field that is left out if it is missing or empty. -/
def optionalLines (field : List UInt8) : Option CString → List UInt8
  | none => []
  | some value => if value.bytes.isEmpty then [] else fieldLines field value.bytes

/-- The field of the id, which may be empty. -/
def idLines : Option CString → List UInt8
  | none => []
  | some value => fieldLines idField value.bytes

/-- `ant_sse_format_event`. -/
def formatEvent (data event id retry : Option CString) : List UInt8 :=
  optionalLines eventField event ++ idLines id ++ optionalLines retryField retry ++
    fieldLines dataField ((data.map CString.bytes).getD []) ++ [10]

end Formatter

section Parser

/-- `ant_sse_message_t`. -/
structure Message where
  data : List UInt8
  event : Option (List UInt8)
  id : Option (List UInt8)
  retry : Nat
  hasRetry : Bool
deriving DecidableEq

/-- `ant_sse_parser_t`, with the buffers its pointers lead to. -/
structure Parser where
  line : List UInt8 := []
  data : Option (List UInt8) := none
  event : Option (List UInt8) := none
  id : Option (List UInt8) := none
  lastEventId : Option (List UInt8) := none
  retry : Nat := 0
  hasRetry : Bool := false
deriving DecidableEq

/-- Whether a call succeeded, the parser after it, and the messages it handed on. -/
structure Fed where
  ok : Bool
  parser : Parser
  messages : List Message
deriving DecidableEq

/-- `append_data_field`. -/
def appendDataField (parser : Parser) (value : List UInt8) : Parser :=
  { parser with data := some (readString (parser.data.getD []) ++ value ++ [10]) }

/-- The loop of `parse_retry`. -/
def parseRetryFrom : Nat → List UInt8 → Option Nat
  | retry, [] => some retry
  | retry, byte :: rest =>
    if byte < 48 ∨ 57 < byte then none
    else if (2 ^ 32 - 1 - (byte.toNat - 48)) / 10 < retry then none
    else parseRetryFrom (retry * 10 + (byte.toNat - 48)) rest

/-- `parse_retry`. -/
def parseRetry (value : List UInt8) : Option Nat :=
  if value.isEmpty then none else parseRetryFrom 0 value

/-- The collected data without the line break of the last line. -/
def withoutLastBreak (data : List UInt8) : List UInt8 :=
  if (readString data).getLast? = some 10 then (readString data).dropLast else readString data

/-- The message that the parser has collected. -/
def messageOf (parser : Parser) (data : List UInt8) : Message :=
  { data := withoutLastBreak data
    event := parser.event.map readString
    id := parser.id.map readString
    retry := parser.retry
    hasRetry := parser.hasRetry }

/-- `parser_reset_event`. -/
def resetEvent (parser : Parser) : Parser :=
  { parser with data := none, event := none, id := none }

variable (callback : Message → Bool)

/-- `dispatch_event`; the callback may refuse the message. -/
def dispatchEvent (parser : Parser) : Fed :=
  match parser.data with
  | none => ⟨true, resetEvent parser, []⟩
  | some data =>
    ⟨callback (messageOf parser data), resetEvent
        { parser with lastEventId := (parser.id.map readString).or parser.lastEventId },
      [messageOf parser data]⟩

/-- What a field of a known name does. -/
def applyField (parser : Parser) (field value : List UInt8) : Parser :=
  if field = dataField then appendDataField parser value
  else if field = eventField then { parser with event := some value }
  else if field = idField then
    if value.contains 0 then parser else { parser with id := some value }
  else if field = retryField then
    match parseRetry value with
    | none => parser
    | some retry => { parser with retry := retry, hasRetry := true }
  else parser

/-- The value behind the colon, without one blank. -/
def valueOf (afterField : List UInt8) : List UInt8 :=
  if afterField.tail.head? = some 32 then afterField.tail.tail else afterField.tail

/-- `parser_process_line`. -/
def processLine (parser : Parser) (bytes : List UInt8) : Fed :=
  let line := stripReturn bytes
  if line.isEmpty then dispatchEvent callback parser
  else if line.head? = some 58 then ⟨true, parser, []⟩
  else
    ⟨true, applyField parser (line.takeWhile (· != 58)) (valueOf (line.dropWhile (· != 58))), []⟩

/-- Going on after a call that succeeded. -/
def Fed.andThen (fed : Fed) (next : Parser → Fed) : Fed :=
  if fed.ok then
    ⟨(next fed.parser).ok, (next fed.parser).parser, fed.messages ++ (next fed.parser).messages⟩
  else fed

/-- `ant_sse_parser_feed`. -/
def feed (parser : Parser) : List UInt8 → Fed
  | [] => ⟨true, parser, []⟩
  | byte :: rest =>
    if byte = 10 then
      (processLine callback parser parser.line).andThen fun next =>
        feed { next with line := [] } rest
    else feed { parser with line := parser.line ++ [byte] } rest

/-- The chunks of a body as they come in, until one is refused. -/
def feedChunks (parser : Parser) : List (List UInt8) → Fed
  | [] => ⟨true, parser, []⟩
  | chunk :: chunks => (feed callback parser chunk).andThen fun next => feedChunks next chunks

end Parser

end AntRuntime.Sse
