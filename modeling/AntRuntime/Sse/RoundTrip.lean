import AntRuntime.Sse.Parser
import Mathlib.Data.List.Basic
import Mathlib.Data.List.TakeDrop
import Mathlib.Data.List.TakeWhile

/-!
# What the parser makes of a formatted event

Chunks do not matter to the parser, a line of a known field sets that field, and the lines
of the data put the data together again, except for a line break at its end: the formatter
writes no line for what follows it.
-/

namespace AntRuntime.Sse

open List

variable {callback : Message → Bool} {parser : Parser}

section Chunks

theorem Fed.andThen_of_ok {fed : Fed} (next : Parser → Fed) (succeeds : fed.ok = true) :
    fed.andThen next =
      ⟨(next fed.parser).ok, (next fed.parser).parser,
        fed.messages ++ (next fed.parser).messages⟩ :=
  if_pos succeeds

theorem Fed.andThen_assoc (fed : Fed) (first second : Parser → Fed) :
    (fed.andThen first).andThen second =
      fed.andThen fun parser => (first parser).andThen second := by
  by_cases succeeds : fed.ok = true
  · rw [Fed.andThen_of_ok first succeeds,
      Fed.andThen_of_ok (fun parser => (first parser).andThen second) succeeds]
    by_cases goesOn : (first fed.parser).ok = true
    · rw [Fed.andThen_of_ok second goesOn, Fed.andThen, if_pos goesOn]
      simp
    · simp only [Fed.andThen, if_neg goesOn]
  · simp only [Fed.andThen, if_neg succeeds]

/-- Feeding two pieces is feeding them as one. -/
theorem feed_append (parser : Parser) (first second : List UInt8) :
    feed callback parser (first ++ second) =
      (feed callback parser first).andThen fun next => feed callback next second := by
  induction first generalizing parser with
  | nil => rfl
  | cons byte rest ih =>
    rw [cons_append, feed, feed]
    split_ifs with isBreak
    · rw [Fed.andThen_assoc]
      congr 1
      funext next
      exact ih _
    · exact ih _

theorem feedChunks_eq (parser : Parser) (chunks : List (List UInt8)) :
    feedChunks callback parser chunks = feed callback parser chunks.flatten := by
  induction chunks generalizing parser with
  | nil => rfl
  | cons chunk chunks ih =>
    rw [feedChunks, flatten_cons, feed_append]
    congr 1
    funext next
    exact ih next

end Chunks

section Lines

/-- The bytes of a line are collected. -/
theorem feed_line (parser : Parser) (line rest : List UInt8) (noBreak : 10 ∉ line) :
    feed callback parser (line ++ 10 :: rest) =
      (processLine callback { parser with line := parser.line ++ line }
        (parser.line ++ line)).andThen fun next =>
          feed callback { next with line := [] } rest := by
  induction line generalizing parser with
  | nil => rw [nil_append, feed, if_pos rfl, append_nil]
  | cons byte line ih =>
    obtain ⟨notBreak, noBreak⟩ := not_or.mp (mem_cons.not.mp noBreak)
    rw [cons_append, feed, if_neg (Ne.symm notBreak), ih _ noBreak, append_assoc]
    rfl

theorem stripReturn_append (front line : List UInt8) (started : front.getLast? ≠ some 13) :
    stripReturn (front ++ line) = front ++ stripReturn line := by
  cases line with
  | nil => rw [append_nil, stripReturn, if_neg started, stripReturn, if_neg (by simp), append_nil]
  | cons byte line =>
    rw [stripReturn, stripReturn, getLast?_append_of_ne_nil _ (cons_ne_nil _ _)]
    split_ifs
    · rw [dropLast_append_of_ne_nil (cons_ne_nil _ _)]
    · rfl

/-- A line of a field sets it. -/
theorem processLine_field
    {field : List UInt8} (named : field ≠ []) (noColon : 58 ∉ field) (parser : Parser)
    (line : List UInt8) :
    processLine callback parser (field ++ [58, 32] ++ line) =
      ⟨true, applyField parser field (stripReturn line), []⟩ := by
  have stripped : stripReturn (field ++ [58, 32] ++ line) =
      field ++ 58 :: 32 :: stripReturn line := by
    rw [stripReturn_append _ _ (by simp), append_assoc]
    rfl
  have notColon : ∀ byte ∈ field, (byte != 58) = true := by
    intro byte member
    exact bne_iff_ne.mpr fun equal => noColon (equal ▸ member)
  have notComment : (field ++ 58 :: 32 :: stripReturn line).head? ≠ some 58 := by
    cases field with
    | nil => exact absurd rfl named
    | cons byte field =>
      intro colon
      exact noColon (mem_cons.mpr (.inl (Option.some.inj colon).symm))
  simp only [processLine, stripped]
  rw [if_neg (by simp), if_neg notComment, takeWhile_append_of_pos notColon,
    dropWhile_append_of_pos notColon, takeWhile_cons_of_neg (by decide), append_nil]
  rfl

/-- A field does not depend on the line buffer. -/
theorem applyField_resetLine (parser : Parser) (line field value : List UInt8) :
    { applyField { parser with line := line } field value with line := [] } =
      applyField { parser with line := [] } field value := by
  simp only [applyField]
  split_ifs <;> try rfl
  split <;> rfl

theorem stripReturn_subset {line : List UInt8}
    (member : byte ∈ stripReturn line) : byte ∈ line := by
  rw [stripReturn] at member
  split_ifs at member
  · exact dropLast_subset _ member
  · exact member

/-- The names of the fields, as the parser needs them to be. -/
structure FieldName (field : List UInt8) : Prop where
  named : field ≠ []
  noColon : 58 ∉ field
  noBreak : 10 ∉ field

theorem fieldName_event : FieldName eventField := ⟨by decide, by decide, by decide⟩

theorem fieldName_id : FieldName idField := ⟨by decide, by decide, by decide⟩

theorem fieldName_retry : FieldName retryField := ⟨by decide, by decide, by decide⟩

theorem fieldName_data : FieldName dataField := ⟨by decide, by decide, by decide⟩

/-- A line of a field as it is fed. -/
theorem feed_fieldLine {field line : List UInt8} (name : FieldName field) (noBreak : 10 ∉ line)
    (atStart : parser.line = []) (rest : List UInt8) :
    feed callback parser (fieldLine field line ++ rest) =
      feed callback (applyField parser field (stripReturn (stripReturn line))) rest := by
  have together : 10 ∉ field ++ [58, 32] ++ stripReturn line := by
    simp only [mem_append, not_or]
    exact ⟨⟨name.noBreak, by decide⟩, fun member => noBreak (stripReturn_subset member)⟩
  have cleared : { parser with line := [] } = parser := by rw [← atStart]
  rw [fieldLine, append_assoc _ [10], singleton_append,
    feed_line parser _ rest together, atStart, nil_append,
    processLine_field name.named name.noColon, Fed.andThen_of_ok _ rfl]
  simp [applyField_resetLine, cleared]

end Lines

section Values

variable {line : List UInt8}

/-- A value in one line. -/
theorem fieldLinesFrom_of_noBreak
    (field line : List UInt8) {value : List UInt8} (noBreak : 10 ∉ value) :
    fieldLinesFrom field line value = fieldLine field (line ++ value) := by
  induction value generalizing line with
  | nil => rw [fieldLinesFrom, append_nil]
  | cons byte value ih =>
    obtain ⟨notBreak, noBreak⟩ := not_or.mp (mem_cons.not.mp noBreak)
    rw [fieldLinesFrom, if_neg (Ne.symm notBreak), ih _ noBreak, append_assoc, singleton_append]

theorem stripReturn_of_noReturn (noReturn : 13 ∉ line) : stripReturn line = line :=
  if_neg fun last => noReturn (mem_of_getLast? last)

/-- A value without breaks as it is fed. -/
theorem feed_fieldLines_single
    {field value : List UInt8} (name : FieldName field) (noReturn : 13 ∉ value)
    (noBreak : 10 ∉ value) (atStart : parser.line = []) (rest : List UInt8) :
    feed callback parser (fieldLines field value ++ rest) =
      feed callback (applyField parser field value) rest := by
  rw [fieldLines, fieldLinesFrom_of_noBreak _ _ noBreak, nil_append,
    feed_fieldLine name noBreak atStart, stripReturn_of_noReturn noReturn,
    stripReturn_of_noReturn noReturn]

theorem readString_of_noNul {buffer : List UInt8} (noNul : 0 ∉ buffer) :
    readString buffer = buffer := by
  refine takeWhile_eq_self_iff.mpr fun byte member => ?_
  exact bne_iff_ne.mpr fun equal => noNul (equal ▸ member)

/-- The text that the lines of a value spell: every line ends with a break. -/
def brokenLines (value : List UInt8) : List UInt8 :=
  if value.getLast? = some 10 then value else value ++ [10]

theorem brokenLines_append (front : List UInt8) {rest : List UInt8} (more : rest ≠ []) :
    brokenLines (front ++ rest) = front ++ brokenLines rest := by
  rw [brokenLines, brokenLines, getLast?_append_of_ne_nil _ more]
  split_ifs
  · rfl
  · rw [append_assoc]

/-- One line of data goes behind the data so far. -/
theorem feed_dataLine {line collected : List UInt8} (noReturn : 13 ∉ line) (noBreak : 10 ∉ line)
    (collectedNoNul : 0 ∉ collected) (atStart : parser.line = [])
    (soFar : parser.data.getD [] = collected) (rest : List UInt8) :
    feed callback parser (fieldLine dataField line ++ rest) =
      feed callback { parser with data := some (collected ++ line ++ [10]) } rest := by
  rw [feed_fieldLine fieldName_data noBreak atStart, stripReturn_of_noReturn noReturn,
    stripReturn_of_noReturn noReturn, applyField, if_pos rfl, appendDataField, soFar,
    readString_of_noNul collectedNoNul]

/-- The lines of the data put it together behind the data so far. -/
theorem feed_dataLines
    {line value collected : List UInt8} (noReturn : 13 ∉ line ++ value) (noBreak : 10 ∉ line)
    (noNul : 0 ∉ line ++ value) (collectedNoNul : 0 ∉ collected) (atStart : parser.line = [])
    (soFar : parser.data.getD [] = collected) (rest : List UInt8) :
    feed callback parser (fieldLinesFrom dataField line value ++ rest) =
      feed callback { parser with data := some (collected ++ brokenLines (line ++ value)) }
        rest := by
  induction value generalizing line collected parser with
  | nil =>
    rw [append_nil] at noReturn ⊢
    rw [fieldLinesFrom, feed_dataLine noReturn noBreak collectedNoNul atStart soFar,
      brokenLines, if_neg fun last => noBreak (mem_of_getLast? last), append_assoc]
  | cons byte value ih =>
    have lineNoReturn : 13 ∉ line := fun member => noReturn (mem_append_left _ member)
    rw [fieldLinesFrom]
    by_cases isBreak : byte = 10
    · subst isBreak
      rw [if_pos rfl, append_assoc, feed_dataLine lineNoReturn noBreak collectedNoNul atStart soFar]
      have behind : line ++ 10 :: value = (line ++ [10]) ++ value := by simp
      cases value with
      | nil =>
        -- the value ends with this break, and no line follows
        have whole : brokenLines (line ++ [10]) = line ++ [10] := by
          rw [brokenLines, if_pos (by simp)]
        rw [whole, append_assoc]
        rfl
      | cons next value =>
        rw [behind] at noReturn noNul ⊢
        rw [brokenLines_append _ (cons_ne_nil _ _), ← append_assoc, ← append_assoc]
        refine (ih (fun member => noReturn (mem_append_right _ member))
          not_mem_nil (fun member => noNul (mem_append_right _ member)) ?_
          atStart rfl)
        simp only [mem_append, not_or] at noNul ⊢
        exact ⟨⟨collectedNoNul, noNul.1.1⟩, noNul.1.2⟩
    · have moved : line ++ byte :: value = (line ++ [byte]) ++ value := by simp
      rw [if_neg isBreak, moved]
      rw [moved] at noReturn noNul
      refine ih noReturn ?_ noNul collectedNoNul atStart soFar
      simp only [mem_append, mem_singleton, not_or]
      exact ⟨noBreak, Ne.symm isBreak⟩

/-- The lines of a retry change nothing else. -/
theorem feed_retryLines {line value : List UInt8} (noBreak : 10 ∉ line) (atStart : parser.line = [])
    (rest : List UInt8) :
    ∃ retry hasRetry,
      feed callback parser (fieldLinesFrom retryField line value ++ rest) =
        feed callback { parser with retry := retry, hasRetry := hasRetry } rest := by
  have single : ∀ parser : Parser, parser.line = [] → ∀ line, 10 ∉ line → ∀ rest,
      ∃ retry hasRetry, feed callback parser (fieldLine retryField line ++ rest) =
        feed callback { parser with retry := retry, hasRetry := hasRetry } rest := by
    intro parser atStart line noBreak rest
    rw [feed_fieldLine fieldName_retry noBreak atStart, applyField]
    cases parseRetry (stripReturn (stripReturn line)) with
    | none => exact ⟨parser.retry, parser.hasRetry, rfl⟩
    | some retry => exact ⟨retry, true, rfl⟩
  induction value generalizing line parser with
  | nil => exact single parser atStart line noBreak rest
  | cons byte value ih =>
    rw [fieldLinesFrom]
    by_cases isBreak : byte = 10
    · rw [if_pos isBreak]
      cases value with
      | nil =>
        rw [isEmpty_nil, if_pos rfl, append_nil]
        exact single parser atStart line noBreak rest
      | cons next value =>
        rw [isEmpty_cons, if_neg Bool.false_ne_true, append_assoc]
        obtain ⟨_, _, first⟩ := single parser atStart line noBreak
          (fieldLinesFrom retryField [] (next :: value) ++ rest)
        rw [first]
        exact ih not_mem_nil atStart
    · rw [if_neg isBreak]
      refine ih ?_ atStart
      simp only [mem_append, mem_singleton, not_or]
      exact ⟨noBreak, Ne.symm isBreak⟩

end Values

section Events

variable {data : CString}

/-- A parser that has not begun an event. -/
structure Between (parser : Parser) : Prop where
  line : parser.line = []
  data : parser.data = none
  event : parser.event = none
  id : parser.id = none

/-- A value without a line break of either kind. -/
def SingleLine (value : CString) : Prop :=
  13 ∉ value.bytes ∧ 10 ∉ value.bytes

/-- Exactly one message was handed on, with the name, id and data that were sent. A missing
and an empty name are the same. -/
def DeliversOnce (fed : Fed) (data : CString) (event id : Option CString) : Prop :=
  ∃ message, fed.messages = [message] ∧ message.event.getD [] = (event.map CString.bytes).getD [] ∧
    message.id = id.map CString.bytes ∧
    message.data = data.bytes

/-- The line of the name. -/
theorem feed_eventLines
    {event : Option CString} (single : ∀ value ∈ event, SingleLine value) (between : Between parser)
    (rest : List UInt8) :
    ∃ named, (named.map readString).getD [] = (event.map CString.bytes).getD [] ∧
      feed callback parser (optionalLines eventField event ++ rest) =
        feed callback { parser with event := named } rest := by
  have unnamed : { parser with event := none } = parser := by rw [← between.event]
  cases event with
  | none => exact ⟨none, rfl, by rw [unnamed]; rfl⟩
  | some value =>
    rw [optionalLines]
    by_cases empty : value.bytes.isEmpty = true
    · refine ⟨none, ?_, by rw [if_pos empty, unnamed]; rfl⟩
      exact (isEmpty_iff.mp empty).symm
    · obtain ⟨noReturn, noBreak⟩ := single value rfl
      refine ⟨some value.bytes, readString_of_noNul value.noNul, ?_⟩
      rw [if_neg empty, feed_fieldLines_single fieldName_event noReturn noBreak between.line,
        applyField, if_neg (by decide), if_pos rfl]

/-- The line of the id. -/
theorem feed_idLines
    {id : Option CString} (single : ∀ value ∈ id, SingleLine value) (atStart : parser.line = [])
    (unset : parser.id = none) (rest : List UInt8) :
    feed callback parser (idLines id ++ rest) =
      feed callback { parser with id := id.map CString.bytes } rest := by
  cases id with
  | none =>
    rw [Option.map_none, ← unset]
    rfl
  | some value =>
    obtain ⟨noReturn, noBreak⟩ := single value rfl
    have noNul : ¬ value.bytes.contains 0 = true := by simpa using value.noNul
    rw [idLines, feed_fieldLines_single fieldName_id noReturn noBreak atStart, applyField,
      if_neg noNul]
    rfl

/-- The lines of a retry that may be missing. -/
theorem feed_optionalRetry
    (retry : Option CString) (atStart : parser.line = []) (rest : List UInt8) :
    ∃ value hasRetry,
      feed callback parser (optionalLines retryField retry ++ rest) =
        feed callback { parser with retry := value, hasRetry := hasRetry } rest := by
  cases retry with
  | none => exact ⟨parser.retry, parser.hasRetry, rfl⟩
  | some value =>
    rw [optionalLines]
    split_ifs
    · exact ⟨parser.retry, parser.hasRetry, rfl⟩
    · exact feed_retryLines not_mem_nil atStart rest

theorem withoutLastBreak_brokenLines (data : CString) :
    withoutLastBreak (brokenLines data.bytes) =
      if data.bytes.getLast? = some 10 then data.bytes.dropLast else data.bytes := by
  have noNul : 0 ∉ brokenLines data.bytes := by
    rw [brokenLines]
    split_ifs
    · exact data.noNul
    · simpa using data.noNul
  rw [withoutLastBreak, readString_of_noNul noNul, brokenLines]
  by_cases broken : data.bytes.getLast? = some 10
  · rw [if_pos broken]
  · rw [if_neg broken, if_neg broken, if_pos (by simp), dropLast_concat]

/-- Where the lines of an event leave the parser. -/
theorem feed_formatEvent {event id : Option CString} (retry : Option CString)
    (singleEvent : ∀ value ∈ event, SingleLine value) (singleId : ∀ value ∈ id, SingleLine value)
    (noReturn : 13 ∉ data.bytes) (between : Between parser) :
    ∃ named value hasRetry,
      (named.map readString).getD [] = (event.map CString.bytes).getD [] ∧
      feed callback parser (formatEvent (some data) event id retry) =
        feed callback
          { parser with
            data := some (brokenLines data.bytes)
            event := named
            id := id.map CString.bytes
            retry := value
            hasRetry := hasRetry } [10] := by
  simp only [formatEvent, append_assoc]
  obtain ⟨named, sameName, feedEvent⟩ := feed_eventLines singleEvent between
    (idLines id ++ (optionalLines retryField retry ++ (fieldLines dataField data.bytes ++ [10])))
  obtain ⟨value, hasRetry, feedRetry⟩ := @feed_optionalRetry callback
    { parser with event := named, id := id.map CString.bytes } retry between.line
    (fieldLines dataField data.bytes ++ [10])
  refine ⟨named, value, hasRetry, sameName, ?_⟩
  refine feedEvent.trans (Eq.trans ?_ (feedRetry.trans ?_))
  · exact @feed_idLines callback { parser with event := named } id singleId between.line
      between.id _
  · have unset : parser.data.getD [] = [] := by
      rw [between.data]
      rfl
    refine feed_dataLines ?_ not_mem_nil ?_ not_mem_nil ?_ ?_ [10]
    · exact noReturn
    · exact data.noNul
    · exact between.line
    · exact unset

/-- An empty line hands on what was collected. -/
theorem messages_emptyLine
    {data : List UInt8} (atStart : parser.line = []) (collected : parser.data = some data) :
    (feed callback parser [10]).messages = [messageOf parser data] := by
  have dispatches : processLine callback parser parser.line = dispatchEvent callback parser := by
    rw [atStart]
    rfl
  rw [feed, if_pos rfl, dispatches, dispatchEvent, collected, Fed.andThen]
  split_ifs <;> rfl

/-- The one message of a formatted event. -/
theorem messages_formatEvent {event id : Option CString} (retry : Option CString)
    (singleEvent : ∀ value ∈ event, SingleLine value) (singleId : ∀ value ∈ id, SingleLine value)
    (noReturn : 13 ∉ data.bytes) (between : Between parser) :
    ∃ message,
      (feed callback parser (formatEvent (some data) event id retry)).messages = [message] ∧
      message.event.getD [] = (event.map CString.bytes).getD [] ∧
      message.id = id.map CString.bytes ∧
      message.data = if data.bytes.getLast? = some 10 then data.bytes.dropLast
        else data.bytes := by
  obtain ⟨named, value, hasRetry, sameName, fed⟩ :=
    @feed_formatEvent callback parser data event id retry singleEvent singleId noReturn between
  have sameId : (id.map CString.bytes).map readString = id.map CString.bytes := by
    cases id with
    | none => rfl
    | some id => exact congrArg some (readString_of_noNul id.noNul)
  rw [fed]
  exact ⟨_, messages_emptyLine between.line rfl, sameName, sameId,
    withoutLastBreak_brokenLines data⟩

/-- A formatted event comes through any chunking as one message with the same name, id and
data exactly if the data does not end with a line break. -/
theorem deliversOnce_iff
    (callback : Message → Bool) (parser : Parser) (data : CString) (event id retry : Option CString)
    (between : Between parser) (singleEvent : ∀ value ∈ event, SingleLine value)
    (singleId : ∀ value ∈ id, SingleLine value) (noReturn : 13 ∉ data.bytes) :
    (∀ chunks, chunks.flatten = formatEvent (some data) event id retry →
      DeliversOnce (feedChunks callback parser chunks) data event id) ↔
      data.bytes.getLast? ≠ some 10 := by
  obtain ⟨message, one, sameEvent, sameId, received⟩ :=
    @messages_formatEvent callback parser data event id retry singleEvent singleId noReturn between
  constructor
  · intro delivers ends
    obtain ⟨other, oneOther, -, -, sameData⟩ := delivers [formatEvent (some data) event id retry]
      flatten_singleton
    rw [feedChunks_eq, flatten_singleton, one] at oneOther
    obtain rfl : message = other := singleton_inj.mp oneOther
    -- one byte is missing
    rw [sameData, if_pos ends] at received
    have shorter := congrArg length received
    rw [length_dropLast] at shorter
    have nonempty := length_pos_of_mem (mem_of_getLast? ends)
    omega
  · intro unbroken chunks cut
    rw [if_neg unbroken] at received
    refine ⟨message, ?_, sameEvent, sameId, received⟩
    rw [feedChunks_eq, cut, one]

/-- An event with a name, an id and two lines of data. -/
theorem deliversOnce_twoLines :
    DeliversOnce
      (feedChunks (fun _ => true) {}
        [[101, 118, 101, 110, 116, 58, 32, 97, 10, 105, 100, 58, 32, 49, 10, 100, 97],
          [116, 97, 58, 32, 120, 10, 100, 97, 116, 97, 58, 32, 121, 10, 10]])
      ⟨[120, 10, 121], by decide⟩ (some ⟨[97], by decide⟩) (some ⟨[49], by decide⟩) :=
  (deliversOnce_iff (fun _ => true) {} ⟨[120, 10, 121], by decide⟩ (some ⟨[97], by decide⟩)
    (some ⟨[49], by decide⟩) none ⟨rfl, rfl, rfl, rfl⟩
    (by rintro _ ⟨⟩; exact ⟨by decide, by decide⟩) (by rintro _ ⟨⟩; exact ⟨by decide, by decide⟩)
    (by decide)).mpr (by decide) _ (by decide)

/-- Data that ends with a line break arrives without it. -/
theorem not_deliversOnce_trailingBreak :
    ¬ ∀ chunks, chunks.flatten = formatEvent (some ⟨[97, 10], by decide⟩) none none none →
      DeliversOnce (feedChunks (fun _ => true) {} chunks) ⟨[97, 10], by decide⟩ none none := by
  intro delivers
  obtain ⟨message, one, -, -, received⟩ := delivers
    [formatEvent (some ⟨[97, 10], by decide⟩) none none none] flatten_singleton
  have arrives : (feedChunks (fun _ => true) {}
      [formatEvent (some ⟨[97, 10], by decide⟩) none none none]).messages =
      [⟨[97], none, none, 0, false⟩] := by decide
  rw [arrives] at one
  rw [← singleton_inj.mp one] at received
  exact absurd received (by decide)

end Events

end AntRuntime.Sse
