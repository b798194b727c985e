import AntRuntime.Tar.Format

/-!
# The parser of tar streams

`TarParser.feed` takes a piece of the stream and says what it found and how much it has
used. Whatever the bytes are, the path of an entry is empty or was accepted.
-/

namespace AntRuntime.Tar

section Model

inductive ExtractError where
  | decompressionFailed
  | invalidTarHeader
  | ioError
  | outOfMemory
  | pathTooLong
  | unsupportedFormat
  | invalidPath
deriving DecidableEq, Repr

inductive ParserState where
  | readHeader
  | readFileData
  | readPaxData
  | skipPadding
deriving DecidableEq, Repr

/-- The parser; `header` holds the bytes of the header that have been read, and buffers
with a length are the bytes in use. -/
structure TarParser where
  state : ParserState
  header : Bytes
  currentFileRemaining : Nat
  skipBytes : Nat
  stripPrefix : Bytes
  prefixDetected : Bool
  paxData : Bytes
  paxPath : Bytes
  paxLink : Bytes
  paxSize : Option Nat
  entrySize : Nat
deriving DecidableEq, Repr

/-- `TarParser.init`. -/
def TarParser.init (defaultPrefix : Bytes) : TarParser where
  state := .readHeader
  header := []
  currentFileRemaining := 0
  skipBytes := 0
  stripPrefix := defaultPrefix.take 128
  prefixDetected := false
  paxData := []
  paxPath := []
  paxLink := []
  paxSize := none
  entrySize := 0

structure Entry where
  path : Bytes
  mode : Nat
  size : Nat
  entryType : EntryType
  linkTarget : Bytes
deriving DecidableEq, Repr

/-- `ParseResult.Kind`. -/
inductive Kind where
  | needMoreData
  | entry (entry : Entry)
  | fileData (data : Bytes)
  | endOfArchive
  | err (error : ExtractError)
deriving DecidableEq, Repr

variable (parser : TarParser)

/-- A record of a PAX header: the value of a key for the next entry. -/
def TarParser.paxRecord (key value : Bytes) : Except ExtractError TarParser :=
  if key = ascii "path" then
    if validatePath value then .ok { parser with paxPath := value } else .error .invalidPath
  else if key = ascii "linkpath" then
    if validatePath value then .ok { parser with paxLink := value } else .error .invalidPath
  else if key = ascii "size" then
    match parseInt (2 ^ 64) 10 value with
    | some size => .ok { parser with paxSize := some size }
    | none => .error .invalidTarHeader
  else .ok parser

/-- The loop of `parsePax` over the records that are left. -/
def TarParser.parsePaxLoop : Nat → TarParser → Bytes → Except ExtractError TarParser
  | 0, parser, _ => .ok parser
  | _ + 1, parser, [] => .ok parser
  | fuel + 1, parser, records =>
    if 32 ∉ records then .error .invalidTarHeader
    else
      match parseInt (2 ^ 64) 10 (records.takeWhile (· ≠ 32)) with
      | none => .error .invalidTarHeader
      | some length =>
        let space := (records.takeWhile (· ≠ 32)).length
        if length ≤ space + 1 ∨ records.length < length ∨ records.getD (length - 1) 0 ≠ 10 then
          .error .invalidTarHeader
        else
          let record := (records.take (length - 1)).drop (space + 1)
          if 61 ∉ record then .error .invalidTarHeader
          else
            match parser.paxRecord (record.takeWhile (· ≠ 61))
                ((record.dropWhile (· ≠ 61)).drop 1) with
            | .error error => .error error
            | .ok parser => parsePaxLoop fuel parser (records.drop length)

/-- `parsePax`. A record has at least one byte. -/
def TarParser.parsePax : Except ExtractError TarParser :=
  parser.parsePaxLoop parser.paxData.length parser.paxData

/-- The bytes that fill the last block of an entry. -/
def paddingLength (size : Nat) : Nat :=
  (512 - size % 512) % 512

/-- `finishData`. -/
def TarParser.finishData : TarParser :=
  { parser with
    skipBytes := paddingLength parser.entrySize
    state := if 0 < paddingLength parser.entrySize then .skipPadding else .readHeader }

/-- The prefix that the first directory gives. -/
def directoryPrefix (path : Bytes) : Bytes :=
  let start := path.take 127
  if start ≠ [] ∧ start.getLast? ≠ some 47 then start ++ [47] else start

/-- The first directory of the archive sets the prefix. -/
def TarParser.detectPrefix (type : EntryType) (path : Bytes) : TarParser :=
  if parser.prefixDetected = false ∧ type = .directory then
    { parser with stripPrefix := directoryPrefix path, prefixDetected := true }
  else parser

/-- Take the prefix off a path that starts with it. -/
def TarParser.strip (path : Bytes) : Bytes :=
  if parser.stripPrefix <+: path then path.drop parser.stripPrefix.length else path

/-- The name of an entry. -/
def TarParser.entryName (header : Bytes) : Bytes :=
  if parser.paxPath ≠ [] then parser.paxPath else getName header

/-- The target of a link. -/
def TarParser.entryLink (header : Bytes) : Bytes :=
  if parser.paxLink ≠ [] then parser.paxLink else linkname header

/-- The parser before the data of an entry; what PAX headers said is used up. -/
def TarParser.startEntry (size : Nat) : TarParser :=
  { parser with
    paxPath := []
    paxLink := []
    paxSize := none
    entrySize := size
    currentFileRemaining := size
    state := if 0 < size then .readFileData else .readHeader }

/-- The parser before the data of a PAX header. -/
def TarParser.startPax (size : Nat) : TarParser :=
  { parser with
    paxData := []
    entrySize := size
    currentFileRemaining := size
    state := if 0 < size then .readPaxData else .readHeader }

/-- A header of an entry. -/
def TarParser.entryHeader (header : Bytes) (headerSize : Nat)
    (type : EntryType) : TarParser × Kind :=
  let name := parser.entryName header
  let parser := parser.detectPrefix type name
  let path := parser.strip name
  let size := parser.paxSize.getD headerSize
  if path ≠ [] ∧ validatePath path = false then (parser, .err .invalidPath)
  else
    match getMode header with
    | none =>
      ({ parser with paxPath := [], paxSize := none, entrySize := size }, .err .invalidTarHeader)
    | some mode =>
      (parser.startEntry size,
        .entry { path, mode, size, entryType := type, linkTarget := parser.entryLink header })

/-- A complete header block. -/
def TarParser.finishHeader (header : Bytes) : TarParser × Kind :=
  if header.all (· = 0) then (parser, .endOfArchive)
  else
    match getSize header with
    | none => (parser, .err .invalidTarHeader)
    | some headerSize =>
      if typeflag header = 120 then
        if 64 * 1024 < headerSize then (parser, .err .unsupportedFormat)
        else (parser.startPax headerSize, .needMoreData)
      else
        match entryType header with
        | none => (parser, .err .unsupportedFormat)
        | some type => parser.entryHeader header headerSize type

/-- `feed` in the state `read_header`. -/
def TarParser.readHeader (data : Bytes) : TarParser × Kind × Nat :=
  let toCopy := min (512 - parser.header.length) data.length
  let header := parser.header ++ data.take toCopy
  if header.length < 512 then ({ parser with header }, .needMoreData, toCopy)
  else
    let result := { parser with header := [] }.finishHeader header
    (result.1, result.2, toCopy)

/-- The parser after some bytes of an entry. -/
def TarParser.afterData (toRead : Nat) : TarParser :=
  { parser with currentFileRemaining := parser.currentFileRemaining - toRead }

/-- `feed` in the state `read_file_data`. -/
def TarParser.readFileData (data : Bytes) : TarParser × Kind × Nat :=
  let toRead := min parser.currentFileRemaining data.length
  let parser := parser.afterData toRead
  (if parser.currentFileRemaining = 0 then parser.finishData else parser,
    .fileData (data.take toRead), toRead)

/-- The parser after some bytes of a PAX header. -/
def TarParser.afterPax (data : Bytes) : TarParser :=
  { parser.afterData data.length with paxData := parser.paxData ++ data }

/-- The end of a PAX header. -/
def TarParser.finishPax : TarParser × Kind :=
  match parser.parsePax with
  | .error error => (parser, .err error)
  | .ok parsed => (parsed.finishData, .needMoreData)

/-- `feed` in the state `read_pax_data`. -/
def TarParser.readPaxData (data : Bytes) : TarParser × Kind × Nat :=
  let toRead := min parser.currentFileRemaining data.length
  let parser := parser.afterPax (data.take toRead)
  if parser.currentFileRemaining = 0 then (parser.finishPax.1, parser.finishPax.2, toRead)
  else (parser, .needMoreData, toRead)

/-- The parser after some bytes of padding. -/
def TarParser.afterPadding (toSkip : Nat) : TarParser :=
  { parser with
    skipBytes := parser.skipBytes - toSkip
    state := if parser.skipBytes - toSkip = 0 then .readHeader else .skipPadding }

/-- `feed`: after the padding it goes on with the rest of the data, which is then the
start of a header. -/
def TarParser.feed (data : Bytes) : TarParser × Kind × Nat :=
  match parser.state with
  | .readHeader => parser.readHeader data
  | .readFileData => parser.readFileData data
  | .readPaxData => parser.readPaxData data
  | .skipPadding =>
    let toSkip := min parser.skipBytes data.length
    let parser := parser.afterPadding toSkip
    if toSkip < data.length then
      let next := parser.readHeader (data.drop toSkip)
      (next.1, next.2.1, toSkip + next.2.2)
    else (parser, .needMoreData, toSkip)

end Model

section Entries

variable {parser : TarParser} {data : Bytes} {entry : Entry} {header : Bytes}

/-- The path of an entry is empty or accepted. -/
theorem valid_of_entryHeader {type : EntryType}
    (isEntry : (parser.entryHeader header headerSize type).2 = .entry entry) :
    entry.path = [] ∨ validatePath entry.path = true := by
  unfold TarParser.entryHeader at isEntry
  simp only at isEntry
  split at isEntry
  · cases isEntry
  · rename_i accepted
    split at isEntry
    · cases isEntry
    · obtain rfl := Kind.entry.inj isEntry
      by_contra neither
      rw [not_or, Bool.not_eq_true] at neither
      exact accepted neither

theorem valid_of_finishHeader (isEntry : (parser.finishHeader header).2 = .entry entry) :
    entry.path = [] ∨ validatePath entry.path = true := by
  unfold TarParser.finishHeader at isEntry
  by_cases isZero : header.all (· = 0) = true
  · rw [if_pos isZero] at isEntry
    cases isEntry
  · rw [if_neg isZero] at isEntry
    cases sizeEq : getSize header with
    | none => simp [sizeEq] at isEntry
    | some headerSize =>
      simp only [sizeEq] at isEntry
      split_ifs at isEntry
      cases typeEq : entryType header with
      | none => simp [typeEq] at isEntry
      | some type =>
        simp only [typeEq] at isEntry
        exact valid_of_entryHeader isEntry

theorem valid_of_readHeader (isEntry : (parser.readHeader data).2.1 = .entry entry) :
    entry.path = [] ∨ validatePath entry.path = true := by
  unfold TarParser.readHeader at isEntry
  simp only at isEntry
  split_ifs at isEntry
  exact valid_of_finishHeader isEntry

/-- The path of an entry is empty or accepted, whatever was fed before. -/
theorem valid_of_feed (isEntry : (parser.feed data).2.1 = .entry entry) :
    entry.path = [] ∨ validatePath entry.path = true := by
  unfold TarParser.feed at isEntry
  split at isEntry
  · exact valid_of_readHeader isEntry
  · cases isEntry
  · unfold TarParser.readPaxData at isEntry
    simp only at isEntry
    split_ifs at isEntry
    unfold TarParser.finishPax at isEntry
    split at isEntry <;> cases isEntry
  · by_cases more : min parser.skipBytes data.length < data.length
    · rw [if_pos more] at isEntry
      exact valid_of_readHeader isEntry
    · rw [if_neg more] at isEntry
      cases isEntry

end Entries

end AntRuntime.Tar
