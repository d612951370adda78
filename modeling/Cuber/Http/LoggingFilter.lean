import Cuber.Base.LogInsertion
import Cuber.Http.Acceptance
import Cuber.Http.Response
import Cuber.Net.ConnectionNames

/-!
# The access log

`HttpLoggingFilter` writes a record for each response to a log stream and hands
it to the access logger, and a second one to the error logger where the server
is to blame.  The path and the `User-Agent` of a record are the client's own
bytes.  They may have line feeds in them, and as they get long they push the
line feed at the end out of the stream.  The records are those that the
insertions leave in the memory of the streams.
-/

namespace Cuber.LoggingFilter

open Cuber.Acceptance
open Cuber.Buffer
open Cuber.Config
open Cuber.ConnectionNames
open Cuber.Context
open Cuber.Execution
open Cuber.Headers
open Cuber.LogInsertion
open Cuber.LogStreams
open Cuber.Maps
open Cuber.Memory
open Cuber.Request
open Cuber.Response
open Cuber.Runs
open Cuber.Text

/-! ## Times -/

/-- A moment in the calendar, with the year and the month as they are printed. -/
structure LogTime where
  year : ℕ
  mon : ℕ
  mday : ℕ
  hour : ℕ
  min : ℕ
  sec : ℕ
  microseconds : ℕ
  year_lt : year < 10 ^ 4
  fields_lt : ∀ field ∈ [mon, mday, hour, min, sec], field < 10 ^ 2
  microseconds_lt : microseconds < 10 ^ 6

def padded (pad : Byte) (width value : ℕ) : Bytes :=
  (decimalText value).leftpad width pad

namespace LogTime

def date (time : LogTime) : Bytes :=
  padded SP 4 time.year ++ padded digitZero 2 time.mon ++ padded digitZero 2 time.mday ++
    SP :: (padded digitZero 2 time.hour ++ colon :: (padded digitZero 2 time.min ++
      colon :: padded digitZero 2 time.sec))

/-- `us`, with a valid time zone or without. -/
def us (time : LogTime) (zone : Bool) : Bytes :=
  dot :: (padded digitZero 6 time.microseconds ++ if zone then ascii " " else ascii "Z ")

def formatTime (time : LogTime) (zone : Bool) : Bytes :=
  time.date ++ time.us zone

end LogTime

theorem length_padded {pad : Byte} {width value : ℕ} (hwidth : 0 < width)
    (hvalue : value < 10 ^ width) : (padded pad width value).length = width := by
  have hdigits := length_decimalText_le hwidth hvalue
  rw [padded, List.length_leftpad]
  omega

theorem LF_not_mem_padded {pad : Byte} (hpad : pad ≠ LF) (width value : ℕ) :
    LF ∉ padded pad width value := by
  rw [padded, List.leftpad, List.mem_append]
  rintro (hmem | hmem)
  · exact hpad (List.eq_of_mem_replicate hmem).symm
  · exact not_mem_decimalText (by decide) value hmem

/-- The assertions of `formatTime`. -/
theorem LogTime.length_date (time : LogTime) : time.date.length = 17 := by
  have hfield : ∀ field ∈ [time.mon, time.mday, time.hour, time.min, time.sec],
      (padded digitZero 2 field).length = 2 := fun field hmem =>
    length_padded (by decide) (time.fields_lt field hmem)
  simp only [date, List.length_append, List.length_cons,
    length_padded (show 0 < 4 by decide) time.year_lt, hfield time.mon (by simp),
    hfield time.mday (by simp), hfield time.hour (by simp), hfield time.min (by simp),
    hfield time.sec (by simp)]

theorem LogTime.length_us (time : LogTime) (zone : Bool) :
    (time.us zone).length = if zone then 8 else 9 := by
  have hdigits : (padded digitZero 6 time.microseconds).length = 6 :=
    length_padded (by decide) time.microseconds_lt
  cases zone <;> simp [us, hdigits, ascii]

theorem LogTime.LF_not_mem_formatTime (time : LogTime) (zone : Bool) :
    LF ∉ time.formatTime zone := by
  have hzero := LF_not_mem_padded (show digitZero ≠ LF by decide)
  have hspace := LF_not_mem_padded (show SP ≠ LF by decide)
  have hend : LF ∉ (if zone then ascii " " else ascii "Z ") := by
    cases zone <;> decide
  simp only [formatTime, date, us, List.mem_append, List.mem_cons, hzero, hspace, hend]
  decide

/-! ## Records -/

/-- What a record is written from. -/
structure Logged where
  peerAddress : InetAddress
  now : LogTime
  /-- `g_logTimeZone` is valid. -/
  zone : Bool
  request : HttpRequest
  response : HttpResponse
  responseSize : Int32

namespace Logged

variable (logged : Logged)

def statusCode : Int32 := Int32.ofInt logged.response.statusCode

def userAgent : Bytes := logged.request.getHeader (ascii "User-Agent")

/-- What the record for the access logger has before the request line. -/
def opening : List Piece :=
  [.text logged.peerAddress.ip, .text (ascii " ["), .text (logged.now.formatTime logged.zone),
    .text (ascii "] \"")]

/-- What it has between the request line and the `User-Agent`. -/
def middle : List Piece :=
  [.text (ascii "\" "), .number logged.statusCode, .text (ascii " "),
    .number logged.responseSize, .text (ascii " \"")]

/-- What it has before the `User-Agent`.  `reqLineToString` is the request line that
`appendToBuffer` writes. -/
def untilAgent : List Piece :=
  logged.opening ++ .text logged.request.requestLine :: logged.middle

/-- What it has before its end. -/
def untilEnd : List Piece := logged.untilAgent ++ [.text logged.userAgent]

def closing : Piece := .text (ascii "\"\n")

def accessPieces : List Piece := logged.untilEnd ++ [closing]

def access : LogStream := write .new logged.accessPieces

def orMinus (text : Bytes) : Bytes :=
  if text = [] then ascii "-" else text

/-- What is inserted for the error logger. -/
def errorPieces : List Piece :=
  [.text (ascii "["), .text (logged.now.formatTime logged.zone), .text (ascii "] [error] "),
    .number logged.statusCode, .text (ascii " "), .text logged.response.statusMessage,
    .text (ascii ", "), .text (ascii "error msg: ["),
    .text (orMinus logged.response.serverErrorMsg), .text (ascii "], "),
    .text (ascii "client: "), .text logged.peerAddress.toIpPort, .text (ascii ", "),
    .text (ascii "server: "), .text (orMinus (logged.request.getHeader (ascii "Host"))),
    .text (ascii ", "), .text (ascii "request: \""), .text logged.request.requestLine,
    .text (ascii "\"\n")]

def error : LogStream := write .new logged.errorPieces

end Logged

structure Records where
  access : Option Bytes := none
  error : Option Bytes := none
  deriving DecidableEq

def HttpLoggingFilter.filter (config : ServerConfig) (logged : Logged) : Records :=
  let existLogger := fun name => (config.loggersConfig.find? name).isSome
  if config.loggersConfig.entries = [] then {}
  else
    { access := if existLogger (ascii "access") then some logged.access.data else none
      error :=
        if logged.response.statusCode ≥ k500InternalServerError ∧
            existLogger (ascii "error") then
          some logged.error.data
        else none }

/-! ## One line for each record -/

/-- A record ends with its only line feed. -/
def IsOneLine (record : Bytes) : Prop :=
  record.count LF = 1 ∧ record.getLast? = some LF

namespace Logged

/-- The lengths of the pieces leave room for the line feed at the end, and the client's
bytes have none of their own where there is room for them. -/
structure FitsOneLine (logged : Logged) : Prop where
  closed : used 0 logged.untilEnd + 2 < kSmallBuffer
  path : LF ∈ logged.request.path →
    kSmallBuffer ≤ used 0 logged.opening + logged.request.requestLine.length
  agent : LF ∈ logged.userAgent →
    kSmallBuffer ≤ used 0 logged.untilAgent + logged.userAgent.length

section Records

variable {logged : Logged}

theorem LF_not_mem_opening : ∀ piece ∈ logged.opening, LF ∉ piece.bytes := by
  have hip : LF ∉ logged.peerAddress.ip := fun hmem =>
    absurd (logged.peerAddress.ip_text LF hmem) (by decide)
  have htime := logged.now.LF_not_mem_formatTime logged.zone
  simp only [opening, List.forall_mem_cons, Piece.bytes]
  exact ⟨hip, by decide, htime, by decide, by simp⟩

theorem LF_not_mem_middle : ∀ piece ∈ logged.middle, LF ∉ piece.bytes := by
  simp only [middle, List.forall_mem_cons, Piece.bytes]
  have hnumber := @not_mem_intText LF (by decide) (by decide)
  exact ⟨by decide, hnumber _, by decide, hnumber _, by decide, by simp⟩

theorem LF_mem_requestLine_iff (request : HttpRequest) :
    LF ∈ request.requestLine ↔ LF ∈ request.path := by
  have hmethod : LF ∉ request.methodString := by
    rw [HttpRequest.methodString]
    cases request.method <;> decide
  have hversion : LF ∉ request.versionString := by
    rw [HttpRequest.versionString]
    cases request.version <;> decide
  have hspace : LF ≠ SP := by decide
  simp [HttpRequest.requestLine, hmethod, hversion, hspace]

theorem getLast?_requestLine_ne (request : HttpRequest) :
    request.requestLine.getLast? ≠ some LF := by
  have hversion : ∃ last, (SP :: request.versionString).getLast? = some last ∧ last ≠ LF := by
    rw [HttpRequest.versionString]
    cases request.version <;> exact ⟨_, rfl, by decide⟩
  obtain ⟨last, hlast, hne⟩ := hversion
  rw [HttpRequest.requestLine, ← List.cons_append, ← List.append_assoc, List.getLast?_append,
    hlast, Option.some_or, ne_eq, Option.some.injEq]
  exact hne

theorem getLast?_ne_of_not_mem {text : Bytes} (hmem : LF ∉ text) : text.getLast? ≠ some LF :=
  fun hlast => hmem (List.mem_of_getLast? hlast)

theorem length_write_new (pieces : List Piece) :
    (write .new pieces).data.length = used 0 pieces :=
  length_write .new pieces

theorem LF_mem_untilAgent_iff :
    LF ∈ (write .new logged.untilAgent).data ↔
      used 0 logged.opening + logged.request.requestLine.length < kSmallBuffer ∧
        LF ∈ logged.request.path := by
  have hopening : LF ∉ (write .new logged.opening).data := by
    rw [mem_write_iff LF_not_mem_opening]
    exact List.not_mem_nil
  rw [untilAgent, write_append, write_cons, mem_write_iff LF_not_mem_middle, mem_put_iff,
    length_write_new]
  simp only [hopening, false_or, Piece.bytes, LF_mem_requestLine_iff]
  rfl

theorem LF_mem_untilEnd_iff :
    LF ∈ (write .new logged.untilEnd).data ↔
      (used 0 logged.opening + logged.request.requestLine.length < kSmallBuffer ∧
        LF ∈ logged.request.path) ∨
      used 0 logged.untilAgent + logged.userAgent.length < kSmallBuffer ∧
        LF ∈ logged.userAgent := by
  rw [untilEnd, write_concat, mem_put_iff, length_write_new, LF_mem_untilAgent_iff]
  rfl

/-- Without its end a record does not end in a line feed. -/
theorem getLast?_untilEnd_ne (hagent : logged.userAgent.getLast? ≠ some LF) :
    (write .new logged.untilEnd).data.getLast? ≠ some LF := by
  apply getLast?_write_ne
  · simp [FixedBuffer.new]
  · simp only [untilEnd, untilAgent, List.forall_mem_append, List.forall_mem_cons, Piece.bytes]
    refine ⟨⟨fun piece hpiece => ?_, getLast?_requestLine_ne _, fun piece hpiece => ?_⟩,
      hagent, by simp⟩
    · exact getLast?_ne_of_not_mem (LF_not_mem_opening piece hpiece)
    · exact getLast?_ne_of_not_mem (LF_not_mem_middle piece hpiece)

/-- A record is one line just if its pieces fit one. -/
theorem isOneLine_access_iff (hagent : logged.userAgent.getLast? ≠ some LF) :
    IsOneLine logged.access.data ↔ logged.FitsOneLine := by
  have hneed : closing.need = 3 := rfl
  rw [IsOneLine, access, accessPieces, write_concat, data_put, length_write_new, hneed]
  split_ifs with hroom
  · have hcount : closing.bytes.count LF = 1 := rfl
    have hend : ((write .new logged.untilEnd).data ++ closing.bytes).getLast? = some LF := by
      rw [List.getLast?_append]
      rfl
    rw [List.count_append, hcount, Nat.add_eq_right, List.count_eq_zero, LF_mem_untilEnd_iff]
    constructor
    · rintro ⟨hclean, _⟩
      refine ⟨by omega, fun hpath => ?_, fun hagent => ?_⟩
      · by_contra hfits
        exact hclean (Or.inl ⟨Nat.lt_of_not_le hfits, hpath⟩)
      · by_contra hfits
        exact hclean (Or.inr ⟨Nat.lt_of_not_le hfits, hagent⟩)
    · intro hfits
      refine ⟨?_, hend⟩
      rintro (⟨hroom, hpath⟩ | ⟨hroom, hagent⟩)
      · exact Nat.not_le_of_lt hroom (hfits.path hpath)
      · exact Nat.not_le_of_lt hroom (hfits.agent hagent)
  · apply iff_of_false
    · exact fun hline => getLast?_untilEnd_ne hagent hline.2
    · intro hfits
      have hclosed := hfits.closed
      omega

end Records

end Logged

/-- What a client sends for a field does not end with a line feed when it is stored. -/
theorem getLast?_getHeader_ne {old context : HttpContext} {bytes rest : Bytes}
    (hparse : parseRequest old.reset bytes = .ret ⟨.kParseOK, context, rest⟩)
    (field : Bytes) : (context.request.getHeader field).getLast? ≠ some LF := by
  obtain ⟨head, _, rfl⟩ := exists_requestHead_of_accepted hparse
  have hclean : IsClean head.decoded.headers :=
    isClean_storeLines isClean_empty head.isHeaderLines
  rw [HttpRequest.getHeader, valueOf]
  cases hfind : head.decoded.headers.find? field with
  | none => simp
  | some value =>
      have hvalue : trim value = value :=
        (hclean _ (OrderedMap.find?_eq_some_iff.mp hfind)).value_trim
      rw [Option.getD_some, ← hvalue]
      exact getLast?_trim_ne (by decide) value

theorem access_filter {config : ServerConfig}
    (hlogger : (config.loggersConfig.find? (ascii "access")).isSome) (logged : Logged) :
    (HttpLoggingFilter.filter config logged).access = some logged.access.data := by
  have hloggers : config.loggersConfig.entries ≠ [] := by
    obtain ⟨info, hinfo⟩ := Option.isSome_iff_exists.mp hlogger
    exact List.ne_nil_of_mem (OrderedMap.find?_eq_some_iff.mp hinfo)
  rw [HttpLoggingFilter.filter, if_neg hloggers]
  exact if_pos hlogger

theorem access_of_filter {config : ServerConfig} {logged : Logged} {record : Bytes}
    (hrecord : (HttpLoggingFilter.filter config logged).access = some record) :
    logged.access.data = record := by
  simp only [HttpLoggingFilter.filter] at hrecord
  split_ifs at hrecord <;> exact Option.some.inj hrecord

theorem error_of_filter {config : ServerConfig} {logged : Logged} {record : Bytes}
    (hrecord : (HttpLoggingFilter.filter config logged).error = some record) :
    logged.error.data = record := by
  simp only [HttpLoggingFilter.filter] at hrecord
  split_ifs at hrecord <;> exact Option.some.inj hrecord

/-- The record of an accepted request is one line just if there is room for its end, and
the client sent no line feed that is written to it. -/
theorem isOneLine_iff {old context : HttpContext} {bytes rest : Bytes}
    (hparse : parseRequest old.reset bytes = .ret ⟨.kParseOK, context, rest⟩)
    {config : ServerConfig} {logged : Logged} (hrequest : logged.request = context.request)
    {record : Bytes} (hrecord : (HttpLoggingFilter.filter config logged).access = some record) :
    IsOneLine record ↔ logged.FitsOneLine := by
  have hagent : logged.userAgent.getLast? ≠ some LF := by
    rw [Logged.userAgent, hrequest]
    exact getLast?_getHeader_ne hparse _
  rw [← access_of_filter hrecord]
  exact Logged.isOneLine_access_iff hagent

/-! ## The memory of the streams -/

/-- Insertions write a record, whatever the array of the stream has held before. -/
def Inserts (pieces : List Piece) (record : Bytes) : Prop :=
  ∀ data : Block Byte kSmallBuffer, ∃ stream : Stream,
    runFrom Stream.insert { data, cur := 0 } (pieces.map ofPiece) = .ret stream ∧
      stream.content = record

theorem inserts_write (pieces : List Piece) : Inserts pieces (write .new pieces).data :=
  fun _ => content_ofPiece (Nat.zero_le _) rfl pieces

def accessConfig : ServerConfig := ServerConfig.addLoggerInfo {} (ascii "access") {}

theorem existsLogger_access :
    (accessConfig.loggersConfig.find? (ascii "access")).isSome := by
  decide +kernel

/-- The answer to a request from the local network. -/
def answered (request : HttpRequest) : Logged where
  peerAddress := ⟨ascii "192.168.1.20", httpPort, by rw [IsIpText]; decide +kernel, by decide⟩
  now := ⟨2024, 2, 29, 12, 30, 15, 250, by decide, by decide, by decide⟩
  zone := false
  request := request
  response := HttpResponse.setStatusCode {} k200Ok
  responseSize := 77

def rootRequest : HttpRequest :=
  { method := .kGet, version := .kHttp11, path := ascii "/", locationEndPos := 1 }

theorem root_is_one_line : IsOneLine (answered rootRequest).access.data := by
  have hparse : parseRequest ({} : HttpContext).reset (ascii "GET / HTTP/1.1\r\n\r\n") =
      .ret ⟨.kParseOK, ⟨.kGotAll, rootRequest⟩, []⟩ := by decide +kernel
  apply (isOneLine_iff hparse rfl (access_filter existsLogger_access _)).mpr
  constructor
  · decide +kernel
  · decide +kernel
  · decide +kernel

def splitRequest : HttpRequest :=
  { method := .kGet, version := .kHttp11, path := ascii "/a\nb", locationEndPos := 4 }

/-- A line feed in a path makes two lines of a record. -/
theorem line_feed_splits_record :
    parseRequest {} (ascii "GET /a\nb HTTP/1.1\r\n\r\n") =
        .ret ⟨.kParseOK, ⟨.kGotAll, splitRequest⟩, []⟩ ∧
      ∃ record, (HttpLoggingFilter.filter accessConfig (answered splitRequest)).access =
        some record ∧ ¬ IsOneLine record := by
  refine ⟨by decide +kernel, _, access_filter existsLogger_access _, ?_⟩
  rintro ⟨hcount, _⟩
  exact absurd hcount (by decide +kernel)

end Cuber.LoggingFilter
