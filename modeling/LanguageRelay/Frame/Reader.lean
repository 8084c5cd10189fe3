import LanguageRelay.Json.Syntax
import LanguageRelay.Text.Blank
import LanguageRelay.Text.Bytes
import LanguageRelay.Text.Natural
namespace LanguageRelay.Frame
open Text

def maximumLength : Nat := 4194304

inductive ReadError where
  | headerNotText
  | headersCut
  | badLength
  | noLength
  | tooLong (length : Nat)
  | bodyCut
  | bodyNotText
  | bodyNotJson
deriving DecidableEq, Repr

def ReadError.message : ReadError → String
  | .headerNotText => "reading header line"
  | .headersCut => "unexpected EOF while reading headers"
  | .badLength => "invalid Content-Length value"
  | .noLength => "missing Content-Length header"
  | .tooLong length => s!"Content-Length {length} exceeds maximum {maximumLength}"
  | .bodyCut => "reading frame body"
  | .bodyNotText => "frame body is not UTF-8"
  | .bodyNotJson => "parsing JSON-RPC frame"

inductive Outcome where
  | frame (body : String)
  | ended
  | failed (error : ReadError)
deriving DecidableEq, Repr

-- What has been read of a frame; bytes are held in reverse. In the headers `started` says that a
-- line has been read, in the body `missing` counts the bytes still to come.
inductive State where
  | headers (line : Bytes) (length : Option Nat) (started : Bool)
  | body (missing : Nat) (taken : Bytes)
deriving DecidableEq, Repr

def State.start : State := .headers [] none false

inductive Progress where
  | more (state : State)
  | done (outcome : Outcome)
deriving DecidableEq, Repr

def splitColon? (chars : List Char) : Option (List Char × List Char) :=
  match chars.dropWhile (· != ':') with
  | _ :: value => some (chars.takeWhile (· != ':'), value)
  | [] => none

def lowerAscii (c : Char) : Char := if c.isUpper then Char.ofNat (c.toNat + 32) else c

def lengthName : List Char := "content-length".toList

-- What a header line says about the length: nothing, or a value that may not be a number.
def lengthOfLine (line : List Char) : Option (Option Nat) :=
  match splitColon? line with
  | some (name, value) =>
    if (trimChars name).map lowerAscii = lengthName then
      some (unsigned? greatest64 (String.ofList (trimChars value)))
    else none
  | none => none

def finishBody (bytes : Bytes) : Outcome :=
  match utf8Decode? bytes with
  | none => .failed .bodyNotText
  | some body => if Json.isWellFormed body then .frame body else .failed .bodyNotJson

def endHeaders : Option Nat → Progress
  | none => .done (.failed .noLength)
  | some length =>
    if maximumLength < length then .done (.failed (.tooLong length))
    else if length = 0 then .done (finishBody [])
    else .more (.body length [])

def endLine (line : Bytes) (length : Option Nat) : Progress :=
  match utf8Decode? line with
  | none => .done (.failed .headerNotText)
  | some text =>
    let trimmed := trimChars text.toList
    if trimmed = [] then endHeaders length
    else
      match lengthOfLine trimmed with
      | none => .more (.headers [] length true)
      | some none => .done (.failed .badLength)
      | some (some value) => .more (.headers [] (some value) true)

def State.push (state : State) (byte : UInt8) : Progress :=
  match state with
  | .headers line length started =>
    if byte = 10 then endLine (byte :: line).reverse length
    else .more (.headers (byte :: line) length started)
  | .body missing taken =>
    if missing ≤ 1 then .done (finishBody (byte :: taken).reverse)
    else .more (.body (missing - 1) (byte :: taken))

-- The end of the stream. A last line without a line feed still counts as a line.
def State.finish : State → Outcome
  | .headers [] _ started => if started then .failed .headersCut else .ended
  | .headers line length _ =>
    match endLine line.reverse length with
    | .done outcome => outcome
    | .more (.headers _ _ _) => .failed .headersCut
    | .more (.body _ _) => .failed .bodyCut
  | .body _ _ => .failed .bodyCut

-- Takes bytes until a frame is decided or the bytes are used up; also gives the bytes left.
def State.feed : State → Bytes → Progress × Bytes
  | state, [] => (.more state, [])
  | state, byte :: rest =>
    match state.push byte with
    | .more next => feed next rest
    | .done outcome => (.done outcome, rest)

-- Reads on from a state in a stream that arrives in pieces; also gives the pieces left.
def State.read : State → List Bytes → Outcome × List Bytes
  | state, [] => (state.finish, [])
  | state, piece :: pieces =>
    match state.feed piece with
    | (.more next, _) => read next pieces
    | (.done outcome, rest) => (outcome, rest :: pieces)

def read (pieces : List Bytes) : Outcome × List Bytes := State.start.read pieces

def goesOn (pastErrors : Bool) : Outcome → Bool
  | .frame _ => true
  | .ended => false
  | .failed _ => pastErrors

-- Reads frames until the end of the stream or, unless errors are passed over, the first error; at
-- most `limit` reads are made.
def readAll (pastErrors : Bool) : Nat → List Bytes → List Outcome
  | 0, _ => []
  | limit + 1, pieces =>
    match read pieces with
    | (outcome, rest) =>
      if goesOn pastErrors outcome then outcome :: readAll pastErrors limit rest else [outcome]

end LanguageRelay.Frame
