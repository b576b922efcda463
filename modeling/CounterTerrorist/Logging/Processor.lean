import CounterTerrorist.Core.Stringify
import CounterTerrorist.Logging.Redactor

/-!
# `LogProcessor.process`

A log entry is redacted, sanitised and put into a line. Only the message and the strings of the
payload are redacted; the caller, the time stamp, the keys of the payload and its numbers are
printed as they are. And the message is redacted before it is sanitised.
-/

namespace Logging

open Core Patterns

/-! ### Entries -/

/-- `LogType`. -/
inductive LogType
  | debug
  | audit
  | activity
  | generic
deriving Repr, DecidableEq

/-- `type.toUpperCase()`. -/
def LogType.upper : LogType → Text
  | .debug => "DEBUG".toList
  | .audit => "AUDIT".toList
  | .activity => "ACTIVITY".toList
  | .generic => "GENERIC".toList

/-- `LogSeverity`. -/
inductive LogSeverity
  | info
  | success
  | warning
  | error
  | debug
  | critical
deriving Repr, DecidableEq

/-- `severity.toLowerCase()`. -/
def LogSeverity.lower : LogSeverity → Text
  | .info => "info".toList
  | .success => "success".toList
  | .warning => "warning".toList
  | .error => "error".toList
  | .debug => "debug".toList
  | .critical => "critical".toList

/-- `severityMap`. -/
def LogSeverity.level : LogSeverity → ℕ
  | .info => 6
  | .success => 5
  | .warning => 4
  | .error => 3
  | .debug => 7
  | .critical => 2

/-- The payload of an entry. -/
inductive Payload
  /-- A value that `JSON.stringify` takes. -/
  | value (v : JsTree)
  /-- A value that `JSON.stringify` throws at, because there is a `BigInt` in it. -/
  | complex
deriving Repr

/-- `LogEntry`. The empty text stands for a caller that is missing. -/
structure LogEntry where
  timestamp : Text
  type : Option LogType
  severity : Option LogSeverity
  caller : Text
  message : Text
  payload : Option Payload
  formatted : Option Text
  fromAudit : Bool
deriving Repr

/-! ### Sanitising -/

/-- What ends an escape sequence: `[0-9A-ORZcf-nqry=><]`. -/
def isAnsiFinal (c : Char) : Bool :=
  c.isDigit || ('A' ≤ c && c ≤ 'O') || c == 'R' || c == 'Z' || c == 'c' || ('f' ≤ c && c ≤ 'n') ||
    c == 'q' || c == 'r' || c == 'y' || c == '=' || c == '>' || c == '<'

/-- An escape sequence:
`[\u001b\u009b][[()#;?]*(?:[0-9]{1,4}(?:;[0-9]{0,4})*)?[0-9A-ORZcf-nqry=><]`. -/
def ansi : Pattern Char :=
  let digit := one Char.isDigit
  let parameters := seq (oneTo 3 digit) (star (seq (one (· == ';')) (upTo 4 digit)))
  seq (one fun c ↦ c.toNat == 0x1b || c.toNat == 0x9b)
    (seq (star (one fun c ↦ c ∈ ['\x5b', '(', ')', '#', ';', '?']))
      (seq (opt parameters) (one isAnsiFinal)))

/-- Line breaks: `[\r\n]+`. -/
def lineBreaks : Pattern Char :=
  let lineBreak := one fun c ↦ c == '\r' || c == '\n'
  seq lineBreak (star lineBreak)

/-- A control character: `[\x00-\x08\x0B-\x1F\x7F]`. -/
def isControl (c : Char) : Bool :=
  c.toNat ≤ 8 || (11 ≤ c.toNat && c.toNat ≤ 31) || c.toNat == 127

/-- `sanitize`. -/
def sanitize (text : Text) : Text :=
  let noAnsi := replaceAll ansi [] text
  Text.trim (replaceAll (one isControl) [] (replaceAll lineBreaks [' '] noAnsi))

/-! ### Lines -/

/-- What the lines say about the machine. -/
structure Machine where
  hostname : Text
  pid : ℕ

variable (numbers : NumberText) (machine : Machine) (secrets : List Text)

/-- What is printed for a payload. -/
def payloadText : Payload → Text
  | .value v => (v.stringify numbers).getD "undefined".toList
  | .complex => "[Complex Object]".toList

/-- Whether a payload counts as present. -/
def Payload.truthy : Payload → Bool
  | .value v => v.truthy
  | .complex => true

/-- `redactObject` on a payload. -/
def Payload.redact : Payload → Payload
  | .value v => .value (redactObject secrets v)
  | .complex => .complex

/-- What the entry is printed as after redaction and sanitising. -/
structure Fields where
  timestamp : Text
  type : LogType
  severity : LogSeverity
  caller : Text
  message : Text
  payload : Option Payload

/-- The line up to the payload. -/
def Fields.head (f : Fields) : Text :=
  "[".toList ++ f.type.upper ++ "] [".toList ++ f.severity.lower ++ "] [".toList ++
    (if f.caller = [] then "UNKNOWN".toList else f.caller) ++ "] ".toList ++ f.message

/-- The payload at the end of the line. -/
def Fields.tail (f : Fields) : Text :=
  match f.payload with
  | some payload => " | PAYLOAD: ".toList ++ payloadText numbers payload
  | none => []

/-- `formattedMsg`. -/
def Fields.formattedMsg (f : Fields) : Text := f.head ++ f.tail numbers

/-- `pri`. -/
def Fields.pri (f : Fields) : ℕ := 1 * 8 + f.severity.level

/-- `syslogMsg`. -/
def Fields.syslogMsg (f : Fields) : Text :=
  "<".toList ++ numbers.text f.pri ++ ">1 ".toList ++ f.timestamp ++ " ".toList ++
    (if machine.hostname = [] then "unknown".toList else machine.hostname) ++
    " ct-orch ".toList ++ numbers.text machine.pid ++ " - - ".toList ++ f.formattedMsg numbers

/-- Redaction, then sanitising. -/
def fields (entry : LogEntry) : Fields where
  timestamp := entry.timestamp
  type := entry.type.getD .generic
  severity := entry.severity.getD .info
  caller := sanitize entry.caller
  message := sanitize (redact secrets entry.message)
  payload := (entry.payload.filter (·.truthy)).map (·.redact secrets)

/-- What `process` returns, and the entry as it leaves it behind. -/
structure Processed where
  formattedMsg : Text
  syslogMsg : Text
  pri : ℕ
  entry : LogEntry

/-- `process`. -/
def process (entry : LogEntry) : Processed :=
  let f := fields secrets entry
  { formattedMsg := f.formattedMsg numbers
    syslogMsg := f.syslogMsg numbers machine
    pri := f.pri
    entry :=
      { entry with
        message := f.message
        caller := f.caller
        payload := entry.payload.map fun payload ↦
          if payload.truthy then payload.redact secrets else payload
        formatted := some f.head } }

end Logging
