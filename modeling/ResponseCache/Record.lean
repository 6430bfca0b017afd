import ResponseCache.Entry
import ResponseCache.StoreError
import ResponseCache.Json.Printer

/-!
# Records

The bytes of an entry in a store outside the process: a JSON object with the content in base64 and
the times as fractional seconds since the epoch.
-/
namespace ResponseCache

def Headers.document (h : Headers) : Json String :=
  .array (h.fields.map fun (name, value) => .array [.text name, .text value])

def Headers.ofDocument? (j : Json.Document) : Option Headers := do
  let fields ← Json.list? (fun
    | .array [name, value] => do some (← Json.text? name, ← Json.text? value)
    | _ => none) j
  some ⟨fields⟩

def Status.document (s : Status) : Json String := .nat s.code

def Status.ofDocument? (j : Json.Document) : Option Status :=
  do ofCode? (← Json.natBelow? (2 ^ 16) j)

namespace Record

/-- Times before the epoch are kept as the epoch. -/
def ofInstant (t : Instant) : Binary64 := .ofDuration (t.since .epoch)

def toInstant (x : Binary64) : Except RecordFault Instant :=
  if x.negative && !x.isZero then .error (.timestampNegative x.plainText)
  else if 2 ^ 64 * Binary64.unitsPerOne ≤ x.units then .error (.timestampTooBig x.plainText)
  else match Instant.ofNanos? x.nanoseconds with
    | some t => .ok t
    | none => .error (.timestampOutOfRange x.plainText)

def seconds (t : Instant) : Json String := .double (ofInstant t)

/-- The bytes of base64 are ASCII. -/
def contentText (bs : Bytes) : String :=
  String.ofList ((Base64.encode bs).map fun b => Char.ofNat b.toNat)

def names : List String :=
  ["etag", "content", "expires_at", "stored_at", "status", "headers", "directives"]

def document (e : Entry) : Json String :=
  .object [
    ("etag", .text e.etag),
    ("content", .text (contentText e.content)),
    ("expires_at", .option seconds e.expiresAt),
    ("stored_at", seconds e.storedAt),
    ("status", e.status.document),
    ("headers", e.headers.document),
    ("directives", e.policy.document)]

def encode (e : Entry) : Bytes := Utf8.encode (document e).compact

/-- The members of a record before content and times are looked into. -/
structure Parts where
  etag : String
  content : String
  expiresAt : Option Binary64
  storedAt : Binary64
  status : Status
  headers : Headers
  policy : Policy

def Parts.ofDocument? (j : Json.Document) : Option Parts := do
  let f ← Json.Fields.ofDocument? names false j
  let etag ← f.required "etag" Json.text?
  let content ← f.required "content" Json.text?
  let expiresAt ← f.optional "expires_at" Json.double?
  let storedAt ← f.orDefault "stored_at" Json.double? .zero
  let status ← f.orDefault "status" Status.ofDocument? .ok
  let headers ← f.orDefault "headers" Headers.ofDocument? {}
  let policy ← f.orDefault "directives" Policy.ofDocument? {}
  some { etag, content, expiresAt, storedAt, status, headers, policy }

def expiry : Option Binary64 → Except RecordFault (Option Instant)
  | none => .ok none
  | some x => (toInstant x).map some

def Parts.entry (p : Parts) : Except RecordFault Entry :=
  match Base64.decode (Utf8.encode p.content.toList) with
  | .error fault => .error (.content fault)
  | .ok content => do
    let expiresAt ← expiry p.expiresAt
    let storedAt ← toInstant p.storedAt
    .ok { p with content, expiresAt, storedAt }

/-- The document is judged first, then the content, then the two times. -/
def decode (bs : Bytes) : Except StoreError Entry :=
  match (Json.ofBytes? bs).bind Parts.ofDocument? with
  | none => .error (.record .malformed)
  | some p => match p.entry with
    | .ok e => .ok e
    | .error fault => .error (.record fault)

end Record
end ResponseCache
