/-! # Response status codes -/
namespace ResponseCache

/-- The codes that a response may carry. -/
inductive Status
  | ok | created | accepted | nonAuthoritative | noContent | partialContent
  | movedPermanently | found | seeOther | notModified | temporaryRedirect | permanentRedirect
  | badRequest | unauthorized | forbidden | notFound | methodNotAllowed | gone | tooManyRequests
  | internalServerError | notImplemented | badGateway | serviceUnavailable | gatewayTimeout
deriving DecidableEq

namespace Status

def code : Status → Nat
  | ok => 200 | created => 201 | accepted => 202 | nonAuthoritative => 203 | noContent => 204
  | partialContent => 206
  | movedPermanently => 301 | found => 302 | seeOther => 303 | notModified => 304
  | temporaryRedirect => 307 | permanentRedirect => 308
  | badRequest => 400 | unauthorized => 401 | forbidden => 403 | notFound => 404
  | methodNotAllowed => 405 | gone => 410 | tooManyRequests => 429
  | internalServerError => 500 | notImplemented => 501 | badGateway => 502
  | serviceUnavailable => 503 | gatewayTimeout => 504

def all : List Status :=
  [ok, created, accepted, nonAuthoritative, noContent, partialContent,
   movedPermanently, found, seeOther, notModified, temporaryRedirect, permanentRedirect,
   badRequest, unauthorized, forbidden, notFound, methodNotAllowed, gone, tooManyRequests,
   internalServerError, notImplemented, badGateway, serviceUnavailable, gatewayTimeout]

def ofCode? (n : Nat) : Option Status := all.find? (·.code == n)

def unsupportedMessage (n : Nat) : String := s!"unsupported status code {n}"

def reason : Status → String
  | ok => "OK" | created => "Created" | accepted => "Accepted"
  | nonAuthoritative => "Non-Authoritative Information" | noContent => "No Content"
  | partialContent => "Partial Content"
  | movedPermanently => "Moved Permanently" | found => "Found" | seeOther => "See Other"
  | notModified => "Not Modified" | temporaryRedirect => "Temporary Redirect"
  | permanentRedirect => "Permanent Redirect"
  | badRequest => "Bad Request" | unauthorized => "Unauthorized" | forbidden => "Forbidden"
  | notFound => "Not Found" | methodNotAllowed => "Method Not Allowed" | gone => "Gone"
  | tooManyRequests => "Too Many Requests"
  | internalServerError => "Internal Server Error" | notImplemented => "Not Implemented"
  | badGateway => "Bad Gateway" | serviceUnavailable => "Service Unavailable"
  | gatewayTimeout => "Gateway Timeout"

def isSuccess (s : Status) : Bool := 200 ≤ s.code && s.code < 300

/-- The code and the reason phrase. -/
def line (s : Status) : String := s!"{s.code} {s.reason}"

@[simp] theorem ofCode?_code (s : Status) : ofCode? s.code = some s := by cases s <;> decide

end Status
end ResponseCache
