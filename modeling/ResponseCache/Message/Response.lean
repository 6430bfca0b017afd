import ResponseCache.Message.Status
import ResponseCache.Message.Headers
import ResponseCache.Text.Utf8

/-! # Responses -/
namespace ResponseCache

structure Response where
  status : Status := .ok
  headers : Headers := {}
  body : Bytes := []
deriving DecidableEq

end ResponseCache
