import ResponseCache.Text.Base64

/-! # What can go wrong in a store -/
namespace ResponseCache

/-- Why the bytes of a record are no entry. -/
inductive RecordFault
  | malformed
  | content (fault : Base64.DecodeError)
  | timestampNegative (text : String)
  | timestampTooBig (text : String)
  | timestampOutOfRange (text : String)
deriving DecidableEq

def RecordFault.message : RecordFault → String
  | malformed => "malformed record"
  | content fault => fault.message
  | timestampNegative x =>
    s!"bad timestamp {x}: cannot convert float seconds to Duration: value is negative"
  | timestampTooBig x =>
    s!"bad timestamp {x}: cannot convert float seconds to Duration: value is either too big or NaN"
  | timestampOutOfRange x => s!"timestamp {x} is out of range"

inductive StoreError
  /-- The store could not be reached or refused the command. -/
  | unavailable (reason : String)
  /-- The task that was writing came to an end before the write did. -/
  | writeAborted
  | unsupported (backend operation : String)
  | record (fault : RecordFault)
  | invalidPattern (pattern reason : String)
deriving DecidableEq

def StoreError.message : StoreError → String
  | unavailable reason => s!"cache backend unavailable: {reason}"
  | writeAborted => "cache backend unavailable: task ended before the write"
  | unsupported backend operation => s!"`{operation}` is not supported by the {backend} backend"
  | record fault => s!"cache entry could not be serialized: {fault.message}"
  | invalidPattern pattern reason => s!"invalid key pattern `{pattern}`: {reason}"

end ResponseCache
