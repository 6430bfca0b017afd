import ResponseCache.Digest.Sha256
import ResponseCache.Text.Blank
import ResponseCache.Text.Split

/-!
# Entity tags

A tag is made from the content: weak, with half of the SHA-256 digest. Comparison is weak, so the
`W/` in front of a tag does not count.
-/
namespace ResponseCache.EntityTag

def ofContent (body : Bytes) : String :=
  String.ofList ("W/\"".toList ++ (Hex.ofBytes (Sha256.digest body)).take 32 ++ ['"'])

/-- A tag without blanks around it and without one `W/` in front. -/
def bare (tag : List Char) : List Char :=
  let tag := Text.trim tag
  (Text.stripLead ['W', '/'] tag).getD tag

/-- A candidate of an If-None-Match list; the star stands for every tag. -/
def candidateMatches (current candidate : List Char) : Bool :=
  Text.trim candidate == ['*'] || bare candidate == current

/-- Whether a list of tags has one that stands for `tag`. -/
def matchesList (ifNoneMatch tag : String) : Bool :=
  (ifNoneMatch.toList.splitOn ',').any (candidateMatches (bare tag.toList))

end ResponseCache.EntityTag
