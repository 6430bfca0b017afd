import ResponseCache.Text.Caseless

/-! # Request methods -/
namespace ResponseCache

inductive Method
  | get | post | put | delete | head | options | patch | connect | trace
  /-- Any other token, in its own spelling. -/
  | custom (name : String)
deriving DecidableEq

namespace Method

def text : Method → String
  | get => "GET" | post => "POST" | put => "PUT" | delete => "DELETE" | head => "HEAD"
  | options => "OPTIONS" | patch => "PATCH" | connect => "CONNECT" | trace => "TRACE"
  | custom name => name

def standard : List Method := [get, post, put, delete, head, options, patch, connect, trace]

/-- A standard method in any ASCII letter case is that method. -/
def ofText (s : String) : Method :=
  (standard.find? fun m => m.text.toList == Text.upper s).getD (custom s)

def isStandard : Method → Bool
  | custom _ => false
  | _ => true

def isSafe : Method → Bool
  | get | head | options | trace => true
  | _ => false

end Method
end ResponseCache
