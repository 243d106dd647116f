/-!
# Log records

What happens is recorded with a level and a target that names the part concerned. A record is kept
when its level is at least as severe as the filter asks for.
-/

namespace PeerRpc.Log

/-- The severity of a record. -/
inductive Level where
  /-- A failure that ends a session. -/
  | error
  /-- A message that could not be used, or a request left unanswered. -/
  | warn
  /-- The start and the end of a session. -/
  | info
  /-- The flow of requests and responses. -/
  | debug
  /-- Details of the wire. -/
  | trace
deriving DecidableEq, Repr

/-- A level's rank: one for the most severe, larger for less severe ones. -/
def Level.rank : Level → Nat
  | error => 1
  | warn => 2
  | info => 3
  | debug => 4
  | trace => 5

/-- The least severe level that is kept; `none` keeps nothing. -/
abbrev Filter := Option Level

/-- Whether a filter keeps records of a level, whatever their target. -/
def enabled (filter : Filter) (level : Level) : Bool :=
  match filter with
  | none => false
  | some least => level.rank ≤ least.rank

/-- The root of all targets. -/
def rootTarget : String := "lspwire"

/-- Reading and writing bytes. -/
def transportTarget : String := "lspwire::transport"

/-- Headers and frames. -/
def codecTarget : String := "lspwire::codec"

/-- Matching responses, telling messages apart, stopping. -/
def sessionTarget : String := "lspwire::session"

/-- Finding the method of a call. -/
def dispatchTarget : String := "lspwire::dispatch"

/-- Changes of a token buffer. -/
def tokensTarget : String := "lspwire::tokens"

/-- Something that happened. -/
structure Record where
  level : Level
  target : String
  /-- What happened, in words. -/
  text : String
deriving DecidableEq, Repr

end PeerRpc.Log
