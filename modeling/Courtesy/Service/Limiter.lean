import Courtesy.Number.Binary64

/-!
# Limiters

The service does not decide itself how many translations a host may ask for. It asks limiters of a
library, which it makes of the rate and the burst of the project. Whether and when a limiter refills
is the library's business, and nothing is known about it here (`Library`). The service keeps one
limiter for each host and makes it when the host asks for the first time (`HostLimiters`).
-/

namespace Courtesy.Service

/-- What only the moment can tell: the id of a translation and the time. -/
structure Moment where
  id : String
  time : String
  deriving DecidableEq, Repr, Inhabited

/-- What the service takes from elsewhere: limiters, and the words about a body that it
cannot read. -/
structure Library where
  Limiter : Type
  /-- A new limiter for a rate, in calls a second, and a burst. -/
  make : Binary64 → Int → Limiter
  /-- Whether a limiter lets a call through at a moment, and the limiter after the call. -/
  allow : Moment → Limiter → Bool × Limiter
  /-- What is wrong with a body, if there are words for it. -/
  wording : String → Option String

namespace Library

/-- A library whose limiters count down the burst and never refill, and that has no words. -/
def still : Library where
  Limiter := Int
  make _ burst := burst
  allow _ left := (decide (0 < left), left - 1)
  wording _ := none

/-- A limiter after calls at some moments. -/
def behind (L : Library) (l : L.Limiter) (calls : List Moment) : L.Limiter :=
  calls.foldl (fun l now => (L.allow now l).2) l

end Library

/-- The limiters of all hosts. A host that has not asked yet has none. -/
structure HostLimiters (L : Library) where
  rate : Binary64
  burst : Int
  kept : String → Option L.Limiter := fun _ => none

namespace HostLimiters

variable {L : Library}

/-- The limiter of a host: the one that is kept for it, or else a new one. -/
def limiter (ls : HostLimiters L) (host : String) : L.Limiter :=
  (ls.kept host).getD (L.make ls.rate ls.burst)

/-- Keeps a limiter for a host. -/
def keep (ls : HostLimiters L) (host : String) (l : L.Limiter) : HostLimiters L :=
  { ls with kept := fun other => if other = host then some l else ls.kept other }

/-- Asks the limiter of a host, which is kept as the call leaves it. -/
def allow (ls : HostLimiters L) (now : Moment) (host : String) : Bool × HostLimiters L :=
  let (allowed, l) := L.allow now (ls.limiter host)
  (allowed, ls.keep host l)

end HostLimiters

end Courtesy.Service
