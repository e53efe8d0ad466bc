import Tenure.Balance.Metadata
import Tenure.Duration
import Tenure.Numeric.Binary64

/-!
# Endpoints

An address at which an instance of a service can be reached, with what its
registration says about it. Its weight by round-trip time is the time in nanoseconds,
and the largest finite double where no time is known.
-/

namespace Tenure

open Numeric

/-- A place where a service can be reached. -/
structure Endpoint where
  id : String
  node : String := ""
  /-- Host and port. -/
  addr : String
  /-- Tags of the registration, in its order. -/
  tags : List String := []
  /-- What is noted about the node. -/
  metadata : Metadata := .empty
  /-- The estimated round-trip time; zero if it is not known. -/
  rtt : Duration := .zero
deriving DecidableEq

namespace Endpoint

instance : Inhabited Endpoint := ⟨{ id := "", addr := "" }⟩

/-- Whether the endpoint carries the tag. -/
def hasTag (e : Endpoint) (tag : String) : Bool := e.tags.contains tag

/-- Whether the endpoint carries one of the tags. -/
def hasAnyTag (e : Endpoint) (tags : List String) : Bool := e.tags.any tags.contains

/-- The weight by round-trip time. -/
def rttWeight (e : Endpoint) : Binary64 :=
  if e.rtt.isZero then .largest else .ofNat e.rtt.nanos

end Endpoint

end Tenure
