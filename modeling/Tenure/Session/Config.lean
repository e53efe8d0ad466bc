import Tenure.Duration.Wire
import Tenure.Json.Print
import Tenure.Session.Error

/-!
# Session configuration

A `Session` is what a caller fills in before a session begins; the copy that a context
carries has the agent's identifier and all durations set.

* **Lock-delay**: 15 seconds unless it is set to something other than zero.
* **TTL**: twice the lock-delay unless it is set to something other than zero. That may
  be more than a duration can hold, so the effective TTL is an `Option`.
* **Renewal period**: a third of the TTL, so that a session survives a missed renewal.

`Session.resolve` fills in the effective durations and rejects what cannot be renewed
or named. `Session.wire` is the request that creates the session.
-/

namespace Tenure

open Json

/-! ## Behaviour at expiry -/

/-- What becomes of the keys that an expired session has locked. -/
inductive Behavior
  | release
  | delete
deriving DecidableEq

namespace Behavior

instance : Inhabited Behavior := ⟨release⟩

/-- The name of a behaviour on the wire. -/
def name : Behavior → String
  | release => "release"
  | delete => "delete"

/-- Every behaviour. -/
def all : List Behavior := [release, delete]

/-- The behaviour of a name. -/
def ofName (s : String) : Decoded Behavior :=
  match all.find? (·.name == s) with
  | some b => .ok b
  | none => unfit (.unknownVariant s (all.map name))

/-- A behaviour in a document: its name, or an object whose only member has that name
and no value. -/
def ofNode (remaining : Nat) : Node → Decoded Behavior
  | .text (some s) => ofName s
  | .object members closed stray => Node.opening remaining fun _ =>
    match members with
    | (some s, v) :: others => do
      let b ← ofName s
      match v with
      | .null => if others.isEmpty && closed then return b else malformed
      | v => v.reject "unit"
    | (none, _) :: _ => malformed
    | [] =>
      match stray with
      | some n => n.reject "variant identifier"
      | none => malformed
  | _ => malformed

end Behavior

/-! ## Sessions -/

/-- The lock-delay of a session that sets none. -/
def defaultLockDelay : Duration := .ofSecs 15

/-- A session, as configured or as it lives. -/
structure Session where
  /-- assigned by the agent; empty until then -/
  id : String := ""
  /-- shown by the agent -/
  name : Option String := none
  behavior : Behavior := .release
  lockDelay : Option Duration := none
  ttl : Option Duration := none
deriving DecidableEq

instance : Inhabited Session := ⟨{}⟩

/-- A duration that is set and not zero. -/
def setDuration (d : Option Duration) : Option Duration := d.filter (! ·.isZero)

/-- The request that creates a session. -/
structure SessionConfig where
  name : Option String
  behavior : Behavior
  lockDelay : String
  ttl : String
deriving DecidableEq

/-- The request as a JSON object; a missing name is left out. -/
def SessionConfig.value (c : SessionConfig) : Value :=
  let name := match c.name with
    | some n => [("Name", Value.text n)]
    | none => []
  .object (name ++ [("Behavior", .text c.behavior.name), ("LockDelay", .text c.lockDelay),
    ("TTL", .text c.ttl)])

/-- Why a configuration does not resolve. -/
inductive ConfigFault
  /-- Twice the lock-delay is more than a duration can hold. -/
  | ttlOverflow
  /-- A third of the TTL is less than a nanosecond. -/
  | ttlTooShort (ttl : Duration)
  /-- The name is set and blank. -/
  | blankName
deriving DecidableEq

/-- The rejection that a fault is reported as; an overflow is none, it is a breakdown. -/
def ConfigFault.rejection : ConfigFault → Option SessionError
  | ttlOverflow => none
  | ttlTooShort ttl =>
    some (.config ("ttl of " ++ ttl.display ++ " is too short to schedule renewals"))
  | blankName => some (.config "session name is blank")

/-- What a breakdown of the duration arithmetic says. -/
def ttlOverflowMessage : String := "overflow when multiplying duration by scalar"

namespace Session

/-- The effective lock-delay. -/
def effectiveLockDelay (s : Session) : Duration := (setDuration s.lockDelay).getD defaultLockDelay

/-- The effective TTL; none if it is more than a duration can hold. -/
def effectiveTtl? (s : Session) : Option Duration :=
  match setDuration s.ttl with
  | some d => some d
  | none => s.effectiveLockDelay.scale? 2

/-- The time between renewals. -/
def renewPeriod? (s : Session) : Option Duration := s.effectiveTtl?.map (·.divide 3)

/-- Fills in the effective durations and checks the result. -/
def resolve (s : Session) : Except ConfigFault Session :=
  match s.effectiveTtl? with
  | none => .error .ttlOverflow
  | some ttl =>
    if (ttl.divide 3).isZero then .error (.ttlTooShort ttl)
    else if s.name.any Text.isBlankText then .error .blankName
    else .ok { s with lockDelay := some s.effectiveLockDelay, ttl := some ttl }

/-- The request that creates the session; none if its TTL overflows. -/
def wire? (s : Session) : Option SessionConfig :=
  s.effectiveTtl?.map fun ttl =>
    { name := s.name, behavior := s.behavior
      lockDelay := s.effectiveLockDelay.render, ttl := ttl.render }

/-! ## Sessions that resolve -/

theorem setDuration_some {d : Duration} (h : d.isZero = false) : setDuration (some d) = some d :=
  Option.filter_some_pos (by rw [h]; rfl)

theorem isZero_effectiveLockDelay (s : Session) : s.effectiveLockDelay.isZero = false := by
  unfold effectiveLockDelay
  cases hset : setDuration s.lockDelay with
  | none => decide
  | some d =>
      have hkept := (Option.filter_eq_some_iff.mp hset).2
      rwa [Bool.not_eq_true'] at hkept

theorem resolve_eq_ok {s resolved : Session} (h : s.resolve = .ok resolved) :
    ∃ ttl, s.effectiveTtl? = some ttl ∧ (ttl.divide 3).isZero = false ∧
      resolved = { s with lockDelay := some s.effectiveLockDelay, ttl := some ttl } := by
  unfold resolve at h
  split at h
  · cases h
  rename_i ttl httl
  split at h
  · cases h
  rename_i hperiod
  split at h
  · cases h
  exact ⟨ttl, httl, Bool.eq_false_iff.mpr hperiod, (Except.ok.inj h).symm⟩

theorem effectiveTtl?_of_resolve {s resolved : Session} (h : s.resolve = .ok resolved) :
    resolved.effectiveTtl? = s.effectiveTtl? := by
  obtain ⟨ttl, httl, hperiod, rfl⟩ := resolve_eq_ok h
  have hnonzero : ttl.isZero = false := by
    simp only [Duration.isZero, Duration.nanos_divide, beq_eq_false_iff_ne] at hperiod ⊢
    omega
  rw [httl]
  unfold effectiveTtl?
  rw [setDuration_some hnonzero]

/-- Filling in the effective lock-delay does not change it. -/
theorem effectiveLockDelay_filled (s : Session) (ttl : Option Duration) :
    effectiveLockDelay { s with lockDelay := some s.effectiveLockDelay, ttl := ttl } =
      s.effectiveLockDelay := by
  rw [effectiveLockDelay, setDuration_some s.isZero_effectiveLockDelay]
  rfl

/-- A session that resolves asks for what it was configured to ask for. -/
theorem wire?_of_resolve {s resolved : Session} (h : s.resolve = .ok resolved) :
    resolved.wire? = s.wire? := by
  have httl := effectiveTtl?_of_resolve h
  obtain ⟨ttl, _, _, rfl⟩ := resolve_eq_ok h
  unfold wire?
  rw [httl, effectiveLockDelay_filled]

/-! ## Display -/

/-- An optional duration. -/
def displayDuration : Option Duration → String
  | none => "None"
  | some d => "Some(" ++ d.display ++ ")"

/-- A behaviour as it stands in a displayed session. -/
def displayBehavior : Behavior → String
  | .release => "Release"
  | .delete => "Delete"

/-- The session with all its fields. -/
def display (s : Session) : String :=
  "Session \x7b id: " ++ Text.quoted s.id ++ ", name: " ++ Text.quotedOption s.name
    ++ ", behavior: " ++ displayBehavior s.behavior
    ++ ", lock_delay: " ++ displayDuration s.lockDelay
    ++ ", ttl: " ++ displayDuration s.ttl ++ " \x7d"

end Session

end Tenure
