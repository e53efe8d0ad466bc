import Tenure.Proofs.Duration.Limbs
import Tenure.Session.Config

/-!
# What a session resolves to

What a session is configured to last, as numbers of nanoseconds without a bound: the lock-delay
`delayNanos` and the TTL `ttlNanos`, either as it is set or, where it is missing or zero, from its
default. These two and the name decide on the resolution:

* it breaks down if the TTL is no duration, which only the default can be (`resolve_overflow_iff`);
* it is refused if a third of the TTL is no nanosecond, and only then if the name is blank;
* else it gives the session with both durations filled in (`resolve_of_fits`), and whoever resolves
  that once more, or asks the agent for it, gets the same (`isResolution_of_fits`).

The multiplication that may break down and the division that gives the renewal period are those on
two words.
-/

namespace Tenure.Session

variable {s : Session} {ttl : Duration}

/-! ## Settings as numbers -/

/-- A setting in nanoseconds, or a default if it is missing or zero. -/
def settled (setting : Option Duration) (default : Nat) : Nat :=
  match setting with
  | some d => if d.nanos = 0 then default else d.nanos
  | none => default

/-- The lock-delay in nanoseconds. -/
def delayNanos (s : Session) : Nat := settled s.lockDelay (15 * nanosPerSecond)

/-- The TTL in nanoseconds, also where no duration is that long. -/
def ttlNanos (s : Session) : Nat := settled s.ttl (2 * s.delayNanos)

/-- That no TTL is set, or that it is set to zero. -/
def LacksTtl (s : Session) : Prop := ∀ d, s.ttl = some d → d.nanos = 0

/-- That there is a name, and nothing but blanks in it. -/
def HasBlankName (s : Session) : Prop :=
  ∃ name, s.name = some name ∧ ∀ c ∈ name.toList, Text.isBlank c = true

theorem setDuration_eq_some_iff {setting : Option Duration} {d : Duration} :
    setDuration setting = some d ↔ setting = some d ∧ d.nanos ≠ 0 := by
  simp [setDuration, Option.filter_eq_some_iff, ← Bool.not_eq_true, Duration.isZero_iff]

theorem setDuration_eq_none_iff {setting : Option Duration} :
    setDuration setting = none ↔ ∀ d, setting = some d → d.nanos = 0 := by
  simp [setDuration, Option.filter_eq_none_iff, Duration.isZero_iff]

theorem settled_of_set {setting : Option Duration} {d : Duration}
    (h : setDuration setting = some d) (default : Nat) : settled setting default = d.nanos := by
  obtain ⟨rfl, hnonzero⟩ := setDuration_eq_some_iff.mp h
  exact if_neg hnonzero

theorem settled_of_unset {setting : Option Duration} (h : setDuration setting = none)
    (default : Nat) : settled setting default = default := by
  cases setting with
  | none => rfl
  | some d => exact if_pos (setDuration_eq_none_iff.mp h d rfl)

theorem nanos_effectiveLockDelay (s : Session) : s.effectiveLockDelay.nanos = s.delayNanos := by
  unfold effectiveLockDelay delayNanos
  cases hset : setDuration s.lockDelay with
  | none =>
      rw [settled_of_unset hset]
      rfl
  | some d =>
      rw [settled_of_set hset]
      rfl

/-- The effective TTL is the duration of that many nanoseconds, if there is one. -/
theorem effectiveTtl?_eq (s : Session) : s.effectiveTtl? = Duration.ofNanos? s.ttlNanos := by
  unfold effectiveTtl? ttlNanos
  cases hset : setDuration s.ttl with
  | none =>
      rw [settled_of_unset hset, ← nanos_effectiveLockDelay, Nat.mul_comm]
      rfl
  | some d =>
      rw [settled_of_set hset]
      exact (Duration.ofNanos?_eq_some_iff.mpr rfl).symm

/-- Only the default of a TTL can be more than a duration holds. -/
theorem overflow_iff (s : Session) :
    durationBound ≤ s.ttlNanos ↔ s.LacksTtl ∧ Duration.longest.nanos < 2 * s.delayNanos := by
  unfold ttlNanos LacksTtl
  rw [← setDuration_eq_none_iff]
  cases hset : setDuration s.ttl with
  | none =>
      rw [settled_of_unset hset]
      exact ⟨fun h => ⟨rfl, h⟩, fun h => h.2⟩
  | some d =>
      rw [settled_of_set hset]
      exact ⟨fun h => absurd d.nanos_lt (Nat.not_lt.mpr h), fun h => nomatch h.1⟩

theorem any_isBlankText_iff (s : Session) :
    s.name.any Text.isBlankText = true ↔ s.HasBlankName := by
  cases hname : s.name with
  | none => simp [HasBlankName, hname]
  | some name => simp [HasBlankName, hname, Text.isBlankText]

/-! ## The ways a resolution goes -/

theorem resolve_overflow_iff : s.resolve = .error .ttlOverflow ↔ durationBound ≤ s.ttlNanos := by
  unfold resolve
  rw [effectiveTtl?_eq, ← Duration.ofNanos?_eq_none_iff]
  cases Duration.ofNanos? s.ttlNanos with
  | none => exact ⟨fun _ => rfl, fun _ => rfl⟩
  | some ttl =>
      refine ⟨fun hresolve => ?_, nofun⟩
      dsimp only at hresolve
      split_ifs at hresolve <;> cases hresolve

theorem isZero_divide_iff (ttl : Duration) : (ttl.divide 3).isZero = true ↔ ttl.nanos < 3 := by
  rw [Duration.isZero_iff, Duration.nanos_divide]
  omega

theorem resolve_of_short (httl : ttl.nanos = s.ttlNanos) (hshort : s.ttlNanos < 3) :
    s.resolve = .error (.ttlTooShort ttl) := by
  unfold resolve
  rw [effectiveTtl?_eq, Duration.ofNanos?_eq_some_iff.mpr httl]
  exact if_pos ((isZero_divide_iff ttl).mpr (httl ▸ hshort))

/-- With a TTL that can be divided, the name decides. -/
theorem resolve_of_long (httl : ttl.nanos = s.ttlNanos) (hlong : 3 ≤ s.ttlNanos) :
    s.resolve = if s.name.any Text.isBlankText then .error .blankName
      else .ok { s with lockDelay := some s.effectiveLockDelay, ttl := some ttl } := by
  have hperiod : ¬(ttl.divide 3).isZero = true := by
    rw [isZero_divide_iff, httl]
    exact Nat.not_lt.mpr hlong
  unfold resolve
  rw [effectiveTtl?_eq, Duration.ofNanos?_eq_some_iff.mpr httl]
  exact if_neg hperiod

theorem resolve_of_blank (httl : ttl.nanos = s.ttlNanos) (hlong : 3 ≤ s.ttlNanos)
    (hblank : s.HasBlankName) : s.resolve = .error .blankName := by
  rw [resolve_of_long httl hlong, if_pos (s.any_isBlankText_iff.mpr hblank)]

theorem resolve_of_fits (httl : ttl.nanos = s.ttlNanos) (hlong : 3 ≤ s.ttlNanos)
    (hname : ¬s.HasBlankName) :
    s.resolve = .ok { s with lockDelay := some s.effectiveLockDelay, ttl := some ttl } := by
  rw [resolve_of_long httl hlong, if_neg (mt s.any_isBlankText_iff.mp hname)]

/-- Where the TTL is a duration, a resolution is refused only for the TTL or the name. -/
theorem refused_iff (httl : ttl.nanos = s.ttlNanos) :
    (∃ fault text, s.resolve = .error fault ∧ fault.rejection = some (.config text)) ↔
      s.ttlNanos < 3 ∨ s.HasBlankName := by
  constructor
  · rintro ⟨fault, text, hrefused, -⟩
    by_contra hfine
    obtain ⟨hlong, hname⟩ := not_or.mp hfine
    rw [resolve_of_fits httl (Nat.not_lt.mp hlong) hname] at hrefused
    cases hrefused
  · intro hfaulty
    by_cases hshort : s.ttlNanos < 3
    · exact ⟨_, _, resolve_of_short httl hshort, rfl⟩
    · have hblank : s.HasBlankName := hfaulty.resolve_left hshort
      exact ⟨_, _, resolve_of_blank httl (Nat.not_lt.mp hshort) hblank, rfl⟩

/-- Twice the lock-delay overflows its two words exactly if it is more than any duration. -/
theorem words_overflow_iff (s : Session) :
    s.effectiveLockDelay.limbs.scale? 2 = none ↔
      Duration.longest.nanos < 2 * s.delayNanos := by
  have hwords : s.effectiveLockDelay.limbs.scale? 2 =
      (s.effectiveLockDelay.scale? 2).map Duration.limbs :=
    (s.effectiveLockDelay.limbs_scale? 2).symm
  rw [hwords, Option.map_eq_none_iff, Duration.scale?, Duration.ofNanos?_eq_none_iff,
    nanos_effectiveLockDelay, Nat.mul_comm]
  rfl

/-! ## Resolved sessions -/

/-- The session `r` is `s` with its durations filled in: it can be renewed three times in a TTL, it
resolves to itself, and it asks the agent for what `s` asks for. -/
structure IsResolution (s r : Session) : Prop where
  id : r.id = s.id
  name : r.name = s.name
  behavior : r.behavior = s.behavior
  lockDelay : ∃ d, r.lockDelay = some d ∧ d.nanos = s.delayNanos ∧ d.nanos ≠ 0
  ttl : ∃ d, r.ttl = some d ∧ d.nanos = s.ttlNanos ∧ d.nanos ≠ 0
  /-- the quotient of the two words of the TTL -/
  period : ∃ ttl p, r.ttl = some ttl ∧ r.renewPeriod? = some p ∧ p.limbs = ttl.limbs.divide 3 ∧
    0 < p.nanos ∧ 3 * p.nanos ≤ ttl.nanos ∧ ttl.nanos < 3 * p.nanos + 3
  again : r.resolve = .ok r
  wire : ∃ config, r.wire? = some config ∧ s.wire? = some config

theorem isResolution_of_fits (httl : ttl.nanos = s.ttlNanos) (hlong : 3 ≤ s.ttlNanos)
    (hname : ¬s.HasBlankName) :
    s.IsResolution { s with lockDelay := some s.effectiveLockDelay, ttl := some ttl } := by
  have hresolve := resolve_of_fits httl hlong hname
  have hfilled := effectiveTtl?_of_resolve hresolve
  have hwire := wire?_of_resolve hresolve
  have hsome : s.effectiveTtl? = some ttl := by
    rw [effectiveTtl?_eq, Duration.ofNanos?_eq_some_iff.mpr httl]
  have hdelay := s.isZero_effectiveLockDelay
  have hwords : (ttl.divide 3).limbs = ttl.limbs.divide 3 := ttl.limbs_divide (k := 3) (by decide)
  have hperiod := ttl.nanos_divide 3
  rw [hsome] at hfilled
  refine ⟨rfl, rfl, rfl, ⟨_, rfl, s.nanos_effectiveLockDelay, ?_⟩, ⟨ttl, rfl, httl, by omega⟩,
    ⟨ttl, ttl.divide 3, rfl, ?_, hwords, by omega, by omega, by omega⟩, ?_, ?_⟩
  · exact mt Duration.isZero_iff.mpr (Bool.eq_false_iff.mp hdelay)
  · rw [renewPeriod?, hfilled]
    rfl
  · -- a TTL that is set stays as it is
    have hset : setDuration (some ttl) = some ttl :=
      setDuration_eq_some_iff.mpr ⟨rfl, by omega⟩
    have hagain := resolve_of_fits
      (s := { s with lockDelay := some s.effectiveLockDelay, ttl := some ttl })
      (settled_of_set hset _).symm (by rw [ttlNanos, settled_of_set hset, httl]; exact hlong) hname
    rwa [effectiveLockDelay_filled] at hagain
  · rw [hwire, wire?, hsome]
    exact ⟨_, rfl, rfl⟩

/-- **What every session resolves to.** Resolving breaks down exactly if no TTL other than zero is
set and twice the lock-delay is more than the longest duration, that is, if the multiplication of
its two words overflows. Otherwise it is refused as a fault of the configuration exactly if the TTL
is below three nanoseconds or the name is blank, and it is the TTL that is reported where both
hold. All other sessions resolve. -/
theorem resolve_settles (s : Session) :
    (s.resolve = .error .ttlOverflow ↔
      s.LacksTtl ∧ Duration.longest.nanos < 2 * s.delayNanos) ∧
    (s.effectiveLockDelay.limbs.scale? 2 = none ↔
      Duration.longest.nanos < 2 * s.delayNanos) ∧
    (s.resolve ≠ .error .ttlOverflow →
      ((∃ fault text, s.resolve = .error fault ∧ fault.rejection = some (.config text)) ↔
        s.ttlNanos < 3 ∨ s.HasBlankName) ∧
      (s.ttlNanos < 3 →
        ∃ ttl, s.resolve = .error (.ttlTooShort ttl) ∧ ttl.nanos = s.ttlNanos) ∧
      (3 ≤ s.ttlNanos → s.HasBlankName → s.resolve = .error .blankName) ∧
      (3 ≤ s.ttlNanos → ¬s.HasBlankName → ∃ r, s.resolve = .ok r ∧ s.IsResolution r)) := by
  refine ⟨resolve_overflow_iff.trans s.overflow_iff, s.words_overflow_iff, fun hruns => ?_⟩
  have hfits : s.ttlNanos < durationBound := Nat.not_le.mp (mt resolve_overflow_iff.mpr hruns)
  have httl : (⟨s.ttlNanos, hfits⟩ : Duration).nanos = s.ttlNanos := rfl
  refine ⟨refused_iff httl, ?_, ?_, ?_⟩
  · intro hshort
    exact ⟨_, resolve_of_short httl hshort, httl⟩
  · intro hlong hblank
    exact resolve_of_blank httl hlong hblank
  · intro hlong hname
    exact ⟨_, resolve_of_fits httl hlong hname, isResolution_of_fits httl hlong hname⟩

/-- A session whose TTL is twice the longest lock-delay that may be doubled. -/
def vast : Session :=
  { name := some " worker", lockDelay := some ⟨durationBound / 2 - 1, by decide⟩
    ttl := some .zero }

/-- Its renewal period carries a second from one word into the other. -/
theorem resolve_settles_of_vast :
    vast.resolve ≠ .error .ttlOverflow ∧ 3 ≤ vast.ttlNanos ∧ ¬vast.HasBlankName ∧
      ∃ r p, vast.resolve = .ok r ∧ r.renewPeriod? = some p ∧
        r.ttl.map Duration.limbs = some ⟨18446744073709551615, 999999998⟩ ∧
        p.limbs = ⟨6148914691236517205, 333333332⟩ := by
  have hruns : vast.resolve ≠ .error .ttlOverflow := by decide +kernel
  have hlong : 3 ≤ vast.ttlNanos := by decide
  have hname : ¬vast.HasBlankName := by
    rintro ⟨name, hsome, hblank⟩
    obtain rfl := Option.some.inj hsome
    exact absurd (hblank 'w' (by decide)) (by decide)
  obtain ⟨r, hresolve, hr⟩ := ((resolve_settles vast).2.2 hruns).2.2.2 hlong hname
  obtain ⟨ttl, p, httl, hperiod, hwords, -⟩ := hr.period
  obtain ⟨d, hd, hnanos, -⟩ := hr.ttl
  obtain rfl := Option.some.inj (httl.symm.trans hd)
  have hlimbs : ttl.limbs = ⟨18446744073709551615, 999999998⟩ := by
    have hvast : ttl = ⟨vast.ttlNanos, by decide⟩ := Duration.ext hnanos
    rw [hvast]
    decide +kernel
  refine ⟨hruns, hlong, hname, r, p, hresolve, hperiod, ?_, ?_⟩
  · rw [httl, Option.map_some, hlimbs]
  · rw [hwords, hlimbs]
    decide +kernel

end Tenure.Session
