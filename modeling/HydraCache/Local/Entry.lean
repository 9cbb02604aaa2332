import HydraCache.Local.TagIndex

/-!
# Cache entries and per-call options

An entry is an encoded value with its tags, its deadline and the version it was stored with. Times
are instants of one monotone clock, as natural numbers up to the largest instant the platform can
represent; a deadline past that instant is no deadline at all (`deadlineAfter`).
-/

set_option autoImplicit false

namespace HydraCache.Local

open Lib

abbrev Bytes := List UInt8

/-- An instant, and also a length of time. -/
abbrev Instant := ℕ

/-- The part of a cache's configuration its operations read. -/
structure CacheConfig where
  defaultTtl : Instant
  maxEntryBytes : ℕ
  maxInstant : Instant
deriving DecidableEq

structure CacheEntry where
  value : Bytes
  tags : List Tag
  expiresAt : Option Instant
  version : ℕ
deriving DecidableEq

namespace CacheEntry

def isExpired (entry : CacheEntry) (now : Instant) : Bool :=
  (entry.expiresAt.map fun expiresAt ↦ decide (expiresAt ≤ now)).getD false

def staleWindowContainsNow (entry : CacheEntry) (maxInstant window now : Instant) : Bool :=
  ((entry.expiresAt.bind fun expiresAt ↦ checkedAdd maxInstant expiresAt window).map
    fun staleUntil ↦ decide (now < staleUntil)).getD false

def refreshAheadDue (entry : CacheEntry) (threshold now : Instant) : Bool :=
  (entry.expiresAt.map fun expiresAt ↦
    decide (expiresAt ≤ now ∨ expiresAt - now ≤ threshold)).getD false

/-- An expired entry stays expired. -/
theorem isExpired_mono {entry : CacheEntry} {now later : Instant} (h : entry.isExpired now = true)
    (hle : now ≤ later) : entry.isExpired later = true := by
  unfold isExpired at h ⊢
  cases hdead : entry.expiresAt with
  | none => simp [hdead] at h
  | some expiresAt =>
    simp only [hdead, Option.map_some, Option.getD_some, decide_eq_true_eq] at h ⊢
    exact h.trans hle

end CacheEntry

/-- What a put or a load is asked to store its value with. -/
structure CacheOptions where
  ttl : Option Instant := none
  tags : List Tag := []
deriving DecidableEq

structure RefreshOptions where
  staleWhileRevalidate : Option Instant := none
  staleOnLoaderError : Option Instant := none
  refreshAhead : Option Instant := none
  serveStaleOnLoaderError : Bool := false
deriving DecidableEq

/-- The window in which a failed load may fall back to an expired entry. -/
def RefreshOptions.staleOnLoaderErrorWindow (refresh : RefreshOptions) : Option Instant :=
  if refresh.serveStaleOnLoaderError then
    refresh.staleOnLoaderError.or refresh.staleWhileRevalidate
  else none

def entryInStaleWindow (config : CacheConfig) (entry : CacheEntry) (window : Option Instant)
    (now : Instant) : Bool :=
  (window.map fun window ↦ entry.staleWindowContainsNow config.maxInstant window now).getD false

/-- The deadline of a value stored now: the call's own time to live, or the default one. -/
def deadlineAfter (config : CacheConfig) (options : CacheOptions) (now : Instant) :
    Option Instant :=
  checkedAdd config.maxInstant now (options.ttl.getD config.defaultTtl)

def exceedsMaxEntryBytes (config : CacheConfig) (value : Bytes) : Bool :=
  decide (config.maxEntryBytes < value.length)

end HydraCache.Local
