import SupraL1.Lib.Lru
import SupraL1.MoveCore

/-!
# The limiter of REST calls (`rest/rest_call_limiter.rs`)

The limiter caches the time at which a value was last allowed and asks a strategy whether it is
allowed again. The cache is an `LruCache`, whose `get` counts as a use of the key. The strategies
are declared in the crate `types`; a call of `register` reads the clock once.
Instants and durations are numbers of nanoseconds.
-/

namespace Rest

open Consensus (Bytes)
open Move

namespace RestCallLimiter

/-- `limiting_strategy::LimitInstance`. -/
inductive LimitInstance where
  | account (account : AccountAddress)
  | publicKey (publicKey : BitVec 256)
  | bytes (bytes : Bytes)
  deriving DecidableEq, Repr

/-- `limiting_strategy::LimitingStrategy`: whether to allow a value last seen at some time, or else
in how long. -/
structure LimitingStrategy where
  shouldAllow : Nat → LimitInstance → Option Nat → Except Nat Unit

inductive Error where
  | tooManyRequests (allowIn : Nat)
  deriving DecidableEq, Repr

end RestCallLimiter

open RestCallLimiter

structure RestCallLimiter where
  cache : Lru.Cache LimitInstance Nat
  limitingStrategy : LimitingStrategy

namespace RestCallLimiter

/-- `CACHE_SIZE`. -/
def cacheSize : Nat := 10000

/-- `RestCallLimiter::new`. -/
def new (limitingStrategy : LimitingStrategy) : RestCallLimiter := ⟨.new cacheSize, limitingStrategy⟩

/-- `register`. A value seen for the first time is cached whether or not it is allowed; one seen
before only when it is, though looking it up has counted as a use. -/
def register (L : RestCallLimiter) (now : Nat) (limitInstance : LimitInstance) :
    RestCallLimiter × Except Error Unit :=
  let (lastSeen, cache) := L.cache.get limitInstance
  let firstOccurrence := lastSeen.isNone
  let cache := if firstOccurrence then cache.put limitInstance now else cache
  match L.limitingStrategy.shouldAllow now limitInstance lastSeen with
  | .ok () =>
    (⟨if firstOccurrence then cache else cache.put limitInstance now, L.limitingStrategy⟩, .ok ())
  | .error allowIn => (⟨cache, L.limitingStrategy⟩, .error (.tooManyRequests allowIn))

/-- `register_account`. -/
def registerAccount (L : RestCallLimiter) (now : Nat) (account : AccountAddress) :
    RestCallLimiter × Except Error Unit := L.register now (.account account)

/-- `register_public_key`. -/
def registerPublicKey (L : RestCallLimiter) (now : Nat) (publicKey : BitVec 256) :
    RestCallLimiter × Except Error Unit := L.register now (.publicKey publicKey)

/-- `register_bytes`. -/
def registerBytes (L : RestCallLimiter) (now : Nat) (value : Bytes) :
    RestCallLimiter × Except Error Unit := L.register now (.bytes value)

/-! ## Histories -/

/-- A registration and whether it was allowed. -/
structure Registration where
  limitInstance : LimitInstance
  time : Nat
  allowed : Bool
  deriving DecidableEq, Repr

/-- One more registration, with the log of those before it, the latest first. -/
def registerNext (s : RestCallLimiter × List Registration) (r : Nat × LimitInstance) :
    RestCallLimiter × List Registration :=
  let (L, result) := s.1.register r.1 r.2
  (L, ⟨r.2, r.1, result.isOk⟩ :: s.2)

/-- The limiter and its log after some registrations. -/
def registerAll (limitingStrategy : LimitingStrategy) (rs : List (Nat × LimitInstance)) :
    RestCallLimiter × List Registration :=
  rs.foldl registerNext (new limitingStrategy, [])

end RestCallLimiter

end Rest
