import Sinkhole.Text

namespace Sinkhole

inductive Status where
  | unknown
  | gravity
  | forwarded
  | cache
  | regex
  | denylist
  | externalBlockedIp
  | externalBlockedNull
  | externalBlockedNxra
  | gravityCname
  | regexCname
  | denylistCname
  | retried
  | retriedDnssec
  | inProgress
  | databaseBusy
  | specialDomain
  | cacheStale
  deriving DecidableEq, Repr, Inhabited

namespace Status

def all : List Status :=
  [unknown, gravity, forwarded, cache, regex, denylist, externalBlockedIp, externalBlockedNull,
    externalBlockedNxra, gravityCname, regexCname, denylistCname, retried, retriedDnssec,
    inProgress, databaseBusy, specialDomain, cacheStale]

def code : Status → Fin 18
  | unknown => 0
  | gravity => 1
  | forwarded => 2
  | cache => 3
  | regex => 4
  | denylist => 5
  | externalBlockedIp => 6
  | externalBlockedNull => 7
  | externalBlockedNxra => 8
  | gravityCname => 9
  | regexCname => 10
  | denylistCname => 11
  | retried => 12
  | retriedDnssec => 13
  | inProgress => 14
  | databaseBusy => 15
  | specialDomain => 16
  | cacheStale => 17

def ofCode? (n : Nat) : Option Status :=
  all[n]?

def name : Status → String
  | unknown => "UNKNOWN"
  | gravity => "GRAVITY"
  | forwarded => "FORWARDED"
  | cache => "CACHE"
  | regex => "REGEX"
  | denylist => "DENYLIST"
  | externalBlockedIp => "EXTERNAL_BLOCKED_IP"
  | externalBlockedNull => "EXTERNAL_BLOCKED_NULL"
  | externalBlockedNxra => "EXTERNAL_BLOCKED_NXRA"
  | gravityCname => "GRAVITY_CNAME"
  | regexCname => "REGEX_CNAME"
  | denylistCname => "DENYLIST_CNAME"
  | retried => "RETRIED"
  | retriedDnssec => "RETRIED_DNSSEC"
  | inProgress => "IN_PROGRESS"
  | databaseBusy => "DBBUSY"
  | specialDomain => "SPECIAL_DOMAIN"
  | cacheStale => "CACHE_STALE"

/-- The name of the status with this code, as reports print it. -/
def nameOfCode (n : Nat) : String :=
  (ofCode? n).elim "INVALID" name

def ofName? (s : String) : Option Status :=
  all.find? fun status => Text.sameLetters status.name s

def isBlocked : Status → Bool
  | gravity | regex | denylist | externalBlockedIp | externalBlockedNull | externalBlockedNxra
  | gravityCname | regexCname | denylistCname | databaseBusy | specialDomain => true
  | unknown | forwarded | cache | retried | retriedDnssec | inProgress | cacheStale => false

def isCached : Status → Bool
  | cache | cacheStale => true
  | _ => false

def isForwarded : Status → Bool
  | forwarded | retried | retriedDnssec => true
  | _ => false

/-- The codes of a class between parentheses, as a database query takes them. -/
def codeList (inClass : Status → Bool) : String :=
  "(" ++ ",".intercalate ((all.filter inClass).map fun s => toString s.code.val) ++ ")"

theorem all_getElem?_code (s : Status) : all[s.code.val]? = some s := by
  cases s <;> rfl

theorem code_inj {s t : Status} : s.code = t.code ↔ s = t := by
  constructor
  · intro h
    have hs := all_getElem?_code s
    rw [h, all_getElem?_code t] at hs
    exact (Option.some.inj hs).symm
  · exact congrArg code

theorem mem_all (s : Status) : s ∈ all := by
  cases s <;> decide

theorem ofCode?_code (s : Status) : ofCode? s.code = some s :=
  all_getElem?_code s

end Status

end Sinkhole
