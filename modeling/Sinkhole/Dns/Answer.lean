namespace Sinkhole

inductive ReplyKind where
  | unknown
  | nodata
  | nxdomain
  | cname
  | ip
  | domain
  | rrname
  | servfail
  | refused
  | notimp
  | other
  | dnssec
  | none
  | blob
  deriving DecidableEq, Repr, Inhabited

namespace ReplyKind

def all : List ReplyKind :=
  [unknown, nodata, nxdomain, cname, ip, domain, rrname, servfail, refused, notimp, other, dnssec,
    none, blob]

def position : ReplyKind → Fin 14
  | unknown => 0
  | nodata => 1
  | nxdomain => 2
  | cname => 3
  | ip => 4
  | domain => 5
  | rrname => 6
  | servfail => 7
  | refused => 8
  | notimp => 9
  | other => 10
  | dnssec => 11
  | none => 12
  | blob => 13

def name : ReplyKind → String
  | unknown => "UNKNOWN"
  | nodata => "NODATA"
  | nxdomain => "NXDOMAIN"
  | cname => "CNAME"
  | ip => "IP"
  | domain => "DOMAIN"
  | rrname => "RRNAME"
  | servfail => "SERVFAIL"
  | refused => "REFUSED"
  | notimp => "NOTIMP"
  | other => "OTHER"
  | dnssec => "DNSSEC"
  | none => "NONE"
  | blob => "BLOB"

theorem mem_all (r : ReplyKind) : r ∈ all := by
  cases r <;> decide

theorem all_getElem?_position (r : ReplyKind) : all[r.position.val]? = some r := by
  cases r <;> rfl

theorem position_inj {r s : ReplyKind} : r.position = s.position ↔ r = s := by
  constructor
  · intro h
    have hr := all_getElem?_position r
    rw [h, all_getElem?_position s] at hr
    exact (Option.some.inj hr).symm
  · exact congrArg position

end ReplyKind

/-- The outcome of validating the signatures of an answer. -/
inductive Validation where
  | unknown
  | secure
  | insecure
  | bogus
  | abandoned
  | truncated
  deriving DecidableEq, Repr, Inhabited

namespace Validation

def all : List Validation :=
  [unknown, secure, insecure, bogus, abandoned, truncated]

def name : Validation → String
  | unknown => "UNKNOWN"
  | secure => "SECURE"
  | insecure => "INSECURE"
  | bogus => "BOGUS"
  | abandoned => "ABANDONED"
  | truncated => "TRUNCATED"

end Validation

end Sinkhole
