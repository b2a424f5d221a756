namespace Sinkhole

inductive RecordType where
  | a
  | aaaa
  | any
  | srv
  | soa
  | ptr
  | txt
  | naptr
  | mx
  | ds
  | rrsig
  | dnskey
  | ns
  | other
  | svcb
  | https
  deriving DecidableEq, Repr, Inhabited

namespace RecordType

def all : List RecordType :=
  [a, aaaa, any, srv, soa, ptr, txt, naptr, mx, ds, rrsig, dnskey, ns, other, svcb, https]

def position : RecordType → Fin 16
  | a => 0
  | aaaa => 1
  | any => 2
  | srv => 3
  | soa => 4
  | ptr => 5
  | txt => 6
  | naptr => 7
  | mx => 8
  | ds => 9
  | rrsig => 10
  | dnskey => 11
  | ns => 12
  | other => 13
  | svcb => 14
  | https => 15

/-- The class of a record type number. -/
def ofWire : UInt16 → RecordType
  | 1 => a
  | 2 => ns
  | 6 => soa
  | 12 => ptr
  | 15 => mx
  | 16 => txt
  | 28 => aaaa
  | 33 => srv
  | 35 => naptr
  | 43 => ds
  | 46 => rrsig
  | 48 => dnskey
  | 64 => svcb
  | 65 => https
  | 255 => any
  | _ => other

def name : RecordType → String
  | a => "A"
  | aaaa => "AAAA"
  | any => "ANY"
  | srv => "SRV"
  | soa => "SOA"
  | ptr => "PTR"
  | txt => "TXT"
  | naptr => "NAPTR"
  | mx => "MX"
  | ds => "DS"
  | rrsig => "RRSIG"
  | dnskey => "DNSKEY"
  | ns => "NS"
  | other => "OTHER"
  | svcb => "SVCB"
  | https => "HTTPS"

/-- The class name, or the number of a type that has no class of its own. -/
def label (t : RecordType) (wire : Option UInt16) : String :=
  match t, wire with
  | other, some n => s!"TYPE{n}"
  | t, _ => t.name

theorem mem_all (t : RecordType) : t ∈ all := by
  cases t <;> decide

theorem all_getElem?_position (t : RecordType) : all[t.position.val]? = some t := by
  cases t <;> rfl

theorem position_inj {s t : RecordType} : s.position = t.position ↔ s = t := by
  constructor
  · intro h
    have hs := all_getElem?_position s
    rw [h, all_getElem?_position t] at hs
    exact (Option.some.inj hs).symm
  · exact congrArg position

end RecordType

end Sinkhole
