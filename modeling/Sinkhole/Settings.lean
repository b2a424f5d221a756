import Sinkhole.Fault
import Sinkhole.Json
import Sinkhole.Privacy

namespace Sinkhole

/-- The first five are the most records of each kind, and `textBytes` is the budget of the text
pool. The history has `buckets` buckets of `bucketSeconds` each, and an answer is matched with one
of the last `lookback` queries. -/
structure Settings where
  queries : Nat := 1000000
  domains : Nat := 100000
  clients : Nat := 10000
  forwarders : Nat := 256
  decisions : Nat := 200000
  textBytes : Nat := 67108864
  bucketSeconds : UInt64 := 600
  buckets : Nat := 150
  lookback : Nat := 1000
  privacy : Privacy := .showAll
  traceStatus : Bool := false
  reloadSeconds : Nat := 3600
  reloadAtStart : Bool := true
  listFile : String := "./var/data/lists.db"
  deriving DecidableEq, Repr

namespace Settings

/-- The counts that must not be zero, by the names that a file gives them. -/
def counts (s : Settings) : List (String × Nat) :=
  [("max_queries", s.queries), ("max_domains", s.domains), ("max_clients", s.clients),
    ("max_upstreams", s.forwarders), ("max_cache_entries", s.decisions),
    ("overtime_slots", s.buckets)]

/-- The first thing that is wrong with settings. The text pool needs its first byte and one more. -/
def fault? (s : Settings) : Option SettingsFault :=
  match s.counts.find? (·.2 == 0) with
  | some (field, _) => some (.notPositive field)
  | none =>
    if s.textBytes < 2 then some .noRoomForText
    else if s.bucketSeconds = 0 then some (.notPositive "overtime_interval_secs")
    else none

def check (s : Settings) : Except SettingsFault Settings :=
  match s.fault? with
  | some fault => .error fault
  | none => .ok s

end Settings

end Sinkhole

namespace Sinkhole.Settings

/-- A number of up to 64 bits, written without sign, point or exponent. -/
def natural? : Json → Option Nat
  | .number n => n.natural?.filter (· < 18446744073709551616)
  | _ => none

def bool? : Json → Option Bool
  | .bool b => some b
  | _ => none

def text? : Json → Option String
  | .string s => s
  | _ => none

def privacy? (v : Json) : Option Privacy :=
  (natural? v).bind Privacy.ofLevel?

/-- A field: its name, and the settings changed by a value that it can take. -/
structure Field where
  name : String
  put? : Settings → Json → Option Settings

/-- Every field, in the order in which an array gives them. -/
def fields : List Field :=
  [⟨"max_queries", fun s v => (natural? v).map ({ s with queries := · })⟩,
    ⟨"max_domains", fun s v => (natural? v).map ({ s with domains := · })⟩,
    ⟨"max_clients", fun s v => (natural? v).map ({ s with clients := · })⟩,
    ⟨"max_upstreams", fun s v => (natural? v).map ({ s with forwarders := · })⟩,
    ⟨"max_cache_entries", fun s v => (natural? v).map ({ s with decisions := · })⟩,
    ⟨"max_string_bytes", fun s v => (natural? v).map ({ s with textBytes := · })⟩,
    ⟨"overtime_interval_secs", fun s v =>
      (natural? v).map fun n => { s with bucketSeconds := UInt64.ofNat n }⟩,
    ⟨"overtime_slots", fun s v => (natural? v).map ({ s with buckets := · })⟩,
    ⟨"correlation_lookback", fun s v => (natural? v).map ({ s with lookback := · })⟩,
    ⟨"privacy_level", fun s v => (privacy? v).map ({ s with privacy := · })⟩,
    ⟨"debug_status", fun s v => (bool? v).map ({ s with traceStatus := · })⟩,
    ⟨"reload_interval_secs", fun s v => (natural? v).map ({ s with reloadSeconds := · })⟩,
    ⟨"reload_on_start", fun s v => (bool? v).map ({ s with reloadAtStart := · })⟩,
    ⟨"list_db_path", fun s v => (text? v).map ({ s with listFile := · })⟩]

/-- Puts the members of an object, given the names of the fields already put. -/
def ofMembers? (s : Settings) (seen : List String) : List (Option String × Json) → Option Settings
  | [] => some s
  | (none, _) :: _ => none
  | (some name, v) :: rest =>
    match fields.find? (·.name == name) with
    | none => ofMembers? s seen rest
    | some field =>
      if seen.contains name then none
      else (field.put? s v).bind fun s => ofMembers? s (name :: seen) rest

def ofItems? (s : Settings) : List Field → List Json → Option Settings
  | _, [] => some s
  | [], _ :: _ => none
  | field :: fields, v :: vs => (field.put? s v).bind fun s => ofItems? s fields vs

def ofJson? : Json → Option Settings
  | .object members => ofMembers? {} [] members
  | .array items => ofItems? {} fields items
  | _ => none

def read (text : String) : Except SettingsFault Settings :=
  match (Json.parse? text).bind ofJson? with
  | some s => s.check
  | none => .error .unparsable

def ofFile : Option String → Except SettingsFault Settings
  | some text => read text
  | none => .error .unreadable

/-- The settings of the file that a setup names, or the defaults if it names none. -/
def load (file : Option String) (content : String → Option String) :
    Except SettingsFault Settings :=
  match file with
  | none | some "" => .ok {}
  | some path => ofFile (content path)

end Sinkhole.Settings
