import Sinkhole.Text

namespace Sinkhole

/-- A value of an option: its canonical spelling, the other words it is read from, and its name. -/
structure Choice where
  spelling : String
  synonyms : List String := []
  name : String
  deriving DecidableEq, Repr

structure ChoiceList where
  name : String
  choices : List Choice

namespace ChoiceList

/-- The first choice that a word spells. -/
def read? (option : ChoiceList) (word : String) : Option Choice :=
  option.choices.find? fun c => (c.spelling :: c.synonyms).any (Text.sameLetters word)

def refreshHostnames : ChoiceList where
  name := "RefreshHostnames"
  choices := [⟨"ALL", [], "All"⟩, ⟨"IPV4_ONLY", [], "Ipv4Only"⟩, ⟨"UNKNOWN", [], "Unknown"⟩,
    ⟨"NONE", [], "None"⟩]

def blockingMode : ChoiceList where
  name := "BlockingMode"
  choices := [⟨"IP", [], "Ip"⟩, ⟨"NX", [], "Nx"⟩, ⟨"NULL", [], "Null"⟩,
    ⟨"IP_NODATA_AAAA", [], "IpNodataAaaa"⟩, ⟨"NODATA", [], "Nodata"⟩]

def pointerName : ChoiceList where
  name := "PtrType"
  choices := [⟨"PI.HOLE", [], "PiHole"⟩, ⟨"HOSTNAME", [], "Hostname"⟩,
    ⟨"HOSTNAMEFQDN", [], "HostnameFqdn"⟩, ⟨"NONE", ["false"], "None"⟩]

def busyReply : ChoiceList where
  name := "BusyReply"
  choices := [⟨"BLOCK", [], "Block"⟩, ⟨"ALLOW", [], "Allow"⟩, ⟨"REFUSE", [], "Refuse"⟩,
    ⟨"DROP", [], "Drop"⟩]

def listeningMode : ChoiceList where
  name := "ListeningMode"
  choices := [⟨"LOCAL", [], "Local"⟩, ⟨"ALL", [], "All"⟩, ⟨"SINGLE", [], "Single"⟩,
    ⟨"BIND", [], "Bind"⟩, ⟨"NONE", [], "None"⟩]

def temperatureUnit : ChoiceList where
  name := "TempUnit"
  choices := [⟨"C", [], "Celsius"⟩, ⟨"F", [], "Fahrenheit"⟩, ⟨"K", [], "Kelvin"⟩]

def all : List ChoiceList :=
  [refreshHostnames, blockingMode, pointerName, busyReply, listeningMode, temperatureUnit]

end ChoiceList

end Sinkhole
