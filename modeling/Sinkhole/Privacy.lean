namespace Sinkhole

inductive Privacy where
  | showAll
  | hideDomains
  | hideDomainsClients
  | maximum
  deriving DecidableEq, Repr, Inhabited

namespace Privacy

def level : Privacy → Nat
  | showAll => 0
  | hideDomains => 1
  | hideDomainsClients => 2
  | maximum => 3

def ofLevel? : Nat → Option Privacy
  | 0 => some showAll
  | 1 => some hideDomains
  | 2 => some hideDomainsClients
  | 3 => some maximum
  | _ => none

/-- What is said of a number that is no level. -/
def refusal (n : Nat) : String :=
  s!"invalid privacy level {n}"

def name : Privacy → String
  | showAll => "ShowAll"
  | hideDomains => "HideDomains"
  | hideDomainsClients => "HideDomainsClients"
  | maximum => "Maximum"

def hidesDomains (p : Privacy) : Bool :=
  p.level ≥ hideDomains.level

def hidesClients (p : Privacy) : Bool :=
  p.level ≥ hideDomainsClients.level

theorem hidesDomains_of_hidesClients {p : Privacy} (h : p.hidesClients) : p.hidesDomains := by
  cases p <;> simp_all [hidesClients, hidesDomains, level]

end Privacy

end Sinkhole
