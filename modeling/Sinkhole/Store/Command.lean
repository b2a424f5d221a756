import Sinkhole.Store.Enrolment
import Sinkhole.Store.Queries
import Sinkhole.Store.Reload
import Sinkhole.Store.Removal

namespace Sinkhole

inductive Command where
  | setClock (ms : UInt64)
  | moveClock (ms : UInt64)
  | setPrivacy (level : Privacy)
  | setStarting (on : Bool)
  /-- A directory whose answers change is replaced by another one. -/
  | setDirectory (keyOf : AliasLookup)
  | slideTo (now : UInt64)
  | enrolDomain (name : String) (counted : Bool)
  | enrolClient (address : String) (counted isAlias : Bool)
  | enrolForwarder (address : String) (number : UInt16)
  | enrolDecision (domain : Handle .domain) (client : Handle .client) (type : RecordType)
      (create : Bool)
  | recordQuery (new : Arrival)
  | reclassify (query : Handle .query) (status : Status) (first : Bool)
  | reclassifyCode (query : Handle .query) (code : Nat) (first : Bool)
  | noteReply (query : Handle .query) (reply : ReplyKind)
  | attachForwarder (query : Handle .query) (forwarder : Handle .forwarder)
  | attachDecision (query : Handle .query) (decision : Handle .decision)
  | attachCname (query : Handle .query) (target : String)
  | noteValidation (query : Handle .query) (validation : Validation)
  | noteResponseTime (query : Handle .query) (ms : Float)
  | nameClient (client : Handle .client) (name : String)
  | assignGroups (client : Handle .client) (groups : String)
  | assignHardware (client : Handle .client) (hardware : HardwareAddress) (interface : String)
  | adjustClient (client : Handle .client) (δ : CountChange)
  | manage (client manager : Handle .client)
  | release (client : Handle .client)
  | followDirectory (client : Handle .client)
  | nameForwarder (forwarder : Handle .forwarder) (name : String)
  | noteResponse (forwarder : Handle .forwarder) (ms : Float)
  | noteFailure (forwarder : Handle .forwarder)
  | noteVerdict (decision : Handle .decision) (verdict : Verdict) (list : Option Int64)
  | forgetDecisions
  | removeQuery (query : Handle .query)
  | removeDomain (domain : Handle .domain)
  | removeClient (client : Handle .client)
  | removeForwarder (forwarder : Handle .forwarder)
  | removeDecision (decision : Handle .decision)
  | reload (lists : ListSource)
  | refresh (lists : ListSource)

/-- What a command answers. A handle that is not found is an answer too. -/
inductive Answer where
  | done
  | flag (b : Bool)
  | number (n : Nat)
  | domain (h : Handle .domain)
  | client (h : Option (Handle .client))
  | forwarder (h : Handle .forwarder)
  | decision (h : Option (Handle .decision))
  | query (h : Handle .query)
  | report (r : ReloadReport)
  deriving DecidableEq, Repr

namespace Command

open Answer

def perform : Command → Attempt Answer
  | setClock ms => do
    modify ({ · with now := ms })
    return done
  | moveClock ms => do
    modify fun s => { s with now := s.now + ms }
    return done
  | setPrivacy level => do
    modify ({ · with privacy := level })
    return done
  | setStarting on => do
    modify ({ · with starting := on })
    return done
  | setDirectory keyOf => do
    modify ({ · with directory := some keyOf })
    return done
  | slideTo now => do return number (← Store.slideTo now)
  | enrolDomain name counted => do return domain (← Store.enrolDomain name counted)
  | enrolClient address counted isAlias => do
    return client (← Store.enrolClient address counted isAlias)
  | enrolForwarder address n => do return forwarder (← Store.enrolForwarder address n)
  | enrolDecision d c type create => do return decision (← Store.enrolDecision d c type create)
  | recordQuery new => do return query (← Store.recordQuery new)
  | reclassify q status first => do return flag (← Store.reclassify q status first)
  | reclassifyCode q code first => do return flag (← Store.reclassifyCode q code first)
  | noteReply q reply => do return flag (← Store.noteReply q reply)
  | attachForwarder q u => do return flag (← Store.attachForwarder q u)
  | attachDecision q d => do return flag (← Store.attachDecision q d)
  | attachCname q target => do return flag (← Store.attachCname q target)
  | noteValidation q validation => do return flag (← Store.noteValidation q validation)
  | noteResponseTime q ms => do return flag (← Store.noteResponseTime q ms)
  | nameClient c name => do return flag (← Store.nameClient c name)
  | assignGroups c groups => do return flag (← Store.assignGroups c groups)
  | assignHardware c hardware interface => do
    return flag (← Store.assignHardware c hardware interface)
  | adjustClient c δ => do return flag (← Store.adjustClient c δ)
  | manage c manager => do return flag (← Store.manage c manager)
  | release c => do return flag (← Store.release c)
  | followDirectory c => do
    Store.followDirectory c
    return done
  | nameForwarder u name => do return flag (← Store.nameForwarder u name)
  | noteResponse u ms => do return flag (← Store.noteResponse u ms)
  | noteFailure u => do return flag (← Store.noteFailure u)
  | noteVerdict d verdict list => do return flag (← Store.noteVerdict d verdict list)
  | forgetDecisions => do return number (← Store.forgetDecisions)
  | removeQuery q => do return flag (← Store.removeQuery q)
  | removeDomain d => do return flag (← Store.removeDomain d)
  | removeClient c => do return flag (← Store.removeClient c)
  | removeForwarder u => do return flag (← Store.removeForwarder u)
  | removeDecision d => do return flag (← Store.removeDecision d)
  | reload lists => do return report (← Store.reload lists)
  | refresh lists => do return report (← Store.refresh lists)

/-- What a command does to a store, whether or not it ends with a fault. -/
def apply (c : Command) (s : Store) : Store :=
  (c.perform.run.run s).store

/-- The store after a list of commands. A command that ends with a fault does not stop the run. -/
def runAll (commands : List Command) (s : Store) : Store :=
  commands.foldl (fun s c => c.apply s) s

end Command

end Sinkhole
