import Sinkhole.Slot.Table
import Sinkhole.Text

namespace Sinkhole

inductive ListFault where
  | cannotOpen
  | noSuchTable (name : String)
  | other (text : String)
  deriving DecidableEq, Repr

namespace ListFault

def text : ListFault → String
  | cannotOpen => "Failed to open list database"
  | noSuchTable name => s!"no such table: {name}"
  | other text => text

end ListFault

inductive SettingsFault where
  | unreadable
  | unparsable
  | notPositive (field : String)
  | noRoomForText
  deriving DecidableEq, Repr

namespace SettingsFault

def text : SettingsFault → String
  | unreadable => "Failed to read config"
  | unparsable => "Failed to parse config"
  | notPositive field => s!"{field} must be positive"
  | noRoomForText => "max_string_bytes must leave room for one string"

end SettingsFault

inductive Fault where
  /-- A table or the text pool cannot grow. -/
  | exhausted (resource : String) (capacity : Nat)
  | settings (fault : SettingsFault)
  | lists (fault : ListFault)
  /-- A word would have to hold more than it can, and the program stops. -/
  | overflow
  deriving DecidableEq, Repr

namespace Fault

def message : Fault → String
  | exhausted resource capacity => s!"resource exhausted: {resource} (capacity {capacity})"
  | settings fault => "invalid configuration: " ++ fault.text
  | lists fault => "list store error: " ++ fault.text
  | overflow => "attempt to multiply with overflow"

def ofFullTable (t : TableFull) : Fault :=
  exhausted t.name t.capacity

def ofFullPool (p : TextPool.Exhausted) : Fault :=
  exhausted "string pool" p.limit

end Fault

end Sinkhole
