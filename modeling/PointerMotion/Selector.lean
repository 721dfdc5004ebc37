/-
The names and numbers by which a strategy is chosen: ten strategies, and the
wish for the one that the settings name.
-/
import PointerMotion.Text.Blank
import PointerMotion.Text.Capital
import PointerMotion.Text.Quoted

namespace PointerMotion

/-- The strategies. -/
inductive StrategyId where
  | impulse
  | lsq1
  | lsq2
  | lsq3
  | wlsq2Delta
  | wlsq2Central
  | wlsq2Recent
  | int1
  | int2
  | legacy
  deriving Repr, DecidableEq

/-- A strategy, or the one that the settings name. -/
inductive Selector where
  | configured
  | concrete (id : StrategyId)
  deriving Repr, DecidableEq

namespace StrategyId

def all : List StrategyId :=
  [impulse, lsq1, lsq2, lsq3, wlsq2Delta, wlsq2Central, wlsq2Recent,
    int1, int2, legacy]

def name : StrategyId → String
  | impulse => "IMPULSE"
  | lsq1 => "LSQ1"
  | lsq2 => "LSQ2"
  | lsq3 => "LSQ3"
  | wlsq2Delta => "WLSQ2_DELTA"
  | wlsq2Central => "WLSQ2_CENTRAL"
  | wlsq2Recent => "WLSQ2_RECENT"
  | int1 => "INT1"
  | int2 => "INT2"
  | legacy => "LEGACY"

def code : StrategyId → Int
  | impulse => 0
  | lsq1 => 1
  | lsq2 => 2
  | lsq3 => 3
  | wlsq2Delta => 4
  | wlsq2Central => 5
  | wlsq2Recent => 6
  | int1 => 7
  | int2 => 8
  | legacy => 9

end StrategyId

namespace Selector

def all : List Selector :=
  configured :: StrategyId.all.map concrete

def name : Selector → String
  | configured => "DEFAULT"
  | concrete id => id.name

def code : Selector → Int
  | configured => -1
  | concrete id => id.code

def ofCode? (n : Int) : Option Selector :=
  all.find? fun s => s.code == n

def ofExactName? (name : String) : Option Selector :=
  all.find? fun s => s.name == name

/-- The selector that a text names, whatever its case and the blanks around
it. -/
def ofName? (text : String) : Option Selector :=
  ofExactName?
    (String.ofList (Text.capitalize (Text.stripWhere Text.isBlank text.toList)))

def unknownMessage (text : String) : String :=
  "Unknown velocity tracker strategy " ++ Text.quoted text

theorem ofCode?_code (s : Selector) : ofCode? s.code = some s := by
  rcases s with _ | id
  · rfl
  · cases id <;> rfl

end Selector

end PointerMotion
