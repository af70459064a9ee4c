import SystemDynamics.CommandLine.Usage
import SystemDynamics.Text.Padding

namespace SystemDynamics.CommandLine

def versionText : String :=
  "sdsim 0.1.0\n"

/-- What stands for a value: the name in capitals. -/
def placeholderOf (name : String) : String :=
  name.map fun c ↦ if c = '-' then '_' else c.toUpper

def inset : String :=
  "          "

/-- A setting on a page: further lines are inset, and control characters are left out. -/
def settingText (value : String) : String :=
  let shown := fun c : Char ↦ c ∈ ['\t', '\n', '\x0c', '\r'] || 0x20 ≤ c.toNat && c.toNat != 0x7F
  String.join ((value.toList.filter shown).map fun c ↦
    if c = '\n' then "\n" ++ inset else c.toString)

namespace Switch

variable (s : Switch)

def spelling : String :=
  "--" ++ s.name ++
    if s.takesValue then " <" ++ s.placeholder.getD (placeholderOf s.name) ++ ">" else ""

def remarks (setting : Option String) : List String :=
  (if s.about.isEmpty then [] else [s.about]) ++
    (s.setting.toList.map fun name ↦
      "[env: " ++ name ++ "=" ++ settingText (setting.getD "") ++ "]") ++
    (s.unsaid.toList.map fun n ↦ "[default: " ++ toString n ++ "]")

def entry (setting : Option String) : String :=
  let letter := s.letter.elim "    " fun c ↦ "-" ++ c.toString ++ ", "
  "  " ++ letter ++ s.spelling ++ "\n" ++ inset ++ " ".intercalate (s.remarks setting) ++ "\n"

def sortName : String :=
  s.letter.elim s.name fun c ↦ c.toLower.toString ++ "0"

end Switch

def Operand.spelling (o : Operand) : String :=
  let name := placeholderOf o.name
  (if o.isRequired then "<" ++ name ++ ">" else "[" ++ name ++ "]") ++
    if o.mayRepeat then "..." else ""

def columns (rows : List (String × String)) : String :=
  let width := (rows.map (·.1.length)).foldl max 0
  String.join (rows.map fun (left, right) ↦
    "  " ++ Text.padRight width left ++ "  " ++ right ++ "\n")

def part (title body : String) : String :=
  if body.isEmpty then "" else "\n" ++ title ++ ":\n" ++ body

namespace Usage

variable (u : Usage)

def listed : List Switch :=
  let places := (commonSwitches.zipIdx ++ u.own.zipIdx).mergeSort fun (s, i) (t, j) ↦
    i < j || i == j && s.sortName ≤ t.sortName
  places.map (·.1) ++ [helpSwitch (some u.name)]

def page (setting : Option String) : String :=
  let required := (u.own.filter (·.isRequired)).map (·.spelling)
  let line := ["sdsim", u.name, "[OPTIONS]"] ++ required ++ u.operands.map (·.spelling)
  u.about ++ "\n\nUsage: " ++ " ".intercalate line ++ "\n" ++
    part "Arguments" (columns (u.operands.map fun o ↦ (o.spelling, o.about))) ++
    part "Options" (String.join (u.listed.map (·.entry setting)))

end Usage

def helpPage : String :=
  let operands := Usage.help.operands
  Usage.help.about ++ "\n\nUsage: " ++
    " ".intercalate (["sdsim", "help"] ++ operands.map (·.spelling)) ++ "\n" ++
    part "Arguments" (columns (operands.map fun o ↦ (o.spelling, o.about)))

def programPage (setting : Option String) : String :=
  "Closed-world System Dynamics validation and simulation\n\n" ++
    "Usage: sdsim [OPTIONS] <COMMAND>\n" ++
    part "Commands" (columns ((Usage.all ++ [Usage.help]).map fun u ↦ (u.name, u.about))) ++
    part "Options" (String.join (programSwitches.map (·.entry setting)))

def helpText (command setting : Option String) : String :=
  if command = some Usage.help.name then helpPage
  else (command.bind Usage.ofName?).elim (programPage setting) (·.page setting)

end SystemDynamics.CommandLine
