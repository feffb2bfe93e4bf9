import HeaderGather.Catalog
import HeaderGather.Json.Parse

/-! The JSON form of a catalog: an object with a member for each header, which
says whether the header was found, and under which path or text. -/
namespace HeaderGather

namespace Location

def state : Location → String
  | .wanted _ => "unresolved"
  | .found _ => "resolved"

def content : Location → String
  | .wanted text => text
  | .found path => path.text

def toJson (l : Location) : Json :=
  .object [("state", .text l.state), ("path", .text l.content)]

/-- A state is named by a text, or by the only key of an object that holds null. -/
def stateOf? : Json → Option String
  | .text state => some state
  | .object [(state, .null)] => some state
  | _ => none

def ofParts? (state content : Json) : Option Location :=
  match stateOf? state, content with
  | some state, .text content =>
    if state = "unresolved" then some (.wanted content)
    else if state = "resolved" then some (.found ⟨content⟩)
    else none
  | _, _ => none

def onlyMember? (key : String) (members : List (String × Json)) : Option Json :=
  match members.filter (·.1 = key) with
  | [m] => some m.2
  | _ => none

/-- State and path, each once, among members of other names; or the two alone, in
a list. -/
def ofJson? : Json → Option Location
  | .object members => do
    ofParts? (← onlyMember? "state" members) (← onlyMember? "path" members)
  | .list [state, content] => ofParts? state content
  | _ => none

end Location

namespace Catalog

def toJson (c : Catalog) : Json := .object (c.entries.map fun e => (e.1, e.2.toJson))

def ofJson? : Json → Option Catalog
  | .object members =>
    (members.mapM fun m => (Location.ofJson? m.2).map fun l => (m.1, l)).map ofEntries
  | _ => none

def ofText? (text : String) : Option Catalog := (Json.parse? text).bind ofJson?

end Catalog

end HeaderGather
