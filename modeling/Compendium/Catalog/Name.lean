import Compendium.Fault
import Compendium.Files.Path
import Compendium.Text.Blank

/-! Names of categories and titles, and the paths of the files that belong to them. -/
namespace Compendium.Catalog

def leadsElsewhere (name : String) : Bool :=
  name.toList.contains '/' || name.toList.contains '\\' || name = "." || name = ".."

/-- A name without blanks around it, if it is neither empty nor leads elsewhere. -/
def validName (field name : String) : Except Fault String :=
  let stripped := Text.strip name
  if stripped.isEmpty then .error (.emptyName field)
  else if leadsElsewhere stripped then .error (.separatorInName field stripped)
  else .ok stripped

def suffix : String := ".md"

def pathOf (base : Path) (category title : String) : Path := (base.child category).child (title ++ suffix)

/-- The category of files that lie in the base directory itself. -/
def uncategorized : String := "uncategorized"

/-- The category and title of a file, from the names that lead to it below the base directory. -/
def entryOf (names : List String) : String × String :=
  let category := match names with
    | first :: _ :: _ => first
    | _ => uncategorized
  (category, Path.stemOf (names.getLastD ""))

end Compendium.Catalog
