import Compendium.Fault
import Compendium.Files.Path
import Compendium.Keyed
import Compendium.Text.Line

/-! A tree of directories and files, and what happens when a path is followed, made, written or removed. -/
namespace Compendium

/-- What a file holds: text, octets that need not be text, or a database, which is kept elsewhere. -/
inductive Content where
  | text (s : String)
  | octets (bytes : List UInt8)
  | database
  deriving DecidableEq

inductive Node where
  | directory
  | file (content : Content)
  deriving DecidableEq

/-- A place in the tree: the names that lead to it from the directory of work. -/
abbrev Place := List String

/-- The directories and files at their places. The directory of work and the top of absolute paths, which
is the place of the single name `/`, are always there. -/
structure Tree where
  nodes : List (Place × Node) := []

namespace Tree

def maxName : Nat := 255

def maxPath : Nat := 4095

def top : Place := ["/"]

def node? (t : Tree) (place : Place) : Option Node :=
  if place = [] || place = top then some .directory else Keyed.get? place t.nodes

/-- Follows names from a place; each but the last has to lead to a directory. -/
def walk (t : Tree) : (here : Place) → List String → Except FileDefect Place
  | here, [] => .ok here
  | here, n :: r =>
    match t.node? here with
    | none => .error .notFound
    | some (.file _) => .error .notDirectory
    | some .directory =>
      if n = ".." then walk t here.dropLast r
      else if maxName < Text.Utf8.size n then .error .nameTooLong
      else walk t (here ++ [n]) r

def locate (t : Tree) (p : Path) : Except FileDefect Place :=
  if maxPath < Text.Utf8.size p.text then .error .nameTooLong
  else t.walk (if p.slashes = 0 then [] else top) p.names

def find (t : Tree) (p : Path) : Except FileDefect Node := do
  let place ← t.locate p
  match t.node? place with
  | some n => return n
  | none => throw .notFound

def failing {α : Type} (paths : List Path) : Except FileDefect α → Except Fault α
  | .ok a => .ok a
  | .error d => .error (.file d (paths.map Path.text))

/-- Work on a path, which fails before it starts when no file can have such a path. -/
def onPath {α : Type} (p : Path) (work : Except FileDefect α) : Except Fault α :=
  if p.hasNul then .error .nulInPath else failing [p] work

/-- What stands at a path, if anything does. A path that leads nowhere is no failure. -/
def look (t : Tree) (p : Path) : Except Fault (Option Node) :=
  if p.hasNul then .ok none
  else
    match t.find p with
    | .ok n => .ok (some n)
    | .error .notFound => .ok none
    | .error .notDirectory => .ok none
    | .error d => .error (.file d [p.text])

def isDirectory : Node → Bool
  | .directory => true
  | .file _ => false

def makeOne (t : Tree) (p : Path) : Except FileDefect Tree := do
  let place ← t.locate p
  match t.node? place with
  | some _ => throw .exists_
  | none => return { t with nodes := Keyed.put place .directory t.nodes }

def hasDirectory (t : Tree) (p : Path) : Bool :=
  match t.find p with
  | .ok .directory => true
  | _ => false

/-- Makes one directory unless it is there. -/
def ensureOne (t : Tree) (p : Path) : Except FileDefect Tree :=
  match t.makeOne p with
  | .ok t => .ok t
  | .error d => if d != .notFound && t.hasDirectory p then .ok t else .error d

/-- Makes a directory, and those above it, unless they are there. Where one of them cannot be made the tree stays as it
was: that those above it may have been made by then, as on a disk, is not told. -/
def ensure (t : Tree) (p : Path) : Except Fault Tree :=
  match t.ensureOne p with
  | .ok t => .ok t
  | .error d =>
    if d = .notFound then
      if _h : p.names = [] then failing [p] (.error d)
      else
        match ensure t p.parent with
        | .ok t => failing [p] (t.ensureOne p)
        | .error f => .error f
    else failing [p] (.error d)
termination_by p.names.length
decreasing_by
  have := List.length_pos_iff.2 _h
  simp only [Path.parent, List.length_dropLast]
  omega

/-- Makes a directory with those above it, all of them or none (see `ensure`). -/
def makeDirectories (t : Tree) (p : Path) : Except Fault Tree :=
  if p.hasNul then .error .nulInPath else t.ensure p

def store (t : Tree) (p : Path) (c : Content) : Except FileDefect Tree := do
  let place ← t.locate p
  match t.node? place with
  | some .directory => throw .isDirectory
  | _ => return { t with nodes := Keyed.put place (.file c) t.nodes }

def write (t : Tree) (p : Path) (s : String) : Except Fault Tree := onPath p (t.store p (.text s))

/-- The octets or the text of a file, before line ends are made alike. -/
def contentText : Content → Except Fault String
  | .text s => .ok s
  | .octets bytes =>
    match Text.Utf8.decode bytes with
    | .ok s => .ok s
    | .error e => .error (.notText e)
  | .database => .error (.notText ⟨.start, 0, 1, 0⟩)

def contentOf (t : Tree) (p : Path) : Except FileDefect Content := do
  match ← t.find p with
  | .directory => throw .isDirectory
  | .file c => return c

def readRaw (t : Tree) (p : Path) : Except Fault String := onPath p (t.contentOf p) >>= contentText

/-- A file's text with all line ends made alike. -/
def read (t : Tree) (p : Path) : Except Fault String :=
  (t.readRaw p).map fun s => String.ofList (Text.unifyLineEnds s.toList)

def without (t : Tree) (place : Place) : Tree := { t with nodes := Keyed.erase place t.nodes }

def deleteAt (t : Tree) (p : Path) : Except FileDefect Tree := do
  let place ← t.locate p
  match t.node? place with
  | none => throw .notFound
  | some .directory => throw .isDirectory
  | some (.file _) => return t.without place

def delete (t : Tree) (p : Path) : Except Fault Tree := onPath p (t.deleteAt p)

def deleteIfThere (t : Tree) (p : Path) : Except Fault Tree :=
  match t.deleteAt p with
  | .error .notFound => if p.hasNul then .error .nulInPath else .ok t
  | outcome => onPath p outcome

/-- The nodes below a place. Absolute paths do not lie below the directory of work. -/
def below (t : Tree) (place : Place) : List (Place × Node) :=
  t.nodes.filter fun e => e.1 != place && place.isPrefixOf e.1 && (place != [] || e.1.head? != some "/")

def isEmptyAt (t : Tree) (place : Place) : Bool := (t.below place).isEmpty

def hasEmptyDirectory (t : Tree) (p : Path) : Bool :=
  match t.locate p with
  | .ok place =>
    match t.node? place with
    | some .directory => t.isEmptyAt place
    | _ => false
  | .error _ => false

def removeDirectoryAt (t : Tree) (p : Path) : Except FileDefect Tree := do
  let place ← t.locate p
  match t.node? place with
  | none => throw .notFound
  | some (.file _) => throw .notDirectory
  | some .directory => if t.isEmptyAt place then return t.without place else throw .notEmpty

def removeDirectory (t : Tree) (p : Path) : Except Fault Tree := onPath p (t.removeDirectoryAt p)

/-- Gives each node below or at one place the same position at another. -/
def relocate (t : Tree) (old new : Place) : Tree :=
  { t with nodes := (t.without new).nodes.map fun e =>
      if old.isPrefixOf e.1 then (new ++ e.1.drop old.length, e.2) else e }

def renameAt (t : Tree) (old new : Path) : Except FileDefect Tree := do
  let source ← t.locate old
  let target ← t.locate new
  match t.node? source with
  | none => throw .notFound
  | some n =>
    if source = target then return t
    else if source.isPrefixOf target then throw .invalid
    else if target.isPrefixOf source then throw .notEmpty
    else
      match n, t.node? target with
      | .directory, some (.file _) => throw .notDirectory
      | .file _, some .directory => throw .isDirectory
      | .directory, some .directory => if t.isEmptyAt target then return t.relocate source target else throw .notEmpty
      | _, _ => return t.relocate source target

def rename (t : Tree) (old new : Path) : Except Fault Tree :=
  if old.hasNul || new.hasNul then .error .nulInPath else failing [old, new] (t.renameAt old new)

def isMarkdown (name : String) : Bool := ".md".toList.isSuffixOf name.toList

/-- The files below a place that hold documents, as the names that lead to them, in the order of their names. -/
def documentsBelow (t : Tree) (place : Place) : List (List String) :=
  let files := (t.below place).filter fun e => !isDirectory e.2 && isMarkdown (e.1.getLastD "")
  (files.map fun e => e.1.drop place.length).mergeSort fun a b => !(b < a)

/-- The places of the directory of work, directories with a slash behind them, sorted. -/
def listing (t : Tree) : List String :=
  let shown := (t.nodes.filter fun e => e.1.head? != some "/").map fun e =>
    "/".intercalate e.1 ++ if isDirectory e.2 then "/" else ""
  shown.mergeSort fun a b => !(b < a)

end Tree

end Compendium
