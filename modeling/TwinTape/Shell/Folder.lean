import TwinTape.Fault

/-! # Program files

A program file has a fixed name and lies in a folder; a path names the folder or the file itself
(`programPath`).  `Folder` is a tree of folders and files in which paths can be looked up, and
`Lookup` is what a look-up can give, be it in such a tree or elsewhere. -/

namespace TwinTape

/-- What is found under a path. -/
inductive Lookup where
  | file (bytes : ByteArray)
  /-- There is nothing. -/
  | missing
  /-- There is something that can not be read as a file. -/
  | unreadable

/-- The program text that was found. -/
def Lookup.text (source : String) : Lookup → Except Fault String
  | file bytes =>
    match String.fromUTF8? bytes with
    | some text => .ok text
    | none => .error (Fault.notText.inSource source)
  | missing => .error { kind := .fileMissing, source := some source }
  | unreadable => .error { kind := .fileUnreadable, source := some source }

/-! ### Paths -/

/-- The name of program files. -/
def programName : List Char := ['m', 'a', 'u', 'm', 'i', 'v', 'u', '.', 'a', 'u']

/-- A path with a name below it; a slash comes between them unless there is one or the path is
empty. -/
def joinPath (path name : List Char) : List Char :=
  if path = [] ∨ path.getLast? = some '/' then path ++ name else path ++ '/' :: name

/-- The program file that a path stands for: the name of program files is taken off the end, if
it is there, and put below what is left. -/
def programPath (path : List Char) : List Char :=
  let folder :=
    if programName.isSuffixOf path then path.take (path.length - programName.length) else path
  joinPath folder programName

/-! ### Folders -/

/-- What has a name in a folder. -/
inductive Entry where
  | file (bytes : ByteArray)
  | folder (entries : List (String × Entry))

instance : Inhabited Entry := ⟨.folder []⟩

namespace Entry

/-- What is in an entry. -/
def entries : Entry → List (String × Entry)
  | file _ => []
  | folder entries => entries

/-- The entry with a name. -/
def child? (e : Entry) (name : String) : Option Entry :=
  (e.entries.find? (·.1 == name)).map (·.2)

/-- Changes what is under the given names, with the folders on the way.  Where there is nothing,
an empty folder is changed. -/
def change (e : Entry) (f : Entry → Entry) : List String → Entry
  | [] => f e
  | name :: names =>
    let below := (e.child? name).getD (.folder [])
    .folder ((name, below.change f names) :: e.entries.filter (·.1 != name))

/-- Makes sure that there is something under the given names. -/
def addFolder (e : Entry) (names : List String) : Entry := e.change id names

/-- Puts a file under the given names. -/
def addFile (e : Entry) (names : List String) (bytes : ByteArray) : Entry :=
  e.change (fun _ => .file bytes) names

/-- The longest name a folder can hold, in bytes. -/
def nameLimit : Nat := 255

/-- The longest path that can be looked up, in bytes. -/
def pathLimit : Nat := 4095

/-- A folder of which nothing is known: no name is found in it. -/
def unknown : Entry := folder []

/-- Follows names from an entry.  `above` are the folders it lies in, the innermost first; what lies
above the outermost is unknown. -/
def find : List String → Entry → List Entry → Lookup
  | [], file bytes, _ => .file bytes
  | [], folder _, _ => .unreadable
  | _ :: _, file _, _ => .unreadable
  | name :: names, folder entries, above =>
    if name = "" ∨ name = "." then find names (.folder entries) above
    else if name = ".." then
      match above with
      | parent :: above => find names parent above
      | [] => find names unknown []
    else if nameLimit < name.utf8ByteSize then .unreadable
    else match (Entry.folder entries).child? name with
      | some e => find names e (.folder entries :: above)
      | none => .missing

/-- The names of a path. -/
def names (path : String) : List String := path.splitOn "/"

/-- Looks up a path that starts at the entry, or at an unknown root if it begins with a slash. -/
def lookup (e : Entry) (path : String) : Lookup :=
  if pathLimit < path.utf8ByteSize then .unreadable
  else match names path with
    | "" :: name :: names => find (name :: names) unknown []
    | names => find names e []

end Entry
end TwinTape
