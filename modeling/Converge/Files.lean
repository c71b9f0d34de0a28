import Converge.Text.Chars

/-!
# Paths and file access

Paths are texts with `/` between their parts. The library never opens a file itself: it is handed a
`Files` value that answers for the paths it asks about.

## Main Definitions

* `Path.looksLikeDocument` — whether a text names a template file rather than being a template.
* `Path.expandHome` — a leading `~` stands for the home directory.
* `Files` — what the library may ask about files.
* `Files.ofPaths` — the files of some paths.
* `Files.ofContents` — the files of a given directory tree.
-/

namespace Converge

namespace Path

open Chars

/-- The endings of document files, in small letters. -/
def documentEndings : List String := [".yaml", ".yml", ".json"]

/-- A text on one line, without `: `, that ends like the name of a document file. -/
def looksLikeDocument (text : String) : Bool :=
  let name := trim text.toList
  !contains ['\n'] name && !contains [':', ' '] name
    && documentEndings.any fun ending =>
      (beforeEnd ending.toList (name.map asciiLower)).isSome

/-- `rest` below `base`; an absolute `rest` stands for itself. -/
def below (base rest : String) : String :=
  match rest.toList with
  | '/' :: _ => rest
  | _ => if base.toList.getLast? = some '/' || base.isEmpty then base ++ rest else base ++ "/" ++ rest

/-- The trimmed path, with a leading `~` replaced by the home directory. -/
def expandHome (home path : String) : String :=
  match trim path.toList with
  | ['~'] => home
  | '~' :: '/' :: rest => below home (String.ofList rest)
  | '~' :: '\\' :: rest => below home (String.ofList rest)
  | trimmed => String.ofList trimmed

end Path

/-- Why a file could not be read. -/
inductive FileError where
  | missing
  | directory
  | notText
  | notADirectory
  | other (message : String)
  deriving Repr, DecidableEq

/-- The operating system's words for a failed reading. -/
def FileError.message : FileError → String
  | .missing => "No such file or directory (os error 2)"
  | .directory => "Is a directory (os error 21)"
  | .notText => "stream did not contain valid UTF-8"
  | .notADirectory => "Not a directory (os error 20)"
  | .other message => message

/-- What the library may ask about files. -/
structure Files where
  /-- Whether anything is found under a path. -/
  found : String → Bool
  /-- The text under a path. -/
  read : String → Except FileError String

namespace Files

/-- No files at all. -/
def none : Files := ⟨fun _ => false, fun _ => .error .missing⟩

/-- The files of some paths. -/
def ofPaths (texts : List (String × Except FileError String)) : Files where
  found path := match texts.lookup path with
    | some (.error .missing) | Option.none => false
    | some _ => true
  read path := (texts.lookup path).getD (.error .missing)

/-- What a tree of files holds at a place. -/
inductive Entry where
  | file (content : ByteArray)
  | directory
  | blocked
  | nothing

/-- A tree of files: its directories and its files, each given by the names on the way to it. -/
structure Tree where
  directories : List (List (List Char))
  files : List (List (List Char) × ByteArray)

namespace Tree

/-- What stands at a place. Every start of the way to something is a directory. -/
def entryAt (tree : Tree) (place : List (List Char)) : Entry :=
  match tree.files.find? (·.1 = place) with
  | some (_, content) => .file content
  | Option.none =>
      if place.isEmpty || (tree.directories ++ tree.files.map (·.1)).any (place.isPrefixOf ·) then .directory
      else .nothing

/-- What is reached from a place by further names: an empty name and `.` stay, `..` goes back. -/
def walk (tree : Tree) (place : List (List Char)) : List (List Char) → Entry
  | [] => tree.entryAt place
  | name :: names =>
      match tree.entryAt place with
      | .directory =>
          if name = [] || name = ['.'] then tree.walk place names
          else if name = ['.', '.'] then tree.walk place.dropLast names
          else tree.walk (place ++ [name]) names
      | .file _ => .blocked
      | entry => entry

/-- What is found under a path, which may begin with the name of the root. Nothing is found outside of it. -/
def find (tree : Tree) (root path : String) : Entry :=
  match path.toList with
  | [] => .nothing
  | ['/'] => .directory
  | '/' :: _ => .nothing
  | cs =>
      let inside := if path = root then [] else (Chars.afterStart (root.toList ++ ['/']) cs).getD cs
      tree.walk [] (Chars.splitAt '/' inside)

end Tree

/-- The files of a tree, given by directories and by files with their contents. -/
def ofContents (root : String) (directories : List String) (contents : List (String × ByteArray)) : Files :=
  let way (path : String) := (Chars.splitAt '/' path.toList).filter (!·.isEmpty)
  let tree : Tree := ⟨directories.map way, contents.map fun (path, content) => (way path, content)⟩
  { found := fun path => match tree.find root path with
      | .file _ | .directory => true
      | _ => false
    read := fun path => match tree.find root path with
      | .file content => match String.fromUTF8? content with
          | some text => .ok text
          | Option.none => .error .notText
      | .directory => .error .directory
      | .blocked => .error .notADirectory
      | .nothing => .error .missing }

end Files

end Converge
