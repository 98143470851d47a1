import StoreMarkup.Files.Path
import StoreMarkup.Text.Encoding
import StoreMarkup.Text.Quoted

/-! Trees of files: following paths, reading what they lead to, and listing all files. -/
namespace StoreMarkup

/-- Why a file cannot be read. -/
inductive FileError where
  | notFound
  | denied
  | notDirectory
  | isDirectory
  /-- Any other reason, in the words of the system. -/
  | other (message : String)
deriving DecidableEq, Repr

/-- The message about a path. -/
def FileError.message (path : Path) (e : FileError) : String :=
  let about := fun (reason : String) => s!"{reason}: " ++ String.ofList (quotedText path.toText)
  match e with
  | notFound => about "[Errno 2] No such file or directory"
  | denied => about "[Errno 13] Permission denied"
  | notDirectory => about "[Errno 20] Not a directory"
  | isDirectory => about "[Errno 21] Is a directory"
  | other message => message

/-- A file with what reading it gives, or a directory with its named entries. -/
inductive FileTree where
  | file (content : Except FileError Bytes)
  | directory (entries : List (Text × FileTree))
deriving Repr, Inhabited

namespace FileTree

def entries : FileTree → List (Text × FileTree)
  | file _ => []
  | directory entries => entries

def isDirectory : FileTree → Bool
  | file _ => false
  | directory _ => true

/-- Gives a name the entry, in place of the one it had or as the last. -/
def setEntry (name : Text) (entry : FileTree) : List (Text × FileTree) → List (Text × FileTree)
  | [] => [(name, entry)]
  | (n, e) :: rest => if n = name then (name, entry) :: rest else (n, e) :: setEntry name entry rest

/-- Puts a file or an empty directory at a path, and makes the directories on the way to it. A
directory that is there already stays as it is. -/
def insert (tree : FileTree) (path : List Text) (leaf : FileTree) : FileTree :=
  match path with
  | [] => if leaf.isDirectory && tree.isDirectory then tree else leaf
  | name :: rest =>
    let below := (tree.entries.lookup name).getD (directory [])
    directory (setEntry name (insert below rest leaf) tree.entries)

/-- Follows the parts of a path from a tree whose parent directories are `above`, the nearest
first. The directory without one is its own parent. -/
def follow (above : List FileTree) (tree : FileTree) : List Text → Except FileError FileTree
  | [] => .ok tree
  | name :: rest =>
    match tree with
    | file _ => .error .notDirectory
    | directory entries =>
      if name = Path.up then follow above.tail (above.headD tree) rest
      else
        match entries.lookup name with
        | none => .error .notFound
        | some entry => follow (tree :: above) entry rest

mutual

/-- The paths of all files of a tree, each below the given one. -/
def files (path : List Text) : FileTree → List (List Text)
  | file _ => [path]
  | directory entries => filesOf path entries

def filesOf (path : List Text) : List (Text × FileTree) → List (List Text)
  | [] => []
  | (name, entry) :: rest => files (path ++ [name]) entry ++ filesOf path rest

end

end FileTree

/-- What a program runs on: the files from the root down, the directory it works in, and the
encodings it can name. -/
structure Host where
  root : FileTree
  /-- The parts of the path from the root to the working directory. -/
  workingDir : List Text := []
  codecs : Codecs := .basic

namespace Host

/-- What a path leads to. Unless it is absolute, it starts in the working directory. -/
def find (host : Host) (path : Path) : Except FileError FileTree :=
  host.root.follow [] (if path.root.isEmpty then host.workingDir ++ path.parts else path.parts)

/-- What reading the file gives that a path leads to. -/
def read (host : Host) (path : Path) : Except FileError Bytes :=
  match host.find path with
  | .error e => .error e
  | .ok (.directory _) => .error .isDirectory
  | .ok (.file content) => content

end Host

end StoreMarkup
