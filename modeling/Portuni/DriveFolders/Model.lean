import Mathlib.Logic.Function.Basic
import Portuni.RemotePaths.RoundTrip

/-!
The ancestor cache of the Drive adapter: the memo and the table below it, how a folder's path is
resolved through them, and what the adapter does with the folders that the change feed reports.
-/

namespace Portuni.DriveFolders

open RemotePaths

abbrev FileId := String

abbrev Name := {name : String // name ≠ ""}

structure DriveFile where
  name : Name
  parent : Option FileId
  trashed : Bool := false

section

/-- The memo, the oldest entry first, where a null stands for ancestry that does not reach the
root; and the rows of this remote in `remote_folder_cache`, unless the adapter goes without. -/
structure FolderPathCache where
  max : ℕ
  max_pos : 0 < max
  memo : List (FileId × Option String) := []
  store : Option (FileId → Option String) := some fun _ => none

variable (cache : FolderPathCache)

def FolderPathCache.touch (folderId : FileId) (path : Option String) : FolderPathCache :=
  let memo := cache.memo.filter (·.1 ≠ folderId) ++ [(folderId, path)]
  { cache with memo := memo.drop (memo.length - cache.max) }

/-- The answer `none` is the source's `undefined`: neither tier knows. -/
def FolderPathCache.get (folderId : FileId) : Option (Option String) × FolderPathCache :=
  match cache.memo.lookup folderId with
  | some hit => (some hit, cache.touch folderId hit)
  | none =>
    match cache.store.bind fun rows => rows folderId with
    | some row => (some (some row), cache.touch folderId (some row))
    | none => (none, cache)

def FolderPathCache.set (folderId : FileId) (path : Option String) : FolderPathCache :=
  let touched := cache.touch folderId path
  match path with
  | some p =>
    { touched with store := touched.store.map fun rows => Function.update rows folderId (some p) }
  | none => touched

def FolderPathCache.clear : FolderPathCache :=
  { cache with memo := [], store := cache.store.map fun _ _ => none }

/-- `LIKE '<start>%'`, which takes letters for the same that the database folds into one. -/
def like (fold : Char → Char) (start text : String) : Bool :=
  (start.toList.map fold).isPrefixOf (text.toList.map fold)

def deleteSubtree (fold : Char → Char) (path : String) (rows : FileId → Option String) :
    FileId → Option String :=
  fun folderId => (rows folderId).filter fun p => !(p = path || like fold (path ++ "/") p)

def FolderPathCache.invalidateSubtree (fold : Char → Char) (path : String) : FolderPathCache :=
  if path = "" then cache.clear
  else
    { cache with
      memo := cache.memo.filter fun entry =>
        !(entry.2 = none || entry.2 = some path ||
          entry.2.any fun cached => startsWith cached (path ++ "/"))
      store := cache.store.map (deleteSubtree fold path) }

def FolderPathCache.forgetMemo (folderId : FileId) : FolderPathCache :=
  { cache with memo := cache.memo.filter (·.1 ≠ folderId) }

end

section

variable (driveRoot : FileId) (fold : Char → Char)

def joinPath (parentPath name : String) : String :=
  if parentPath = "" then name else parentPath ++ "/" ++ name

/-- What `files.get` answers; nothing for a 404. -/
abbrev Tree := FileId → Option DriveFile

/-- `fuel` is what is left of the depth of 64. -/
def folderPathOf (tree : Tree) : (fuel : ℕ) → FileId → FolderPathCache →
    Option String × FolderPathCache
  | fuel, id, cache =>
    if id = driveRoot then (some "", cache)
    else
      match fuel with
      | 0 => (none, cache)
      | fuel + 1 =>
        match cache.get id with
        | (some cached, cache) => (cached, cache)
        | (none, cache) =>
          match (tree id).bind fun info => info.parent.map fun parent => (info.name, parent) with
          | none => (none, cache.set id none)
          | some (name, parent) =>
            let (parentPath, cache) := folderPathOf tree fuel parent cache
            let path := parentPath.map (joinPath · name)
            (path, cache.set id path)

def maxDepth : ℕ := 64

def parentPathOf (tree : Tree) (f : DriveFile) (cache : FolderPathCache) :
    Option String × FolderPathCache :=
  match f.parent with
  | none => (none, cache)
  | some parent => folderPathOf driveRoot tree maxDepth parent cache

def pathFor (tree : Tree) (f : DriveFile) (cache : FolderPathCache) :
    Option String × FolderPathCache :=
  let (parentPath, cache) := parentPathOf driveRoot tree f cache
  (parentPath.map (joinPath · f.name), cache)

def rememberFolder (tree : Tree) (id : FileId) (f : DriveFile) (cache : FolderPathCache) :
    FolderPathCache :=
  let (previous, cache) := cache.get id
  let (path, cache) := pathFor driveRoot tree f cache
  let cache :=
    match previous with
    | some (some old) => if path = some old then cache else cache.invalidateSubtree fold old
    | _ => cache
  cache.set id path

def forgetFolder (id : FileId) (cache : FolderPathCache) : FolderPathCache :=
  let (known, cache) := cache.get id
  match known with
  | some (some path) => cache.invalidateSubtree fold path
  | _ => cache.forgetMemo id

inductive RemoteChange where
  | remove (path : Option String) (fileId : FileId)
  | upsert (path : String) (isFolder : Bool) (fileId : FileId)

/-- The cache's part of `toRemoteChange` for a reported folder; `file` is missing for one that is
deleted for good. -/
def workIn (tree : Tree) (id : FileId) (file : Option DriveFile) (cache : FolderPathCache) :
    FolderPathCache :=
  match file with
  | none => forgetFolder fold id cache
  | some f =>
    if f.trashed then forgetFolder fold id cache else rememberFolder driveRoot fold tree id f cache

def toRemoteChange (tree : Tree) (id : FileId) (file : Option DriveFile) (cache : FolderPathCache) :
    Option RemoteChange × FolderPathCache :=
  let cache := workIn driveRoot fold tree id file cache
  match file with
  | none => (some (.remove none id), cache)
  | some f =>
    let (path, cache) := pathFor driveRoot tree f cache
    if f.trashed then (some (.remove path id), cache)
    else (path.map fun p => .upsert p true id, cache)

end

structure State where
  tree : Tree
  cache : FolderPathCache
  /-- The changes that no batch has listed yet. -/
  feed : List FileId := []
  /-- The listed ones that are still to be worked in, as they were listed. -/
  page : List (FileId × Option DriveFile) := []
  /-- What the batch under way has listed; its cursor is kept when it is over. -/
  listed : List FileId := []
  changes : List RemoteChange := []

inductive Action where
  /-- A folder is created, renamed, moved, trashed or deleted. The feed may report its changes
  one by one or only the last one. -/
  | edit (id : FileId) (file : Option DriveFile) (merged : Bool)
  | lookup (id : FileId)
  | list (count : ℕ)
  | work
  | finish
  /-- The batch fails, or the process starts again; the next one begins at the same cursor. -/
  | abort
  | restart
  | reset
  /-- The adapter has written below a path by itself. -/
  | invalidatePrefix (path : String)

variable (driveRoot : FileId) (fold : Char → Char)

def State.abort (s : State) : State :=
  { s with feed := s.listed ++ s.feed, page := [], listed := [], changes := [] }

def step (s : State) : Action → Option State
  | .edit id file merged =>
    some { s with
      tree := Function.update s.tree id file
      feed := (if merged then s.feed.filter (· ≠ id) else s.feed) ++ [id] }
  | .lookup id => some { s with cache := (folderPathOf driveRoot s.tree maxDepth id s.cache).2 }
  | .list count =>
    if s.page = [] then
      some { s with
        page := (s.feed.take count).map fun id => (id, s.tree id)
        listed := s.listed ++ s.feed.take count
        feed := s.feed.drop count }
    else none
  | .work =>
    match s.page with
    | [] => none
    | (id, file) :: page =>
      let (change, cache) := toRemoteChange driveRoot fold s.tree id file s.cache
      some { s with cache, page, changes := s.changes ++ change.toList }
  | .finish => if s.page = [] then some { s with listed := [], changes := [] } else none
  | .abort => some s.abort
  | .restart => some { s.abort with cache := { s.cache with memo := [] } }
  | .reset => some { s with cache := s.cache.clear, feed := [], page := [], listed := [], changes := [] }
  | .invalidatePrefix path => some { s with cache := s.cache.invalidateSubtree fold path }

end Portuni.DriveFolders
