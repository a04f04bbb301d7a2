import OhMyDb.Model.Restart

/-!
`PersistentStore` down to its files. A file is kept as the value in it, where that has
been written in full.
-/

namespace OhMyDb

/-- The files of the store directory. -/
abbrev Directory := String → Option (Option Int)

inductive FileOp where
  | create (name : String)
  | write (name : String) (val : Int)
  | rename (old new : String)

/-- `open` with `O_CREAT`, `write` of a whole value, and `rename`. -/
def FileOp.run (d : Directory) : FileOp → Directory
  | .create name => Function.update d name (some (d name).join)
  | .write name val => Function.update d name (some (some val))
  | .rename old new => Function.update (Function.update d new (d old)) old none

namespace PersistentStore
variable (fileBaseName : String)

def getFilename (key : String) : String := fileBaseName ++ key ++ ".persist"

/-- What `store` does to the files, in order. -/
def store (key : String) (val : Int) : List FileOp :=
  let tmpFile := getFilename fileBaseName key ++ ".tmp"
  [.create tmpFile, .write tmpFile val, .rename tmpFile (getFilename fileBaseName key)]

def loadInt (d : Directory) (filename : String) : Option Int := (d filename).join

def load (d : Directory) (key : String) (defaultVal : Int) : Int :=
  (loadInt d (getFilename fileBaseName key)).getD defaultVal

/-- `RaftState::persist`, with these values in memory. -/
def persist (p : PersistentStore) : List FileOp :=
  store fileBaseName "VotedFor" p.votedFor ++ store fileBaseName "CurrentTerm" p.currentTerm

/-- The part of `RaftManager::bootstrap` that reads the two values. -/
def bootstrap (d : Directory) : PersistentStore where
  votedFor := load fileBaseName d "VotedFor" (-1)
  currentTerm := load fileBaseName d "CurrentTerm" 0

/-- The two files between two calls of `persist`. -/
def files (p : PersistentStore) : Directory := fun name =>
  if name = getFilename fileBaseName "VotedFor" then some (some p.votedFor)
  else if name = getFilename fileBaseName "CurrentTerm" then some (some p.currentTerm)
  else none

/-- What is loaded after a crash in a sequence of calls of `persist`, of which `n` file
operations have been made. -/
def crash (p : PersistentStore) (ps : List PersistentStore) (n : ℕ) : PersistentStore :=
  bootstrap fileBaseName
    (((ps.flatMap (persist fileBaseName)).take n).foldl FileOp.run (files fileBaseName p))

end PersistentStore

def storeFilePrefix (storeDir : String) (id : Int) : String :=
  storeDir ++ "/raft." ++ toString id ++ "."

/-- What `RaftState::persist` stores. -/
def RaftState.saved (s : RaftState) : PersistentStore where
  votedFor := s.votedFor
  currentTerm := s.currentTerm

end OhMyDb
