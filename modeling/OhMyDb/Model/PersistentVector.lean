import OhMyDb.Lib.Records
import Mathlib.Data.Int.Basic

/-!
`PersistentVector` down to the bytes of its file. A record is written as the bytes
of its object and read back by casting; how these are laid out is a parameter. Until
`setup` has opened the file, `fd` is not initialised: it is taken to be no
descriptor of this file, so that what is done with it has no effect.
-/

namespace OhMyDb
open Records (Layout)

inductive Descriptor where
  | uninitialised
  | appending
  | writing (offset : Nat)

/-- The file, where there is one. -/
abbrev Disk := Option (List UInt8)

namespace Disk

/-- `open` with `O_CREAT`. -/
def create (d : Disk) : Disk := some (d.getD [])

/-- `ftruncate`. -/
def truncate (d : Disk) (fd : Descriptor) (length : Nat) : Disk :=
  match fd with
  | .uninitialised => d
  | .appending | .writing _ =>
      d.map fun bytes => bytes.take length ++ List.replicate (length - bytes.length) 0

/-- `write`. -/
def write (bytes : List UInt8) : Descriptor × Disk → Descriptor × Disk
  | (.uninitialised, d) => (.uninitialised, d)
  | (.appending, d) => (.appending, d.map (· ++ bytes))
  | (.writing offset, d) =>
      (.writing (offset + bytes.length), d.map fun old =>
        old.take offset ++ List.replicate (offset - old.length) 0 ++ bytes ++
          old.drop (offset + bytes.length))

end Disk

structure PersistentVector (T : Type) where
  items : List T := []
  fd : Descriptor := .uninitialised
  persistedItems : Nat := 0
  initialised : Bool := false
  preproc : T → T := fun val => val

namespace PersistentVector
variable {T : Type} [Inhabited T] (L : Layout T)

def pushBack (v : PersistentVector T) (x : T) : PersistentVector T :=
  { v with items := v.items ++ [x] }

def resize (v : PersistentVector T) (d : Disk) (newSize : Nat) : PersistentVector T × Disk :=
  let items := v.items.take newSize ++ List.replicate (newSize - v.items.length) default
  if newSize ≤ v.persistedItems then
    ({ v with items := items, persistedItems := newSize, fd := .appending },
      (d.truncate v.fd (newSize * L.size)).create)
  else ({ v with items := items }, d)

def persist (v : PersistentVector T) (d : Disk) : PersistentVector T × Disk :=
  if v.items.length = v.persistedItems then (v, d)
  else
    let (w, d) := v.resize L d v.items.length
    let (fd, d) := ((w.items.drop w.persistedItems).map w.preproc).foldl
      (fun p x => Disk.write (L.encode x) p) (w.fd, d)
    ({ w with fd := fd, persistedItems := v.items.length }, d)

/-- `bootstrap`, with what it loads of the file left open. -/
def bootstrapWith (load : List UInt8 → List T) (v : PersistentVector T) (d : Disk) :
    Bool × PersistentVector T × Disk :=
  match d with
  | none => (false, v, d)
  | some bytes =>
      let w := { v with items := v.items ++ load bytes }
      (true, w.resize L d w.items.length)

def setupWith (load : List UInt8 → List T) (v : PersistentVector T) (d : Disk)
    (withBootstrap : Bool) (preproc : T → T) : PersistentVector T × Disk :=
  if v.initialised = true then (v, d)
  else if withBootstrap = true then
    let (ok, w, d) := { v with preproc := preproc }.bootstrapWith L load d
    ({ w with
        persistedItems := if ok = true then w.items.length else 0
        fd := .appending
        initialised := true }, d.create)
  else ({ v with preproc := preproc, fd := .writing 0, initialised := true }, some [])

/-- `buf` of `bootstrap`: what `pread` has transferred of the file, and zeros. Nothing
looks at what `pread` returns. -/
def buffer (bytes : List UInt8) (transferred : Nat) : List UInt8 :=
  bytes.take transferred ++ List.replicate (bytes.length - transferred + 50) 0

/-- The loop of `bootstrap` over its buffer: `i` is an `int`, and `i + sizeof(T)` a `size_t`. -/
def readBuffer (buf : List UInt8) (fileSize : Nat) : Nat → Int → List T
  | 0, _ => []
  | fuel + 1, i =>
      if (i + L.size) % 2 ^ 64 ≤ fileSize then
        L.read buf i.toNat :: readBuffer buf fileSize fuel ((i + L.size).bmod (2 ^ 32))
      else []

/-- What `bootstrap` loads, where `pread` transfers some of the bytes of the file. -/
def readFile (transferred : Nat) (bytes : List UInt8) : List T :=
  readBuffer L (buffer bytes transferred) bytes.length (bytes.length + 1) 0

def bootstrapFrom (transferred : Nat) (v : PersistentVector T) (d : Disk) :
    Bool × PersistentVector T × Disk :=
  v.bootstrapWith L (readFile L transferred) d

/-- A process starts and sets the vector up from the file. -/
def reboot (transferred : Nat) (d : Disk) (preproc : T → T) : PersistentVector T × Disk :=
  setupWith L (readFile L transferred) {} d true preproc

/-- The loop of `bootstrap` with an offset that does not wrap around, over all of the file. -/
def readWhole (bytes : List UInt8) : List T :=
  L.walk (fun i => i + L.size ≤ bytes.length) bytes (bytes.length + 1) 0

end PersistentVector

/-- What is done with the vector between two starts. -/
inductive VectorOp (T : Type) where
  | pushBack (x : T)
  | persist

namespace VectorOp
variable {T : Type} [Inhabited T] (L : Layout T)

def run (p : PersistentVector T × Disk) : VectorOp T → PersistentVector T × Disk
  | .pushBack x => (p.1.pushBack x, p.2)
  | .persist => p.1.persist L p.2

end VectorOp

/-- What may be done with the log file from one process to the next. -/
inductive LogFileOp (T : Type) where
  | pushBack (x : T)
  | resize (newSize : Nat)
  | persist
  /-- The process is killed; the next one bootstraps its vector from the file. -/
  | reboot

/-- How the first process sets its vector up. -/
inductive LogFileStart (T : Type) where
  /-- Without bootstrap, whatever the file was. -/
  | fresh (d : Disk)
  /-- With bootstrap, and there is no file. -/
  | absent
  /-- With bootstrap, from the records `persist` writes for some values. -/
  | written (xs : List T)

/-- A `preproc_` that takes the promises out, as that of `RaftManager::bootstrap` does. -/
structure Stripping (T : Type) (H : Type) where
  promiseHandle : T → Option H
  preproc : T → T
  promiseHandle_preproc : ∀ x, promiseHandle (preproc x) = none
  preproc_of_none : ∀ x, promiseHandle x = none → preproc x = x

namespace LogFileOp
variable {T H : Type} [Inhabited T] (L : Layout T) (S : Stripping T H)

/-- `setup` in a new process, byte offsets being unbounded integers. -/
def setup (d : Disk) (withBootstrap : Bool) : PersistentVector T × Disk :=
  PersistentVector.setupWith L (PersistentVector.readWhole L) {} d withBootstrap S.preproc

def start : LogFileStart T → PersistentVector T × Disk
  | .fresh d => setup L S d false
  | .absent => setup L S none true
  | .written xs => setup L S (some (L.encodeAll (xs.map S.preproc))) true

def run (p : PersistentVector T × Disk) : LogFileOp T → PersistentVector T × Disk
  | .pushBack x => (p.1.pushBack x, p.2)
  | .resize newSize => p.1.resize L p.2 newSize
  | .persist => p.1.persist L p.2
  | .reboot => setup L S p.2 true

end LogFileOp
end OhMyDb
