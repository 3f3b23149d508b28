import WikiMount.Config
import WikiMount.Scratch

/-! # Sessions
A session remembers which scratch storage belongs to a user. Sessions are kept in order of their last
use, the least recently used giving way when there are too many, and end after a period without a
request. Storages are numbered in the order they are handed out; a storage whose session has ended
stays with whoever still holds its number. Time is counted in milliseconds of a 64-bit clock. -/

namespace WikiMount

structure Session where
  user : String
  storage : Nat
  lastAccess : UInt64
deriving DecidableEq

structure Sessions where
  /-- How many sessions are kept, at least one. -/
  capacity : Nat
  /-- After how many milliseconds without a request a session ends. -/
  maxIdle : Nat
  now : UInt64
  /-- The sessions, the most recently used first. -/
  live : List Session
  storages : Array Scratch
deriving DecidableEq

namespace Sessions

def ofConfig (c : Config) : Sessions where
  capacity := max 1 c.sessionCapacity
  maxIdle := c.sessionMaxIdle * 1000
  now := 0
  live := []
  storages := #[]

instance : Inhabited Sessions := ⟨ofConfig default⟩

/-- Lets time pass; the clock counts whole milliseconds and wraps around. -/
def advance (s : Sessions) (seconds nanoseconds : Nat) : Sessions :=
  { s with now := s.now + UInt64.ofNat (seconds * 1000 + nanoseconds / 1000000) }

/-- A session has expired once it has not been used for too long: it is not found any more and a purge
drops it. -/
def isExpired (s : Sessions) (session : Session) : Bool :=
  s.maxIdle < s.now.toNat - session.lastAccess.toNat

/-- Hands out a new, empty storage. -/
def newStorage (s : Sessions) : Nat × Sessions :=
  (s.storages.size, { s with storages := s.storages.push .empty })

def storage (s : Sessions) (id : Nat) : Scratch := s.storages[id]?.getD .empty

def setStorage (s : Sessions) (id : Nat) (scratch : Scratch) : Sessions :=
  { s with storages := s.storages.modify id fun _ => scratch }

def session? (s : Sessions) (user : String) : Option Session := s.live.find? (·.user == user)

/-- Makes a session the most recently used one, dropping the least recently used one if there are
too many. -/
def use (s : Sessions) (session : Session) : Sessions :=
  { s with live := (session :: s.live.filter (·.user != session.user)).take s.capacity }

/-- Opens a new session with an empty storage. -/
def openNew (s : Sessions) (user : String) : Nat × Sessions :=
  let (id, s) := s.newStorage
  (id, s.use ⟨user, id, s.now⟩)

/-- The storage of a user, a new one if the user has no session or has not used it for too long. -/
def getOrCreate (s : Sessions) (user : String) : Nat × Sessions :=
  match s.session? user with
  | some session =>
    if s.now.toNat - session.lastAccess.toNat ≤ s.maxIdle then
      (session.storage, s.use { session with lastAccess := s.now })
    else s.openNew user
  | none => s.openNew user

/-- The storage of a user with a session that has not expired; the session does not count as
used. -/
def get? (s : Sessions) (user : String) : Option Nat :=
  match s.session? user with
  | some session => if s.isExpired session then none else some session.storage
  | none => none

/-- Drops the expired sessions and counts them. -/
def purge (s : Sessions) : Nat × Sessions :=
  ((s.live.filter s.isExpired).length, { s with live := s.live.filter fun x => !s.isExpired x })

def size (s : Sessions) : Nat := s.live.length

end Sessions

end WikiMount
