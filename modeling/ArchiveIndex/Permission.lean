import ArchiveIndex.Bits

/-!
# Permissions

The nine permission bits of a file mode. Each of three classes of users has three kinds of
access; the bits stand in the order owner, group, others, and read, write, execute within a
class, from bit 8 down to bit 0.
-/

namespace ArchiveIndex

/-- Whom a permission is granted to. -/
inductive Permission.Users
  | group
  | others
  | owner
deriving DecidableEq

/-- What a permission allows. -/
inductive Permission.Access
  | execute
  | read
  | write
deriving DecidableEq

/-- One of the nine permissions. -/
structure Permission where
  users : Permission.Users
  access : Permission.Access
deriving DecidableEq

namespace Permission

def Users.name : Users → String
  | group => "group"
  | others => "others"
  | owner => "owner"

def Access.name : Access → String
  | execute => "execute"
  | read => "read"
  | write => "write"

/-- The name of a permission, such as `owner_read`. -/
def name (p : Permission) : String := p.users.name ++ "_" ++ p.access.name

/-- The lowest of the three bits of a class of users. -/
def Users.shift : Users → Nat
  | owner => 6
  | group => 3
  | others => 0

/-- The place of an access within the bits of its class of users. -/
def Access.shift : Access → Nat
  | read => 2
  | write => 1
  | execute => 0

/-- The bit of the mode that grants the permission. -/
def bit (p : Permission) : Nat := p.users.shift + p.access.shift

/-- All nine permissions, in the order of their names. -/
def all : List Permission :=
  [.group, .others, .owner].flatMap fun u => [.execute, .read, .write].map fun a => ⟨u, a⟩

/-- The permissions that a mode grants, in the order of their names. -/
def ofMode (mode : Int) : List Permission := all.filter fun p => Bits.isSet mode p.bit

example : (all.map name).Pairwise (· < ·) := by decide

/-- Every permission is listed. -/
theorem mem_all (p : Permission) : p ∈ all := by
  obtain ⟨u, a⟩ := p
  cases u <;> cases a <;> decide

theorem mem_ofMode {mode : Int} {p : Permission} :
    p ∈ ofMode mode ↔ Bits.isSet mode p.bit = true := by
  simp [ofMode, mem_all]

end Permission
end ArchiveIndex
