import NesMachine.Bus.Memory

/-!
# Address spaces with aliases

Each of the 65536 addresses holds a byte and has a route: it is plain storage, a link to
another address, or a device register of some kind `δ`. A linked address keeps no storage
of its own. Following the links from an address leads to its owner, and all addresses with
one owner share one byte. What a device does is left to the machine that the space belongs
to; here its register only stores the last byte.
-/

namespace NesMachine

/-- What stands at an address. -/
inductive Route (δ : Type) where
  /-- Ordinary storage. -/
  | plain
  /-- Another name of the target's byte. -/
  | link (target : UInt16)
  /-- A device register. -/
  | device (kind : δ)
deriving DecidableEq

/-- What an access reaches: the owner of the byte, and the device that sits there. -/
inductive Access (δ : Type) where
  | plain (owner : UInt16)
  | device (owner : UInt16) (kind : δ)
deriving DecidableEq

/-- The address whose byte the access reaches. -/
def Access.owner {δ : Type} : Access δ → UInt16
  | .plain owner => owner
  | .device owner _ => owner

/-- A byte and a route for each address. -/
structure AddressSpace (δ : Type) where
  bytes : Memory
  routes : Cells (Route δ)

namespace AddressSpace

variable {δ : Type}

/-- The space of plain addresses that all hold zero. -/
def empty : AddressSpace δ := ⟨Memory.zeros, Cells.fill .plain⟩

/-! ### Owners -/

/-- Follows at most the given number of links. -/
def follow (routes : Cells (Route δ)) : Nat → UInt16 → UInt16
  | 0, a => a
  | n + 1, a =>
    match routes[a] with
    | .link target => follow routes n target
    | _ => a

/-- The address at the end of the links. No chain without a repeated address has more
links than there are addresses. -/
def owner (space : AddressSpace δ) (a : UInt16) : UInt16 := follow space.routes 65536 a

/-- What an access to an address reaches. -/
def resolve (space : AddressSpace δ) (a : UInt16) : Access δ :=
  let owner := space.owner a
  match space.routes[owner] with
  | .device kind => .device owner kind
  | _ => .plain owner

/-! ### Stored bytes -/

/-- The byte behind an address, whatever device sits there. -/
def peek (space : AddressSpace δ) (a : UInt16) : UInt8 := space.bytes[space.owner a]

/-- Replaces the byte behind an address, whatever device sits there. -/
def poke : AddressSpace δ → UInt16 → UInt8 → AddressSpace δ
  | ⟨bytes, routes⟩, a, value => ⟨bytes.set (follow routes 65536 a) value, routes⟩

theorem routes_poke (space : AddressSpace δ) (a : UInt16) (value : UInt8) :
    (space.poke a value).routes = space.routes := rfl

theorem owner_poke (space : AddressSpace δ) (a b : UInt16) (value : UInt8) :
    (space.poke a value).owner b = space.owner b := rfl

theorem peek_poke (space : AddressSpace δ) (a b : UInt16) (value : UInt8) :
    (space.poke a value).peek b = if space.owner a = space.owner b then value else space.peek b :=
  Cells.getElem_set space.bytes (space.owner a) (space.owner b) value

/-- Stores bytes behind consecutive addresses, going on at `$0000` after `$FFFF`. -/
def store : AddressSpace δ → UInt16 → List UInt8 → AddressSpace δ
  | space, _, [] => space
  | space, a, byte :: bytes => store (space.poke a byte) (a + 1) bytes

theorem routes_store (space : AddressSpace δ) (a : UInt16) (bytes : List UInt8) :
    (space.store a bytes).routes = space.routes := by
  induction bytes generalizing space a with
  | nil => rfl
  | cons byte bytes ih => simp [store, ih, routes_poke]

/-! ### Blocks -/

/-- Refuses a block that reaches beyond `$FFFF`. The error names the last address of the
block, cut to 32 bits. -/
def checkBlock (start : UInt16) (length : Nat) : Except BusError Unit :=
  if start.toNat + length ≤ 65536 then .ok ()
  else .error (.addressOutOfRange (UInt32.ofNat (start.toNat + length) - 1))

/-- Stores a block of bytes, all of it or nothing. -/
def load (space : AddressSpace δ) (start : UInt16) (bytes : List UInt8) :
    Except BusError (AddressSpace δ) :=
  match checkBlock start bytes.length with
  | .ok () => .ok (space.store start bytes)
  | .error e => .error e

theorem load_of_fits (space : AddressSpace δ) {start : UInt16} {bytes : List UInt8}
    (h : start.toNat + bytes.length ≤ 65536) :
    space.load start bytes = .ok (space.store start bytes) := by
  rw [load, checkBlock, if_pos h]

/-! ### The space as a bus -/

instance : Bus (AddressSpace δ) where
  read a := fun space => .ok (space.peek a) space
  write a value := fun space => .ok () (space.poke a value)

/-! ### Inspection -/

/-- The addresses that share their byte with the given one, in ascending order. -/
def aliasesOf (space : AddressSpace δ) (a : UInt16) : List UInt16 :=
  let owner := space.owner a
  Cells.addresses.filter fun b => space.owner b == owner

/-- Whether a route is a link. -/
def isLink : Route δ → Bool
  | .link _ => true
  | _ => false

/-- Whether a route is a device register. -/
def isDevice : Route δ → Bool
  | .device _ => true
  | _ => false

/-- One line that tells how many addresses are links and how many are device registers. -/
def summary (space : AddressSpace δ) : String :=
  let links := Cells.addresses.countP fun a => isLink space.routes[a]
  let devices := Cells.addresses.countP fun a => isDevice space.routes[a]
  "AddressSpace \x7b mirrored: " ++ toString links ++ ", ports: " ++ toString devices
    ++ ", .. \x7d"

end AddressSpace

end NesMachine
