import NesMachine.Proofs.AddressSpace.Stores

/-!
# Calls on blocks, in words

`linkBlock` and `load` count in numbers without bounds.  A host counts in words: the ends of the blocks
in 64 bits, the address that a refusal names in 32, the addresses to be linked in 16 and those to be
written in 32.  Here both calls are carried out step by step in such words, as a debug build does it:
arithmetic is checked, and a number that does not fit its word stops the call.

A release build does not check, and its numbers wrap around.  That makes a difference in two places
only, since nothing overflows where the blocks fit.  An end that is a multiple of `2 ^ 32` names
`$FFFFFFFF`, as `checkBlock` does.  And near `2 ^ 64` an end that wraps around comes out below its start
and passes the check: if one end does, the other is refused, and if both do, the call links as many
addresses as the low 16 bits of the length tell, and these wrap around at `$FFFF`.  No list of bytes is
so long, so that only the linking of blocks is concerned.

* `WordCall.onBlocks`: what the two calls have in common, which is that nothing is done unless all
  blocks fit; `WordCall.linkBlock` and `WordCall.load` are the calls;
* `AllOrNothing`: what becomes of such a call, compared with the answer without bounds;
* `blocks_all_or_nothing`: both calls do all of their work or nothing, and where a block has been
  loaded;
* `long_block_names_inside`: a block that is so long that 32 bits cannot hold its end.
-/

namespace NesMachine

/-- Why a call stops that counts in words. -/
inductive WordStop where
  /-- A number does not fit its word. -/
  | overflow
  /-- The bus refuses an address. -/
  | refused (reason : BusError)
deriving DecidableEq

/-- A call on an address space that counts in words. -/
abbrev WordCall (δ α : Type) := Attempt WordStop (AddressSpace δ) α

namespace WordCall

variable {δ : Type} {α : Type} {space : AddressSpace δ}

/-! ### Numbers in words -/

/-- The sum of two numbers, in a word with so many values. -/
def sum (size m n : Nat) : WordCall δ Nat :=
  if m + n < size then return m + n else throw .overflow

/-- The number before a number. -/
def pred : Nat → WordCall δ Nat
  | 0 => throw .overflow
  | n + 1 => return n

/-- Lets the bus refuse an access. -/
def access (x : Attempt BusError (AddressSpace δ) α) : WordCall δ α := fun space =>
  match x space with
  | .ok a space => .ok a space
  | .error e space => .error (.refused e) space

theorem sum_apply (size m n : Nat) (space : AddressSpace δ) :
    sum size m n space = if m + n < size then .ok (m + n) space else .error .overflow space := by
  unfold sum
  split <;> rfl

theorem sum_of_lt {size m n : Nat} (h : m + n < size) (space : AddressSpace δ) :
    sum size m n space = .ok (m + n) space := by
  rw [sum_apply, if_pos h]

/-! ### Checking before working -/

/-- The ends of blocks of one length. -/
def ends (length : Nat) : List UInt16 → WordCall δ (List Nat)
  | [] => return []
  | start :: starts => do
    let stop ← sum UInt64.size start.toNat length
    let stops ← ends length starts
    return stop :: stops

/-- Refuses the first end beyond the space.  The refusal names the address before that end, which is
cut to 32 bits first. -/
def checkEnds : List Nat → WordCall δ Unit
  | [] => return ()
  | stop :: stops =>
    if 65536 < stop then do
      let last ← pred (stop % UInt32.size)
      throw (.refused (.addressOutOfRange (UInt32.ofNat last)))
    else checkEnds stops

/-- Works on blocks of one length, if all of them fit. -/
def onBlocks (starts : List UInt16) (length : Nat) (work : WordCall δ Unit) : WordCall δ Unit := do
  let stops ← ends length starts
  checkEnds stops
  work

/-! ### The two calls -/

/-- Links the addresses at the given distances from two starts. -/
def linkAt (start target : UInt16) : List Nat → WordCall δ Unit
  | [] => return ()
  | i :: rest => do
    let a ← sum UInt16.size start.toNat i
    let b ← sum UInt16.size target.toNat i
    modify (·.link (UInt16.ofNat a) (UInt16.ofNat b))
    linkAt start target rest

/-- Makes one block show another.  The length is cut to 16 bits for the loop. -/
def linkBlock (start target : UInt16) (length : UInt64) : WordCall δ Unit :=
  onBlocks [start, target] length.toNat
    (linkAt start target (List.range (length.toNat % UInt16.size)))

/-- Writes bytes one after the other, the first of them at the given distance from a start. -/
def writeFrom (start : UInt16) : Nat → List UInt8 → WordCall δ Unit
  | _, [] => return ()
  | i, byte :: bytes => do
    let a ← sum UInt32.size start.toNat (i % UInt32.size)
    access (Bus.writeAt (UInt32.ofNat a) byte)
    writeFrom start (i + 1) bytes

/-- Stores a block of bytes. -/
def load (start : UInt16) (bytes : List UInt8) : WordCall δ Unit :=
  onBlocks [start] bytes.length (writeFrom start 0 bytes)

/-! ### What the check comes to -/

variable {starts : List UInt16} {length : Nat}

/-- The blocks lie within the space. -/
def Fit (starts : List UInt16) (length : Nat) : Prop :=
  ∀ start ∈ starts, start.toNat + length ≤ 65536

/-- The ends of the blocks fit their words. -/
def EndsFit (starts : List UInt16) (length : Nat) : Prop :=
  ∀ start ∈ starts, start.toNat + length < UInt64.size

instance (starts : List UInt16) (length : Nat) : Decidable (EndsFit starts length) :=
  List.decidableBAll (fun start : UInt16 => start.toNat + length < UInt64.size) starts

/-- The first end that lies beyond the space. -/
def firstBeyond (starts : List UInt16) (length : Nat) : Option Nat :=
  (starts.map fun start => start.toNat + length).find? fun stop => 65536 < stop

/-- Why a block with a certain end is refused. -/
def refusal (stop : Nat) : WordStop :=
  if stop % UInt32.size = 0 then .overflow
  else .refused (.addressOutOfRange (UInt32.ofNat (stop % UInt32.size - 1)))

theorem firstBeyond_eq_none : firstBeyond starts length = none ↔ Fit starts length := by
  simp [firstBeyond, Fit]

theorem firstBeyond_cons (start : UInt16) : firstBeyond (start :: starts) length =
    if start.toNat + length ≤ 65536 then firstBeyond starts length
    else some (start.toNat + length) := by
  rw [firstBeyond, List.map_cons, List.find?_cons]
  by_cases hstart : start.toNat + length ≤ 65536
  · rw [if_pos hstart, decide_eq_false (Nat.not_lt.mpr hstart)]
    rfl
  · rw [if_neg hstart, decide_eq_true (Nat.not_le.mp hstart)]

theorem Fit.endsFit (h : Fit starts length) : EndsFit starts length := by
  intro start hstart
  exact (h start hstart).trans_lt (by decide)

theorem ends_apply (starts : List UInt16) (length : Nat) (space : AddressSpace δ) :
    ends length starts space =
      if EndsFit starts length then .ok (starts.map fun start => start.toNat + length) space
      else .error .overflow space := by
  induction starts with
  | nil => rfl
  | cons start starts ih =>
    have hcons : EndsFit (start :: starts) length ↔
        start.toNat + length < UInt64.size ∧ EndsFit starts length := List.forall_mem_cons
    rw [ends, Attempt.bind_apply, sum_apply]
    by_cases hfirst : start.toNat + length < UInt64.size
    · rw [if_pos hfirst]
      dsimp only
      rw [Attempt.bind_apply, ih]
      by_cases hrest : EndsFit starts length
      · rw [if_pos hrest, if_pos (hcons.mpr ⟨hfirst, hrest⟩)]
        rfl
      · rw [if_neg hrest, if_neg fun h => hrest (hcons.mp h).2]
    · rw [if_neg hfirst, if_neg fun h => hfirst (hcons.mp h).1]

theorem checkEnds_apply (stops : List Nat) (space : AddressSpace δ) :
    checkEnds stops space =
      match stops.find? fun stop => 65536 < stop with
      | none => .ok () space
      | some stop => .error (refusal stop) space := by
  induction stops with
  | nil => rfl
  | cons stop stops ih =>
    rw [checkEnds, List.find?_cons]
    by_cases hbeyond : 65536 < stop
    · rw [if_pos hbeyond, decide_eq_true hbeyond, Attempt.bind_apply]
      dsimp only
      rw [refusal]
      cases hlast : stop % UInt32.size with
      | zero => rfl
      | succ last => rfl
    · rw [if_neg hbeyond, decide_eq_false hbeyond]
      exact ih

theorem onBlocks_of_fit (h : Fit starts length) (work : WordCall δ Unit) (space : AddressSpace δ) :
    onBlocks starts length work space = work space := by
  have hnone := firstBeyond_eq_none.mpr h
  unfold firstBeyond at hnone
  rw [onBlocks, Attempt.bind_apply, ends_apply, if_pos h.endsFit]
  dsimp only
  rw [Attempt.bind_apply, checkEnds_apply, hnone]

/-- Blocks that do not fit leave the space as it was. -/
theorem onBlocks_of_beyond {stop : Nat} (h : firstBeyond starts length = some stop)
    (work : WordCall δ Unit) (space : AddressSpace δ) :
    onBlocks starts length work space =
      .error (if EndsFit starts length then refusal stop else .overflow) space := by
  unfold firstBeyond at h
  rw [onBlocks, Attempt.bind_apply, ends_apply]
  by_cases hends : EndsFit starts length
  · rw [if_pos hends, if_pos hends]
    dsimp only
    rw [Attempt.bind_apply, checkEnds_apply, h]
  · rw [if_neg hends, if_neg hends]

/-! ### What the work comes to -/

/-- In blocks that fit, no address to be linked overflows. -/
theorem linkAt_apply {start target : UInt16} (offsets : List Nat)
    (hfit : ∀ i ∈ offsets, start.toNat + i < 65536 ∧ target.toNat + i < 65536)
    (space : AddressSpace δ) :
    linkAt start target offsets space = .ok () (space.linkAll
      (offsets.map fun i => (start + UInt16.ofNat i, target + UInt16.ofNat i))) := by
  induction offsets generalizing space with
  | nil => rfl
  | cons i offsets ih =>
    obtain ⟨⟨hstart, htarget⟩, hrest⟩ := List.forall_mem_cons.mp hfit
    have hsum (a : UInt16) : UInt16.ofNat (a.toNat + i) = a + UInt16.ofNat i := by
      rw [UInt16.ofNat_add, UInt16.ofNat_toNat]
    rw [linkAt, Attempt.bind_apply, sum_of_lt hstart]
    dsimp only
    rw [Attempt.bind_apply, sum_of_lt htarget]
    dsimp only
    rw [Attempt.bind_apply, Attempt.modify_apply, hsum, hsum]
    exact ih hrest _

/-- In a block that fits, no address to be written overflows, and none is refused. -/
theorem writeFrom_apply {start : UInt16} (bytes : List UInt8) {i : Nat}
    (hfit : start.toNat + i + bytes.length ≤ 65536) (space : AddressSpace δ) :
    writeFrom start i bytes space = .ok () (space.store (start + UInt16.ofNat i) bytes) := by
  induction bytes generalizing i space with
  | nil => rfl
  | cons byte bytes ih =>
    rw [List.length_cons] at hfit
    have hlt : start.toNat + i < UInt32.size := by
      unfold UInt32.size
      omega
    have hcut : i % UInt32.size = i := Nat.mod_eq_of_lt (by omega)
    have haddress : UInt32.ofNat (start.toNat + i) = (start + UInt16.ofNat i).toUInt32 := by
      apply UInt32.toNat_inj.mp
      rw [UInt16.toNat_toUInt32, AddressSpace.toNat_add_ofNat (by omega), UInt32.toNat_ofNat',
        Nat.mod_eq_of_lt hlt]
    have hwrite : Bus.writeAt (UInt32.ofNat (start.toNat + i)) byte space =
        .ok () (space.poke (start + UInt16.ofNat i) byte) := by
      rw [haddress, Bus.writeAt, checkAddress_toUInt32]
      rfl
    have hnext : start + UInt16.ofNat i + 1 = start + UInt16.ofNat (i + 1) := by
      rw [UInt16.ofNat_add, ← UInt16.add_assoc]
      rfl
    rw [writeFrom, hcut, Attempt.bind_apply, sum_of_lt hlt]
    dsimp only
    rw [Attempt.bind_apply, access, hwrite, AddressSpace.store, hnext]
    exact ih (by omega) _

end WordCall

namespace AddressSpace

open WordCall

variable {δ : Type} {starts : List UInt16} {length : Nat} {space : AddressSpace δ}

/-! ### All or nothing -/

/-- The end that makes a refusal can be told in 32 bits. -/
def Tellable (starts : List UInt16) (length : Nat) : Prop :=
  EndsFit starts length ∧ ∃ stop, firstBeyond starts length = some stop ∧ 65536 < stop % UInt32.size

/-- A call that works on blocks of one length, next to its answer without bounds. -/
structure AllOrNothing (starts : List UInt16) (length : Nat) (space : AddressSpace δ)
    (call : WordCall δ Unit) (answer : Except BusError (AddressSpace δ)) : Prop where
  /-- The call succeeds exactly if all blocks fit.  No number has overflowed then. -/
  succeeds : (∃ done, call space = .ok () done) ↔ Fit starts length
  /-- What it has done is the answer. -/
  done : ∀ done, call space = .ok () done → answer = .ok done
  /-- If the blocks do not fit, the space stays as it was.  The answer names an address, which the call
  names too unless a number has overflowed, and this address lies outside the space exactly if the end
  of the block can be told. -/
  refused : ¬ Fit starts length → ∃ reason address, call space = .error reason space ∧
    answer = .error (.addressOutOfRange address) ∧
    (reason = .overflow ∨ reason = .refused (.addressOutOfRange address)) ∧
    (reason = .refused (.addressOutOfRange address) ∧ 0xFFFF < address.toNat ↔
      Tellable starts length)

/-- The address before an end, both in 32 bits. -/
theorem ofNat_sub_one {stop : Nat} (h : stop % UInt32.size ≠ 0) :
    UInt32.ofNat stop - 1 = UInt32.ofNat (stop % UInt32.size - 1) ∧
      (UInt32.ofNat stop - 1).toNat = stop % UInt32.size - 1 := by
  have hlt := Nat.mod_lt stop (show 0 < UInt32.size by decide)
  have hone : (1 : UInt32) ≤ UInt32.ofNat stop := by
    rw [UInt32.le_iff_toNat_le, UInt32.toNat_ofNat']
    exact Nat.one_le_iff_ne_zero.mpr h
  have htold : (UInt32.ofNat stop - 1).toNat = stop % UInt32.size - 1 := by
    rw [UInt32.toNat_sub_of_le _ _ hone, UInt32.toNat_ofNat']
    rfl
  refine ⟨UInt32.toNat_inj.mp ?_, htold⟩
  rw [htold, UInt32.toNat_ofNat', Nat.mod_eq_of_lt (a := stop % UInt32.size - 1)
    ((Nat.sub_le _ 1).trans_lt hlt)]

/-- A refusal names the address before the end, which lies outside the space exactly if the end is large
enough in 32 bits, or a number has overflowed. -/
theorem refusal_tells (stop : Nat) :
    (refusal stop = .overflow ∨
      refusal stop = .refused (.addressOutOfRange (UInt32.ofNat stop - 1))) ∧
    (refusal stop = .refused (.addressOutOfRange (UInt32.ofNat stop - 1)) ∧
      0xFFFF < (UInt32.ofNat stop - 1).toNat ↔ 65536 < stop % UInt32.size) := by
  rw [refusal]
  by_cases hzero : stop % UInt32.size = 0
  · rw [if_pos hzero, hzero]
    refine ⟨.inl rfl, ?_⟩
    constructor
    · intro hnamed
      cases hnamed.1
    · intro htold
      cases htold
  · obtain ⟨hsame, htold⟩ := ofNat_sub_one hzero
    rw [if_neg hzero, ← hsame, htold, and_iff_right rfl]
    exact ⟨.inr rfl, by omega⟩

/-- A call is of this kind if it does the same in words as without bounds where the blocks fit, and the
answer refuses the first block that does not. -/
theorem allOrNothing_onBlocks {work : WordCall δ Unit} {answer : Except BusError (AddressSpace δ)}
    (hfit : Fit starts length → ∃ done, work space = .ok () done ∧ answer = .ok done)
    (hbeyond : ∀ stop, firstBeyond starts length = some stop →
      answer = .error (.addressOutOfRange (UInt32.ofNat stop - 1))) :
    AllOrNothing starts length space (onBlocks starts length work) answer := by
  have hnot (h : ¬ Fit starts length) : ∃ stop, firstBeyond starts length = some stop :=
    Option.ne_none_iff_exists'.mp fun hnone => h (firstBeyond_eq_none.mp hnone)
  refine ⟨⟨?_, ?_⟩, ?_, ?_⟩
  · intro hsucceeds
    obtain ⟨done, hdone⟩ := hsucceeds
    by_contra h
    obtain ⟨stop, hstop⟩ := hnot h
    rw [onBlocks_of_beyond hstop] at hdone
    cases hdone
  · intro h
    obtain ⟨done, hwork, -⟩ := hfit h
    exact ⟨done, by rw [onBlocks_of_fit h, hwork]⟩
  · intro done hdone
    by_cases h : Fit starts length
    · obtain ⟨done', hwork, hanswer⟩ := hfit h
      rw [onBlocks_of_fit h, hwork] at hdone
      cases hdone
      exact hanswer
    · obtain ⟨stop, hstop⟩ := hnot h
      rw [onBlocks_of_beyond hstop] at hdone
      cases hdone
  · intro h
    obtain ⟨stop, hstop⟩ := hnot h
    refine ⟨_, _, onBlocks_of_beyond hstop work space, hbeyond stop hstop, ?_⟩
    have htellable : Tellable starts length ↔
        EndsFit starts length ∧ 65536 < stop % UInt32.size := by
      simp [Tellable, hstop]
    rw [htellable]
    by_cases hends : EndsFit starts length
    · rw [if_pos hends, and_iff_right hends]
      exact refusal_tells stop
    · rw [if_neg hends]
      refine ⟨.inl rfl, ?_⟩
      constructor
      · intro hnamed
        cases hnamed.1
      · intro htold
        exact absurd htold.1 hends

theorem linkBlock_all_or_nothing (space : AddressSpace δ) (start target : UInt16) (length : UInt64) :
    AllOrNothing [start, target] length.toNat space (WordCall.linkBlock start target length)
      (space.linkBlock start target length.toNat) := by
  refine allOrNothing_onBlocks ?_ ?_
  · intro hfit
    have hstart := hfit start (by simp)
    have htarget := hfit target (by simp)
    have hmod := Nat.mod_le length.toNat (UInt16.size)
    refine ⟨_, linkAt_apply _ ?_ space, ?_⟩
    · intro i hi
      rw [List.mem_range] at hi
      omega
    · rw [AddressSpace.linkBlock, checkBlock, checkBlock, if_pos hstart, if_pos htarget]
      rfl
  · intro stop hstop
    rw [AddressSpace.linkBlock, checkBlock, checkBlock]
    rw [firstBeyond_cons, firstBeyond_cons] at hstop
    by_cases hstart : start.toNat + length.toNat ≤ 65536
    · rw [if_pos hstart] at hstop ⊢
      by_cases htarget : target.toNat + length.toNat ≤ 65536
      · rw [if_pos htarget] at hstop
        cases hstop
      · rw [if_neg htarget] at hstop ⊢
        cases hstop
        rfl
    · rw [if_neg hstart] at hstop ⊢
      cases hstop
      rfl

theorem load_all_or_nothing (space : AddressSpace δ) (start : UInt16) (bytes : List UInt8) :
    AllOrNothing [start] bytes.length space (WordCall.load start bytes) (space.load start bytes) := by
  refine allOrNothing_onBlocks ?_ ?_
  · intro hfit
    have hstart := hfit start (by simp)
    refine ⟨_, writeFrom_apply bytes (by omega) space, ?_⟩
    rw [load_of_fits space hstart, show start + UInt16.ofNat 0 = start from UInt16.add_zero start]
  · intro stop hstop
    rw [firstBeyond_cons] at hstop
    by_cases hstart : start.toNat + bytes.length ≤ 65536
    · rw [if_pos hstart] at hstop
      cases hstop
    · rw [if_neg hstart] at hstop
      cases hstop
      rw [AddressSpace.load, checkBlock, if_neg hstart]

/-- **Calls on blocks do all or nothing.**  In a space that any calls have made, linking one block to
another and loading a block succeed exactly if the blocks fit, and then no number in words has
overflowed; otherwise they leave every route and every byte as it was, and they name an address outside
the space exactly if the end of the refused block can be told in 32 bits.  Behind every address a loaded
block leaves the last of its bytes whose address has the same owner, and what was there before if there
is none. -/
theorem blocks_all_or_nothing (calls : List (Call δ)) :
    let space := afterCalls calls
    (∀ (start target : UInt16) (length : UInt64),
      AllOrNothing [start, target] length.toNat space (WordCall.linkBlock start target length)
        (space.linkBlock start target length.toNat)) ∧
    (∀ (start : UInt16) (bytes : List UInt8),
      AllOrNothing [start] bytes.length space (WordCall.load start bytes)
        (space.load start bytes)) ∧
    ∀ (start : UInt16) (bytes : List UInt8), start.toNat + bytes.length ≤ 65536 →
      ∃ loaded, space.load start bytes = .ok loaded ∧ loaded.routes = space.routes ∧ ∀ a,
        (∃ i byte, bytes[i]? = some byte ∧
          space.owner (start + UInt16.ofNat i) = space.owner a ∧
          (∀ j < bytes.length, i < j → space.owner (start + UInt16.ofNat j) ≠ space.owner a) ∧
          loaded.peek a = byte) ∨
        ((∀ i < bytes.length, space.owner (start + UInt16.ofNat i) ≠ space.owner a) ∧
          loaded.peek a = space.peek a) := by
  intro space
  refine ⟨linkBlock_all_or_nothing space, load_all_or_nothing space, ?_⟩
  intro start bytes hfit
  exact ⟨space.store start bytes, load_of_fits space hfit, routes_store space start bytes,
    fun a => space.peek_store start a bytes⟩

/-- Long blocks: of an end just above a multiple of 32 bits a refusal names an address that lies inside
the space, and at the multiple itself, as beyond 64 bits, a number overflows. -/
theorem long_block_names_inside :
    WordCall.linkBlock 0 0 0x100000001 (empty : AddressSpace Empty) =
      .error (.refused (.addressOutOfRange 0)) empty ∧
    (empty : AddressSpace Empty).linkBlock 0 0 0x100000001 = .error (.addressOutOfRange 0) ∧
    checkAddress 0 = .ok 0 ∧
    WordCall.linkBlock 0 0 0x100000000 (empty : AddressSpace Empty) = .error .overflow empty ∧
    WordCall.linkBlock 1 0 0xFFFFFFFFFFFFFFFF (empty : AddressSpace Empty) =
      .error .overflow empty := by
  have hbeyond (start : UInt16) (length : UInt64) (stop : Nat) (reason : WordStop)
      (hstop : firstBeyond [start, 0] length.toNat = some stop)
      (hreason : (if EndsFit [start, 0] length.toNat then refusal stop else .overflow) = reason) :
      WordCall.linkBlock start 0 length (empty : AddressSpace Empty) = .error reason empty := by
    rw [WordCall.linkBlock, onBlocks_of_beyond hstop, hreason]
  have hcheck : checkBlock 0 0x100000001 = .error (.addressOutOfRange 0) := by decide
  refine ⟨hbeyond 0 _ 0x100000001 _ (by decide) (by decide), ?_, rfl,
    hbeyond 0 _ 0x100000000 _ (by decide) (by decide),
    hbeyond 1 _ 0x10000000000000000 _ (by decide) (by decide)⟩
  rw [AddressSpace.linkBlock, hcheck]

end AddressSpace

end NesMachine
