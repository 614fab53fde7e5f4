import NesMachine.Proofs.Device.Ports
import NesMachine.Proofs.Device.VideoSpace

/-!
# Writing the video space through its ports

The processor reaches the video space through two registers: `$2006` takes an address in two halves,
and every write to `$2007` stores a byte there and moves the address on by 1 or by 32.

* `VideoSide.accept`: what a write to a register does to the video side;
* `Wired.videoSide_runAll`: a history does to it what its writes to these registers do, one after the
  other;
* `VideoSide.foldl_accept_data`: a list of bytes written to `$2007` is a list of writes to the video
  space, from the latched address on;
* `Wired.toggle_runAll`: the toggle is the parity of the writes to `$2005` and `$2006`;
* `video_ports_stream`: a whole transfer, whatever happens in between.
-/

namespace NesMachine

/-- What the video registers work on. -/
structure VideoSide where
  /-- The control register. -/
  control : UInt8
  latch : VideoLatch
  video : VideoSpace

namespace VideoSide

variable (side : VideoSide)

/-- How far a write of data moves the address. -/
def step : Nat := if side.control &&& 0x04 ≠ 0 then 32 else 1

/-- What a write to a register does. -/
def accept (write : UInt16 × UInt8) : VideoSide :=
  match SystemBus.deviceAt write.1 with
  | some .scroll => { side with latch := side.latch.writeScroll write.2 }
  | some .videoAddress => { side with latch := side.latch.writeAddress write.2 }
  | some .videoData =>
    { side with
      latch := side.latch.advance (UInt16.ofNat side.step)
      video := side.video.poke side.latch.address write.2 }
  | _ => if write.1 = SystemBus.controlAddress then { side with control := write.2 } else side

/-- The registers of the video side. -/
def registers : List UInt16 := [0x2000, 0x2005, 0x2006, 0x2007]

/-- No other write concerns the video side. -/
theorem accept_of_not_mem {write : UInt16 × UInt8} (h : write.1 ∉ registers) :
    side.accept write = side := by
  have hcontrol : write.1 ≠ SystemBus.controlAddress := by
    intro heq
    rw [heq] at h
    exact h (by decide)
  unfold accept
  cases hdevice : SystemBus.deviceAt write.1 with
  | none => exact if_neg hcontrol
  | some kind =>
    rw [SystemBus.deviceAt_eq_some.mp hdevice] at h
    cases kind with
    | scroll | videoAddress | videoData => exact absurd (by decide) h
    | oamData | oamDma | joypad1 | joypad2 => exact if_neg hcontrol

/-- The two halves of an address, the high one first. -/
theorem foldl_accept_address (h : side.latch.toggle = false) (high low : UInt8) :
    [((0x2006 : UInt16), high), (0x2006, low)].foldl accept side =
      { side with latch := { side.latch with address := wordOf low high } } := by
  have hport : SystemBus.deviceAt 0x2006 = some .videoAddress := rfl
  simp [accept, hport, VideoLatch.writeAddress, h]

/-- **Bytes of data** land in the video space as a stream. -/
theorem foldl_accept_data {start : Nat} (h : side.latch.address = UInt16.ofNat start)
    (bytes : List UInt8) :
    (bytes.map fun byte => ((0x2007 : UInt16), byte)).foldl accept side =
      { side with
        latch := { side.latch with address := UInt16.ofNat (start + bytes.length * side.step) }
        video := side.video.pokeAll (streamed start side.step bytes) } := by
  induction bytes using List.reverseRecOn with
  | nil => simp [streamed, AddressSpace.pokeAll, ← h]
  | append_singleton bytes byte ih =>
    have hnext : UInt16.ofNat (start + bytes.length * side.step) + UInt16.ofNat side.step =
        UInt16.ofNat (start + (bytes ++ [byte]).length * side.step) := by
      rw [← UInt16.ofNat_add, List.length_append, List.length_singleton, Nat.succ_mul,
        Nat.add_assoc]
    rw [List.map_append, List.foldl_append, ih, streamed_concat, AddressSpace.pokeAll_concat,
      ← hnext]
    rfl

end VideoSide

namespace SystemBus

open AddressSpace

variable {bus : SystemBus} {a : UInt16} {value : UInt8}

/-- The video side of the bus. -/
def videoSide (bus : SystemBus) : VideoSide := ⟨bus.peek controlAddress, bus.latch, bus.video⟩

theorem videoSide_drive (bus : SystemBus) (value : UInt8) (kind : Device) :
    (bus.drive value kind).latch =
      (match kind with
      | .scroll => bus.latch.writeScroll value
      | .videoAddress => bus.latch.writeAddress value
      | .videoData => bus.latch.advance bus.videoStep
      | _ => bus.latch) ∧
    (bus.drive value kind).video =
      match kind with
      | .videoData => bus.video.poke bus.latch.address value
      | _ => bus.video := by
  obtain ⟨space, video, oam, latch, pad1, pad2⟩ := bus
  cases kind <;> exact ⟨rfl, rfl⟩

theorem videoStep_eq (bus : SystemBus) : bus.videoStep = UInt16.ofNat bus.videoSide.step := by
  rw [videoStep, VideoSide.step]
  show (if bus.peek controlAddress &&& 0x04 != 0 then (32 : UInt16) else 1) =
    UInt16.ofNat (if bus.peek controlAddress &&& 0x04 ≠ 0 then 32 else 1)
  by_cases hbit : bus.peek controlAddress &&& 0x04 = 0 <;> simp [hbit]

theorem fold_control : fold controlAddress = controlAddress := by decide

theorem Wired.videoStep_poke (h : bus.Wired) (ha : fold a ≠ controlAddress) (value : UInt8) :
    (bus.poke a value).videoStep = bus.videoStep := by
  rw [videoStep, videoStep, h.peek_poke, fold_control, if_neg ha]

theorem Wired.peek_control_write (h : bus.Wired) (a : UInt16) (value : UInt8) :
    (bus.write a value).peek controlAddress =
      if fold a = controlAddress then value else bus.peek controlAddress := by
  have hindex : ¬ (fold a = oamDataAddress ∧ fold controlAddress = oamIndexAddress) :=
    fun hboth => absurd hboth.2 (by decide)
  rw [h.peek_write, if_neg hindex, fold_control]

/-- **A write** does to the video side what it does to the register. -/
theorem Wired.videoSide_write (h : bus.Wired) (a : UInt16) (value : UInt8) :
    (bus.write a value).videoSide = bus.videoSide.accept (fold a, value) := by
  rw [videoSide, h.peek_control_write, h.write_eq, VideoSide.accept]
  cases hdevice : deviceAt (fold a) with
  | none =>
    by_cases ha : fold a = controlAddress
    · rw [if_pos ha]
      exact (if_pos ha).symm
    · rw [if_neg ha]
      exact (if_neg ha).symm
  | some kind =>
    have ha : fold a ≠ controlAddress := by
      rw [deviceAt_eq_some.mp hdevice]
      cases kind <;> decide
    have hstep : (bus.poke (fold a) value).videoStep = UInt16.ofNat bus.videoSide.step := by
      rw [h.videoStep_poke (by rw [fold_fold]; exact ha), videoStep_eq]
    obtain ⟨hlatch, hvideo⟩ := videoSide_drive (bus.poke (fold a) value) value kind
    rw [if_neg ha, hlatch, hvideo]
    cases kind with
    | scroll | videoAddress => rfl
    | videoData =>
      rw [hstep]
      rfl
    | oamData | oamDma | joypad1 | joypad2 => exact (if_neg ha).symm

/-- **A history** does to the video side what its writes to the registers do. -/
theorem Wired.videoSide_runAll (h : bus.Wired) (events : List Event) :
    (bus.runAll events).videoSide =
      (writesTo VideoSide.registers events).foldl VideoSide.accept bus.videoSide := by
  refine h.runAll_induction VideoSide.registers (P := fun writes after =>
    after.videoSide = writes.foldl VideoSide.accept bus.videoSide) events rfl ?_ ?_ ?_
  · intro mid writes event hwired hside hwritten
    obtain ⟨hlatch, hvideo, -⟩ := run_of_unwritten hwritten mid
    rw [← hside, videoSide, hwired.peek_run_of_unwritten hwritten (by decide), hlatch, hvideo]
    rfl
  · intro mid writes a value hwired hside ha
    rw [hwired.videoSide_write, VideoSide.accept_of_not_mem _ ha, hside]
  · intro mid writes a value hwired hside _
    rw [hwired.videoSide_write, hside, List.foldl_concat]

/-! ### The toggle -/

/-- The registers that are written in halves. -/
def pairRegisters : List UInt16 := [0x2005, 0x2006]

/-- A write to one of these registers turns the toggle over, and no other write does. -/
theorem toggle_accept (side : VideoSide) (write : UInt16 × UInt8) :
    (side.accept write).latch.toggle =
      if write.1 ∈ pairRegisters then !side.latch.toggle else side.latch.toggle := by
  unfold VideoSide.accept
  cases hdevice : deviceAt write.1 with
  | none =>
    have hwrite : write.1 ∉ pairRegisters := by
      intro hmem
      simp only [pairRegisters, List.mem_cons, List.not_mem_nil, or_false] at hmem
      obtain heq | heq := hmem <;> rw [heq] at hdevice <;> cases hdevice
    rw [if_neg hwrite]
    dsimp only
    split <;> rfl
  | some kind =>
    rw [deviceAt_eq_some.mp hdevice]
    cases kind with
    | scroll => exact side.latch.toggle_writeScroll write.2
    | videoAddress => exact side.latch.toggle_writeAddress write.2
    | videoData | oamData | oamDma | joypad1 | joypad2 => rfl

/-- **The toggle** is turned over once by each write to these registers. -/
theorem Wired.toggle_runAll (h : bus.Wired) (htoggle : bus.latch.toggle = false)
    (events : List Event) :
    (bus.runAll events).latch.toggle =
      decide ((writesTo pairRegisters events).length % 2 = 1) := by
  refine h.runAll_induction pairRegisters (P := fun writes after =>
    after.latch.toggle = decide (writes.length % 2 = 1)) events htoggle ?_ ?_ ?_
  · intro mid writes event _ hparity hwritten
    rw [(run_of_unwritten hwritten mid).1, hparity]
  · intro mid writes a value hwired hparity ha
    have hwrite := toggle_accept mid.videoSide (fold a, value)
    rw [← hwired.videoSide_write, if_neg ha] at hwrite
    exact hwrite.trans hparity
  · intro mid writes a value hwired hparity ha
    have hwrite := toggle_accept mid.videoSide (fold a, value)
    rw [← hwired.videoSide_write, if_pos ha] at hwrite
    refine hwrite.trans ?_
    show (!mid.latch.toggle) = _
    rw [hparity, ← decide_not, List.length_append, List.length_singleton]
    exact decide_eq_decide.mpr (by omega)

/-- What a latch makes of a write to its registers, by the halves that it has had. -/
theorem Wired.latch_write (h : bus.Wired) (a : UInt16) (value : UInt8) :
    (fold a = 0x2005 → (bus.write a value).latch = bus.latch.writeScroll value) ∧
      (fold a = 0x2006 → (bus.write a value).latch = bus.latch.writeAddress value) := by
  have hlatch : (bus.write a value).latch = (bus.videoSide.accept (fold a, value)).latch :=
    congrArg VideoSide.latch (h.videoSide_write a value)
  refine ⟨?_, ?_⟩
  · intro ha
    rw [hlatch, ha]
    rfl
  · intro ha
    rw [hlatch, ha]
    rfl

/-! ### Whole transfers -/

/-- Two halves of an address and then bytes of data, with anything else in between. -/
theorem Wired.stream_runAll (h : bus.Wired) (htoggle : bus.latch.toggle = false) {high low : UInt8}
    {bytes : List UInt8} {events : List Event}
    (hwrites : writesTo VideoSide.registers events =
      (0x2006, high) :: (0x2006, low) :: bytes.map fun byte => (0x2007, byte)) :
    let start := 256 * high.toNat + low.toNat
    let step := bus.videoSide.step
    (bus.runAll events).videoSide =
      { bus.videoSide with
        latch := { bus.latch with address := UInt16.ofNat (start + bytes.length * step) }
        video := bus.video.pokeAll (streamed start step bytes) } := by
  intro start step
  have hsplit : (((0x2006 : UInt16), high) :: (0x2006, low) ::
      bytes.map fun byte => ((0x2007 : UInt16), byte)) =
        [(0x2006, high), (0x2006, low)] ++ bytes.map fun byte => (0x2007, byte) := rfl
  have haddress := bus.videoSide.foldl_accept_address htoggle high low
  rw [wordOf_eq_ofNat] at haddress
  rw [h.videoSide_runAll, hwrites, hsplit, List.foldl_append, haddress,
    VideoSide.foldl_accept_data _ rfl]
  rfl

/-- **Streams through the video ports.**  On a bus with its toggle clear, let the writes of a
history to the video registers be the two halves of an address to `$2006` and then some bytes to
`$2007`, through whichever copies, with any other events in between.  Afterwards the latched address
has moved on by one step for each byte, where bit 2 of the control register selects steps of 32, and
behind a video address is the last byte that went to an address with its owner, or the byte that was
there before.

After any history from power on the toggle is the parity of the writes to `$2005` and `$2006`, so
that the next write to either of them completes a pair if this number is odd, whichever of the two
it was begun on, and begins one otherwise. -/
theorem video_ports_stream :
    (∀ bus : SystemBus, bus.Wired → bus.latch.toggle = false →
      ∀ (high low : UInt8) (bytes : List UInt8) (events : List Event),
        writesTo [0x2000, 0x2005, 0x2006, 0x2007] events =
          (0x2006, high) :: (0x2006, low) :: bytes.map (fun byte => (0x2007, byte)) →
        let start := 256 * high.toNat + low.toNat
        let step := if bus.peek 0x2000 &&& 0x04 ≠ 0 then 32 else 1
        let after := bus.runAll events
        after.latch.address.toNat = (start + bytes.length * step) % 65536 ∧
        ∀ a, Bus.read a after.video =
          .ok ((lastWritten (fun b => bus.video.owner b == bus.video.owner a)
            (streamed start step bytes)).getD (bus.peekVideo a)) after.video) ∧
    ∀ (video : VideoSpace) (events : List Event),
      let bus := afterEvents video events
      let odd := (writesTo [0x2005, 0x2006] events).length % 2 = 1
      bus.latch.toggle = decide odd ∧
      ∀ a value,
        (fold a = 0x2005 → (bus.write a value).latch =
          if odd then { bus.latch with scrollY := value, toggle := false }
          else { bus.latch with scrollX := value, toggle := true }) ∧
        (fold a = 0x2006 → (bus.write a value).latch =
          if odd then
            { bus.latch with address := wordOf value (highByte bus.latch.address), toggle := false }
          else { bus.latch with
            address := wordOf (lowByte bus.latch.address) value
            toggle := true }) := by
  refine ⟨?_, ?_⟩
  · intro bus hwired htoggle high low bytes events hwrites start step after
    have hstream := hwired.stream_runAll htoggle hwrites
    have hlatch : after.latch.address = UInt16.ofNat (start + bytes.length * step) :=
      congrArg (fun side : VideoSide => side.latch.address) hstream
    have hvideo : after.video = bus.video.pokeAll (streamed start step bytes) :=
      congrArg VideoSide.video hstream
    refine ⟨?_, ?_⟩
    · rw [hlatch, UInt16.toNat_ofNat']
    · intro a
      show EStateM.Result.ok (after.video.peek a) after.video = _
      rw [hvideo, peek_pokeAll]
      rfl
  · intro video events bus odd
    have hwired : bus.Wired := wired_afterEvents video events
    have htoggle : bus.latch.toggle = decide odd :=
      (wired_powerOn video).toggle_runAll rfl events
    refine ⟨htoggle, fun a value => ⟨?_, ?_⟩⟩
    · intro ha
      rw [(hwired.latch_write a value).1 ha, VideoLatch.writeScroll, htoggle]
      by_cases hodd : odd <;> simp [hodd]
    · intro ha
      rw [(hwired.latch_write a value).2 ha, VideoLatch.writeAddress, htoggle]
      by_cases hodd : odd <;> simp [hodd]

/-- Three bytes in steps of 32 from `$3F10` on, through copies of the ports, all of which land on
the backdrop colour, so that the last of them stays; and a pair begun on `$2005` and completed on a
copy of `$2006`. -/
theorem backdrop_streamed_over :
    let bus := (powerOn (VideoSpace.wired .horizontal)).poke 0x2000 0x04
    ∃ after begun : SystemBus,
      after = bus.runAll [.write 0x3FFE 0x3F, .read 0x2002, .write 0x2006 0x10,
        .write 0x200F 0x11, .write 0x4014 0x20, .write 0x2007 0x22, .read 0x4016,
        .write 0x3FFF 0x33] ∧
      after.latch.address.toNat = 0x3F70 ∧
      Bus.read 0x3F00 after.video = .ok 0x33 after.video ∧
      Bus.read 0x3F04 after.video = .ok 0x00 after.video ∧
      begun = afterEvents (VideoSpace.wired .horizontal) [.write 0x2005 0x10, .write 0x0000 0x01] ∧
      begun.latch.toggle = true ∧ (begun.write 0x200E 0x34).latch.toggle = false := by
  intro bus
  obtain ⟨hstream, htoggle⟩ := video_ports_stream
  have hstart := wired_powerOn (VideoSpace.wired .horizontal)
  have hcontrol : bus.peek 0x2000 = 0x04 := by
    rw [hstart.peek_poke, if_pos rfl]
  have hpoked (video : VideoSpace) : ((powerOn video).poke 0x2000 0x04).video = video := rfl
  have hvideo : bus.video = VideoSpace.wired .horizontal := hpoked _
  have hzero (a : UInt16) : bus.peekVideo a = 0 := by
    rw [peekVideo, hvideo, AddressSpace.peek, VideoSpace.bytes_wired]
    exact Cells.getElem_fill 0 _
  have howner (a : UInt16) : bus.video.owner a = VideoSpace.home .horizontal a := by
    rw [hvideo, VideoSpace.owner_wired]
  obtain ⟨haddress, hbytes⟩ := hstream bus (hstart.poke _ _) rfl 0x3F 0x10 [0x11, 0x22, 0x33]
    [.write 0x3FFE 0x3F, .read 0x2002, .write 0x2006 0x10, .write 0x200F 0x11, .write 0x4014 0x20,
      .write 0x2007 0x22, .read 0x4016, .write 0x3FFF 0x33] (by decide)
  simp only [hcontrol, hzero, howner] at haddress hbytes
  obtain ⟨hodd, hpair⟩ := htoggle (VideoSpace.wired .horizontal)
    [.write 0x2005 0x10, .write 0x0000 0x01]
  refine ⟨_, _, rfl, haddress.trans (by decide), (hbytes 0x3F00).trans ?_,
    (hbytes 0x3F04).trans ?_, rfl, hodd.trans (by decide), ?_⟩
  · rw [EStateM.Result.ok.injEq]
    exact ⟨by decide, rfl⟩
  · rw [EStateM.Result.ok.injEq]
    exact ⟨by decide, rfl⟩
  · rw [(hpair 0x200E 0x34).2 (by decide), if_pos (by decide)]

end SystemBus

end NesMachine
