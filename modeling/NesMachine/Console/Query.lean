import NesMachine.Console.Basic
import NesMachine.Cpu.Query
import NesMachine.Query.Address

/-!
# Queries about the console

A path asks for a register or flag of the processor, with or without the word `cpu` in
front, for a byte of memory, of video memory or of sprite memory, or for one of the counters
and marks of the console. Answering changes nothing.
-/

namespace NesMachine

namespace Console

/-- What follows a leading text, if the path starts with it. -/
def after (leading path : String) : Option String :=
  if leading.toList.isPrefixOf path.toList then
    some (String.ofList (path.toList.drop leading.toList.length))
  else none

/-- The byte of sprite memory at an index in decimal. -/
def oamByte (console : Console) (index : String) : Option Value :=
  (Text.numeral 10 255 index.toList).bind fun i =>
    console.bus.oam[i]?.map fun byte => .byte byte

/-- The answer to a path that starts with none of the four leading words. -/
def queryPlain (console : Console) (path : String) : Option Value :=
  match path with
  | "nmi.in_flight" => some (.bool console.nmi.inFlight)
  | "nmi.captured_sp" => some (.byte console.nmi.capturedSp)
  | "vblank.elapsed" => some (.count console.vblank.elapsed)
  | "vblank.threshold" => some (.count console.vblank.threshold)
  | "trace.len" => some (.dword (UInt32.ofNat console.trace.length))
  | "trace.latest" => console.trace.latest?.map fun step => .text step.render
  | path => console.cpu.query path

/-- The answer to a query, if the path is one of the known ones. -/
def query (console : Console) (path : String) : Option Value :=
  match after "cpu." path, after "memory." path, after "vram." path, after "oam." path with
  | some rest, _, _, _ => console.cpu.query rest
  | none, some rest, _, _ => (parseAddress rest).map fun a => .byte (console.bus.peek a)
  | none, none, some rest, _ => (parseAddress rest).map fun a => .byte (console.bus.peekVideo a)
  | none, none, none, some rest => console.oamByte rest
  | none, none, none, none => console.queryPlain path

/-- The forms of the known paths. -/
def queryPaths : List String :=
  ["cpu.<6502_paths>", "memory.<address>", "vram.<address>", "oam.<index>", "nmi.in_flight",
    "nmi.captured_sp", "vblank.elapsed", "vblank.threshold", "trace.len", "trace.latest"]

end Console

end NesMachine
