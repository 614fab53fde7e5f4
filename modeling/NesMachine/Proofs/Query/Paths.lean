import NesMachine.Console.Query
import NesMachine.Proofs.Console.Idle
import NesMachine.Proofs.Query.Numerals

/-!
# Paths of queries

A query starts with one of four leading words or with none.  No leading word is the start of another,
nor of a path without one, so that the order in which they are tried does not matter.

* `Console.after_eq_some`: what follows a leading word;
* `Console.query_cpu` and its companions: the answer to each form of a path;
* `Console.Knows`: the paths that are answered, one constructor for each form;
* `Console.Answering`: the paths that a console answers, and the answers;
* `query_language`: addresses and paths together.
-/

namespace NesMachine

open Text

/-- The known paths of the processor are those that it answers. -/
theorem Cpu.isSome_query (cpu : Cpu) (path : String) :
    (cpu.query path).isSome = true ↔ path ∈ Cpu.queryPaths := by
  rw [Cpu.query, List.lookup_isSome_iff, ← cpu.map_fst_answers, List.mem_map]
  refine exists_congr fun entry => and_congr_right fun _ => ?_
  rw [beq_iff_eq]
  exact eq_comm

namespace Console

/-! ### Leading words -/

/-- What follows a leading word. -/
theorem after_eq_some {leading path rest : String} :
    after leading path = some rest ↔ path = leading ++ rest := by
  unfold after
  refine ⟨?_, ?_⟩
  · intro h
    split at h
    · rename_i hstart
      obtain ⟨chars, hchars⟩ := List.isPrefixOf_iff_prefix.mp hstart
      rw [← hchars, List.drop_left] at h
      apply String.toList_injective
      rw [← hchars, String.toList_append, ← Option.some.inj h, String.toList_ofList]
    · cases h
  · rintro rfl
    rw [String.toList_append, if_pos (List.isPrefixOf_iff_prefix.mpr (List.prefix_append _ _)),
      List.drop_left, String.ofList_toList]

/-- The leading words. -/
def leadings : List String := ["cpu.", "memory.", "vram.", "oam."]

/-- No leading word is the start of another. -/
theorem after_of_ne {leading leading' : String} (h : leading ∈ leadings) (h' : leading' ∈ leadings)
    (hne : leading ≠ leading') (rest : String) : after leading (leading' ++ rest) = none := by
  unfold after
  rw [String.toList_append, if_neg]
  simp only [leadings, List.mem_cons, List.not_mem_nil, or_false] at h h'
  rcases h with rfl | rfl | rfl | rfl <;> rcases h' with rfl | rfl | rfl | rfl <;>
    first | exact absurd rfl hne | simp

/-- The paths of the console's own counters and marks. -/
def ownPaths : List String :=
  ["nmi.in_flight", "nmi.captured_sp", "vblank.elapsed", "vblank.threshold", "trace.len"]

/-- Nor of a path without one. -/
theorem after_of_plain {leading path : String} (h : leading ∈ leadings)
    (hpath : path ∈ "trace.latest" :: (ownPaths ++ Cpu.queryPaths)) : after leading path = none :=
  (by decide +kernel : ∀ leading ∈ leadings,
    ∀ path ∈ "trace.latest" :: (ownPaths ++ Cpu.queryPaths), after leading path = none)
    leading h path hpath

/-! ### The forms of a path -/

variable (console : Console) (text : String)

theorem query_cpu : console.query ("cpu." ++ text) = console.cpu.query text := by
  unfold query
  rw [after_eq_some.mpr rfl]

theorem query_memory : console.query ("memory." ++ text) =
    (parseAddress text).map fun a => .byte (console.bus.peek a) := by
  unfold query
  rw [after_of_ne (by decide) (by decide) (by decide), after_eq_some.mpr rfl]

theorem query_video : console.query ("vram." ++ text) =
    (parseAddress text).map fun a => .byte (console.bus.peekVideo a) := by
  unfold query
  rw [after_of_ne (by decide) (by decide) (by decide),
    after_of_ne (by decide) (by decide) (by decide), after_eq_some.mpr rfl]

theorem query_sprite : console.query ("oam." ++ text) = console.oamByte text := by
  unfold query
  rw [after_of_ne (by decide) (by decide) (by decide),
    after_of_ne (by decide) (by decide) (by decide),
    after_of_ne (by decide) (by decide) (by decide), after_eq_some.mpr rfl]

variable {console text} {path : String}

theorem query_plain (h : ∀ leading ∈ leadings, after leading path = none) :
    console.query path = console.queryPlain path := by
  unfold query
  rw [h "cpu." (by decide), h "memory." (by decide), h "vram." (by decide), h "oam." (by decide)]

theorem oamByte_eq_some {value : Value} : console.oamByte text = some value ↔
    ∃ i : Fin 256, IsNumeral 10 text.toList i ∧ value = .byte console.bus.oam[i] := by
  rw [oamByte, Option.bind_eq_some_iff]
  refine ⟨?_, ?_⟩
  · intro h
    obtain ⟨i, hnumeral, hbyte⟩ := h
    obtain ⟨hi, hle⟩ := (numeral_eq_some (by decide)).mp hnumeral
    have hlt : i < 256 := by omega
    rw [Vector.getElem?_eq_getElem hlt] at hbyte
    exact ⟨⟨i, hlt⟩, hi, (Option.some.inj hbyte).symm⟩
  · intro h
    obtain ⟨i, hi, rfl⟩ := h
    have hlt := i.isLt
    refine ⟨i, (numeral_eq_some (by decide)).mpr ⟨hi, by omega⟩, ?_⟩
    rw [Vector.getElem?_eq_getElem hlt]
    rfl

/-! ### Which paths are answered -/

/-- The paths that a console answers. -/
inductive Knows (console : Console) : String → Prop
  | memory {text : String} {n : Nat} :
      IsAddress text n → n ≤ 65535 → Knows console ("memory." ++ text)
  | video {text : String} {n : Nat} :
      IsAddress text n → n ≤ 65535 → Knows console ("vram." ++ text)
  | sprite {text : String} {n : Nat} :
      IsNumeral 10 text.toList n → n < 256 → Knows console ("oam." ++ text)
  | cpu {path : String} : path ∈ Cpu.queryPaths → Knows console path
  | leadingCpu {path : String} : path ∈ Cpu.queryPaths → Knows console ("cpu." ++ path)
  | own {path : String} : path ∈ ownPaths → Knows console path
  | latest : console.trace.steps ≠ [] → Knows console "trace.latest"

/-- A text names an address if it is one that fits. -/
theorem isSome_parseAddress : (parseAddress text).isSome = true ↔ ∃ n, IsAddress text n ∧ n ≤ 65535 := by
  rw [← Option.isSome_map (f := UInt16.toNat), Option.isSome_iff_exists]
  exact exists_congr fun n => map_toNat_parseAddress

/-- What is no path of the console itself is passed on to the processor. -/
theorem queryPlain_of_not_mem (h : path ∉ "trace.latest" :: ownPaths) :
    console.queryPlain path = console.cpu.query path := by
  simp only [ownPaths, List.mem_cons, List.not_mem_nil, or_false, not_or] at h
  obtain ⟨hlatest, hflight, hsp, helapsed, hthreshold, hlength⟩ := h
  unfold queryPlain
  split
  · exact absurd rfl hflight
  · exact absurd rfl hsp
  · exact absurd rfl helapsed
  · exact absurd rfl hthreshold
  · exact absurd rfl hlength
  · exact absurd rfl hlatest
  · rfl

theorem isSome_queryPlain : (console.queryPlain path).isSome = true ↔
    path ∈ ownPaths ∨ (path = "trace.latest" ∧ console.trace.steps ≠ []) ∨
      path ∈ Cpu.queryPaths := by
  by_cases hmem : path ∈ "trace.latest" :: ownPaths
  · rcases List.mem_cons.mp hmem with rfl | hown
    · have hlatest : (console.queryPlain "trace.latest").isSome = true ↔
          console.trace.steps ≠ [] := by
        show (console.trace.latest?.map _).isSome = true ↔ _
        rw [Option.isSome_map, Trace.latest?, List.isSome_head?]
      have hnowhere : "trace.latest" ∉ ownPaths ∧ "trace.latest" ∉ Cpu.queryPaths := by decide
      simp only [hlatest, hnowhere.1, hnowhere.2, true_and, false_or, or_false]
    · have hsome : (console.queryPlain path).isSome = true := by
        clear hmem
        simp only [ownPaths, List.mem_cons, List.not_mem_nil, or_false] at hown
        rcases hown with rfl | rfl | rfl | rfl | rfl <;> rfl
      exact iff_of_true hsome (.inl hown)
  · rw [queryPlain_of_not_mem hmem, Cpu.isSome_query]
    rw [List.mem_cons, not_or] at hmem
    simp only [hmem.1, hmem.2, false_and, false_or]

/-- **Which paths are answered.** -/
theorem isSome_query : (console.query path).isSome = true ↔ console.Knows path := by
  have hplain (hmem : path ∈ "trace.latest" :: (ownPaths ++ Cpu.queryPaths)) :
      console.query path = console.queryPlain path :=
    query_plain fun leading hleading => after_of_plain hleading hmem
  refine ⟨?_, ?_⟩
  · intro h
    by_cases hleading : ∀ leading ∈ leadings, after leading path = none
    · rw [query_plain hleading, isSome_queryPlain] at h
      rcases h with hown | ⟨rfl, hlatest⟩ | hcpu
      · exact .own hown
      · exact .latest hlatest
      · exact .cpu hcpu
    · push Not at hleading
      obtain ⟨leading, hmem, hsome⟩ := hleading
      obtain ⟨rest, hrest⟩ := Option.ne_none_iff_exists'.mp hsome
      obtain rfl := after_eq_some.mp hrest
      simp only [leadings, List.mem_cons, List.not_mem_nil, or_false] at hmem
      rcases hmem with rfl | rfl | rfl | rfl
      · rw [query_cpu, Cpu.isSome_query] at h
        exact .leadingCpu h
      · rw [query_memory, Option.isSome_map] at h
        obtain ⟨n, hn, hle⟩ := isSome_parseAddress.mp h
        exact .memory hn hle
      · rw [query_video, Option.isSome_map] at h
        obtain ⟨n, hn, hle⟩ := isSome_parseAddress.mp h
        exact .video hn hle
      · rw [query_sprite] at h
        obtain ⟨value, hvalue⟩ := Option.isSome_iff_exists.mp h
        obtain ⟨i, hi, -⟩ := oamByte_eq_some.mp hvalue
        exact .sprite hi i.isLt
  · intro h
    cases h with
    | memory hn hle =>
      rw [query_memory, Option.isSome_map]
      exact isSome_parseAddress.mpr ⟨_, hn, hle⟩
    | video hn hle =>
      rw [query_video, Option.isSome_map]
      exact isSome_parseAddress.mpr ⟨_, hn, hle⟩
    | @sprite _ n hn hlt =>
      rw [query_sprite, oamByte_eq_some.mpr ⟨⟨n, hlt⟩, hn, rfl⟩]
      rfl
    | cpu hcpu =>
      rw [hplain (by simp [hcpu]), isSome_queryPlain]
      exact .inr (.inr hcpu)
    | leadingCpu hcpu =>
      rw [query_cpu, Cpu.isSome_query]
      exact hcpu
    | own hown =>
      rw [hplain (by simp [hown]), isSome_queryPlain]
      exact .inl hown
    | latest hlatest =>
      rw [hplain (by simp), isSome_queryPlain]
      exact .inr (.inl ⟨rfl, hlatest⟩)

/-! ### The answers -/

/-- The paths that a console answers, and its answers. -/
structure Answering (console : Console) : Prop where
  known : ∀ path, (console.query path).isSome = true ↔ console.Knows path
  memory : ∀ text a, parseAddress text = some a →
    console.query ("memory." ++ text) = some (.byte (console.bus.peek a))
  video : ∀ text a, parseAddress text = some a →
    console.query ("vram." ++ text) = some (.byte (console.bus.peekVideo a))
  /-- Addresses of one cell are answered alike. -/
  memoryAlias : ∀ text text' a b, parseAddress text = some a → parseAddress text' = some b →
    console.bus.space.owner a = console.bus.space.owner b →
    console.query ("memory." ++ text) = console.query ("memory." ++ text')
  videoAlias : ∀ text text' a b, parseAddress text = some a → parseAddress text' = some b →
    console.bus.video.owner a = console.bus.video.owner b →
    console.query ("vram." ++ text) = console.query ("vram." ++ text')
  sprite : ∀ text (i : Fin 256), IsNumeral 10 text.toList i →
    console.query ("oam." ++ text) = some (.byte console.bus.oam[i])
  /-- A path of the processor is answered by the processor, whether a leading word says so or not. -/
  processor : ∀ path ∈ Cpu.queryPaths, console.query path = console.cpu.query path ∧
    console.query ("cpu." ++ path) = console.cpu.query path

theorem answering (console : Console) : console.Answering := by
  have hmemory (text : String) (a : UInt16) (h : parseAddress text = some a) :
      console.query ("memory." ++ text) = some (.byte (console.bus.peek a)) := by
    rw [query_memory, h, Option.map_some]
  have hvideo (text : String) (a : UInt16) (h : parseAddress text = some a) :
      console.query ("vram." ++ text) = some (.byte (console.bus.peekVideo a)) := by
    rw [query_video, h, Option.map_some]
  refine ⟨fun path => isSome_query, hmemory, hvideo, ?_, ?_, ?_, ?_⟩
  · intro text text' a b ha hb howner
    rw [hmemory text a ha, hmemory text' b hb, SystemBus.peek, SystemBus.peek, AddressSpace.peek,
      AddressSpace.peek, howner]
  · intro text text' a b ha hb howner
    rw [hvideo text a ha, hvideo text' b hb, SystemBus.peekVideo, SystemBus.peekVideo,
      AddressSpace.peek, AddressSpace.peek, howner]
  · intro text i hi
    rw [query_sprite]
    exact oamByte_eq_some.mpr ⟨i, hi, rfl⟩
  · intro path hpath
    have hplain : console.query path = console.queryPlain path :=
      query_plain fun leading hleading => after_of_plain hleading (by simp [hpath])
    have hother : ∀ path ∈ Cpu.queryPaths, path ∉ "trace.latest" :: ownPaths := by decide
    exact ⟨hplain.trans (queryPlain_of_not_mem (hother path hpath)), query_cpu console path⟩

/-- **The language of queries.**  A text names an address if it is a marked hexadecimal or a plain
decimal numeral, with any number of leading zeros, whose value has sixteen bits; words and bytes name
themselves as they are shown.  And a console in any state answers exactly the known paths. -/
theorem query_language :
    (∀ text n, (parseAddress text).map UInt16.toNat = some n ↔ IsAddress text n ∧ n ≤ 65535) ∧
      (∀ w, parseAddress (Value.word w).render = some w) ∧
      (∀ b, parseAddress (Value.byte b).render = some b.toUInt16) ∧
      ∀ console : Console, console.Answering :=
  ⟨fun _ _ => map_toNat_parseAddress, parseAddress_word, parseAddress_byte, answering⟩

/-- The first byte of memory under two of its addresses. -/
theorem mirrored_byte_answered :
    (powerOn Settings.default parkingCartridge).query "memory.$0000" =
      (powerOn Settings.default parkingCartridge).query "memory.0X+0000800" := by
  obtain ⟨-, -, -, hanswering⟩ := query_language
  have hwired := wired_powerOn Settings.default parkingCartridge
  refine (hanswering _).memoryAlias "$0000" "0X+0000800" 0x0000 0x0800 (by decide) (by decide) ?_
  rw [hwired.owner_eq_fold, hwired.owner_eq_fold]
  decide

end Console

end NesMachine
