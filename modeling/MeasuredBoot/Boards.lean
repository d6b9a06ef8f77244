import MeasuredBoot.Runs

/-!
# Boards

A `Board` is a board with an image in its flash drives, whose drivers and engines always succeed:
`Board.hw` is its hardware, `Board.powerOn` the first state of a run. The images are
word lists; `sealWords` appends the checksum the FSBL tests. The boards of the
witnesses and counterexamples are built from them.
-/

namespace MeasuredBoot

/-! ## Images -/

/-- Words with their checksum behind them. -/
def sealWords (ws : List UInt32) : List UInt32 := ws ++ [ws.foldl (· + ·) 0 ^^^ 0xFFFFFFFF]

/-- The image header table of `n` partitions, whose first header is at word `0x400`. -/
def tableWords (n partitionPresentDevice : UInt32) : List UInt32 :=
  sealWords [0x01020000, n, 0x400, 0, 0, partitionPresentDevice, 0, 0, 0, 0, 0, 0, 0, 0, 0]

/-- The words of a partition header whose addresses are below 4 GiB. -/
structure HeaderWords where
  enc : UInt32 := 16
  unEnc : UInt32 := 16
  total : UInt32 := 16
  exec : UInt32 := 0x100000
  load : UInt32 := 0x100000
  attributes : UInt32 := 0x100

/-- Header `i` of the chain, at word `0x400 + 16 * i`. -/
def HeaderWords.words (h : HeaderWords) (i : Nat) : List UInt32 :=
  sealWords [h.enc, h.unEnc, h.total, 0x410 + 16 * UInt32.ofNat i, h.exec, 0, h.load, 0, 0x800,
    h.attributes, 1, 0, 0, 0, 0]

/-- The image: at the given word addresses, these words. -/
abbrev Image := List (Nat × List UInt32)

/-- The byte at an address of flash, zero where the image has nothing. -/
def Image.byte : Image → Nat → UInt8
  | [], _ => 0
  | (start, ws) :: rest, a =>
    if start * 4 ≤ a ∧ a < start * 4 + ws.length * 4 then
      (leBytes 4 (ws.getD ((a - start * 4) / 4) 0).toNat).getD (a % 4) 0
    else byte rest a

/-- An image with an image header table at byte `0x8C0`, which the boot header points to. -/
def image (t : List UInt32) (headers : List HeaderWords) : Image :=
  (38, [0x8C0]) :: (0x230, t) ::
    headers.mapIdx fun i h => (0x400 + 16 * i, h.words i)

/-! ## Boards -/

structure Board where
  bootMode : UInt32
  flash : Device → Image
  /-- The bytes behind the image headers, from byte `0x2000` on. -/
  data : Nat → UInt8

/-- The FSBL of the images, partition 0. -/
def fsblHeader : HeaderWords := { exec := 0xFFFC0000, load := 0xFFFC0000 }

/-- A board whose 24-bit QSPI flash holds an image with these partitions behind the FSBL. -/
def qspiBoard (headers : List HeaderWords) : Board where
  bootMode := xfsblQspi24BootMode
  flash _ := image (tableWords (UInt32.ofNat headers.length + 1) xihIhtPpdSame) (fsblHeader :: headers)
  data _ := 0

/-- Every call succeeds; the registers are those of an A53 after a power-on reset. -/
def Board.hw (b : Board) : Hw where
  controllers _ := true
  in32 _ r :=
    match r with
    | .bootModeUser => b.bootMode
    | .psVersion => 2
    | _ => 0
  call _ _ := xfsblSuccess
  deviceCopy _ device srcAddress _ :=
    (xfsblSuccess, fun i =>
      let a := srcAddress.toNat + i
      if a < 0x2000 then (b.flash device).byte a else b.data (a - 0x2000))
  romDigest _ := 0
  sha _ := .done
  keccak _ := zeroDigest
  aesDecrypt _ := (xfsblSuccess, fun _ => 0)
  aesBlocks _ := []
  streamDigest _ := zeroDigest
  callStatus _ _ _ := by decide
  copyStatus _ _ _ _ := show xfsblSuccess ≠ xfsblStatusJtag by decide

/-- The first state of a run, with zeroed memory. -/
def powerOn : MainState where
  locals := ⟨.stage1, 0, xfsblSuccess⟩
  world :=
    { tick := 0
      mem := fun _ => 0
      inst := .initial
      logPtr2 := eventLogStart
      partition := 1
      readBuffer := fun _ => 0
      atfHandoffParams := ⟨[], 0, Vector.replicate 8 (0, 0)⟩
      trace := [] }

theorem init_powerOn (hw : Hw) : (boot hw).init powerOn := ⟨rfl, rfl, rfl, rfl, rfl⟩

/-- The state of a board after `k` passes. -/
def Board.after (b : Board) (k : Nat) : MainState := passes b.hw k powerOn

theorem Board.run (b : Board) {G : MainState → Prop} [DecidablePred G] (j k : Nat)
    (h : ((List.range k).all fun i => (b.after (j + i)).running && G (b.after (j + i))) = true) :
    (boot b.hw).Run G (b.after j) (b.after (j + k)) := by
  refine run_iff_passes.2 ⟨k, passes_add b.hw j k powerOn, fun i hi => ?_⟩
  have hi := List.all_eq_true.1 h i (List.mem_range.2 hi)
  rw [Bool.and_eq_true] at hi
  have ha : passes b.hw i (b.after j) = b.after (j + i) := (passes_add _ _ _ _).symm
  rw [ha]
  exact ⟨hi.1, of_decide_eq_true hi.2⟩

/-- One plain partition for the A53. -/
def plainBoard : Board := qspiBoard [{}]

/-- The table in the QSPI flash names an SD card, which holds the image. -/
def secondaryBoard : Board where
  bootMode := xfsblQspi24BootMode
  flash device :=
    if device = .sd then image (tableWords 2 xihIhtPpdSame) [fsblHeader, {}]
    else image (tableWords 2 xihIhtPpdSd0) [fsblHeader, {}]
  data _ := 0

end MeasuredBoot
