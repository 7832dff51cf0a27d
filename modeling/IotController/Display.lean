import IotController.ClockedLoop
import IotController.Report

/-! # The seven-segment displays

`SW[2:0]` selects a channel of the outputs; HEX3 to HEX0 show its word in hexadecimal,
HEX5 and HEX4 say which channel it is. What is on the six displays can be read back,
so the switches lead from the sensor to the reader as the page does. -/
namespace IotController.Display
open IotController.Controller IotController.ClosedLoop IotController.Recovery
open IotController.ClockedLoop IotController.Report
open IotController.Pipeline (Channel)

/-! ## Hardware -/

/-- `seven_seg_decoder`, active low, `gfe_dcba`. -/
def sevenSegDecoder : BitVec 4 → BitVec 7
  | 0x0 => 0b1000000
  | 0x1 => 0b1111001
  | 0x2 => 0b0100100
  | 0x3 => 0b0110000
  | 0x4 => 0b0011001
  | 0x5 => 0b0010010
  | 0x6 => 0b0000010
  | 0x7 => 0b1111000
  | 0x8 => 0b0000000
  | 0x9 => 0b0010000
  | 0xA => 0b0001000
  | 0xB => 0b0000011
  | 0xC => 0b1000110
  | 0xD => 0b0100001
  | 0xE => 0b0000110
  | 0xF => 0b0001110
  | _ => 0b1111111

/-- What the multiplexer drives. -/
structure Selection where
  displayData : BitVec 16
  modeChar : BitVec 7
  axisChar : BitVec 7

/-- `case (SW[2:0])`. -/
def mux (o : Outputs) : BitVec 3 → Selection
  | 0b000 => ⟨o.accelX, 0b0001000, 0b0001001⟩
  | 0b001 => ⟨o.accelY, 0b0001000, 0b0010001⟩
  | 0b010 => ⟨o.accelZ, 0b0001000, 0b0100100⟩
  | 0b011 => ⟨o.gyroX, 0b1000010, 0b0001000⟩
  | 0b100 => ⟨o.gyroY, 0b1000010, 0b0000011⟩
  | 0b101 => ⟨o.gyroZ, 0b1000010, 0b1000110⟩
  | 0b110 => ⟨o.temp, 0b0000111, 0b1111111⟩
  | _ => ⟨0xFFFF, 0b1111111, 0b1111111⟩

@[ext] structure Hex where
  hex0 : BitVec 7
  hex1 : BitVec 7
  hex2 : BitVec 7
  hex3 : BitVec 7
  hex4 : BitVec 7
  hex5 : BitVec 7
deriving DecidableEq

/-- The four decoders. -/
def digits (displayData : BitVec 16) (modeChar axisChar : BitVec 7) : Hex where
  hex0 := sevenSegDecoder (displayData.extractLsb' 0 4)
  hex1 := sevenSegDecoder (displayData.extractLsb' 4 4)
  hex2 := sevenSegDecoder (displayData.extractLsb' 8 4)
  hex3 := sevenSegDecoder (displayData.extractLsb' 12 4)
  hex4 := axisChar
  hex5 := modeChar

/-- The displays of `ghrd_top`. -/
def ghrdTop (o : Outputs) (sw : BitVec 10) : Hex :=
  let m := mux o (sw.extractLsb' 0 3)
  digits m.displayData m.modeChar m.axisChar

/-! ## Reading the displays -/

/-- The segments: `a` at the top, then clockwise, `g` in the middle. -/
inductive Segment where
  | a | b | c | d | e | f | g
deriving DecidableEq

/-- The segments that are lit: bit 0 is `a`, and a 0 lights. -/
def lit (hex : BitVec 7) : List Segment :=
  ([.a, .b, .c, .d, .e, .f, .g].zipIdx.filter fun p => !hex.getLsbD p.2).map Prod.fst

/-- What a reader knows as 0 to 9, A, b, C, d, E and F. -/
def glyphs : List (List Segment) :=
  [[.a, .b, .c, .d, .e, .f], [.b, .c], [.a, .b, .d, .e, .g], [.a, .b, .c, .d, .g],
    [.b, .c, .f, .g], [.a, .c, .d, .f, .g], [.a, .c, .d, .e, .f, .g], [.a, .b, .c],
    [.a, .b, .c, .d, .e, .f, .g], [.a, .b, .c, .d, .f, .g], [.a, .b, .c, .e, .f, .g],
    [.c, .d, .e, .f, .g], [.a, .d, .e, .f], [.b, .c, .d, .e, .g], [.a, .d, .e, .f, .g],
    [.a, .e, .f, .g]]

/-- The digit that looks like this. -/
def readDigit (hex : BitVec 7) : Option (BitVec 4) :=
  (glyphs.idxOf? (lit hex)).map (BitVec.ofNat 4)

def readWord (h : Hex) : Option (BitVec 16) := do
  let d3 ← readDigit h.hex3
  let d2 ← readDigit h.hex2
  let d1 ← readDigit h.hex1
  let d0 ← readDigit h.hex0
  return d3 ++ d2 ++ d1 ++ d0

/-- HEX5 and HEX4 for each channel. -/
def legend : Channel → BitVec 7 × BitVec 7
  | .ax => (0b0001000, 0b0001001)
  | .ay => (0b0001000, 0b0010001)
  | .az => (0b0001000, 0b0100100)
  | .gx => (0b1000010, 0b0001000)
  | .gy => (0b1000010, 0b0000011)
  | .gz => (0b1000010, 0b1000110)
  | .temp => (0b0000111, 0b1111111)

def channels : List Channel := [.ax, .ay, .az, .gx, .gy, .gz, .temp]

def readChannel (h : Hex) : Option Channel :=
  channels.find? fun c => legend c = (h.hex5, h.hex4)

/-- A channel and its word. -/
def readDisplay (h : Hex) : Option (Channel × BitVec 16) := do
  let c ← readChannel h
  let v ← readWord h
  return (c, v)

/-- The channel that the switches select. -/
def selected (sw : BitVec 10) : Option Channel := channels[(sw.extractLsb' 0 3).toNat]?

theorem readDigit_sevenSeg : ∀ d : BitVec 4, readDigit (sevenSegDecoder d) = some d := by decide

theorem nibbles (v : BitVec 16) : v.extractLsb' 12 4 ++ v.extractLsb' 8 4 ++
    v.extractLsb' 4 4 ++ v.extractLsb' 0 4 = v := by
  rw [BitVec.extractLsb'_append_extractLsb'_eq_extractLsb' (show 12 = 8 + 4 from rfl),
    BitVec.extractLsb'_append_extractLsb'_eq_extractLsb' (show 8 = 4 + 4 from rfl),
    BitVec.extractLsb'_append_extractLsb'_eq_extractLsb' (show 4 = 0 + 4 from rfl)]
  exact BitVec.extractLsb'_eq_self

theorem readWord_digits (v : BitVec 16) (mode axis : BitVec 7) :
    readWord (digits v mode axis) = some v := by
  simp only [readWord, digits, readDigit_sevenSeg, Option.bind_eq_bind, Option.bind_some,
    Option.pure_def, nibbles]

theorem readChannel_legend (c : Channel) (v : BitVec 16) :
    readChannel (digits v (legend c).1 (legend c).2) = some c := by
  cases c <;> rfl

/-- The multiplexer by channels. -/
theorem mux_eq (o : Outputs) (sw : BitVec 10) :
    mux o (sw.extractLsb' 0 3) = match selected sw with
      | some c => ⟨shown o c, (legend c).1, (legend c).2⟩
      | none => ⟨0xFFFF, 0b1111111, 0b1111111⟩ := by
  rw [selected]
  generalize sw.extractLsb' 0 3 = i
  obtain h | h | h | h | h | h | h | h : i = 0 ∨ i = 1 ∨ i = 2 ∨ i = 3 ∨ i = 4 ∨ i = 5 ∨ i = 6 ∨
      i = 7 := by
    revert i
    decide
  all_goals
    subst h
    rfl

/-- What the displays say is the channel that the switches select, and its word. -/
theorem readDisplay_ghrdTop (o : Outputs) (sw : BitVec 10) :
    readDisplay (ghrdTop o sw) = (selected sw).map fun c => (c, shown o c) := by
  rw [ghrdTop, mux_eq]
  cases selected sw with
  | none => rfl
  | some c =>
    rw [readDisplay, readChannel_legend, readWord_digits]
    rfl

/-! ## Results -/

/-- The first of the two registers of a channel. -/
def regAddr : Channel → BitVec 8
  | .ax => 0x3B
  | .ay => 0x3D
  | .az => 0x3F
  | .temp => 0x41
  | .gx => 0x43
  | .gy => 0x45
  | .gz => 0x47

theorem shown_wordsAt (regs : RegFile) (c : Channel) :
    shown (wordsAt FpgaRtl.regAddrStart regs) c = regs (regAddr c) ++ regs (regAddr c + 1) := by
  cases c <;> rfl

theorem shown_zero (c : Channel) : shown Outputs.zero c = 0 := by
  cases c <;> rfl

/-- What the displays of `ghrd_top` say, whatever the switches, from a KEY[0] reset in
any joint state: the channel that the switches select, with zero for its word up to
clock 60743 * d, and after that the two registers of the sensor, high byte first, as
they were at the last clock 60743 * d + 50625 * d * j. -/
theorem display_shows_registers (clkDiv : ℕ) (s : State) (evs : List Event) (sw : BitVec 10) :
    let d := clkDiv / 4
    let s' := run FpgaRtl.regAddrStart clkDiv s.reset evs
    let late := if Lost s.slave then 1 else 0
    (clocksIn evs ≤ commitClock d 0 ∨ clkDiv < 4 ∨ 2052 ≤ clkDiv →
      readDisplay (ghrdTop s'.ctl.fsm.out sw) = (selected sw).map fun c => (c, 0)) ∧
    (4 ≤ clkDiv → clkDiv < 2052 → commitClock d late < clocksIn evs →
      ∃ pre post, evs = pre ++ .clock :: post ∧ clocksIn post < 50625 * d ∧
        let regs := (run FpgaRtl.regAddrStart clkDiv s.reset pre).slave.mem.regs
        readDisplay (ghrdTop s'.ctl.fsm.out sw) =
          (selected sw).map fun c => (c, regs (regAddr c) ++ regs (regAddr c + 1))) := by
  intro d s' late
  rw [readDisplay_ghrdTop]
  refine ⟨?_, ?_⟩
  · intro h
    rw [out_zero clkDiv s evs h]
    simp only [shown_zero]
  · intro hleast hmost hclocks
    obtain ⟨j, pre, post, -, heq, -, hpost, hout⟩ := out_late rfl s evs rfl hleast hmost hclocks
    refine ⟨pre, post, heq, hpost, ?_⟩
    rw [hout]
    simp only [shown_wordsAt]

/-- What `fetchData` takes from the line for a channel. -/
def field (page : Page) : Channel → Option ℤ
  | .ax => page.ax
  | .ay => page.ay
  | .az => page.az
  | .gx => page.gx
  | .gy => page.gy
  | .gz => page.gz
  | .temp => page.tempRaw

/-- The displays and the page agree: if the displays say that a channel has a word, the
page, fetched from the same outputs, shows that word as a signed number. -/
theorem display_agrees_with_page (ofst : BitVec 32) (aligned : ofst &&& hwRegsMask = 0)
    (o : Outputs) (sw : BitVec 10) {c : Channel} {v : BitVec 16}
    (told : readDisplay (ghrdTop o sw) = some (c, v)) :
    field (fetchData (csv (readGlobal ofst o))) c = some v.toInt := by
  rw [readDisplay_ghrdTop, Option.map_eq_some_iff] at told
  obtain ⟨c', -, heq⟩ := told
  cases heq
  rw [fetchData_csv]
  cases c <;> exact congrArg (fun w : BitVec 16 => some w.toInt) (readGlobal_eq aligned o _)

/-- `SW` at 5, so the Z axis of the gyroscope. -/
theorem display_agrees_with_page_gyroZ :
    readDisplay (ghrdTop ⟨1, 2, 3, 4, 5, 6, 0xFF38⟩ 5) = some (.gz, 0xFF38) ∧
      field (fetchData (csv (readGlobal 0xFF200000 ⟨1, 2, 3, 4, 5, 6, 0xFF38⟩))) .gz =
        some (-200) := by
  have told : readDisplay (ghrdTop ⟨1, 2, 3, 4, 5, 6, 0xFF38⟩ 5) = some (.gz, 0xFF38) := by decide
  exact ⟨told, display_agrees_with_page 0xFF200000 (by decide) _ 5 told⟩

end IotController.Display
