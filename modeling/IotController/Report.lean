import IotController.Controller
import IotController.NumberText
import IotController.Pipeline

/-! # From the output registers to the dashboard

`ghrd_top` wires the outputs to seven PIO ports, `main` maps the ports and loads
them, the `/data` branch prints the globals and `fetchData` reads the line back.
The two sides name the axes differently and list the channels in different
orders; nothing gets lost or swapped on the way. -/
namespace IotController.Report
open IotController.Controller IotController.Binary32 IotController.NumberText
open IotController.Pipeline

/-! ## Hardware -/

/-- The sensor ports of `soc_system`. -/
inductive Pio where
  | temp
  | gyroC
  | gyroB
  | gyroA
  | accelZ
  | accelY
  | accelX
deriving DecidableEq, Repr

/-- The base addresses of `hps_0.h`. -/
def Pio.base : Pio → BitVec 32
  | .temp => 0x0
  | .gyroC => 0x10
  | .gyroB => 0x20
  | .gyroA => 0x30
  | .accelZ => 0x50
  | .accelY => 0x60
  | .accelX => 0x70

def Pio.all : List Pio := [.temp, .gyroC, .gyroB, .gyroA, .accelZ, .accelY, .accelX]

/-- `pio_*_external_connection_export`, as `ghrd_top` connects them. -/
def Pio.input (o : Outputs) : Pio → BitVec 16
  | .temp => o.temp
  | .gyroC => o.gyroZ
  | .gyroB => o.gyroY
  | .gyroA => o.gyroX
  | .accelZ => o.accelZ
  | .accelY => o.accelY
  | .accelX => o.accelX

/-- A 32-bit load from a physical address of the bridge at `ofst`. -/
def load (ofst : BitVec 32) (o : Outputs) (addr : BitVec 32) : BitVec 32 :=
  match Pio.all.find? fun p => ofst + p.base = addr with
  | some p => (p.input o).setWidth 32
  | none => 0

/-! ## main -/

def hwRegsSpan : BitVec 32 := 0x00200000
def hwRegsMask : BitVec 32 := hwRegsSpan - 1

/-- The port `main` maps for a channel. -/
def port : Channel → Pio
  | .ax => .accelX
  | .ay => .accelY
  | .az => .accelZ
  | .gx => .gyroA
  | .gy => .gyroB
  | .gz => .gyroC
  | .temp => .temp

/-- `accel_x_ptr - virtual_base` and its six siblings. -/
def ptrOffset (ofst base : BitVec 32) : BitVec 32 := (ofst + base) &&& hwRegsMask

/-- One global after a turn of the loop: `virtual_base` maps the bridge, so the
load goes to `ofst` plus the offset. -/
def readGlobal (ofst : BitVec 32) (o : Outputs) (c : Channel) : BitVec 16 :=
  (load ofst o (ofst + ptrOffset ofst (port c).base) &&& 0xFFFF).setWidth 16

/-! ## The response -/

/-- `temp_c`, rounded to `float` after each operation. -/
def tempC (tempRaw : ℤ) : ℚ := f32 (f32 (tempRaw + 5072) / 128)

def tempF (tempRaw : ℤ) : ℚ := f32 (f32 (f32 (tempC tempRaw * 9) / 5) + 32)

/-- The nine values of the CSV line, printed. -/
def fields (g : Channel → BitVec 16) : List (List Char) :=
  [printInt (g .ax).toInt, printInt (g .ay).toInt, printInt (g .az).toInt,
    printInt (g .gx).toInt, printInt (g .gy).toInt, printInt (g .gz).toInt,
    printFixed2 (tempC (g .temp).toInt), printFixed2 (tempF (g .temp).toInt),
    printInt (g .temp).toInt]

/-- The body of `GET /data`. -/
def csv (g : Channel → BitVec 16) : List Char := snprintf 16384 ([','].intercalate (fields g))

/-! ## The page -/

/-- The variables `fetchData` sets; `none` is NaN. -/
structure Page where
  ax : Option ℤ
  ay : Option ℤ
  az : Option ℤ
  gx : Option ℤ
  gy : Option ℤ
  gz : Option ℤ
  tempC : Option ℚ
  tempRaw : Option ℤ

def fetchData (responseText : List Char) : Page :=
  let v := responseText.splitOn ','
  { ax := v[0]?.bind parseInt
    ay := v[1]?.bind parseInt
    az := v[2]?.bind parseInt
    gx := v[3]?.bind parseInt
    gy := v[4]?.bind parseInt
    gz := v[5]?.bind parseInt
    tempC := v[6]?.bind parseFloat
    tempRaw := v[8]?.bind parseInt }

/-! ## Addresses -/

theorem toNat_and_mask (x : BitVec 32) : (x &&& hwRegsMask).toNat = x.toNat % 2 ^ 21 := by
  rw [BitVec.toNat_and, ← Nat.and_two_pow_sub_one_eq_mod]
  rfl

/-- With the bridge aligned to the span, masking leaves the base. -/
theorem ptrOffset_eq {ofst base : BitVec 32} (aligned : ofst &&& hwRegsMask = 0)
    (hb : base.toNat < 2 ^ 21) : ptrOffset ofst base = base := by
  have hofst := toNat_and_mask ofst
  rw [aligned] at hofst
  change 0 = ofst.toNat % 2 ^ 21 at hofst
  apply BitVec.eq_of_toNat_eq
  rw [ptrOffset, toNat_and_mask, BitVec.toNat_add]
  omega

theorem load_port (ofst : BitVec 32) (o : Outputs) (p : Pio) :
    load ofst o (ofst + p.base) = (p.input o).setWidth 32 := by
  cases p <;> simp [load, Pio.all, Pio.base]

/-- The output a channel is to show. -/
def shown (o : Outputs) : Channel → BitVec 16
  | .ax => o.accelX
  | .ay => o.accelY
  | .az => o.accelZ
  | .gx => o.gyroX
  | .gy => o.gyroY
  | .gz => o.gyroZ
  | .temp => o.temp

/-- Port and wiring name the axes differently, and agree. -/
theorem port_input (o : Outputs) (c : Channel) : (port c).input o = shown o c := by
  cases c <;> rfl

theorem readGlobal_eq {ofst : BitVec 32} (aligned : ofst &&& hwRegsMask = 0) (o : Outputs)
    (c : Channel) : readGlobal ofst o c = shown o c := by
  have hb : (port c).base.toNat < 2 ^ 21 := by cases c <;> decide
  rw [readGlobal, ptrOffset_eq aligned hb, load_port, ← port_input]
  apply BitVec.eq_of_toNat_eq
  have hmask : (0xFFFF : BitVec 32).toNat = 2 ^ 16 - 1 := rfl
  rw [BitVec.toNat_setWidth, BitVec.toNat_and, hmask, Nat.and_two_pow_sub_one_eq_mod,
    BitVec.toNat_setWidth]
  have := ((port c).input o).isLt
  omega

/-! ## Temperatures -/

theorem abs_toInt_le (v : BitVec 16) : |v.toInt| ≤ 32768 := by
  have h1 := BitVec.le_toInt v
  have h2 := BitVec.toInt_lt (x := v)
  rw [abs_le]
  constructor <;> omega

/-- Sum and quotient are exact in binary32. -/
theorem tempC_eq {t : ℤ} (h : |t| ≤ 32768) : tempC t = (t + 5072) / 128 := by
  have hn : |t + 5072| < 2 ^ 24 := by rw [abs_le] at h; rw [abs_lt]; omega
  have hsum : f32 ((t : ℚ) + 5072) = t + 5072 := by
    have := f32_exact (t + 5072) 0 hn
    push_cast at this
    simpa using this
  have hquot := f32_exact (t + 5072) 7 hn
  push_cast at hquot
  rw [tempC, hsum]
  norm_num at hquot ⊢
  exact hquot

theorem abs_tempC_le {t : ℤ} (h : |t| ≤ 32768) : |tempC t| ≤ 300 := by
  have hq : |(t : ℚ)| ≤ 32768 := by exact_mod_cast h
  rw [tempC_eq h]
  rw [abs_le] at hq ⊢
  constructor <;> linarith

theorem abs_tempF_le {t : ℤ} (h : |t| ≤ 32768) : |tempF t| ≤ 5000 := by
  have hc := abs_tempC_le h
  have h9 := abs_f32_le (tempC t * 9)
  have h5 := abs_f32_le (f32 (tempC t * 9) / 5)
  have h32 := abs_f32_le (f32 (f32 (tempC t * 9) / 5) + 32)
  have hadd := abs_add_le (f32 (f32 (tempC t * 9) / 5)) 32
  rw [abs_mul, abs_of_pos (by norm_num : (0 : ℚ) < 9)] at h9
  rw [abs_div, abs_of_pos (by norm_num : (0 : ℚ) < 5)] at h5
  rw [abs_of_pos (by norm_num : (0 : ℚ) < 32)] at hadd
  rw [tempF]
  linarith

theorem printTemp_length {x : ℚ} (h : |x| ≤ 5000) : (printFixed2 x).length ≤ 8 := by
  have hle := hundredths_le x
  have hnat : hundredths x ≤ 500001 := by
    have : (hundredths x : ℚ) ≤ 500001 := by linarith
    exact_mod_cast this
  exact printFixed2_length (k := 4) (by decide) (by omega)

theorem printWord_length (v : BitVec 16) : (printInt v.toInt).length ≤ 6 := by
  have h := abs_toInt_le v
  refine printInt_length (k := 5) (by decide) ?_
  rw [abs_le] at h
  omega

/-! ## The line -/

/-- The buffer is large enough: `snprintf` does not cut the line. -/
theorem csv_eq (g : Channel → BitVec 16) : csv g = [','].intercalate (fields g) := by
  have hw (c : Channel) := printWord_length (g c)
  have ht := abs_toInt_le (g .temp)
  have hC := printTemp_length ((abs_tempC_le ht).trans (by norm_num))
  have hF := printTemp_length (abs_tempF_le ht)
  rw [csv, snprintf]
  apply List.take_of_length_le
  have hax := hw .ax
  have hay := hw .ay
  have haz := hw .az
  have hgx := hw .gx
  have hgy := hw .gy
  have hgz := hw .gz
  have htemp := hw .temp
  simp [fields, List.intercalate_cons_cons]
  omega

theorem not_mem_fields {c : Char} (hd : c.isDigit = false) (hs : c ≠ '-') (hp : c ≠ '.')
    (g : Channel → BitVec 16) : ∀ l ∈ fields g, c ∉ l := by
  intro l hl
  simp only [fields, List.mem_cons, List.not_mem_nil, or_false] at hl
  rcases hl with rfl | rfl | rfl | rfl | rfl | rfl | rfl | rfl | rfl <;>
    first | exact not_mem_printInt hd hs _ | exact not_mem_printFixed2 hd hs hp _

theorem splitOn_csv (g : Channel → BitVec 16) : (csv g).splitOn ',' = fields g := by
  rw [csv_eq]
  exact List.splitOn_intercalate ',' (not_mem_fields (by decide) (by decide) (by decide) g)
    (by simp [fields])

/-! ## What the page shows -/

/-- What the page shows for a snapshot. -/
def pageOf (g : Channel → BitVec 16) : Page where
  ax := some (g .ax).toInt
  ay := some (g .ay).toInt
  az := some (g .az).toInt
  gx := some (g .gx).toInt
  gy := some (g .gy).toInt
  gz := some (g .gz).toInt
  tempC := some (fixed2 (tempC (g .temp).toInt))
  tempRaw := some (g .temp).toInt

theorem fetchData_csv (g : Channel → BitVec 16) : fetchData (csv g) = pageOf g := by
  rw [fetchData, splitOn_csv, pageOf]
  simp only [fields, List.getElem?_cons_zero, List.getElem?_cons_succ, Option.bind_some,
    parseInt_printInt, parseFloat_printFixed2]

/-! ## Results -/

/-- Whatever the outputs hold, with no update in between: the line has nine
fields, and the page reads back all seven words as signed numbers and the
temperature within half a hundredth of a degree. The bridge only has to be
aligned to the span that is mapped. -/
theorem page_shows_outputs (ofst : BitVec 32) (aligned : ofst &&& hwRegsMask = 0) (o : Outputs) :
    let line := csv (readGlobal ofst o)
    let page := fetchData line
    (line.splitOn ',').length = 9 ∧
      page.ax = some o.accelX.toInt ∧ page.ay = some o.accelY.toInt ∧
      page.az = some o.accelZ.toInt ∧ page.gx = some o.gyroX.toInt ∧
      page.gy = some o.gyroY.toInt ∧ page.gz = some o.gyroZ.toInt ∧
      page.tempRaw = some o.temp.toInt ∧
      ∃ t, page.tempC = some t ∧ |t - ((o.temp.toInt : ℚ) + 5072) / 128| ≤ 1 / 200 := by
  intro line page
  have hline : line = csv (shown o) := congrArg csv (funext (readGlobal_eq aligned o))
  have hsplit : line.splitOn ',' = fields (shown o) := by rw [hline, splitOn_csv]
  have hpage : page = fetchData line := rfl
  rw [hpage, fetchData, hsplit]
  refine ⟨rfl, ?_⟩
  simp only [fields, List.getElem?_cons_zero, List.getElem?_cons_succ, Option.bind_some,
    parseInt_printInt, parseFloat_printFixed2]
  refine ⟨rfl, rfl, rfl, rfl, rfl, rfl, rfl, _, rfl, ?_⟩
  have h := abs_fixed2_sub_le (tempC (shown o .temp).toInt)
  rwa [tempC_eq (abs_toInt_le _)] at h ⊢

/-- The lightweight bridge of the Cyclone V. -/
theorem page_shows_outputs_at_bridge :
    let page := fetchData (csv (readGlobal 0xFF200000 ⟨0x8000, 1, 0x7FFF, 0xF1F0, 0xFFFF, 4, 5⟩))
    page.ax = some (-32768) ∧ page.ay = some 1 ∧ page.az = some 32767 ∧
      page.gx = some (-1) ∧ page.gy = some 4 ∧ page.gz = some 5 ∧ page.tempRaw = some (-3600) ∧
      ∃ t, page.tempC = some t ∧ |t - 11.5| ≤ 1 / 200 := by
  intro page
  obtain ⟨-, hax, hay, haz, hgx, hgy, hgz, hraw, t, ht, hnear⟩ := page_shows_outputs 0xFF200000
    (by decide) ⟨0x8000, 1, 0x7FFF, 0xF1F0, 0xFFFF, 4, 5⟩
  have htemp : (((0xF1F0 : BitVec 16).toInt : ℚ) + 5072) / 128 = 11.5 := by
    have hword : (0xF1F0 : BitVec 16).toInt = -3600 := rfl
    rw [hword]
    norm_num
  rw [htemp] at hnear
  exact ⟨hax, hay, haz, hgx, hgy, hgz, hraw, t, ht, hnear⟩

end IotController.Report
