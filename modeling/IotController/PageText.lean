import IotController.Printf

/-! # The page

The format of the HTML branch, line for line. It is printed with `snprintf`, so
each percent sign of the page has to be written twice; one of them is not. -/
namespace IotController.PageText
open IotController.Printf

def pageLines : List String := [
  "<html><head><title>Reactor Run (Sphere)</title>",
  "<style>",
  "body\x7bfont-family:'Courier New',monospace;text-align:center;background:#111;color:#0f0;overflow:hidden;\x7d",
  "#gameCanvas\x7bbackground:#000;border:4px solid #333;margin-top:20px;box-shadow: 0 0 20px rgba(0,255,0,0.2);\x7d",
  "#hud\x7bdisplay:flex;justify-content:center;flex-wrap:wrap;width:900px;margin:10px auto;font-size:14px;color:#aaa;background:#222;padding:10px;border-radius:5px;\x7d",
  ".sensor-group\x7bmargin:0 20px;text-align:left;\x7d",
  ".bar-container\x7bwidth:150px;height:20px;background:#333;border:1px solid #555;display:inline-block;vertical-align:middle;\x7d",
  "#temp-bar\x7bheight:100%%;background:#ff0000;width:50%%;transition: width 0.2s, background-color 0.2s;\x7d",
  ".val\x7bcolor:#fff;font-weight:bold;margin-left:5px;font-family:monospace;\x7d",
  "h3\x7bmargin:0 0 5px 0;color:#0f0;font-size:16px;border-bottom:1px solid #444;\x7d",
  "</style>",
  "<script>",
  "var car = \x7bx: 50, y: 50, w: 20, h: 30, angle: 0, speed: 0\x7d;",
  "var temp_c = 0; var temp_raw = 0;",
  "var ax=0, ay=0, az=0;",
  "var gx=0, gy=0, gz=0;",
  "var maze = [",
  "  [1,1,1,1,1,1,1,1,1,1,1,1,1,1,1],",
  "  [1,2,0,0,0,0,1,0,0,0,0,0,0,0,1],",
  "  [1,1,1,1,1,0,1,0,1,1,1,1,1,0,1],",
  "  [1,0,0,0,0,0,0,0,0,0,0,0,1,0,1],",
  "  [1,0,1,1,1,1,1,1,1,1,1,0,1,0,1],",
  "  [1,0,1,0,0,0,0,0,0,0,0,0,1,0,1],",
  "  [1,0,1,0,1,1,1,1,1,1,1,1,1,0,1],",
  "  [1,0,0,0,0,0,0,0,0,0,0,0,0,0,1],",
  "  [1,1,1,1,1,1,1,1,1,1,1,1,1,3,1],",
  "  [1,1,1,1,1,1,1,1,1,1,1,1,1,1,1]",
  "];",
  "var TILE_SIZE = 40;",
  "var gameOver = false;",
  "function init() \x7b",
  "  canvas = document.getElementById('gameCanvas');",
  "  ctx = canvas.getContext('2d');",
  "  setInterval(fetchData, 50);",
  "  requestAnimationFrame(draw);",
  "\x7d",
  "function fetchData() \x7b",
  "  var x = new XMLHttpRequest();",
  "  x.onreadystatechange = function()\x7b",
  "    if(this.readyState==4 && this.status==200)\x7b",
  "      var v = this.responseText.split(',');",
  "      ax = parseInt(v[0]); ay = parseInt(v[1]); az = parseInt(v[2]);",
  "      gx = parseInt(v[3]); gy = parseInt(v[4]); gz = parseInt(v[5]);",
  "      temp_c = parseFloat(v[6]);",
  "      temp_raw = parseInt(v[8]);",
  "      ",
  "      document.getElementById('val-ax').innerText = ax;",
  "      document.getElementById('val-ay').innerText = ay;",
  "      document.getElementById('val-az').innerText = az;",
  "      document.getElementById('val-gx').innerText = gx;",
  "      document.getElementById('val-gy').innerText = gy;",
  "      document.getElementById('val-gz').innerText = gz;",
  "      document.getElementById('val-temp').innerText = temp_c.toFixed(1) + ' C (Raw: ' + temp_raw + ')';",
  "    \x7d",
  "  \x7d;",
  "  x.open('GET','/data',true); x.send();",
  "\x7d",
  "function draw() \x7b",
  "  if(gameOver) \x7b requestAnimationFrame(draw); return; \x7d",
  "  ctx.clearRect(0, 0, canvas.width, canvas.height);",
  "  var steer = gz;",
  "  var gas = gx;",
  "  if (Math.abs(steer) < 100) steer = 0;",
  "  if (Math.abs(gas) < 100) gas = 0;",
  "  car.angle += steer / 5000.0;",
  "  car.speed += gas / 2000.0;",
  "  car.speed *= 0.96;",
  "  var nextX = car.x + Math.cos(car.angle) * car.speed;",
  "  var nextY = car.y + Math.sin(car.angle) * car.speed;",
  "  var col = Math.floor(nextX / TILE_SIZE);",
  "  var row = Math.floor(nextY / TILE_SIZE);",
  "  if (maze[row][col] == 1) \x7b",
  "     car.speed *= -0.5;",
  "  \x7d else if (maze[row][col] == 3) \x7b",
  "     document.getElementById('status').innerText = 'REACTOR SECURE! YOU WIN!';",
  "     gameOver = true;",
  "  \x7d else \x7b",
  "     car.x = nextX; car.y = nextY;",
  "  \x7d",
  "  for(var r=0; r<10; r++) \x7b",
  "    for(var c=0; c<15; c++) \x7b",
  "      if(maze[r][c] == 1) \x7b",
  "        ctx.fillStyle = '#444';",
  "        ctx.fillRect(c*TILE_SIZE, r*TILE_SIZE, TILE_SIZE, TILE_SIZE);",
  "        ctx.strokeStyle = '#222'; ctx.strokeRect(c*TILE_SIZE, r*TILE_SIZE, TILE_SIZE, TILE_SIZE);",
  "      \x7d else if (maze[r][c] == 3) \x7b",
  "        ctx.fillStyle = '#00ff00';",
  "        ctx.fillRect(c*TILE_SIZE, r*TILE_SIZE, TILE_SIZE, TILE_SIZE);",
  "      \x7d",
  "    \x7d",
  "  \x7d",
  "  ctx.save();",
  "  ctx.translate(car.x, car.y);",
  "  ctx.rotate(car.angle);",
  "  var grad = ctx.createRadialGradient(4, -4, 1, 0, 0, 12);",
  "  grad.addColorStop(0, '#ffffff');",
  "  grad.addColorStop(0.3, '#00ccff');",
  "  grad.addColorStop(1, '#004466');",
  "  ctx.fillStyle = grad;",
  "  ctx.beginPath();",
  "  ctx.arc(0, 0, 12, 0, Math.PI * 2);",
  "  ctx.fill();",
  "  ctx.strokeStyle = 'rgba(255,255,255,0.5)';",
  "  ctx.lineWidth = 2;",
  "  ctx.beginPath();",
  "  ctx.moveTo(0, 0);",
  "  ctx.lineTo(11, 0);",
  "  ctx.stroke();",
  "  ctx.restore();",
  "  var heat = (temp_c / 60.0) * 100.0;",
  "  if (heat > 100) heat = 100; if(heat < 0) heat = 0;",
  "  var r = Math.floor((heat/100)*255);",
  "  var b = 255 - r;",
  "  var barElem = document.getElementById('temp-bar');",
  "  barElem.style.width = heat + '%';",
  "  barElem.style.backgroundColor = 'rgb('+r+',0,'+b+')';",
  "  requestAnimationFrame(draw);",
  "\x7d",
  "</script>",
  "</head><body onload='init()'>",
  "<h1>IoT Gateway</h1>",
  "<div id='status'>Drive the Sphere to the Green Zone!</div>",
  "<div id='hud'>",
  "  <div class='sensor-group'><h3>ACCEL</h3>",
  "    <div>X:<span id='val-ax' class='val'>0</span></div>",
  "    <div>Y:<span id='val-ay' class='val'>0</span></div>",
  "    <div>Z:<span id='val-az' class='val'>0</span></div>",
  "  </div>",
  "  <div class='sensor-group'><h3>GYRO</h3>",
  "    <div>X:<span id='val-gx' class='val'>0</span></div>",
  "    <div>Y:<span id='val-gy' class='val'>0</span></div>",
  "    <div>Z:<span id='val-gz' class='val'>0</span></div>",
  "  </div>",
  "  <div class='sensor-group'><h3>ENV</h3>",
  "    <div>TEMP:<span id='val-temp' class='val'>0</span></div>",
  "    <div>HEAT (0-60C): <div class='bar-container'><div id='temp-bar'></div></div></div>",
  "  </div>",
  "</div>",
  "<canvas id='gameCanvas' width='600' height='400'></canvas>",
  "</body></html>"]

def pageFormat : List Char := (pageLines.map String.toList).flatten

/-- The sign in front of the quote that ends `'%'`. -/
def slip : Piece := .conv [] '\''

/-! ## What the format consists of -/

/-- Printable text, signs written twice, and the slip. -/
def plain : Piece → Bool
  | .text c => ' ' ≤ c && c ≤ '~'
  | .conv spec c => spec = [] && (c = '%' || c = '\'')

def surveyed (fmt : List Char) : Bool :=
  (pieces fmt).all plain && (pieces fmt).filter (fun p => p.operands = none) = [slip] &&
    (pieces fmt).length ≤ 5200 && .text '<' ∈ pieces fmt

theorem toList_cons {l : List Char} {lines : List String} {cs : List (List Char)}
    (h : lines.map String.toList = cs) : (String.ofList l :: lines).map String.toList = l :: cs := by
  rw [List.map_cons, String.toList_ofList, h]

theorem surveyed_of_toList {lines : List String} {cs : List (List Char)}
    (h : lines.map String.toList = cs) (hs : surveyed cs.flatten = true) :
    surveyed (lines.map String.toList).flatten = true := by rwa [h]

set_option maxRecDepth 4000 in
theorem pageFormat_surveyed : surveyed pageFormat = true := by
  rw [pageFormat]
  dsimp only [pageLines]
  apply surveyed_of_toList
  · repeat apply toList_cons
    exact List.map_nil
  · decide +kernel

theorem pageFormat_facts :
    (∀ p ∈ pieces pageFormat, plain p = true) ∧
      (pieces pageFormat).filter (fun p => p.operands = none) = [slip] ∧
      (pieces pageFormat).length ≤ 5200 ∧ .text '<' ∈ pieces pageFormat := by
  have h := pageFormat_surveyed
  simp only [surveyed, Bool.and_eq_true, decide_eq_true_eq, List.all_eq_true] at h
  exact ⟨h.1.1.1, h.1.1.2, h.1.2, h.2⟩

/-- The slip, and no other piece, is a conversion C does not define. -/
theorem undefined_iff {p : Piece} : p ∈ pieces pageFormat ∧ p.operands = none ↔ p = slip := by
  have h : p ∈ (pieces pageFormat).filter (fun p => p.operands = none) ↔ p ∈ [slip] := by
    rw [pageFormat_facts.2.1]
  simpa using h

theorem not_matches_pageFormat (args : List Arg) : ¬ Matches pageFormat args :=
  not_matches (undefined_iff.mpr rfl).1 rfl args

/-! ## What is printed -/

section Printing
variable {other : List Char → Char → List Char}

/-- What comes out of a piece, whatever the library makes of the slip. -/
theorem render_plain {p : Piece} (hp : plain p = true) {c : Char} (hc : c ∈ p.render other) :
    ' ' ≤ c ∨ c ∈ other [] '\'' := by
  cases p with
  | text d =>
    simp only [plain, Bool.and_eq_true, decide_eq_true_eq] at hp
    rw [Piece.render, List.mem_singleton] at hc
    exact .inl (hc ▸ hp.1)
  | conv spec d =>
    simp only [plain, Bool.and_eq_true, Bool.or_eq_true, decide_eq_true_eq] at hp
    obtain ⟨rfl, rfl | rfl⟩ := hp
    · rw [Piece.render, List.mem_singleton] at hc
      exact .inl (hc ▸ by decide)
    · exact .inr hc

theorem length_render {p : Piece} (hp : plain p = true) (hslip : (other [] '\'').length ≤ 3) :
    (p.render other).length ≤ 3 := by
  cases p with
  | text d => simp [Piece.render]
  | conv spec d =>
    simp only [plain, Bool.and_eq_true, Bool.or_eq_true, decide_eq_true_eq] at hp
    obtain ⟨rfl, rfl | rfl⟩ := hp
    · simp [Piece.render]
    · exact hslip

theorem mem_page {c : Char} (h : c ∈ sprintf other pageFormat []) :
    ' ' ≤ c ∨ c ∈ other [] '\'' := by
  rw [sprintf_noArgs] at h
  obtain ⟨p, hp, hc⟩ := List.mem_flatMap.mp h
  exact render_plain (pageFormat_facts.1 p hp) hc

theorem length_render_all {ps : List Piece} (hps : ∀ p ∈ ps, plain p = true)
    (hslip : (other [] '\'').length ≤ 3) :
    (ps.flatMap (Piece.render other)).length ≤ 3 * ps.length := by
  induction ps with
  | nil => simp
  | cons p ps ih =>
    have hp := length_render (hps p List.mem_cons_self) hslip
    have hrest := ih fun q hq => hps q (List.mem_cons_of_mem _ hq)
    rw [List.flatMap_cons, List.length_append, List.length_cons]
    omega

theorem page_length (hslip : (other [] '\'').length ≤ 3) :
    (sprintf other pageFormat []).length ≤ 15600 := by
  obtain ⟨hplain, -, hlen, -⟩ := pageFormat_facts
  rw [sprintf_noArgs]
  exact (length_render_all hplain hslip).trans (Nat.mul_le_mul_left 3 hlen)

theorem page_ne_nil : sprintf other pageFormat [] ≠ [] := by
  rw [sprintf_noArgs]
  refine List.ne_nil_of_mem (a := '<') ?_
  exact List.mem_flatMap.mpr ⟨_, pageFormat_facts.2.2.2, List.mem_singleton_self _⟩

end Printing

end IotController.PageText
