import IotController.Report
import IotController.Server
import IotController.CString
import IotController.Http
import IotController.PageText

/-! # The response

From what `read` delivers to what the client has when the connection is closed:
`recv_buf`, the choice between the two branches, the two calls of `snprintf` in
each, and the two writes. `other` is what the C library prints for a conversion
that C does not define. -/
namespace IotController.Response
open IotController.Pipeline IotController.Report IotController.NumberText
open IotController.Printf IotController.CString IotController.Http IotController.PageText
open IotController.Server

/-! ## http_server_thread -/

/-- `recv_buf` when `bytes` have been read into it and the terminator is set. -/
def received (buf : Vector (BitVec 8) 1024) (bytes : List (BitVec 8)) (h : bytes.length < 1024) :
    Vector (BitVec 8) 1024 :=
  store 0 buf bytes h

def ascii (s : String) : List (BitVec 8) := s.toList.map fun c => BitVec.ofNat 8 c.toNat

def getData : List (BitVec 8) := ascii "GET /data"

/-- What a branch prints. -/
structure Branch where
  contentType : List Char
  format : List Char
  args : List Arg

def dataFormat : List Char := "%d,%d,%d,%d,%d,%d,%.2f,%.2f,%d".toList

def dataBranch (g : Channel → BitVec 16) : Branch :=
  { contentType := "text/plain".toList
    format := dataFormat
    args := [.int (g .ax).toInt, .int (g .ay).toInt, .int (g .az).toInt,
      .int (g .gx).toInt, .int (g .gy).toInt, .int (g .gz).toInt,
      .double (tempC (g .temp).toInt), .double (tempF (g .temp).toInt), .int (g .temp).toInt] }

def pageBranch : Branch :=
  { contentType := "text/html".toList
    format := pageFormat
    args := [] }

def route (g : Channel → BitVec 16) (recvBuf : List (BitVec 8)) : Branch :=
  if (strstr getData (cstr 0 recvBuf)).isSome then dataBranch g else pageBranch

/-- `recv_buf[read_len]` is one of its elements. -/
theorem read_length {k : Conn} {bytes : List (BitVec 8)} (h : k.read = .data bytes) :
    bytes.length < 1024 := by
  rw [Conn.read] at h
  split at h
  · cases h
    rw [List.length_take]
    omega
  · split at h
    · cases h
    · split at h <;> cases h

/-- The one `read` of a turn and the branch it leads to; no branch unless
`read_len > 0`. -/
def answer (g : Channel → BitVec 16) (buf : Vector (BitVec 8) 1024) (k : Conn) : Option Branch :=
  match h : k.read with
  | .data bytes => some (route g (received buf bytes (read_length h)).toList)
  | .eof | .error | .blocks => none

def headerFormat (contentType : List Char) : List Char :=
  "HTTP/1.1 200 OK\r\nContent-Type: ".toList ++
    (contentType ++ "\r\nContent-Length: %d\r\nConnection: close\r\n\r\n".toList)

section Printing
variable (other : List Char → Char → List Char)

/-- The text of the body before `snprintf` cuts it. -/
def Branch.printed (b : Branch) : List Char := sprintf other b.format b.args

def Branch.body (b : Branch) : List Char := snprintf 16384 (b.printed other)

def Branch.headerArgs (b : Branch) : List Arg := [.int (strlen '\x00' (b.body other))]

def Branch.header (b : Branch) : List Char :=
  snprintf 512 (sprintf other (headerFormat b.contentType) (b.headerArgs other))

/-- The two writes leave so many bytes unsent, a failing one all of them. -/
def Branch.sent (b : Branch) (left₁ left₂ : ℕ) : List Char :=
  written (cstr '\x00' (b.header other)) left₁ ++ written (cstr '\x00' (b.body other)) left₂

/-- Header and body. -/
def Branch.reply (b : Branch) : List Char × List Char := (b.header other, b.body other)

def reply (g : Channel → BitVec 16) (buf : Vector (BitVec 8) 1024) (k : Conn) :
    Option (List Char × List Char) := (answer g buf k).map (Branch.reply other)

/-- What there is to get right. -/
structure Branch.Correct (b : Branch) (left₁ left₂ : ℕ) : Prop where
  framed : Framed (b.sent other left₁ left₂)
  header_fits : (sprintf other (headerFormat b.contentType) (b.headerArgs other)).length < 512
  body_fits : (b.printed other).length < 16384
  header_matches : Matches (headerFormat b.contentType) (b.headerArgs other)
  body_matches : Matches b.format b.args

end Printing

/-! ## The request buffer -/

/-- Nothing of an earlier request is seen behind the terminator. -/
theorem answer_of_read {k : Conn} {bytes : List (BitVec 8)} (h : k.read = .data bytes)
    (g : Channel → BitVec 16) (buf : Vector (BitVec 8) 1024) :
    answer g buf k = some (route g bytes) := by
  have hroute : route g (received buf bytes (read_length h)).toList = route g bytes := by
    rw [route, received, cstr_store, route]
  rw [← hroute, answer]
  split
  · next bytes' h' =>
    rw [h] at h'
    cases h'
    rfl
  all_goals next h' => rw [h] at h'; cases h'

/-- The requests that `Server.run` logs are answered like this. -/
theorem answer_request {c : Client} (h : c.conn.inbox ≠ []) (g : Channel → BitVec 16)
    (buf : Vector (BitVec 8) 1024) : answer g buf c.conn = some (route g c.request) :=
  answer_of_read (if_pos h) g buf

/-! ## The header -/

/-- A content type the header can take. -/
def Plain (t : List Char) : Prop := t.length ≤ 100 ∧ '%' ∉ t ∧ '\n' ∉ t ∧ '\x00' ∉ t

instance (t : List Char) : Decidable (Plain t) := inferInstanceAs (Decidable (_ ∧ _ ∧ _ ∧ _))

def headerLines (contentType : List Char) (n : ℕ) : List (List Char) :=
  ["HTTP/1.1 200 OK".toList, "Content-Type: ".toList ++ contentType,
    "Content-Length: ".toList ++ printInt n, "Connection: close".toList]

theorem headerFormat_eq (t : List Char) :
    headerFormat t = ("HTTP/1.1 200 OK\r\nContent-Type: ".toList ++ t ++
      "\r\nContent-Length: ".toList) ++
        '%' :: 'd' :: "\r\nConnection: close\r\n\r\n".toList := by
  have hsplit : "\r\nContent-Length: %d\r\nConnection: close\r\n\r\n".toList =
      "\r\nContent-Length: ".toList ++ '%' :: 'd' :: "\r\nConnection: close\r\n\r\n".toList := by
    simp
  -- `rw` would compare the literals once it is done
  unfold headerFormat
  rewrite [hsplit, List.append_assoc, List.append_assoc]
  exact Eq.refl _

section Header
variable {t : List Char}

theorem percent_notMem (ht : Plain t) : '%' ∉ "HTTP/1.1 200 OK\r\nContent-Type: ".toList ++ t ++
    "\r\nContent-Length: ".toList := by
  have h := ht.2.1
  simpa using h

theorem header_matches (ht : Plain t) (n : ℤ) : Matches (headerFormat t) [.int n] := by
  rw [headerFormat_eq, matches_text (percent_notMem ht)]
  rfl

theorem header_printed (other : List Char → Char → List Char) (ht : Plain t) (n : ℕ) :
    sprintf other (headerFormat t) [.int n] = rows (headerLines t n) ++ ['\r', '\n'] := by
  have hend : sprintf other "\r\nConnection: close\r\n\r\n".toList [] =
      "\r\nConnection: close\r\n\r\n".toList := rfl
  rw [headerFormat_eq, sprintf_text other (percent_notMem ht), sprintf_int, hend]
  simp [rows, headerLines]

theorem headerLines_spec (ht : Plain t) (n : ℕ) :
    ∀ l ∈ headerLines t n, l ≠ [] ∧ '\n' ∉ l ∧ '\x00' ∉ l := by
  have hn := not_mem_printInt (c := '\n') (by decide) (by decide) n
  have h0 := not_mem_printInt (c := '\x00') (by decide) (by decide) n
  intro l hl
  simp only [headerLines, List.mem_cons, List.not_mem_nil, or_false] at hl
  rcases hl with rfl | rfl | rfl | rfl
  · decide
  · simpa using ht.2.2
  · simpa using ⟨hn, h0⟩
  · decide

theorem printInt_natCast (n : ℕ) : printInt n = Nat.toDigits 10 n := by
  rw [printInt, if_neg (by omega), Int.natAbs_natCast]

theorem contentLength_headerLines (t : List Char) (n : ℕ) :
    contentLength ((headerLines t n).map (· ++ ['\r'])) = some n := by
  have hdigits : (printInt n ++ ['\r']).takeWhile Char.isDigit = Nat.toDigits 10 n := by
    rw [printInt_natCast, List.takeWhile_append_of_pos fun c hc => toDigits_isDigit hc]
    simp
  have hread : contentLength ((headerLines t n).map (· ++ ['\r'])) =
      some (Nat.ofDigitChars 10 ((printInt n ++ ['\r']).takeWhile Char.isDigit) 0) := rfl
  rw [hread, hdigits, Nat.ofDigitChars_ten_toDigits]

theorem header_length (ht : Plain t) {n : ℕ} (hn : n < 10 ^ 5) :
    (rows (headerLines t n) ++ ['\r', '\n']).length < 512 := by
  have hdigits := printInt_length (n := n) (k := 5) (by decide) (by simpa using hn)
  have htype := ht.1
  simp [rows, headerLines]
  omega

end Header

/-! ## The body -/

/-- A body that `snprintf` does not cut, and `strlen` neither. -/
structure OneLine (s : List Char) : Prop where
  nonempty : s ≠ []
  fits : s.length < 16384
  one : '\n' ∉ s
  noNul : '\x00' ∉ s

theorem snprintf_of_lt {size : ℕ} {s : List Char} (h : s.length < size) : snprintf size s = s :=
  List.take_of_length_le (by omega)

section Framing
variable {other : List Char → Char → List Char} {b : Branch}

theorem header_text (ht : Plain b.contentType) (hb : OneLine (b.printed other)) :
    sprintf other (headerFormat b.contentType) (b.headerArgs other) =
      rows (headerLines b.contentType (b.printed other).length) ++ ['\r', '\n'] := by
  rw [Branch.headerArgs, Branch.body, snprintf_of_lt hb.fits, strlen, cstr_of_notMem hb.noNul,
    header_printed other ht]

theorem header_fits (ht : Plain b.contentType) (hb : OneLine (b.printed other)) :
    (sprintf other (headerFormat b.contentType) (b.headerArgs other)).length < 512 := by
  have hlen := hb.fits
  rw [header_text ht hb]
  exact header_length ht (by omega)

theorem sent_eq (ht : Plain b.contentType) (hb : OneLine (b.printed other)) (left₁ left₂ : ℕ) :
    b.sent other left₁ left₂ =
      written (rows (headerLines b.contentType (b.printed other).length) ++ ['\r', '\n']) left₁ ++
        written (b.printed other) left₂ := by
  have hheader : '\x00' ∉
      rows (headerLines b.contentType (b.printed other).length) ++ ['\r', '\n'] := by
    have hlines := headerLines_spec ht (b.printed other).length
    simp only [rows, List.mem_append, List.mem_flatMap, not_or, not_exists, not_and]
    exact ⟨fun l hl => ⟨(hlines l hl).2.2, by decide⟩, by decide⟩
  rw [Branch.sent, Branch.header, snprintf_of_lt (header_fits ht hb), header_text ht hb,
    Branch.body, snprintf_of_lt hb.fits, cstr_of_notMem hheader, cstr_of_notMem hb.noNul]

theorem sent_framed_iff (ht : Plain b.contentType) (hb : OneLine (b.printed other))
    (left₁ left₂ : ℕ) : Framed (b.sent other left₁ left₂) ↔ left₁ = 0 ∧ left₂ = 0 := by
  rw [sent_eq ht hb]
  exact framed_iff (fun l hl => ⟨(headerLines_spec ht _ l hl).1, (headerLines_spec ht _ l hl).2.1⟩)
    (contentLength_headerLines _ _) hb.nonempty hb.one left₁ left₂

end Framing

/-! ## The two branches -/

theorem data_printed (other : List Char → Char → List Char) (g : Channel → BitVec 16) :
    (dataBranch g).printed other = [','].intercalate (fields g) := by
  have hprint : (dataBranch g).printed other =
      printInt (g .ax).toInt ++ ',' :: (printInt (g .ay).toInt ++ ',' ::
        (printInt (g .az).toInt ++ ',' :: (printInt (g .gx).toInt ++ ',' ::
        (printInt (g .gy).toInt ++ ',' :: (printInt (g .gz).toInt ++ ',' ::
        (printFixed2 (tempC (g .temp).toInt) ++ ',' ::
        (printFixed2 (tempF (g .temp).toInt) ++ ',' ::
        (printInt (g .temp).toInt ++ [])))))))) := rfl
  rw [hprint]
  simp [fields, List.intercalate_cons_cons]

theorem notMem_intercalate {c d : Char} (hd : c ≠ d) {ls : List (List Char)}
    (hls : ∀ l ∈ ls, c ∉ l) : c ∉ [d].intercalate ls := by
  induction ls with
  | nil => simp
  | cons l ls ih =>
    have hl := hls l List.mem_cons_self
    have hrest := ih fun l' hm => hls l' (List.mem_cons_of_mem _ hm)
    cases ls with
    | nil => simpa using hl
    | cons l' ls =>
      rw [List.intercalate_cons_cons, List.mem_append, List.mem_append, not_or, not_or]
      exact ⟨⟨hl, by simpa using hd⟩, hrest⟩

/-- The data branch prints the line that `fetchData` reads. -/
theorem data_body (other : List Char → Char → List Char) (g : Channel → BitVec 16) :
    (dataBranch g).body other = csv g := by
  rw [Branch.body, data_printed, csv]

theorem data_oneLine (other : List Char → Char → List Char) (g : Channel → BitVec 16) :
    OneLine ((dataBranch g).printed other) := by
  rw [data_printed]
  refine ⟨?_, ?_, notMem_intercalate (by decide) (not_mem_fields ?_ ?_ ?_ g),
    notMem_intercalate (by decide) (not_mem_fields ?_ ?_ ?_ g)⟩
  · simp [fields, List.intercalate_cons_cons]
  · rw [← csv_eq, csv, snprintf, List.length_take]
    omega
  all_goals decide

theorem data_plain (g : Channel → BitVec 16) : Plain (dataBranch g).contentType := by
  have h : Plain "text/plain".toList := by decide
  exact h

theorem data_matches (g : Channel → BitVec 16) :
    Matches (dataBranch g).format (dataBranch g).args := rfl

theorem page_plain : Plain pageBranch.contentType := by decide

/-- A short answer to the slip does not spoil the page. -/
theorem page_oneLine {other : List Char → Char → List Char} (hslip : (other [] '\'').length ≤ 3)
    (hn : '\n' ∉ other [] '\'') (h0 : '\x00' ∉ other [] '\'') :
    OneLine (pageBranch.printed other) where
  nonempty := page_ne_nil
  fits := Nat.lt_of_le_of_lt (page_length hslip) (by decide)
  one hm := (mem_page hm).elim (by decide) hn
  noNul hm := (mem_page hm).elim (by decide) h0

/-- With that, the page is framed like the data. -/
theorem page_framed_iff {other : List Char → Char → List Char}
    (hslip : (other [] '\'').length ≤ 3) (hn : '\n' ∉ other [] '\'')
    (h0 : '\x00' ∉ other [] '\'') (left₁ left₂ : ℕ) :
    Framed (pageBranch.sent other left₁ left₂) ↔ left₁ = 0 ∧ left₂ = 0 :=
  sent_framed_iff page_plain (page_oneLine hslip hn h0) left₁ left₂

theorem page_not_correct (other : List Char → Char → List Char) (left₁ left₂ : ℕ) :
    ¬ pageBranch.Correct other left₁ left₂ :=
  fun h => not_matches_pageFormat _ h.body_matches

theorem data_correct_iff (other : List Char → Char → List Char) (g : Channel → BitVec 16)
    (left₁ left₂ : ℕ) : (dataBranch g).Correct other left₁ left₂ ↔ left₁ = 0 ∧ left₂ = 0 := by
  have ht := data_plain g
  have hb := data_oneLine other g
  rw [← sent_framed_iff ht hb]
  refine ⟨fun h => h.framed, fun h => ?_⟩
  exact ⟨h, header_fits ht hb, hb.fits, header_matches ht _, data_matches g⟩

/-- The two replies can be told apart by their headers. -/
theorem data_ne_page (other : List Char → Char → List Char) (g : Channel → BitVec 16) :
    (dataBranch g).reply other ≠ pageBranch.reply other := by
  intro h
  have hheader : (dataBranch g).header other = pageBranch.header other := congrArg Prod.fst h
  rw [Branch.header, Branch.headerArgs, header_printed other (data_plain g), Branch.header,
    Branch.headerArgs, header_printed other page_plain] at hheader
  have hsubtype := congrArg (·[36]?) hheader
  cases hsubtype

/-! ## Results -/

theorem route_eq (g : Channel → BitVec 16) (recvBuf : List (BitVec 8)) :
    route g recvBuf = if getData <:+: cstr 0 recvBuf then dataBranch g else pageBranch := by
  rw [route]
  simp only [strstr_isSome_iff]

/-- Whatever the request, the seven words, what was in the buffer before and what
the writes leave unsent: the index of the terminator is in bounds, and the
response is right exactly if it is the data branch's and neither write is short.
The page's format has a conversion that C does not define. -/
theorem correct_iff {k : Conn} {bytes : List (BitVec 8)} (h : k.read = .data bytes)
    (other : List Char → Char → List Char) (g : Channel → BitVec 16)
    (buf : Vector (BitVec 8) 1024) (left₁ left₂ : ℕ) :
    ∃ b, answer g buf k = some b ∧
      (bytes.length < 1024 ∧ b.Correct other left₁ left₂ ↔
        getData <:+: cstr 0 bytes ∧ left₁ = 0 ∧ left₂ = 0) := by
  refine ⟨_, answer_of_read h g buf, ?_⟩
  have hlen := read_length h
  rw [route_eq]
  split
  · next hdata =>
    rw [data_correct_iff]
    exact ⟨fun hc => ⟨hdata, hc.2⟩, fun hc => ⟨hlen, hc.2⟩⟩
  · next hpage =>
    exact ⟨fun hc => absurd hc.2 (page_not_correct other left₁ left₂),
      fun hc => absurd hc.1 hpage⟩

/-- An undefined conversion written out as it stands. -/
def verbatim (spec : List Char) (c : Char) : List Char := '%' :: (spec ++ [c])

theorem correct_iff_data :
    ∃ b, answer (fun _ => 0) (Vector.replicate 1024 0) ⟨ascii "GET /data", false, false⟩ = some b ∧
      b.Correct verbatim 0 0 := by
  obtain ⟨b, hb, hiff⟩ := correct_iff (k := ⟨ascii "GET /data", false, false⟩) rfl verbatim
    (fun _ => 0) (Vector.replicate 1024 0) 0 0
  refine ⟨b, hb, (hiff.mpr ⟨?_, rfl, rfl⟩).2⟩
  rw [← strstr_isSome_iff]
  rfl

/-- `GET /`, with nothing short. -/
theorem page_slip :
    ∃ b, answer (fun _ => 0) (Vector.replicate 1024 0)
        ⟨ascii "GET / HTTP/1.1\r\n\r\n", false, false⟩ = some b ∧
      ¬ b.Correct verbatim 0 0 := by
  have hread : Conn.read ⟨ascii "GET / HTTP/1.1\r\n\r\n", false, false⟩ =
      .data (ascii "GET / HTTP/1.1\r\n\r\n") := rfl
  have hroute : route (fun _ => 0) (ascii "GET / HTTP/1.1\r\n\r\n") = pageBranch := rfl
  refine ⟨pageBranch, ?_, page_not_correct verbatim 0 0⟩
  rw [answer_of_read hread, hroute]

end IotController.Response
