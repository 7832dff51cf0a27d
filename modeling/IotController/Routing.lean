import IotController.Response

/-! # Which branch a request gets

The text `GET /data` is looked for in everything one `read` has delivered. -/
namespace IotController.Routing
open IotController.Pipeline IotController.Report IotController.CString IotController.Server
open IotController.Response

/-! ## Requests -/

/-- A request line and what follows it: header fields, blank line and body. -/
structure HttpRequest where
  method : List (BitVec 8)
  target : List (BitVec 8)
  version : List (BitVec 8)
  rest : List (BitVec 8)
  method_visible : ∀ c ∈ method, 0x20 < c
  target_visible : ∀ c ∈ target, 0x20 < c
  version_visible : ∀ c ∈ version, 0x20 < c
  version_http : ascii "HTTP/" <+: version

namespace HttpRequest

def bytes (r : HttpRequest) : List (BitVec 8) :=
  r.method ++ 0x20 :: (r.target ++ 0x20 :: (r.version ++ 0x0d :: 0x0a :: r.rest))

/-- The target without its query. -/
def path (r : HttpRequest) : List (BitVec 8) := r.target.takeWhile (· ≠ 0x3f)

/-- The method ends in `GET` and the target begins with `/data`, or the text is
somewhere behind the request line. -/
def AsksData (r : HttpRequest) : Prop :=
  ascii "GET" <:+ r.method ∧ ascii "/data" <+: r.target ∨ getData <:+: cstr 0 r.rest

theorem clean_of_visible {s : List (BitVec 8)} (hs : ∀ c ∈ s, 0x20 < c) : 0 ∉ s ∧ 0x20 ∉ s :=
  ⟨fun hm => absurd (hs 0 hm) (by decide), fun hm => absurd (hs 0x20 hm) (by decide)⟩

theorem getData_eq : getData = ascii "GET" ++ 0x20 :: ascii "/data" := by decide

/-- The terminator can only be behind the request line. -/
theorem cstr_bytes (r : HttpRequest) : cstr 0 r.bytes =
    r.method ++ 0x20 :: (r.target ++ 0x20 :: (r.version ++ 0x0d :: 0x0a :: cstr 0 r.rest)) := by
  have hm := (clean_of_visible r.method_visible).1
  have ht := (clean_of_visible r.target_visible).1
  have hv := (clean_of_visible r.version_visible).1
  have hline : 0 ∉ r.method ++ 0x20 :: (r.target ++ 0x20 :: (r.version ++ [0x0d, 0x0a])) := by
    simpa using ⟨hm, ht, hv⟩
  have hbytes : r.bytes =
      (r.method ++ 0x20 :: (r.target ++ 0x20 :: (r.version ++ [0x0d, 0x0a]))) ++ r.rest := by
    simp [bytes]
  rw [hbytes, cstr_append hline]
  simp

/-- No part of the version belongs to an occurrence. -/
theorem infix_version (r : HttpRequest) (s : List (BitVec 8)) :
    getData <:+: r.version ++ 0x0d :: 0x0a :: s ↔ getData <:+: s := by
  have hversion : ¬ getData <:+: r.version := fun h =>
    (clean_of_visible r.version_visible).2 (h.subset (by decide))
  have hnil : ¬ getData <:+: [] := by
    rw [List.infix_nil]
    decide
  have hnewline := infix_append_cons (x := 0x0a) (n := getData) (a := []) (b := s) (by decide)
  rw [List.nil_append] at hnewline
  rw [infix_append_cons (by decide : 0x0d ∉ getData), hnewline]
  simp only [hversion, hnil, false_or]

theorem data_not_version (r : HttpRequest) (s : List (BitVec 8)) :
    ¬ ascii "/data" <+: r.version ++ s := by
  obtain ⟨v, hv⟩ := r.version_http
  rintro ⟨t, ht⟩
  rw [← hv, List.append_assoc] at ht
  exact absurd (List.cons.inj ht).1 (by decide)

/-- Where the text can be. -/
theorem infix_bytes_iff (r : HttpRequest) : getData <:+: cstr 0 r.bytes ↔ r.AsksData := by
  have hget : (0x20 : BitVec 8) ∉ ascii "GET" := by decide
  have hdata : (0x20 : BitVec 8) ∉ ascii "/data" := by decide
  have hm := (clean_of_visible r.method_visible).2
  have ht := (clean_of_visible r.target_visible).2
  rw [cstr_bytes, getData_eq, infix_around hget hm, prefix_append_cons hdata, infix_around hget ht,
    ← getData_eq, infix_version, AsksData]
  simp only [data_not_version, and_false, false_or]

/-- Those that ask for the data as the page does are among them. -/
theorem asksData_of_path {r : HttpRequest} (hm : r.method = ascii "GET")
    (hp : r.path = ascii "/data") : r.AsksData := by
  have hprefix : r.path <+: r.target := List.takeWhile_prefix _
  rw [hp] at hprefix
  exact .inl ⟨hm ▸ List.suffix_rfl, hprefix⟩

end HttpRequest

section Reply
variable (other : List Char → Char → List Char) (g : Channel → BitVec 16)
variable (buf : Vector (BitVec 8) 1024)

theorem reply_of_read {k : Conn} {bytes : List (BitVec 8)} (h : k.read = .data bytes) :
    reply other g buf k = some ((route g bytes).reply other) := by
  rw [reply, answer_of_read h, Option.map_some]

theorem reply_data_iff {k : Conn} {bytes : List (BitVec 8)} (h : k.read = .data bytes) :
    reply other g buf k = some ((dataBranch g).reply other) ↔ getData <:+: cstr 0 bytes := by
  rw [reply_of_read other g buf h, Option.some.injEq, route_eq]
  split
  · next hd => exact iff_of_true rfl hd
  · next hd => exact iff_of_false (data_ne_page other g).symm hd

theorem reply_page_iff {k : Conn} {bytes : List (BitVec 8)} (h : k.read = .data bytes) :
    reply other g buf k = some (pageBranch.reply other) ↔ ¬ getData <:+: cstr 0 bytes := by
  rw [reply_of_read other g buf h, Option.some.injEq, route_eq]
  split
  · next hd => exact iff_of_false (data_ne_page other g) (not_not_intro hd)
  · next hd => exact iff_of_true rfl hd

/-! ## Results: one read -/

/-- Which requests get the data and which the page, when one read delivers them
whole. -/
theorem routed_iff {k : Conn} (r : HttpRequest) (h : k.read = .data r.bytes) :
    (reply other g buf k = some ((dataBranch g).reply other) ↔ r.AsksData) ∧
      (reply other g buf k = some (pageBranch.reply other) ↔ ¬ r.AsksData) ∧
      (r.method = ascii "GET" → r.path = ascii "/data" →
        reply other g buf k = some ((dataBranch g).reply other)) := by
  rw [reply_data_iff other g buf h, reply_page_iff other g buf h, r.infix_bytes_iff]
  exact ⟨Iff.rfl, Iff.rfl, HttpRequest.asksData_of_path⟩

end Reply

/-- `GET /database`. -/
def database : HttpRequest where
  method := ascii "GET"
  target := ascii "/database"
  version := ascii "HTTP/1.1"
  rest := ascii "Host: de1soc\r\n\r\n"
  method_visible := by decide
  target_visible := by decide
  version_visible := by decide
  version_http := ⟨ascii "1.1", by decide⟩

theorem routed_iff_database :
    reply verbatim (fun _ => 0) (Vector.replicate 1024 0) ⟨database.bytes, false, false⟩ =
      some ((dataBranch fun _ => 0).reply verbatim) :=
  ((routed_iff verbatim (fun _ => 0) (Vector.replicate 1024 0) database rfl).1).mpr
    (.inl ⟨List.suffix_rfl, ⟨ascii "base", by decide⟩⟩)

/-- The data go out although the path is another one. -/
theorem other_path_gets_data :
    database.bytes.length ≤ 1023 ∧ database.path ≠ ascii "/data" ∧
      reply verbatim (fun _ => 0) (Vector.replicate 1024 0) ⟨database.bytes, false, false⟩ =
        some ((dataBranch fun _ => 0).reply verbatim) := by
  refine ⟨by decide, by decide, ?_⟩
  have hread : Conn.read ⟨database.bytes, false, false⟩ = .data database.bytes := rfl
  rw [reply_data_iff verbatim _ _ hread, database.infix_bytes_iff]
  exact .inl ⟨List.suffix_rfl, ⟨ascii "base", by decide⟩⟩

/-! ## Results: several reads -/

/-- The reply when the request comes in these pieces. Only the first is there
when `read` is called, and nothing calls it again. -/
def served (other : List Char → Char → List Char) (g : Channel → BitVec 16)
    (buf : Vector (BitVec 8) 1024) (chunks : List (List (BitVec 8))) :
    Option (List Char × List Char) :=
  chunks.head?.bind fun c => reply other g buf (Conn.fresh.hear true (.send c))

theorem read_chunk {c : List (BitVec 8)} (hc : c ≠ []) :
    (Conn.fresh.hear true (.send c)).read = .data (c.take 1023) := by
  have hear : Conn.fresh.hear true (.send c) = ⟨c, false, false⟩ := rfl
  rw [hear, Conn.read, if_pos hc]

/-- A beginning of a request has the text only if the request has it. -/
theorem infix_of_prefix {a b : List (BitVec 8)} (h : a <+: b)
    (hd : getData <:+: cstr 0 (a.take 1023)) : getData <:+: cstr 0 (b.take 1023) :=
  hd.trans (cstr_mono (h.take 1023)).isInfix

theorem infix_of_start {s : List (BitVec 8)} (h : getData <+: s) :
    getData <:+: cstr 0 (s.take 1023) :=
  (prefix_cstr (by decide) (List.prefix_take_iff.mpr ⟨h, by decide⟩)).isInfix

/-- Nine bytes are needed. -/
theorem infix_take_iff {first whole : List (BitVec 8)} (hw : getData <+: whole)
    (hf : first <+: whole) : getData <:+: cstr 0 (first.take 1023) ↔ 9 ≤ first.length := by
  constructor
  · intro h
    have hstr : (cstr 0 (first.take 1023)).length ≤ (first.take 1023).length :=
      (List.takeWhile_prefix _).length_le
    have hlen : 9 ≤ (cstr 0 (first.take 1023)).length := h.length_le
    rw [List.length_take] at hstr
    omega
  · intro h
    exact infix_of_start (List.prefix_of_prefix_length_le hw hf h)

section Split
variable (other : List Char → Char → List Char) (g : Channel → BitVec 16)
variable (buf : Vector (BitVec 8) 1024)

theorem served_eq {first : List (BitVec 8)} (hf : first ≠ []) (more : List (List (BitVec 8))) :
    served other g buf (first :: more) = some ((route g (first.take 1023)).reply other) :=
  reply_of_read other g buf (read_chunk hf)

/-- However a request is split, it gets the same reply as in one piece exactly if
the first piece has the text whenever the request has it; for a request that
begins with the text, if the first piece has nine bytes. -/
theorem served_split_iff {chunks : List (List (BitVec 8))} (hc : ∀ c ∈ chunks, c ≠ [])
    (hr : chunks ≠ []) :
    (served other g buf chunks = served other g buf [chunks.flatten] ↔
      (getData <:+: cstr 0 (chunks.flatten.take 1023) →
        getData <:+: cstr 0 ((chunks.head hr).take 1023))) ∧
    (getData <+: chunks.flatten →
      (served other g buf chunks = served other g buf [chunks.flatten] ↔
        9 ≤ (chunks.head hr).length)) := by
  obtain ⟨first, more, rfl⟩ := List.exists_cons_of_ne_nil hr
  have hfirst := hc first List.mem_cons_self
  have hprefix : first <+: (first :: more).flatten := by
    rw [List.flatten_cons]
    exact List.prefix_append _ _
  have hwhole : (first :: more).flatten ≠ [] := by
    rw [List.flatten_cons]
    exact List.append_ne_nil_of_left_ne_nil hfirst _
  have hne := data_ne_page other g
  have hsame : served other g buf (first :: more) = served other g buf [(first :: more).flatten] ↔
      (getData <:+: cstr 0 ((first :: more).flatten.take 1023) →
        getData <:+: cstr 0 (first.take 1023)) := by
    rw [served_eq other g buf hfirst, served_eq other g buf hwhole, Option.some.injEq, route_eq,
      route_eq]
    have hback := infix_of_prefix hprefix
    by_cases hd : getData <:+: cstr 0 ((first :: more).flatten.take 1023)
    · by_cases hf : getData <:+: cstr 0 (first.take 1023)
      · simp only [hd, hf, if_true, true_imp_iff]
      · simp only [hd, hf, if_true, if_false, hne.symm, true_imp_iff]
    · have hf : ¬ getData <:+: cstr 0 (first.take 1023) := fun h => hd (hback h)
      simp only [hd, hf, if_false, false_imp_iff]
  refine ⟨hsame, fun hw => ?_⟩
  rw [hsame, infix_take_iff hw hprefix]
  exact ⟨fun h => h (infix_of_start hw), fun h _ => h⟩

end Split

theorem served_split_iff_method :
    served verbatim (fun _ => 0) (Vector.replicate 1024 0) [ascii "GET", ascii " /"] =
      served verbatim (fun _ => 0) (Vector.replicate 1024 0) [ascii "GET /"] := by
  have hc : ∀ c ∈ [ascii "GET", ascii " /"], c ≠ [] := by decide
  have hiff := (served_split_iff verbatim (fun _ => 0) (Vector.replicate 1024 0) hc (by decide)).1
  refine hiff.mpr fun h => absurd h ?_
  rw [← strstr_isSome_iff]
  decide

/-- Cut after the method, a request for the data gets the page. -/
theorem split_gets_page :
    served verbatim (fun _ => 0) (Vector.replicate 1024 0)
        [ascii "GET", ascii " /data HTTP/1.1\r\n\r\n"] ≠
      served verbatim (fun _ => 0) (Vector.replicate 1024 0)
        [ascii "GET /data HTTP/1.1\r\n\r\n"] := by
  have hwhole : route (fun _ => 0) (ascii "GET /data HTTP/1.1\r\n\r\n") =
      dataBranch fun _ => 0 := rfl
  have hfirst : route (fun _ => 0) (ascii "GET") = pageBranch := rfl
  rw [served_eq _ _ _ (by decide), served_eq _ _ _ (by decide), List.take_of_length_le (by decide),
    List.take_of_length_le (by decide), hwhole, hfirst]
  exact fun h => data_ne_page verbatim _ (Option.some.inj h).symm

end IotController.Routing
