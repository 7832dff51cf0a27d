import IotController.Timing

/-! # What the master puts on the bus

The controller's own lines, fed to the bus monitor: from reset they spell one
configuration transaction and then read transactions, whatever SDA carries. -/
namespace IotController.Trace
open IotController.Controller IotController.I2c IotController.Sequencer
open IotController.Timing (Elapsed succ index index_read index_stop)

/-! ## The language -/

def byteEvents (v : BitVec 8) : List Event := (msbFirst v).map .bit

/-- A slot in which the master leaves SDA alone reads 1. -/
abbrev released : Event := .bit true

/-- The wake-up write. `rise b` is what the monitor makes of the SCL rise in
front of the STOP, which finds SDA at `b` and carries no data. -/
def config (rise : Bool → List Event) : List Event :=
  .start :: byteEvents 0xD0 ++ released :: byteEvents 0x6B ++ released :: byteEvents 0x00 ++
    released :: rise false ++ [.stop]

/-- The burst read from `regAddrStart`: 13 bytes acknowledged, the last one not. -/
def read (regAddrStart : BitVec 8) (rise : Bool → List Event) : List Event :=
  .start :: byteEvents 0xD0 ++ released :: byteEvents regAddrStart ++
    released :: rise true ++ .start :: byteEvents 0xD1 ++
    released :: (List.replicate 13 (List.replicate 8 released ++ [.bit false])).flatten ++
    List.replicate 8 released ++ .bit true :: rise false ++ [.stop]

/-- Lines after each tick of a run. -/
def busTrace (regAddrStart : BitVec 8) : Regs → List Bool → List Lines
  | _, [] => []
  | c, x :: rest =>
    lines (tick regAddrStart c x) :: busTrace regAddrStart (tick regAddrStart c x) rest

/-! ## The events of a slot -/

def eventsFrom (P : BitVec 8) (cw : Bool) (s : Slot) (ph : BitVec 2) : List Event :=
  ([0#2, 1#2, 2#2, 3#2].drop ph.toNat).flatMap fun p => (s.edge P cw p).events

theorem eventsFrom_step (P : BitVec 8) (cw : Bool) (s : Slot) (ph : BitVec 2) (h : ph ≠ 3#2) :
    eventsFrom P cw s ph = (s.edge P cw ph).events ++ eventsFrom P cw s (ph + 1) := by
  rcases phase_cases ph with rfl | rfl | rfl | rfl
  · rfl
  · rfl
  · rfl
  · exact absurd rfl h

theorem eventsFrom_last (P : BitVec 8) (cw : Bool) (s : Slot) :
    eventsFrom P cw s 3#2 = (s.edge P cw 3#2).events := by
  simp [eventsFrom]

theorem frameSlots_events (P : BitVec 8) (cw : Bool) (f : Frame) :
    (frameSlots f).flatMap (eventsFrom P cw · 0#2) = byteEvents (f.byte P cw) ++ [released] := rfl

theorem recvSlots_events (P : BitVec 8) (cw : Bool) (n : Fin 14) :
    (recvSlots n).flatMap (eventsFrom P cw · 0#2) = List.replicate 8 released ++ [.bit (n == 13)] :=
  rfl

theorem slots_config (P : BitVec 8) :
    (slots true).flatMap (eventsFrom P true · 0#2) = config fun b => [.bit b] := by
  simp only [slots, if_true, List.flatMap_cons, List.flatMap_append, frameSlots_events]
  rfl

theorem slots_read (P : BitVec 8) :
    (slots false).flatMap (eventsFrom P false · 0#2) = read P fun b => [.bit b] := by
  have bytes : (List.finRange 14).flatMap (fun n : Fin 14 =>
        List.replicate 8 released ++ [Event.bit (n == 13)]) =
      (List.replicate 13 (List.replicate 8 released ++ [.bit false])).flatten ++
        List.replicate 8 released ++ [.bit true] := by decide +kernel
  simp only [slots, List.flatMap_cons, List.flatMap_append, frameSlots_events,
    List.flatMap_assoc, recvSlots_events, bytes, Bool.false_eq_true, if_false]
  simp only [read, List.append_assoc, List.cons_append, List.nil_append]
  rfl

/-! ## The trace of a run -/

/-- The configuration and `n` reads. -/
def session (regAddrStart : BitVec 8) (rise : Bool → List Event) (n : Nat) : List Event :=
  config rise ++ (List.replicate n (read regAddrStart rise)).flatten

/-- The events of `n` reads as the monitor reports them. -/
def reads (P : BitVec 8) (n : Nat) : List Event :=
  (List.replicate n (read P fun b => [.bit b])).flatten

theorem reads_succ (P : BitVec 8) (n : Nat) :
    reads P (n + 1) = read P (fun b => [.bit b]) ++ reads P n := by
  simp [reads, List.replicate_succ]

/-- What is still to come in a transaction, from phase `ph` of its `i`-th slot. -/
def todo (P : BitVec 8) (cw : Bool) (i : Nat) (s : Slot) (ph : BitVec 2) : List Event :=
  eventsFrom P cw s ph ++ ((slots cw).drop (i + 1)).flatMap (eventsFrom P cw · 0#2)

theorem todo_within (P : BitVec 8) (cw : Bool) (i : Nat) (s : Slot) {ph : BitVec 2}
    (h : ph ≠ 3#2) : todo P cw i s ph = (s.edge P cw ph).events ++ todo P cw i s (ph + 1) := by
  rw [todo, eventsFrom_step P cw s ph h, List.append_assoc]; rfl

theorem todo_last (P : BitVec 8) {cw : Bool} {i : Nat} {s s' : Slot}
    (hi : (slots cw)[i]? = some s) (hn : s.next cw = some s') :
    todo P cw i s 3#2 = (s.edge P cw 3#2).events ++ todo P cw (i + 1) s' 0#2 := by
  obtain ⟨hlt, hget⟩ := List.getElem?_eq_some_iff.mp ((slots_next hi).symm.trans hn)
  rw [todo, eventsFrom_last, List.drop_eq_getElem_cons hlt, hget]
  rfl

theorem todo_end (P : BitVec 8) {cw : Bool} {i : Nat} {s : Slot}
    (hi : (slots cw)[i]? = some s) (hn : s.next cw = none) :
    todo P cw i s 3#2 = (s.edge P cw 3#2).events := by
  have hle := List.getElem?_eq_none_iff.mp ((slots_next hi).symm.trans hn)
  simp [todo, eventsFrom_last, List.drop_eq_nil_of_le hle]

theorem todo_config (P : BitVec 8) : todo P true 0 .start 0#2 = config fun b => [.bit b] :=
  slots_config P

theorem todo_read (P : BitVec 8) : todo P false 0 .start 0#2 = read P fun b => [.bit b] :=
  slots_read P

/-- From a slot on, the monitor reports what the slot and those after it spell,
then reads; from between two transactions, the next ones. The induction is on
the ticks still to come. -/
theorem report_run (P : BitVec 8) (xs : List Bool) :
    (∀ c cw i s, At P cw s c → (slots cw)[i]? = some s → ∃ n,
      report (lines c) (busTrace P c xs) <+: todo P cw i s c.phase ++ reads P n) ∧
    (∀ c, Waiting c → ∃ n, report (lines c) (busTrace P c xs) <+:
      (if c.configDone then [] else config fun b => [.bit b]) ++ reads P n) := by
  induction xs with
  | nil => exact ⟨fun c cw i s _ _ => ⟨0, List.nil_prefix⟩, fun c _ => ⟨0, List.nil_prefix⟩⟩
  | cons x xs ih =>
    obtain ⟨ihAt, ihWait⟩ := ih
    constructor
    · intro c cw i s h hi
      rw [busTrace, report, h.edge x]
      rcases h.step x with ⟨he, rfl⟩ | ⟨hp, s', hn, h', hp'⟩ | ⟨hp, h', hp'⟩
      · obtain ⟨hw, hd⟩ := h.tick_stop he.2 x
        obtain ⟨n, hpre⟩ := ihWait _ hw
        rw [hd, if_pos rfl, List.nil_append] at hpre
        refine ⟨n, ?_⟩
        rwa [he.2, todo_end P hi rfl, List.prefix_append_right_inj]
      · obtain ⟨n, hpre⟩ := ihAt _ _ _ _ h' ((slots_next hi).symm.trans hn)
        refine ⟨n, ?_⟩
        rw [hp, todo_last P hi hn, List.append_assoc, List.prefix_append_right_inj, ← hp']
        exact hpre
      · obtain ⟨n, hpre⟩ := ihAt _ _ _ _ h' hi
        refine ⟨n, ?_⟩
        rw [todo_within P cw i s hp, List.append_assoc, List.prefix_append_right_inj, ← hp']
        exact hpre
    · intro c h
      rw [busTrace, report, h.lines_eq]
      rcases h.tick (P := P) x with ⟨h', hd⟩ | ⟨_, h', hp'⟩
      · obtain ⟨n, hpre⟩ := ihWait _ h'
        rw [hd] at hpre
        exact ⟨n, by rwa [h'.lines_eq] at hpre ⊢⟩
      · obtain ⟨n, hpre⟩ := ihAt _ _ 0 _ h' (by cases c.configDone <;> rfl)
        rw [hp', h'.start_lines hp'] at hpre
        rw [h'.start_lines hp']
        cases hd : c.configDone
        · rw [hd, Bool.not_false, todo_config] at hpre
          exact ⟨n, hpre⟩
        · rw [hd, Bool.not_true, todo_read, ← reads_succ] at hpre
          exact ⟨n + 1, hpre⟩

theorem dataEvents_config : dataEvents (config fun b => [.bit b]) = config fun _ => [] := by
  decide +kernel

/-- The bits of a read up to the repeated START, and after it. -/
theorem read_eq (P : BitVec 8) (rise : Bool → List Event) :
    read P rise = .start :: ((msbFirst 0xD0 ++ true :: msbFirst P ++ [true]).map .bit ++
      (rise true ++ .start :: ((msbFirst 0xD1 ++ true ::
        (List.replicate 13 (List.replicate 8 true ++ [false])).flatten ++ List.replicate 8 true ++
        [true]).map .bit ++ (rise false ++ [.stop])))) := by
  simp [read, byteEvents, released]

theorem dataEvents_read (P : BitVec 8) :
    dataEvents (read P fun b => [.bit b]) = read P fun _ => [] := by
  simp only [read_eq, dataEvents, List.cons_append, List.nil_append, dataEvents_bits]

/-- Every transaction ends with its STOP, so the data bits of a session are
those of its transactions. -/
theorem dataEvents_session (P : BitVec 8) (n : Nat) :
    dataEvents (session P (fun b => [.bit b]) n) = session P (fun _ => []) n := by
  have config_end (r : List Event) : dataEvents (config (fun b => [.bit b]) ++ r) =
      config (fun _ => []) ++ dataEvents r := by
    rw [← dataEvents_config, config, List.append_assoc]
    exact dataEvents_append_stop _ r
  have read_end (r : List Event) : dataEvents (read P (fun b => [.bit b]) ++ r) =
      read P (fun _ => []) ++ dataEvents r := by
    rw [← dataEvents_read, read, List.append_assoc]
    exact dataEvents_append_stop _ r
  rw [session, session, config_end]
  congr 1
  induction n with
  | zero => rfl
  | succ n ih =>
    simp only [List.replicate_succ, List.flatten_cons, read_end, ih]

/-! ## Conformance -/

/-- Whatever SDA carries, from reset the bus monitor reports an initial part of
one configuration followed by reads, clock pulse by clock pulse and in data bits
alone, and the master leaves SDA released in every slot of the slave. -/
theorem busTrace_conforms (c : Regs) (xs : List Bool) :
    (∃ n,
      report (lines c.reset) (busTrace FpgaRtl.regAddrStart c.reset xs) <+:
        session 0x3B (fun b => [.bit b]) n ∧
      dataEvents (report (lines c.reset) (busTrace FpgaRtl.regAddrStart c.reset xs)) <+:
        session 0x3B (fun _ => []) n) ∧
    let c' := xs.foldl FpgaRtl.tick c.reset
    (c'.state = State.ackCheck ∨ c'.state = State.readData → c'.sda = true) := by
  constructor
  · obtain ⟨n, h⟩ := (report_run FpgaRtl.regAddrStart xs).2 _ (Waiting.of_reset c)
    refine ⟨n, h, ?_⟩
    rw [← dataEvents_session]
    exact dataEvents_prefix h
  · exact Sequenced.released (Sequenced.run (.inl (Waiting.of_reset c)) xs)

/-- A STOP for every read, at the tick before its last one. -/
theorem stops_elapsed {P : BitVec 8} {c : Regs} {t n : Nat} (h : Elapsed P c t) (xs : List Bool)
    (long : 60742 * n ≤ (if t = 60742 then 10117 else t) + xs.length) :
    n ≤ (report (lines c) (busTrace P c xs)).count .stop := by
  induction xs generalizing c t n with
  | nil =>
    have hle := h.le
    rw [List.length_nil] at long
    split at long <;> omega
  | cons x xs ih =>
    rw [busTrace, report, List.count_append]
    rw [List.length_cons] at long
    have hnext := h.tick x
    by_cases hstop : t = 60741
    · have hfull : index false .stop = 155 := rfl
      obtain ⟨s, hs, hclock⟩ := h.reading (by omega)
      have hindex := index_read hs.allowed
      have hphase := c.phase.isLt
      obtain rfl := index_stop hs.allowed (by omega)
      have hp : c.phase = 2#2 := by bv_omega
      have hedge : edge (lines c) (lines (tick P c x)) = .stop := by
        rw [hs.edge x, hp]
        rfl
      rw [if_neg (by omega), hstop] at long
      have hrest := ih (n := n - 1) hnext (by
        rw [if_pos (by rw [hstop]; rfl)]
        omega)
      rw [hedge]
      simp only [Edge.events, List.count_singleton_self]
      omega
    · have hrest := ih (n := n) hnext (by
        simp only [succ]
        split_ifs at long ⊢ <;> omega)
      omega

/-- The trace does not stop growing: 60742 ticks for each bring `n` transactions to their
STOP. -/
theorem busTrace_grows (c : Regs) (xs : List Bool) (n : Nat) (long : 60742 * n ≤ xs.length) :
    n ≤ (report (lines c.reset) (busTrace FpgaRtl.regAddrStart c.reset xs)).count .stop :=
  stops_elapsed (.of_reset c) xs (by omega)

end IotController.Trace
