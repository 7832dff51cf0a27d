import Mathlib.Algebra.GroupWithZero.Nat
import Mathlib.Data.List.Basic

/-! # A two-wire bus: lines, edges and the events a monitor reports

SDA is a wired AND, so a released line reads 1. Two consecutive samples of the
lines give one `Edge`; START and STOP are the changes of SDA with SCL high in
both samples, and a bit is what SDA carries when SCL rises. -/
namespace IotController.I2c

@[ext] structure Lines where
  scl : Bool
  sda : Bool
deriving DecidableEq, Repr

inductive Edge where
  | none
  | rise (sda : Bool)
  | fall
  | start
  | stop
deriving DecidableEq, Repr

def edge (a b : Lines) : Edge :=
  match a.scl, b.scl with
  | false, true => .rise b.sda
  | true, false => .fall
  | false, false => .none
  | true, true => match a.sda, b.sda with
    | true, false => .start
    | false, true => .stop
    | _, _ => .none

/-- The edge seen on the wire when a second party holds its drive `d` over it:
with the line held low no change of the first party shows. -/
def Edge.mask (d : Bool) : Edge → Edge
  | .rise b => .rise (b && d)
  | .start => if d then .start else .none
  | .stop => if d then .stop else .none
  | .none => .none
  | .fall => .fall

theorem edge_wiredAnd (s s' m m' d : Bool) :
    edge ⟨s, m && d⟩ ⟨s', m' && d⟩ = (edge ⟨s, m⟩ ⟨s', m'⟩).mask d := by
  cases s <;> cases s' <;> cases m <;> cases m' <;> cases d <;> rfl

@[simp] theorem Edge.mask_true (e : Edge) : e.mask true = e := by
  cases e <;> simp [Edge.mask]

/-! ## Monitor -/

inductive Event where
  | start
  | stop
  | bit (b : Bool)
deriving DecidableEq, Repr

def Edge.events : Edge → List Event
  | .rise b => [.bit b]
  | .start => [.start]
  | .stop => [.stop]
  | .none | .fall => []

/-- What the monitor reports over the samples that follow `a`. -/
def report (a : Lines) : List Lines → List Event
  | [] => []
  | b :: rest => (edge a b).events ++ report b rest

/-- The bits that carry data: SCL has to rise before a repeated START or a STOP
too, and that rise is not a bit. The last bit of a trace is not settled until
the next event is known. -/
def dataEvents : List Event → List Event
  | [] => []
  | .start :: rest => .start :: dataEvents rest
  | .stop :: rest => .stop :: dataEvents rest
  | .bit _ :: .start :: rest => .start :: dataEvents rest
  | .bit _ :: .stop :: rest => .stop :: dataEvents rest
  | .bit b :: .bit b' :: rest => .bit b :: dataEvents (.bit b' :: rest)
  | [.bit _] => []

theorem dataEvents_prefix {l l' : List Event} (h : l <+: l') :
    dataEvents l <+: dataEvents l' := by
  obtain ⟨r, rfl⟩ := h
  induction l using dataEvents.induct with
  | case1 => simp [dataEvents]
  | case2 rest ih => simpa [dataEvents] using ih
  | case3 rest ih => simpa [dataEvents] using ih
  | case4 _ rest ih => simpa [dataEvents] using ih
  | case5 _ rest ih => simpa [dataEvents] using ih
  | case6 b b' rest ih => simpa [dataEvents] using ih
  | case7 b => simp [dataEvents]

theorem dataEvents_bits (bs : List Bool) (b : Bool) (l : List Event) :
    dataEvents (bs.map .bit ++ .bit b :: l) = bs.map .bit ++ dataEvents (.bit b :: l) := by
  induction bs with
  | nil => rfl
  | cons a bs ih =>
    cases bs with
    | nil => simp [dataEvents]
    | cons a' bs => simpa [dataEvents] using ih

theorem dataEvents_append_stop (l r : List Event) :
    dataEvents (l ++ .stop :: r) = dataEvents (l ++ [.stop]) ++ dataEvents r := by
  induction l using dataEvents.induct with
  | case1 | case7 => simp [dataEvents]
  | case2 rest ih | case3 rest ih | case4 _ rest ih | case5 _ rest ih | case6 _ _ rest ih =>
    simpa [dataEvents] using ih

/-! ## Bytes on the wire, most significant bit first -/

/-- The bit positions of a byte are `Fin 8`. -/
instance bitsNeZero : NeZero 8 := ⟨Nat.succ_ne_zero 7⟩

def msbFirst (v : BitVec 8) : List Bool := (List.range 8).map fun i => v.getLsbD (7 - i)

def ofBits (l : List Bool) : BitVec 8 :=
  l.foldl (fun v b => v <<< 1 ||| (BitVec.ofBool b).zeroExtend 8) 0

theorem msbFirst_length (v : BitVec 8) : (msbFirst v).length = 8 := by simp [msbFirst]

theorem ofBits_msbFirst (v : BitVec 8) : ofBits (msbFirst v) = v := by
  revert v; decide +kernel

theorem take_msbFirst (v : BitVec 8) (k : Fin 8) :
    (msbFirst v).take (7 - k) ++ [v.getLsbD k] = (msbFirst v).take (8 - k) := by
  have h : 7 - k.val < (msbFirst v).length := by rw [msbFirst_length]; omega
  have hg : (msbFirst v)[7 - k.val] = v.getLsbD k := by
    simp only [msbFirst, List.getElem_map, List.getElem_range]
    congr 1; omega
  rw [← hg, ← List.take_succ_eq_append_getElem h]
  congr 1; omega

/-- Bit `j` of a byte taken in from eight bits. -/
theorem getLsbD_ofBits (f : Nat → Bool) (j : Fin 8) :
    (ofBits ((List.range 8).map f)).getLsbD j = f (7 - j) := by
  have all : ∀ b0 b1 b2 b3 b4 b5 b6 b7 : Bool, ∀ j : Fin 8,
      (ofBits [b0, b1, b2, b3, b4, b5, b6, b7]).getLsbD j =
        [b0, b1, b2, b3, b4, b5, b6, b7].getD (7 - j) false := by decide +kernel
  refine (all (f 0) (f 1) (f 2) (f 3) (f 4) (f 5) (f 6) (f 7) j).trans ?_
  change ((List.range 8).map f).getD (7 - j) false = f (7 - j)
  have h : 7 - j.val < 8 := by omega
  simp [List.getD, h]

end IotController.I2c
