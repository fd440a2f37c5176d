import RasCache.Mem.Cache
import Mathlib.Algebra.Group.Nat.Defs
import Mathlib.Data.List.Forall2

/-!
# The safe history buffer

Model of the SHB prefetcher (`mem/cache/prefetch/shb.cc`). Committed loads and
stores notify the buffer; a fetch draws one of the entries and a block of the
window around it. `shbSize`, `blkNum` and `blkSize` are 32-bit numbers in the
source, so their products are taken modulo `2 ^ 32`; addresses have 64 bits. The
two random numbers of a draw are inputs.
-/
namespace RasCache.Mem

/-- A packet, with the requestor of its request. -/
structure Requested where
  pkt : Packet
  requestorID : Nat
deriving Repr, DecidableEq

structure ShbParams where
  shbSize : Nat
  blkNum : Nat
  blkSize : Nat
  shbSelect : Nat := 1
deriving Repr, DecidableEq

/-- `shbReqInfo`. -/
structure ShbReqInfo where
  addr : Addr
  secure : Bool
  domainID : DomainID
  requestorID : Nat
deriving Repr, DecidableEq

/-- The random numbers of one call of `getPacket`. -/
structure ShbDraw where
  idx : Nat
  blkOffset : Nat
deriving Repr, DecidableEq

namespace Shb

variable (cfg : ShbParams)

def entry (notified : Requested) : ShbReqInfo where
  addr := Packet.blkAlign notified.pkt.addr cfg.blkSize
  secure := notified.pkt.isSecure
  domainID := notified.pkt.domainID
  requestorID := notified.requestorID

/-- `notifySHB`; `none` when the assertion fails or `pop_back` meets an empty
vector. -/
def notifySHB (shb : List ShbReqInfo) (notified : Requested) : Option (List ShbReqInfo) :=
  if cfg.shbSize < shb.length then none
  else if shb.length = cfg.shbSize then
    -- the oldest entry stands last
    if shb.isEmpty then none else some (entry cfg notified :: shb.dropLast)
  else some (entry cfg notified :: shb)

/-- `blkNum * blkSize`, as `unsigned`. -/
def windowBytes : Nat := cfg.blkNum * cfg.blkSize % 2 ^ 32

/-- The address of the fetch. -/
def pktAddr (addr : Addr) (blkOffset : Nat) : Addr :=
  (addr - addr % windowBytes cfg + blkOffset * cfg.blkSize % 2 ^ 32) % 2 ^ 64

/-- `getPacket`: an empty buffer gives no packet. `none` when the assertion
fails, the selection policy is not defined, the window size is zero, or the
random numbers are outside their ranges. -/
def getPacket (shb : List ShbReqInfo) (draw : ShbDraw) : Option (Option Requested) :=
  if shb.isEmpty then some none
  else if cfg.shbSize < shb.length || cfg.shbSelect ≠ 1 || windowBytes cfg = 0 ||
      cfg.blkNum ≤ draw.blkOffset then none
  else
    (shb[draw.idx]?).map fun e =>
      some
        { pkt :=
            Packet.ofRequest { flags := { secure := e.secure }, domainID := e.domainID } .hardPFReq
              (pktAddr cfg e.addr draw.blkOffset) cfg.blkSize
          requestorID := e.requestorID }

/-- The buffer, and the packets it has given out, the last one first. -/
structure State where
  shb : List ShbReqInfo := []
  issued : List Requested := []
deriving Repr, DecidableEq

inductive Event where
  | notifySHB (notified : Requested)
  | getPacket (draw : ShbDraw)
deriving Repr, DecidableEq

def step (s : State) : Event → Option State
  | .notifySHB notified => (notifySHB cfg s.shb notified).map fun shb => { s with shb }
  | .getPacket draw =>
    (getPacket cfg s.shb draw).map fun pkt => { s with issued := pkt.toList ++ s.issued }

/-! ### The contents -/

variable {cfg}

variable {shb : List ShbReqInfo}

theorem notifySHB_take (positive : 1 ≤ cfg.shbSize) (notified : Requested)
    (fits : shb.length ≤ cfg.shbSize) :
    notifySHB cfg shb notified = some ((entry cfg notified :: shb).take cfg.shbSize) := by
  unfold notifySHB
  rw [if_neg (Nat.not_lt.mpr fits)]
  by_cases full : shb.length = cfg.shbSize
  · have held : shb.isEmpty = false := by
      rw [List.isEmpty_eq_false_iff, ← List.length_pos_iff]
      omega
    obtain ⟨size, same⟩ := Nat.exists_eq_add_of_le' positive
    rw [if_pos full, held, if_neg (by decide), same, List.take_succ_cons, List.dropLast_eq_take]
    have last : shb.length - 1 = size := by omega
    rw [last]
  · rw [if_neg full, List.take_of_length_le]
    simp only [List.length_cons]
    omega

/-- The notifications of a run. -/
def notifications (events : List Event) : List Requested :=
  events.filterMap fun e => match e with
    | .notifySHB notified => some notified
    | .getPacket _ => none

theorem run_contents (positive : 1 ≤ cfg.shbSize) {events : List Event} (s : State) {t : State}
    (fits : s.shb.length ≤ cfg.shbSize) (ran : Runs.run (step cfg) s events = some t) :
    t.shb = (((notifications events).reverse.map (entry cfg)) ++ s.shb).take cfg.shbSize := by
  induction events generalizing s with
  | nil =>
    cases ran
    simp [notifications, List.take_of_length_le fits]
  | cons e events ih =>
    obtain ⟨_, taken, ran⟩ := Runs.run_cons_iff.mp ran
    cases e with
    | notifySHB notified =>
      rw [step, notifySHB_take positive notified fits] at taken
      cases taken
      have rest := ih _ (List.length_take_le _ _) ran
      have named : (notifications (.notifySHB notified :: events)).reverse.map (entry cfg) =
          (notifications events).reverse.map (entry cfg) ++ [entry cfg notified] := by
        simp [notifications]
      -- what the first cut removes, the second one would remove as well
      rw [rest, named, List.append_assoc, List.singleton_append, List.take_append, List.take_append,
        List.take_take, Nat.min_eq_left (Nat.sub_le _ _)]
    | getPacket =>
      obtain ⟨pkt, _, rfl⟩ := Option.map_eq_some_iff.mp taken
      exact ih { s with issued := pkt.toList ++ s.issued } fits ran

theorem run_notified (positive : 1 ≤ cfg.shbSize) (notified : List Requested) (s : State)
    (fits : s.shb.length ≤ cfg.shbSize) :
    (Runs.run (step cfg) s (notified.map .notifySHB)).isSome = true := by
  induction notified generalizing s with
  | nil => rfl
  | cons first _ ih =>
    simp only [List.map_cons, Runs.run, step, notifySHB_take positive first fits,
      Option.map_some, Option.bind_some]
    exact ih _ (List.length_take_le _ _)

theorem notifications_map (notified : List Requested) :
    notifications (notified.map .notifySHB) = notified := by
  induction notified with
  | nil => rfl
  | cons first _ ih =>
    rw [List.map_cons, notifications, List.filterMap_cons]
    exact congrArg (first :: ·) ih

theorem entry_aligned (notified : Requested) : cfg.blkSize ∣ (entry cfg notified).addr :=
  Nat.dvd_sub_mod _

/-! ### The packets -/

variable (cfg)

/-- The number of the window an address lies in. -/
def window (addr : Addr) : Nat := addr / (cfg.blkNum * cfg.blkSize)

/-- The packet is a block of the window around an entry of the buffer and carries
its attributes. -/
def InWindow (shb : List ShbReqInfo) (out : Requested) : Prop :=
  cfg.blkSize ∣ out.pkt.addr ∧
    ∃ e ∈ shb, window cfg out.pkt.addr = window cfg e.addr ∧
      out.pkt.isSecure = e.secure ∧ out.pkt.domainID = e.domainID ∧
      out.requestorID = e.requestorID

/-- The window of the drawn entry ends before the addresses do, and its size is
a 32-bit number. -/
def Fits (s : State) (e : Event) : Prop :=
  ∀ draw, e = .getPacket draw → cfg.blkNum * cfg.blkSize < 2 ^ 32 ∧
    ∀ entry, s.shb[draw.idx]? = some entry →
      (window cfg entry.addr + 1) * (cfg.blkNum * cfg.blkSize) ≤ 2 ^ 64

/-- Every packet the step gives out is one of the windows of the buffer. -/
def Windowed (s : State) (e : Event) : Prop :=
  ∀ draw out, e = .getPacket draw → getPacket cfg s.shb draw = some (some out) →
    InWindow cfg s.shb out

variable {cfg}

theorem getPacket_some {draw : ShbDraw} {out : Requested}
    (drawn : getPacket cfg shb draw = some (some out)) :
    ∃ e, shb[draw.idx]? = some e ∧ draw.blkOffset < cfg.blkNum ∧ windowBytes cfg ≠ 0 ∧
      out.pkt.addr = pktAddr cfg e.addr draw.blkOffset ∧ out.pkt.isSecure = e.secure ∧
      out.pkt.domainID = e.domainID ∧ out.requestorID = e.requestorID := by
  unfold getPacket at drawn
  split at drawn
  next => cases drawn
  next =>
    split at drawn
    next => cases drawn
    next admitted =>
      simp only [Bool.or_eq_true, decide_eq_true_eq, not_or, Nat.not_le, Nat.not_lt] at admitted
      obtain ⟨e, found, same⟩ := Option.map_eq_some_iff.mp drawn
      cases same
      exact ⟨e, found, admitted.2, admitted.1.2, rfl, rfl, rfl, rfl⟩

variable {addr : Addr}

/-- Without overflow the address is a block of the window. -/
theorem pktAddr_eq {blkOffset : Nat} (size : cfg.blkNum * cfg.blkSize < 2 ^ 32)
    (offset : blkOffset < cfg.blkNum) (positive : windowBytes cfg ≠ 0)
    (room : (window cfg addr + 1) * (cfg.blkNum * cfg.blkSize) ≤ 2 ^ 64) :
    pktAddr cfg addr blkOffset =
        cfg.blkNum * cfg.blkSize * window cfg addr + blkOffset * cfg.blkSize ∧
      blkOffset * cfg.blkSize < cfg.blkNum * cfg.blkSize := by
  have bytes : windowBytes cfg = cfg.blkNum * cfg.blkSize := Nat.mod_eq_of_lt size
  rw [bytes] at positive
  have blk : 0 < cfg.blkSize := by
    rcases Nat.eq_zero_or_pos cfg.blkSize with none | some
    · simp [none] at positive
    · exact some
  have inside : blkOffset * cfg.blkSize < cfg.blkNum * cfg.blkSize :=
    Nat.mul_lt_mul_of_pos_right offset blk
  have base : addr - addr % (cfg.blkNum * cfg.blkSize) =
      cfg.blkNum * cfg.blkSize * window cfg addr :=
    Nat.sub_eq_of_eq_add (Nat.div_add_mod _ _).symm
  refine ⟨?_, inside⟩
  rw [pktAddr, bytes, base, Nat.mod_eq_of_lt (Nat.lt_trans inside size), Nat.mod_eq_of_lt]
  rw [Nat.add_mul, Nat.one_mul, Nat.mul_comm] at room
  omega

theorem step_windowed {s : State} {e : Event} (fits : Fits cfg s e) : Windowed cfg s e := by
  intro draw _ event drawn
  obtain ⟨size, room⟩ := fits draw event
  obtain ⟨e, found, offset, positive, addr, secure, domain, requestor⟩ := getPacket_some drawn
  obtain ⟨plain, inside⟩ := pktAddr_eq size offset positive (room e found)
  refine ⟨?_, e, List.mem_of_getElem? found, ?_, secure, domain, requestor⟩
  · rw [addr, plain]
    apply Nat.dvd_add
    · exact Nat.dvd_mul_right_of_dvd (Nat.dvd_mul_left _ _) _
    · exact Nat.dvd_mul_left _ _
  · rw [addr, plain, window, Nat.mul_add_div (by omega), Nat.div_eq_of_lt inside, Nat.add_zero]

/-! ### Two runs -/

variable (cfg)

/-- Two entries that agree on everything but the place in their window. -/
structure SameWindow (e f : ShbReqInfo) : Prop where
  window : window cfg e.addr = window cfg f.addr
  secure : e.secure = f.secure
  domainID : e.domainID = f.domainID
  requestorID : e.requestorID = f.requestorID

/-- Notifications whose entries agree in this way, or the same draw. -/
def Agree : Event → Event → Prop
  | .notifySHB first, .notifySHB second =>
    SameWindow cfg (entry cfg first) (entry cfg second)
  | .getPacket first, .getPacket second => first = second
  | _, _ => False

structure Indistinct (s t : State) : Prop where
  shb : List.Forall₂ (SameWindow cfg) s.shb t.shb
  fits : s.shb.length ≤ cfg.shbSize
  issued : s.issued = t.issued

variable {cfg}

/-- Where the window size is a 32-bit number, the address of a fetch depends on
the window of the entry only. -/
theorem pktAddr_congr {other : Addr} (size : cfg.blkNum * cfg.blkSize < 2 ^ 32)
    (same : window cfg addr = window cfg other) (blkOffset : Nat) :
    pktAddr cfg addr blkOffset = pktAddr cfg other blkOffset := by
  have bytes : windowBytes cfg = cfg.blkNum * cfg.blkSize := Nat.mod_eq_of_lt size
  have base (addr : Addr) : addr - addr % (cfg.blkNum * cfg.blkSize) =
      cfg.blkNum * cfg.blkSize * window cfg addr :=
    Nat.sub_eq_of_eq_add (Nat.div_add_mod _ _).symm
  rw [pktAddr, pktAddr, bytes, base addr, base other, same]

theorem getPacket_congr {other : List ShbReqInfo} (size : cfg.blkNum * cfg.blkSize < 2 ^ 32)
    (same : List.Forall₂ (SameWindow cfg) shb other) (draw : ShbDraw) :
    getPacket cfg shb draw = getPacket cfg other draw := by
  have length := same.length_eq
  have empty : shb.isEmpty = other.isEmpty := by
    rw [Bool.eq_iff_iff, List.isEmpty_iff_length_eq_zero, List.isEmpty_iff_length_eq_zero, length]
  unfold getPacket
  rw [empty, length]
  congr 2
  by_cases bound : draw.idx < shb.length
  · have bound' : draw.idx < other.length := length ▸ bound
    have agree := same.get bound bound'
    rw [List.getElem?_eq_getElem bound, List.getElem?_eq_getElem bound', Option.map_some,
      Option.map_some]
    simp only [List.get_eq_getElem] at agree
    rw [agree.secure, agree.domainID, agree.requestorID, pktAddr_congr size agree.window]
  · rw [List.getElem?_eq_none (Nat.not_lt.mp bound), List.getElem?_eq_none (by omega)]

theorem step_indistinct (positive : 1 ≤ cfg.shbSize)
    (size : cfg.blkNum * cfg.blkSize < 2 ^ 32) (s t : State) (e f : Event)
    (related : Indistinct cfg s t) (same : Agree cfg e f) :
    Option.Rel (Indistinct cfg) (step cfg s e) (step cfg t f) := by
  cases e with
  | notifySHB first =>
    cases f with
    | getPacket => cases same
    | notifySHB second =>
      have fits : t.shb.length ≤ cfg.shbSize := related.shb.length_eq ▸ related.fits
      simp only [step]
      -- the buffer is a window over the notifications, newest first
      rw [notifySHB_take positive first related.fits, notifySHB_take positive second fits]
      refine .some ⟨List.forall₂_take _ (.cons same related.shb), ?_, related.issued⟩
      exact List.length_take_le _ _
  | getPacket draw =>
    cases f with
    | notifySHB => cases same
    | getPacket =>
      cases same
      simp only [step]
      -- a draw reads the line of an entry only, which is what the two buffers share
      rw [getPacket_congr size related.shb draw]
      cases getPacket cfg t.shb draw with
      | none => exact .none
      | some => exact .some ⟨related.shb, related.fits, by rw [related.issued]⟩

/-- The buffer is the most recent notifications, newest first, at block
addresses. As long as the window size is a 32-bit number and no window that is
drawn from reaches beyond the last address, every packet is a block of the window
of an entry and carries its attributes. With such a window size, two runs whose
notifications agree position by position up to the place in the window, and which
draw the same random numbers, give out the same packets. -/
theorem contents_and_leakage (cfg : ShbParams) (positive : 1 ≤ cfg.shbSize) :
    (∀ notified : List Requested, ∃ s, Runs.run (step cfg) {} (notified.map .notifySHB) = some s ∧
        s.shb = (notified.reverse.take cfg.shbSize).map (entry cfg) ∧
        ∀ e ∈ s.shb, cfg.blkSize ∣ e.addr) ∧ (∀ events s, Runs.run (step cfg) {} events = some s →
      s.shb = ((notifications events).reverse.take cfg.shbSize).map (entry cfg)) ∧
    (∀ events, Runs.Along (step cfg) (Fits cfg) {} events →
      Runs.Along (step cfg) (Windowed cfg) {} events) ∧
    (cfg.blkNum * cfg.blkSize < 2 ^ 32 → ∀ es fs, List.Forall₂ (Agree cfg) es fs →
      (Runs.run (step cfg) {} es).map State.issued =
        (Runs.run (step cfg) {} fs).map State.issued) := by
  have contents : ∀ events s, Runs.run (step cfg) {} events = some s →
      s.shb = ((notifications events).reverse.take cfg.shbSize).map (entry cfg) := by
    intro _ _ ran
    rw [run_contents positive {} (Nat.zero_le _) ran, List.append_nil, List.map_take]
  refine ⟨?_, contents, ?_, ?_⟩
  · intro notified
    obtain ⟨s, ran⟩ := Option.isSome_iff_exists.mp
      (run_notified positive notified {} (Nat.zero_le _))
    have held := contents _ s ran
    rw [notifications_map] at held
    refine ⟨s, ran, held, ?_⟩
    intro _ mem
    rw [held] at mem
    obtain ⟨first, _, rfl⟩ := List.mem_map.mp mem
    exact entry_aligned first
  · intro events along
    have keeps : ∀ (s : State) (e : Event) (t : State), True → Fits cfg s e →
        step cfg s e = some t → True := fun _ _ _ _ _ _ => trivial
    exact Runs.along_of_invariant keeps (fun s e _ fits => step_windowed fits) {} events trivial
      along
  · -- the two runs stay related, and related states have issued the same
    intro size es fs agree
    have both := Runs.run_related (step_indistinct positive size) {} {} es fs agree
      ⟨.nil, Nat.zero_le _, rfl⟩
    generalize Runs.run (step cfg) {} es = first at both ⊢
    generalize Runs.run (step cfg) {} fs = second at both ⊢
    cases both with
    | none => rfl
    | some related => exact congrArg some related.issued

/-- A buffer of two entries with windows of sixty-four blocks. -/
def smallBuffer : ShbParams := { shbSize := 2, blkNum := 64, blkSize := 64 }

def access (addr : Addr) : Requested := ⟨.ofRequest {} .readReq addr 8, 7⟩

theorem smallBuffer_contents_and_leakage :
    (∃ s, Runs.run (step smallBuffer) {} ([access 8, access 4096, access 72].map .notifySHB) =
        some s ∧ s.shb.map ShbReqInfo.addr = [64, 4096]) ∧
      (∃ s out, step smallBuffer {} (.notifySHB (access 4104)) = some s ∧
        getPacket smallBuffer s.shb ⟨0, 3⟩ = some (some out) ∧ InWindow smallBuffer s.shb out) ∧
      (Runs.run (step smallBuffer) {} [.notifySHB (access 8), .getPacket ⟨0, 3⟩]).map State.issued =
        (Runs.run (step smallBuffer) {} [.notifySHB (access 72), .getPacket ⟨0, 3⟩]).map
          State.issued := by
  obtain ⟨contents, _, windowed, leakage⟩ := contents_and_leakage smallBuffer (by decide)
  refine ⟨?_, ?_, leakage (by decide) _ _ (.cons ⟨by decide, rfl, rfl, rfl⟩ (.cons rfl .nil))⟩
  · obtain ⟨s, ran, held, _⟩ := contents [access 8, access 4096, access 72]
    exact ⟨s, ran, by rw [held]; decide⟩
  · have fits : Runs.Along (step smallBuffer) (Fits smallBuffer) {}
        [.notifySHB (access 4104), .getPacket ⟨0, 3⟩] := by
      refine Runs.along_cons rfl nofun (Runs.along_cons rfl ?_ trivial)
      rintro _ ⟨⟩
      exact ⟨by decide, by rintro _ ⟨⟩; decide⟩
    exact ⟨_, _, rfl, rfl, ((windowed _ fits).2 _ rfl).1 _ _ rfl rfl⟩

/-- A window of more than four gigabytes. -/
def wideBuffer : ShbParams := { shbSize := 1, blkNum := 2 ^ 26 + 1, blkSize := 64 }

/-- A window of three blocks. -/
def oddBuffer : ShbParams := { shbSize := 1, blkNum := 3, blkSize := 64 }

/-- The addresses of the packets after one access and one draw. -/
def fetched (cfg : ShbParams) (addr : Addr) (blkOffset : Nat) : Option (List Addr) :=
  (Runs.run (step cfg) {} [.notifySHB (access addr), .getPacket ⟨0, blkOffset⟩]).map fun s =>
    s.issued.map fun out => out.pkt.addr

/-- The wide window overflows: a packet lies outside it, and two accesses to one
window give different packets. At the end of the addresses a packet of the odd
window comes out at the first address. -/
theorem wideBuffer_overflows : fetched wideBuffer (2 ^ 32) 2 = some [2 ^ 32 + 128] ∧
      window wideBuffer (2 ^ 32 + 128) ≠ window wideBuffer (2 ^ 32) ∧
      window wideBuffer 0 = window wideBuffer 64 ∧
      fetched wideBuffer 0 0 ≠ fetched wideBuffer 64 0 ∧
      fetched oddBuffer (2 ^ 64 - 64) 1 = some [0] ∧
      window oddBuffer 0 ≠ window oddBuffer (2 ^ 64 - 64) := by
  decide

end Shb

end RasCache.Mem
